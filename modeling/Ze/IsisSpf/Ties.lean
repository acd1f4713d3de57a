import Mathlib.Data.List.MinMax
import Ze.IsisSpf.FirstHops

/-!
# The first hops and the ties

Of the items at one distance the heap gives out any, and the first hops of a node depend on which
nodes at its distance are settled before it. `firstHops_iff_shortest` says when they are right
whatever the order: `Delivered`.

The condition is enough by induction along the history (`Delivered.complete`). It is needed because
the search can be driven along any shortest path: `exists_outcome_along` settles its nodes as soon
as their distance comes up, so that nothing else at the distance of its end comes before that.
-/

namespace Ze.IsisSpf

open Ze.Lib List

variable {g : Graph} {r : SourceId} {done : List SourceId} {s : State}

/-! ## The condition -/

def Closer (g : Graph) (r u v : SourceId) : Prop :=
  ∃ us d us' d', IsShortest (Usable g r) r u us d ∧ IsShortest (Usable g r) r v us' d' ∧ d < d'

/-- Every first router of a shortest path is handed over by a predecessor that is strictly closer to
the root, or by every predecessor. -/
def Delivered (g : Graph) (r : SourceId) : Prop :=
  ∀ v, ∀ h ∈ FirstHopSet g r v,
    (∃ u, Pred g r u v ∧ Closer g r u v ∧ h ∈ Handed g r u v) ∨
      ∀ u, Pred g r u v → h ∈ Handed g r u v

/-- The first hops of every node are the first routers of its shortest paths. -/
def State.Right (g : Graph) (r : SourceId) (s : State) : Prop :=
  ∀ v t, s.tents.lookup v = some t → ∀ h, h ∈ t.firstHops ↔ h ∈ FirstHopSet g r v

lemma Outcome.sound (hs : Outcome g r s) {v : SourceId} {t : Tent}
    (ht : s.tents.lookup v = some t) : ∀ h ∈ t.firstHops, h ∈ FirstHopSet g r v := by
  obtain ⟨done, I, hall⟩ := hs.inv
  intro h hh
  obtain ⟨us, hus, -, ho⟩ := (reached_firstHops hs I v (hall v t ht).2 t ht).1 h hh
  exact ⟨us, t.dist, hus, (I.real v t ht).1, ho⟩

/-- A closer predecessor is settled first. -/
lemma Closer.before (hs : Outcome g r s) (I : Inv g r (expanded g r) done s) {u v : SourceId}
    {tu t : Tent} (hcl : Closer g r u v) (hp : Pred g r u v) (hu : u ∈ done) (hv : v ∈ done)
    (htu : s.tents.lookup u = some tu) (ht : s.tents.lookup v = some t) : Before done u v := by
  obtain ⟨us, d, us', d', hsu, hsv, hlt⟩ := hcl
  obtain ⟨us₀, c, hus, hc⟩ := hp
  obtain rfl : d' = c := le_antisymm (hsv.least _ _ hus.path) (hus.least _ _ hsv.path)
  have hdu := dist_of_shortest hs hsu (by omega) htu
  have hdv := dist_of_shortest hs hus hc ht
  have hne : u ≠ v := by
    rintro rfl
    rw [ht] at htu
    cases htu
    omega
  rcases before_total I.nodup hu hv hne with hb | hb
  · exact hb
  · have := I.mono v t u tu hb ht htu
    omega

lemma Delivered.complete (hdel : Delivered g r) (hs : Outcome g r s) : s.Right g r := by
  obtain ⟨done, I, hall⟩ := hs.inv
  have hright : ∀ v ∈ done, ∀ t, s.tents.lookup v = some t →
      ∀ h, h ∈ t.firstHops ↔ h ∈ FirstHopSet g r v := by
    apply before_induction
    intro v hvd ih t ht h
    refine ⟨hs.sound ht h, fun hh => ?_⟩
    have hv : v ≠ r := by
      rintro rfl
      rw [firstHopSet_root] at hh
      exact hh
    -- a predecessor that is settled before and hands `h` over is enough
    have hfrom : ∀ u tu, s.tents.lookup u = some tu → Pred g r u v → Before done u v →
        h ∈ Handed g r u v → h ∈ t.firstHops := by
      intro u tu htu hp hb hhand
      refine (I.hops v t ht hv h).2 ⟨u, tu, hp.feeds hs hb htu ht, ?_⟩
      exact (mem_firstHopsFor hs I hb.mem htu (ih u hb tu htu) h).2 hhand
    rcases hdel v h hh with ⟨u, hp, hcl, hhand⟩ | hevery
    · obtain ⟨us, d, us', d', hsu, hsv, hlt⟩ := id hcl
      obtain ⟨us₀, c, hus, hc⟩ := id hp
      have := hsv.least _ _ hus.path
      obtain ⟨tu, htu, -⟩ := State.label_eq_some.1 (hs.labels.of_shortest hsu (by omega))
      exact hfrom u tu htu hp (hcl.before hs I hp (hall u tu htu).2 hvd htu ht) hhand
    · obtain ⟨u, tu, hf⟩ := I.fed v t ht hv
      have hp := hf.pred hs I ht
      exact hfrom u tu hf.tent hp hf.before (hevery u hp)
  exact fun v t ht => hright v (hall v t ht).2 t ht

/-! ## Driving the search along a path -/

/-- The search goes on as long as the least distance in the heap is one of `p`. -/
lemma exists_advance {p : ℕ → Prop} (hp : ∀ a b, a ≤ b → p b → p a) (n : ℕ)
    (I : Inv g r (expanded g r) done s) (hn : slack g s ≤ n) :
    ∃ s' new, Relation.ReflTransGen (Turn g r) s s' ∧
      Inv g r (expanded g r) (new ++ done) s' ∧ (∀ i ∈ s'.heap, ¬ p i.dist) ∧
      (∀ u ∈ done, ∀ t, s.tents.lookup u = some t → s'.tents.lookup u = some t) ∧
      ∀ x ∈ new, ∃ t, s'.tents.lookup x = some t ∧ p t.dist := by
  induction n generalizing done s with
  | zero =>
    have hnil : s.heap = [] := by
      unfold slack at hn
      exact length_eq_zero_iff.1 (by omega)
    exact ⟨s, [], .refl, I, by simp [hnil], fun _ _ _ ht => ht, by simp⟩
  | succ n ih =>
    by_cases hmore : ∃ i ∈ s.heap, p i.dist
    swap
    · exact ⟨s, [], .refl, I, fun i hi hpi => hmore ⟨i, hi, hpi⟩, fun _ _ _ ht => ht, by simp⟩
    obtain ⟨i, hi, hpi⟩ := hmore
    obtain ⟨item, hitem⟩ : ∃ item, item ∈ s.heap.argmin HeapItem.dist := by
      rcases hmin : s.heap.argmin HeapItem.dist with _ | item
      · rw [argmin_eq_none.1 hmin] at hi
        cases hi
      · exact ⟨item, rfl⟩
    have hmem := argmin_mem hitem
    have hperm := perm_cons_erase hmem
    have hleast : ∀ j ∈ s.heap, item.dist ≤ j.dist := fun j hj => le_of_mem_argmin hj hitem
    have hpitem := hp _ _ (hleast i hi) hpi
    have hleast' : ∀ j ∈ s.heap.erase item, item.dist ≤ j.dist :=
      fun j hj => hleast j (mem_of_mem_erase hj)
    have hturn : Turn g r s (visit g r { s with heap := s.heap.erase item } item) :=
      ⟨item, _, hperm, hleast', rfl⟩
    have hslack := I.slack_visit hperm
    rcases I.visit hperm hleast' with ⟨I', -⟩ | ⟨I', t, ht, hd⟩
    · obtain ⟨s', new, hruns, I'', hdone, hkeep, hnew⟩ := ih I' (by omega)
      exact ⟨s', new, hruns.head hturn, I'', hdone,
        fun u hu t ht => hkeep u hu t (hturn.settled I ht hu), hnew⟩
    · obtain ⟨s', new, hruns, I'', hdone, hkeep, hnew⟩ := ih I' (by omega)
      refine ⟨s', new ++ [item.id], hruns.head hturn, by simpa using I'', hdone, ?_, ?_⟩
      · exact fun u hu t ht => hkeep u (mem_cons_of_mem _ hu) t (hturn.settled I ht hu)
      · intro x hx
        rcases mem_append.1 hx with hx | hx
        · exact hnew x hx
        · rw [mem_singleton.1 hx]
          exact ⟨t, hkeep _ mem_cons_self t ht, hd ▸ hpitem⟩

/-- The distance of a node that the search knows is the cost of a path, so none is below that of a
shortest one. -/
lemma Inv.le_dist (I : Inv g r (expanded g r) done s) {v : SourceId} {us : List SourceId} {c : ℕ}
    {t : Tent} (hus : IsShortest (Usable g r) r v us c) (ht : s.tents.lookup v = some t) :
    c ≤ t.dist := by
  obtain ⟨-, ws, htr⟩ := I.real v t ht
  exact hus.le_trail htr

/-- The search settles the end of a shortest path, and before it only nodes of the path and closer
ones. -/
lemma exists_run_along {v : SourceId} {us : List SourceId} {c : ℕ}
    (hus : IsShortest (Usable g r) r v us c) (hc : c < maxPathMetric) :
    ∃ s done, Relation.ReflTransGen (Turn g r) (start r) s ∧ Inv g r (expanded g r) (v :: done) s ∧
      (∃ t, s.tents.lookup v = some t ∧ t.dist = c) ∧ us ⊆ done ∧
      ∀ x ∈ done, x ∈ us ∨ ∃ t, s.tents.lookup x = some t ∧ t.dist < c := by
  induction us generalizing v c with
  | nil =>
    obtain ⟨rfl, rfl⟩ := hus.path.trail.of_singleton
    have I := inv_start g v
    have hperm : (start v).heap.Perm [⟨v, 0⟩] := .refl _
    have hturn : Turn g v (start v) (visit g v { start v with heap := [] } ⟨v, 0⟩) :=
      ⟨⟨v, 0⟩, [], hperm, by simp, rfl⟩
    rcases I.visit hperm (by simp) with ⟨-, hdrop⟩ | ⟨I', t, ht, hd⟩
    · obtain ⟨t, ht, hd, -⟩ := I.root
      rcases hdrop with hnil | hlt
      · cases hnil
      · exact absurd (hlt t ht) (Nat.not_lt_zero _)
    · exact ⟨_, [], .single hturn, I', ⟨t, ht, hd⟩, nil_subset _, by simp⟩
  | cons u ws ih =>
    obtain ⟨c', m, he, rfl, hws⟩ := hus.tail
    obtain ⟨e, hmem, rfl, rfl, hm⟩ := usable_iff.1 he
    obtain ⟨s₁, done₁, hruns₁, I₁, ⟨tu, htu, hdu⟩, hsub, hclose⟩ := ih hws (by omega)
    -- first everything that is closer than the end of the path
    obtain ⟨s₂, new, hruns₂, I₂, hleast, hkeep, hnew⟩ := exists_advance
      (p := (· < c' + e.metric.toNat)) (fun _ _ => Nat.lt_of_le_of_lt) (slack g s₁) I₁ le_rfl
    have hfar : ∀ t, s₂.tents.lookup e.toId = some t → c' + e.metric.toNat ≤ t.dist :=
      fun t ht => I₂.le_dist hus ht
    have hvnew : e.toId ∉ new ++ u :: done₁ := by
      have hnodup := (nodup_cons.1 hus.path.nodup).1
      intro hin
      rcases mem_append.1 hin with hin | hin
      · obtain ⟨t, ht, hlt⟩ := hnew _ hin
        exact absurd hlt (Nat.not_lt.2 (hfar t ht))
      · rcases mem_cons.1 hin with heq | hin
        · exact hnodup (heq ▸ mem_cons_self)
        · rcases hclose _ hin with hin | ⟨t, ht, hlt⟩
          · exact hnodup (mem_cons_of_mem _ hin)
          · have := I₁.le_dist hus ht
            omega
    obtain ⟨t, ht, hdt⟩ : ∃ t, s₂.tents.lookup e.toId = some t ∧ t.dist = c' + e.metric.toNat := by
      obtain ⟨t, ht, hle⟩ := I₂.closed u (mem_append_right _ mem_cons_self) tu
        (hkeep u mem_cons_self tu htu) e hmem hm (by omega)
      have := hfar t ht
      exact ⟨t, ht, by omega⟩
    have hq := I₂.queued _ t ht hvnew
    have hmin : ∀ j ∈ s₂.heap.erase ⟨e.toId, t.dist⟩, t.dist ≤ j.dist := by
      intro j hj
      have := hleast j (mem_of_mem_erase hj)
      omega
    have hturn : Turn g r s₂ _ := ⟨⟨e.toId, t.dist⟩, _, perm_cons_erase hq, hmin, rfl⟩
    rcases I₂.visit (perm_cons_erase hq) hmin with ⟨-, hdone | hstale⟩ | ⟨I₃, t₃, ht₃, hd₃⟩
    · exact absurd hdone hvnew
    · exact absurd (hstale t ht) (lt_irrefl _)
    · refine ⟨_, new ++ u :: done₁, (hruns₁.trans hruns₂).tail hturn, I₃,
        ⟨t₃, ht₃, hd₃.trans hdt⟩, ?_, fun x hx => ?_⟩
      · exact cons_subset.2 ⟨mem_append_right _ mem_cons_self, fun x hx =>
          mem_append_right _ (mem_cons_of_mem _ (hsub hx))⟩
      · rcases mem_append.1 hx with hx' | hx'
        · obtain ⟨tx, htx, hlt⟩ := hnew x hx'
          exact .inr ⟨tx, hturn.settled I₂ htx hx, hlt⟩
        · rcases mem_cons.1 hx' with rfl | hx₁
          · exact .inl mem_cons_self
          · rcases hclose x hx₁ with hin | ⟨tx, htx, hlt⟩
            · exact .inl (mem_cons_of_mem _ hin)
            · exact .inr ⟨tx, hturn.settled I₂ (hkeep x hx' tx htx) hx, by omega⟩

/-- A search along a path, to its end. -/
lemma exists_outcome_along {v : SourceId} {us : List SourceId} {c : ℕ}
    (hus : IsShortest (Usable g r) r v us c) (hc : c < maxPathMetric) :
    ∃ s done l, Outcome g r s ∧ Inv g r (expanded g r) done s ∧ v :: l <:+ done ∧ us ⊆ l ∧
      ∀ x ∈ l, x ∈ us ∨ ∃ t, s.tents.lookup x = some t ∧ t.dist < c := by
  obtain ⟨s, l, hruns, I, -, hsub, hclose⟩ := exists_run_along hus hc
  obtain ⟨s', new, hruns', I', hempty, hkeep, -⟩ :=
    exists_advance (p := fun _ => True) (fun _ _ _ => id) (slack g s) I le_rfl
  refine ⟨s', new ++ v :: l, l, ⟨hruns.trans hruns', ?_⟩, I', suffix_append _ _, hsub, ?_⟩
  · exact eq_nil_iff_forall_not_mem.2 fun i hi => hempty i hi trivial
  · intro x hx
    exact (hclose x hx).imp id fun ⟨t, ht, hlt⟩ => ⟨t, hkeep x (mem_cons_of_mem _ hx) t ht, hlt⟩

/-! ## The condition is needed -/

section

variable (hright : ∀ s, Outcome g r s → s.Right g r) {u v w : SourceId} {us ws : List SourceId}
  {c : ℕ}

include hright

/-- What the search along a path shows of its end: it has what the node before it hands over, and
nothing else than what nodes of the path or closer ones do. -/
lemma handed_along (hus : IsShortest (Usable g r) r v (u :: us) c) (hc : c < maxPathMetric) :
    (∀ h ∈ Handed g r u v, h ∈ FirstHopSet g r v) ∧
      ∀ h ∈ FirstHopSet g r v, ∃ x, Pred g r x v ∧ h ∈ Handed g r x v ∧
        (x ∈ u :: us ∨ Closer g r x v) := by
  obtain ⟨s, done, l, hs, I, hsuf, hsub, hclose⟩ := exists_outcome_along hus hc
  have hv : v ≠ r := by
    rintro rfl
    cases shortest_root hus
  have hul : u ∈ l := hsub mem_cons_self
  have hnodup : v ∉ l := (nodup_cons.1 (I.nodup.sublist hsuf.sublist)).1
  have hl : l <:+ done := (suffix_cons v l).trans hsuf
  obtain ⟨t, ht⟩ := I.known v (hsuf.subset mem_cons_self)
  obtain ⟨tu, htu⟩ := I.known u (hl.subset hul)
  constructor
  · intro h hh
    have hb : Before done u v := ⟨l, hl, hul, hnodup⟩
    have hp : Pred g r u v := ⟨us, c, hus, hc⟩
    refine (hright s hs v t ht h).1 ((I.hops v t ht hv h).2 ⟨u, tu, hp.feeds hs hb htu ht, ?_⟩)
    exact (mem_firstHopsFor hs I hb.mem htu (hright s hs u tu htu) h).2 hh
  · intro h hh
    obtain ⟨x, tx, hf, hx⟩ := (I.hops v t ht hv h).1 ((hright s hs v t ht h).2 hh)
    refine ⟨x, hf.pred hs I ht,
      (mem_firstHopsFor hs I hf.before.mem hf.tent (hright s hs x tx hf.tent) h).1 hx, ?_⟩
    refine (hclose x (hf.before.mem_tail hsuf)).imp id fun ⟨t', ht', hlt⟩ => ?_
    obtain ⟨xs, hxs⟩ := hs.labels.exists_shortest (State.label_eq_some.2 ⟨t', ht', rfl⟩)
    exact ⟨xs, t'.dist, _, c, hxs, hus, hlt⟩

/-- First hops are handed on along a shortest path. -/
lemma subset_along (hus : IsShortest (Usable g r) r v us c) (hc : c < maxPathMetric)
    (hw : w ∈ us) : FirstHopSet g r w ⊆ FirstHopSet g r v := by
  induction us generalizing v c with
  | nil => cases hw
  | cons u us ih =>
    obtain ⟨c', m, -, rfl, hsu⟩ := hus.tail
    have hstep : FirstHopSet g r u ⊆ FirstHopSet g r v :=
      fun h hh => (handed_along hright hus hc).1 h (.inl hh)
    rcases mem_cons.1 hw with rfl | hw
    · exact hstep
    · exact (ih hsu (by omega) hw).trans hstep

/-- Where no predecessor of a node is closer, and one of them has no first hops, the node can only
be its own first hop. -/
lemma eq_of_mem_firstHopSet (hfar : ∀ x, Pred g r x v → ¬ Closer g r x v)
    (hw : Pred g r w v) (hempty : FirstHopSet g r w = ∅) {h : SystemId}
    (hh : h ∈ FirstHopSet g r v) : isPseudonode v = false ∧ h = systemID v := by
  obtain ⟨ws, c, hus, hc⟩ := hw
  obtain ⟨x, hp, hhand, hx | hcl⟩ := (handed_along hright hus hc).2 h hh
  swap
  · exact absurd hcl (hfar x hp)
  rcases hhand with hfx | ⟨-, hown⟩
  swap
  · exact hown
  exfalso
  rcases mem_cons.1 hx with rfl | hx
  · rw [hempty] at hfx
    exact hfx
  · obtain ⟨c', m, -, rfl, hsw⟩ := hus.tail
    have := subset_along hright hsw (by omega) hx hfx
    rw [hempty] at this
    exact this

lemma delivered_of_right : Delivered g r := by
  intro v h hh
  by_cases hcl : ∃ u, Pred g r u v ∧ Closer g r u v
  · -- along a path through a closer predecessor, only closer ones come first
    obtain ⟨u, ⟨us, c, hus, hc⟩, ⟨us₁, d, us₂, d', hsu, hsv, hlt⟩⟩ := hcl
    obtain ⟨x, hp, hhand, hx | hx⟩ := (handed_along hright hus hc).2 h hh
    · obtain ⟨c', m, -, rfl, hsu'⟩ := hus.tail
      obtain ⟨ys, xs, hpath⟩ := append_of_mem hx
      obtain ⟨e, hle, hsx⟩ := hsu'.of_suffix ⟨ys, hpath.symm⟩
      have := hsu'.least _ _ hsu.path
      exact .inl ⟨x, hp, ⟨xs, e, us₂, d', hsx, hsv, by omega⟩, hhand⟩
    · exact .inl ⟨x, hp, hx, hhand⟩
  · have hfar : ∀ x, Pred g r x v → ¬ Closer g r x v := fun x hp hx => hcl ⟨x, hp, hx⟩
    refine .inr fun u hp => ?_
    obtain ⟨us, c, hus, hc⟩ := id hp
    obtain ⟨x, hpx, hhand, hx | hx⟩ := (handed_along hright hus hc).2 h hh
    swap
    · exact absurd hx (hfar x hpx)
    rcases hhand with hfx | ⟨hempty, -⟩
    · rcases mem_cons.1 hx with rfl | hx
      · exact .inl hfx
      · obtain ⟨c', m, -, rfl, hsu⟩ := hus.tail
        exact .inl (subset_along hright hsu (by omega) hx hfx)
    · obtain ⟨hpv, rfl⟩ := eq_of_mem_firstHopSet hright hfar hpx hempty hh
      rcases Set.eq_empty_or_nonempty (FirstHopSet g r u) with hu | ⟨h', hh'⟩
      · exact .inr ⟨hu, hpv, rfl⟩
      · -- what `u` has it hands over, and `v` has nothing but itself
        have hv := (handed_along hright hus hc).1 h' (.inl hh')
        obtain ⟨-, rfl⟩ := eq_of_mem_firstHopSet hright hfar hpx hempty hv
        exact .inl hh'

end

/-- **When the first hops are right.** Whichever of the items at one distance the search takes
first, the first hops of every node are the first routers of its shortest paths, exactly if each of
these is handed over to the node by a predecessor closer to the root, or by all its predecessors.
The result of `compute` is that of one such search. -/
theorem firstHops_iff_shortest (g : Graph) (root : SystemId) (level : Isis.Level) :
    ((∀ s, Outcome g (newSourceID root 0) s → s.Right g (newSourceID root 0)) ↔
      Delivered g (newSourceID root 0)) ∧
    ∃ s, Outcome g (newSourceID root 0) s ∧ ∀ v n,
      (compute g root level).nodes.lookup v = some n →
        ∃ t, s.tents.lookup v = some t ∧ n = ⟨v, t.dist, t.firstHops⟩ := by
  refine ⟨⟨delivered_of_right, fun hdel s hs => hdel.complete hs⟩, search g (newSourceID root 0),
    outcome_search g (newSourceID root 0), fun v n hn => ?_⟩
  exact (lookup_compute.1 hn).2

/-! ## Two graphs -/

/-- On a tree of shortest paths every first hop is delivered. -/
lemma delivered_of_tree (htree : ∀ u u' v, Pred g r u v → Pred g r u' v → u = u') :
    Delivered g r := by
  have hunique : ∀ (us : List SourceId) (v : SourceId) (c : ℕ) (us' : List SourceId) (c' : ℕ),
      IsShortest (Usable g r) r v us c → c < maxPathMetric →
        IsShortest (Usable g r) r v us' c' → us' = us := by
    intro us
    induction us with
    | nil =>
      intro v c us' c' hus _ hus'
      obtain ⟨rfl, -⟩ := hus.path.trail.of_singleton
      exact shortest_root hus'
    | cons u us ih =>
      intro v c us' c' hus hc hus'
      have hle := hus'.least _ _ hus.path
      obtain ⟨d, m, -, rfl, hsu⟩ := hus.tail
      cases us' with
      | nil =>
        obtain ⟨rfl, -⟩ := hus'.path.trail.of_singleton
        cases shortest_root hus
      | cons u' us' =>
        obtain rfl := htree u u' v ⟨us, _, hus, hc⟩ ⟨us', c', hus', by omega⟩
        obtain ⟨d', m', -, rfl, hsu'⟩ := hus'.tail
        rw [ih u d us' d' hsu (by omega) hsu']
  rintro v h ⟨us, c, hus, hc, ho⟩
  rcases us with _ | ⟨u, us⟩
  · cases ho
  refine .inr fun u' hp => ?_
  obtain rfl := htree u u' v ⟨us, c, hus, hc⟩ hp
  obtain ⟨c', m, -, rfl, hsu⟩ := hus.tail
  rcases hfu : firstRouter (u :: us) with _ | h'
  · rw [firstRouter_cons_of_none hfu] at ho
    split_ifs at ho with hpv
    refine .inr ⟨Set.eq_empty_iff_forall_notMem.2 ?_, by simpa using hpv, (Option.some.inj ho).symm⟩
    rintro h' ⟨us', d, hus', -, ho'⟩
    rw [hunique us u c' us' d hsu (by omega) hus', hfu] at ho'
    cases ho'
  · rw [firstRouter_cons_of_some hfu] at ho
    exact .inl ⟨us, c', hsu, by omega, hfu.trans ho⟩

lemma tight_of_shortest {u v : SourceId} {us : List SourceId} {c : ℕ}
    (hs : IsShortest (Usable g r) r v (u :: us) c) (hc : c < maxPathMetric) :
    ∃ e ∈ expanded g r u, e.toId = v ∧
      ((search g r).label u).map (· + e.metric.toNat) = (search g r).label v := by
  obtain ⟨c', m, he, rfl, hsu⟩ := hs.tail
  obtain ⟨e, hmem, hto, rfl, -⟩ := usable_iff.1 he
  refine ⟨e, hmem, hto, ?_⟩
  rw [(outcome_search g r).labels.of_shortest hs hc,
    (outcome_search g r).labels.of_shortest hsu (by omega)]
  rfl

/-- The edges of a graph that the search finds tight. -/
def tightEdges (g : Graph) (r : SourceId) : List (SourceId × SourceId) :=
  g.keys.flatMap fun u => (expanded g r u).filterMap fun e =>
    if ((search g r).label u).map (· + e.metric.toNat) = (search g r).label e.toId
    then some (u, e.toId) else none

lemma mem_tightEdges_of_shortest {u v : SourceId} {us : List SourceId} {c : ℕ}
    (hs : IsShortest (Usable g r) r v (u :: us) c) (hc : c < maxPathMetric) :
    (u, v) ∈ tightEdges g r := by
  obtain ⟨e, he, rfl, heq⟩ := tight_of_shortest hs hc
  refine mem_flatMap.2 ⟨u, ?_, mem_filterMap.2 ⟨e, he, by rw [if_pos heq]⟩⟩
  rw [SortedMap.mem_keys_iff]
  unfold expanded at he
  rcases hl : g.lookup u with _ | node
  · rw [hl] at he
    cases he
  · exact ⟨node, rfl⟩

/-- A LAN of three routers, the root among them: it lists the pseudonode, which lists the three. -/
def lan : Graph :=
  (((SortedMap.empty.put (newSourceID 1 0) { edges := [⟨newSourceID 1 1, 10⟩] }).put
    (newSourceID 1 1)
      { edges := [⟨newSourceID 1 0, 0⟩, ⟨newSourceID 2 0, 0⟩, ⟨newSourceID 3 0, 0⟩] }).put
    (newSourceID 2 0) { edges := [⟨newSourceID 1 1, 10⟩] }).put
    (newSourceID 3 0) { edges := [⟨newSourceID 1 1, 10⟩] }

/-- The LAN: both neighbors are first hops of their own, in whatever order they are taken. -/
theorem firstHops_lan :
    (compute lan 1 .l1).nodes.lookup (newSourceID 2 0) = some ⟨newSourceID 2 0, 10, [2]⟩ ∧
      ∀ s, Outcome lan (newSourceID 1 0) s → s.Right lan (newSourceID 1 0) := by
  refine ⟨by decide +kernel, (firstHops_iff_shortest lan 1 .l1).1.2 (delivered_of_tree ?_)⟩
  have hone : ((tightEdges lan (newSourceID 1 0)).map Prod.snd).Nodup := by decide +kernel
  rintro u u' v ⟨us, c, hus, hc⟩ ⟨us', c', hus', hc'⟩
  exact congrArg Prod.fst (inj_on_of_nodup_map hone (mem_tightEdges_of_shortest hus hc)
    (mem_tightEdges_of_shortest hus' hc') rfl)

/-- A router that is reached at the same cost over a link and over a LAN behind another router: the
root 1 lists 2 at 10 and 3 at 5; 3 is on the LAN at 5, which lists 2 and 3 at 0. -/
def tiedLan : Graph :=
  (((SortedMap.empty.put (newSourceID 1 0)
      { edges := [⟨newSourceID 2 0, 10⟩, ⟨newSourceID 3 0, 5⟩] }).put
    (newSourceID 2 0) { edges := [⟨newSourceID 1 0, 10⟩, ⟨newSourceID 3 1, 10⟩] }).put
    (newSourceID 3 0) { edges := [⟨newSourceID 1 0, 5⟩, ⟨newSourceID 3 1, 5⟩] }).put
    (newSourceID 3 1) { edges := [⟨newSourceID 2 0, 0⟩, ⟨newSourceID 3 0, 0⟩] }

/-- Router 2 is settled over the link before the LAN hands it router 3, which is then lost. -/
theorem firstHops_tiedLan :
    ¬ ∀ v n, (compute tiedLan 1 .l1).nodes.lookup v = some n →
      ∀ h, h ∈ n.firstHops ↔ h ∈ FirstHopSet tiedLan (newSourceID 1 0) v := by
  intro hall
  have hn : (compute tiedLan 1 .l1).nodes.lookup (newSourceID 2 0)
      = some ⟨newSourceID 2 0, 10, [2]⟩ := by decide +kernel
  have hlabel : (search tiedLan (newSourceID 1 0)).label (newSourceID 2 0) = some 10 := by
    decide +kernel
  have hedge : ∀ u v m, (⟨v, m⟩ : Edge) ∈ expanded tiedLan (newSourceID 1 0) u →
      m.toNat < maxMetric → Usable tiedLan (newSourceID 1 0) u v m.toNat := fun u v m he hm =>
    usable_iff.2 ⟨⟨v, m⟩, he, rfl, rfl, hm⟩
  have hpath : IsPath (Usable tiedLan (newSourceID 1 0)) (newSourceID 1 0)
      [newSourceID 2 0, newSourceID 3 1, newSourceID 3 0, newSourceID 1 0] 10 :=
    ⟨.step (.step (.step .start
      (hedge _ _ 5 (by decide +kernel) (by decide)))
      (hedge _ _ 5 (by decide +kernel) (by decide)))
      (hedge _ _ 0 (by decide +kernel) (by decide)), by decide⟩
  obtain ⟨us, hs⟩ := (outcome_search tiedLan (newSourceID 1 0)).labels.exists_shortest hlabel
  have hmem : (3 : SystemId) ∈ ([2] : List SystemId) :=
    (hall _ _ hn 3).2 ⟨_, 10, ⟨hpath, hs.least⟩, by decide, by decide⟩
  exact absurd hmem (by decide)

end Ze.IsisSpf
