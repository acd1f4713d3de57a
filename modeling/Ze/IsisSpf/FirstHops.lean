import Ze.IsisSpf.Distances

/-!
# The first hops

What the first hops of a node should be, the first routers of its shortest paths, and what the
search makes of them. Every first hop is one of these (`reached_firstHops`, by induction along the
history); what a node can miss depends on what its predecessors hand over (`mem_firstHopsFor`).
-/

namespace Ze.IsisSpf

open Ze.Lib List

/-! ## The first router of a path -/

/-- The first router after the root on a path, which is listed from its end back to the root. -/
def firstRouter (l : List SourceId) : Option SystemId :=
  (l.reverse.tail.find? fun id => !isPseudonode id).map systemID

lemma firstRouter_cons (v u : SourceId) (us : List SourceId) :
    firstRouter (v :: u :: us) =
      (firstRouter (u :: us)).or (if isPseudonode v then none else some (systemID v)) := by
  have htail : (v :: u :: us).reverse.tail = (u :: us).reverse.tail ++ [v] := by
    rw [reverse_cons, tail_append_of_ne_nil (by simp)]
  unfold firstRouter
  rw [htail, find?_append]
  rcases (u :: us).reverse.tail.find? fun id => !isPseudonode id with _ | w
  · by_cases hv : isPseudonode v
    · simp [hv]
    · simp [hv]
  · rfl

variable {us : List SourceId} {c : ℕ}

lemma firstRouter_cons_of_some {v u : SourceId} {h : SystemId}
    (hu : firstRouter (u :: us) = some h) : firstRouter (v :: u :: us) = some h := by
  rw [firstRouter_cons, hu]
  rfl

lemma firstRouter_cons_of_none {v u : SourceId} (hu : firstRouter (u :: us) = none) :
    firstRouter (v :: u :: us) = if isPseudonode v then none else some (systemID v) := by
  rw [firstRouter_cons, hu]
  rfl

/-- The first routers of the shortest paths to a node. -/
def FirstHopSet (g : Graph) (r v : SourceId) : Set SystemId :=
  {h | ∃ us c, IsShortest (Usable g r) r v us c ∧ c < maxPathMetric ∧ firstRouter (v :: us) =
    some h}

/-! ## Induction along the history -/

section

variable {done : List SourceId} {u v w : SourceId}

lemma Before.mem_tail {l : List SourceId} (hl : (v :: l) <:+ done) (h : Before done u v) :
    u ∈ l := by
  obtain ⟨l', hl', hu, hv⟩ := h
  rcases suffix_or_suffix_of_suffix hl' hl with hsuf | hsuf
  · rcases suffix_cons_iff.1 hsuf with rfl | hsuf
    · exact absurd mem_cons_self hv
    · exact hsuf.subset hu
  · exact absurd (hsuf.subset mem_cons_self) hv

lemma before_induction {C : SourceId → Prop}
    (step : ∀ v ∈ done, (∀ u, Before done u v → C u) → C v) : ∀ v ∈ done, C v := by
  have hsuf : ∀ l, l <:+ done → ∀ v ∈ l, C v := by
    intro l
    induction l with
    | nil =>
      intro _ v hv
      cases hv
    | cons w l ih =>
      intro hl v hv
      have hl' : l <:+ done := (suffix_cons w l).trans hl
      rcases mem_cons.1 hv with rfl | hv
      · exact step v (hl.subset mem_cons_self) fun u hu => ih hl' u (hu.mem_tail hl)
      · exact ih hl' v hv
  exact hsuf done suffix_rfl

lemma Before.trans (h : Before done u v) (h' : Before done v w) : Before done u w := by
  obtain ⟨l, hl, hu, hv⟩ := h
  obtain ⟨l', hl', hv', hw⟩ := h'
  rcases suffix_or_suffix_of_suffix hl hl' with hsuf | hsuf
  · exact ⟨l, hl, hu, fun hwl => hw (hsuf.subset hwl)⟩
  · exact absurd (hsuf.subset hv') hv

lemma Before.asymm (h : Before done u v) : ¬ Before done v u := by
  intro h'
  obtain ⟨l, -, hu, hu'⟩ := h.trans h'
  exact hu' hu

end

/-! ## Every first hop is the first router of a shortest path -/

section

variable {g : Graph} {r : SourceId} {done : List SourceId} {s : State}

/-- A shortest path to `v` over nodes settled before it, with the first router `o`. -/
def Reached (g : Graph) (r : SourceId) (done : List SourceId) (v : SourceId) (d : ℕ)
    (o : Option SystemId) : Prop :=
  ∃ us, IsShortest (Usable g r) r v us d ∧ (∀ w ∈ us, Before done w v) ∧ firstRouter (v :: us) = o

lemma Reached.extend {tu t : Tent} {u v : SourceId} {o : Option SystemId} (hs : Outcome g r s)
    (h : Reached g r done u tu.dist o) (hf : Feeds (expanded g r) done s.tents u tu v t.dist)
    (ht : s.tents.lookup v = some t) :
    ∃ us, IsShortest (Usable g r) r u us tu.dist ∧ IsShortest (Usable g r) r v (u :: us) t.dist ∧
      (∀ w ∈ u :: us, Before done w v) ∧ firstRouter (u :: us) = o := by
  obtain ⟨us, hus, hb, ho⟩ := h
  obtain ⟨e, he, hto, hm, hd⟩ := hf.edge
  have hbefore : ∀ w ∈ u :: us, Before done w v := by
    intro w hw
    rcases mem_cons.1 hw with rfl | hw
    · exact hf.before
    · exact (hb w hw).trans hf.before
  refine ⟨us, hus, ?_, hbefore, ho⟩
  rw [← hd]
  apply hs.labels.extend hus
  · exact usable_iff.2 ⟨e, he, hto, rfl, hm⟩
  · exact State.label_eq_some.2 ⟨t, ht, hd.symm⟩
  · intro hv
    exact (hbefore v hv).asymm (hbefore v hv)

lemma Inv.firstHops_root {rel : SourceId → List Edge} (I : Inv g r rel done s)
    {u : SourceId} {t : Tent} (ht : s.tents.lookup u = some t) (hu : u = r) :
    t.firstHops = [] := by
  subst hu
  obtain ⟨t₀, ht₀, -, hnil⟩ := I.root
  rw [ht] at ht₀
  cases ht₀
  exact hnil

lemma isPseudonode_of_firstRouter {u : SourceId} {us : List SourceId} {d : ℕ} (hu : u ≠ r)
    (hs : IsShortest (Usable g r) r u us d) (hnone : firstRouter (u :: us) = none) :
    isPseudonode u := by
  rcases us with _ | ⟨w, ws⟩
  · cases hs.path.trail
    exact absurd rfl hu
  · by_contra hpn
    rw [firstRouter_cons, if_neg hpn] at hnone
    rcases hw : firstRouter (w :: ws) with _ | x <;> simp [hw] at hnone

lemma reached_firstHops (hs : Outcome g r s) (I : Inv g r (expanded g r) done s) :
    ∀ v ∈ done, ∀ t, s.tents.lookup v = some t →
      (∀ h ∈ t.firstHops, Reached g r done v t.dist (some h)) ∧
        (t.firstHops = [] → Reached g r done v t.dist none) := by
  apply before_induction
  intro v _ ih t ht
  by_cases hv : v = r
  · subst hv
    obtain ⟨t₀, ht₀, hd, hh⟩ := I.root
    rw [ht] at ht₀
    cases ht₀
    refine ⟨by simp [hh], fun _ => ⟨[], ?_, by simp, rfl⟩⟩
    rw [hd]
    exact ⟨⟨.start, nodup_singleton v⟩, fun _ _ _ => Nat.zero_le _⟩
  constructor
  · intro h hh
    obtain ⟨u, tu, hf, hh⟩ := (I.hops v t ht hv h).mp hh
    obtain ⟨ihSome, ihNone⟩ := ih u hf.before tu hf.tent
    unfold firstHopsFor at hh
    by_cases hur : u = r
    · rw [if_pos hur] at hh
      obtain ⟨us, -, hus, hb, ho⟩ := (ihNone (I.firstHops_root hf.tent hur)).extend hs hf ht
      by_cases hpv : isPseudonode v
      · rw [if_pos hpv] at hh
        cases hh
      · rw [if_neg hpv, mem_singleton] at hh
        exact ⟨u :: us, hus, hb, by rw [firstRouter_cons_of_none ho, if_neg hpv, hh]⟩
    rw [if_neg hur] at hh
    by_cases hseed : (tu.firstHops.isEmpty && isPseudonode u && !isPseudonode v)
    · rw [if_pos hseed, mem_singleton] at hh
      simp only [Bool.and_eq_true, List.isEmpty_iff, Bool.not_eq_true'] at hseed
      obtain ⟨⟨hnil, -⟩, hpv⟩ := hseed
      obtain ⟨us, -, hus, hb, ho⟩ := (ihNone hnil).extend hs hf ht
      exact ⟨u :: us, hus, hb, by rw [firstRouter_cons_of_none ho, hpv, hh]; rfl⟩
    · rw [if_neg hseed] at hh
      obtain ⟨us, -, hus, hb, ho⟩ := (ihSome h hh).extend hs hf ht
      exact ⟨u :: us, hus, hb, firstRouter_cons_of_some ho⟩
  · intro hnil
    obtain ⟨u, tu, hf⟩ := I.fed v t ht hv
    obtain ⟨-, ihNone⟩ := ih u hf.before tu hf.tent
    -- nothing was handed over, so the predecessor had nothing and the node is a pseudonode
    have hempty : firstHopsFor tu u r v = [] := by
      apply eq_nil_iff_forall_not_mem.mpr
      intro h hh
      have := (I.hops v t ht hv h).mpr ⟨u, tu, hf, hh⟩
      rw [hnil] at this
      cases this
    unfold firstHopsFor at hempty
    by_cases hur : u = r
    · rw [if_pos hur] at hempty
      obtain ⟨us, -, hus, hb, ho⟩ := (ihNone (I.firstHops_root hf.tent hur)).extend hs hf ht
      by_cases hpv : isPseudonode v
      · exact ⟨u :: us, hus, hb, by rw [firstRouter_cons_of_none ho, if_pos hpv]⟩
      · rw [if_neg hpv] at hempty
        cases hempty
    rw [if_neg hur] at hempty
    by_cases hseed : (tu.firstHops.isEmpty && isPseudonode u && !isPseudonode v)
    · rw [if_pos hseed] at hempty
      cases hempty
    · rw [if_neg hseed] at hempty
      obtain ⟨us, hsu, hus, hb, ho⟩ := (ihNone hempty).extend hs hf ht
      have hpu := isPseudonode_of_firstRouter hur hsu ho
      have hpv : isPseudonode v := by simpa [hempty, hpu] using hseed
      exact ⟨u :: us, hus, hb, by rw [firstRouter_cons_of_none ho, if_pos hpv]⟩

lemma shortest_root {us : List SourceId} {c : ℕ} (h : IsShortest (Usable g r) r r us c) :
    us = [] := by
  obtain ⟨ht, hn⟩ := h.path
  cases ht with
  | start => rfl
  | step ht _ => exact absurd ht.mem_start (nodup_cons.1 hn).1

/-- The root has no first hop: its only shortest path ends where it starts. -/
lemma firstHopSet_root : FirstHopSet g r r = ∅ := by
  rw [Set.eq_empty_iff_forall_notMem]
  rintro h ⟨us, c, hus, -, ho⟩
  rw [shortest_root hus] at ho
  cases ho

lemma dist_of_shortest {v : SourceId} {us : List SourceId} {c : ℕ} {t : Tent} (hs : Outcome g r s)
    (hus : IsShortest (Usable g r) r v us c) (hc : c < maxPathMetric)
    (ht : s.tents.lookup v = some t) : t.dist = c := by
  obtain ⟨t', ht', hd⟩ := State.label_eq_some.1 (hs.labels.of_shortest hus hc)
  rw [ht] at ht'
  cases ht'
  exact hd

/-! ## What the predecessors hand over -/

/-- `u` is the last node before `v` on a shortest path. -/
def Pred (g : Graph) (r u v : SourceId) : Prop :=
  ∃ us c, IsShortest (Usable g r) r v (u :: us) c ∧ c < maxPathMetric

/-- What `u` hands over to `v`: the first routers of the shortest paths to `u`, or `v` itself if it
is a router and they pass none. -/
def Handed (g : Graph) (r u v : SourceId) : Set SystemId :=
  {h | h ∈ FirstHopSet g r u ∨ FirstHopSet g r u = ∅ ∧ isPseudonode v = false ∧ h = systemID v}

lemma Feeds.pred (hs : Outcome g r s) (I : Inv g r (expanded g r) done s) {u v : SourceId}
    {tu t : Tent} (hf : Feeds (expanded g r) done s.tents u tu v t.dist)
    (ht : s.tents.lookup v = some t) : Pred g r u v := by
  obtain ⟨hsome, hnone⟩ := reached_firstHops hs I u hf.before.mem tu hf.tent
  have hreached : ∃ o, Reached g r done u tu.dist o := by
    rcases hl : tu.firstHops with _ | ⟨h, hops⟩
    · exact ⟨none, hnone hl⟩
    · exact ⟨some h, hsome h (by rw [hl]; exact mem_cons_self)⟩
  obtain ⟨o, hr⟩ := hreached
  obtain ⟨us, -, hus, -⟩ := hr.extend hs hf ht
  exact ⟨us, t.dist, hus, (I.real v t ht).1⟩

lemma Pred.feeds (hs : Outcome g r s) {u v : SourceId} {tu t : Tent} (hp : Pred g r u v)
    (hb : Before done u v) (htu : s.tents.lookup u = some tu) (ht : s.tents.lookup v = some t) :
    Feeds (expanded g r) done s.tents u tu v t.dist := by
  obtain ⟨us, c, hus, hc⟩ := hp
  obtain ⟨c', m, he, rfl, hsu⟩ := hus.tail
  have hdu := dist_of_shortest hs hsu (by omega) htu
  have hdv := dist_of_shortest hs hus hc ht
  obtain ⟨e, hmem, hto, rfl, hm⟩ := usable_iff.1 he
  exact ⟨hb, htu, e, hmem, hto, hm, by omega⟩

/-- Where the first hops of a node are right, the code hands over what it should. -/
lemma mem_firstHopsFor (hs : Outcome g r s) (I : Inv g r (expanded g r) done s) {u v : SourceId}
    {tu : Tent} (hu : u ∈ done) (htu : s.tents.lookup u = some tu)
    (hright : ∀ h, h ∈ tu.firstHops ↔ h ∈ FirstHopSet g r u) (h : SystemId) :
    h ∈ firstHopsFor tu u r v ↔ h ∈ Handed g r u v := by
  have hempty : FirstHopSet g r u = ∅ ↔ tu.firstHops = [] := by
    rw [eq_nil_iff_forall_not_mem, Set.eq_empty_iff_forall_notMem]
    exact forall_congr' fun h => not_congr (hright h).symm
  unfold firstHopsFor Handed
  rw [Set.mem_ofPred_eq, hempty, ← hright]
  by_cases hur : u = r
  · rw [if_pos hur, I.firstHops_root htu hur]
    by_cases hpv : isPseudonode v = true <;> simp [hpv]
  rw [if_neg hur]
  rcases hl : tu.firstHops with _ | ⟨h', hops⟩
  · -- no shortest path to it passes a router, so it is a pseudonode
    obtain ⟨us, hus, -, ho⟩ := (reached_firstHops hs I u hu tu htu).2 hl
    have hpu := isPseudonode_of_firstRouter hur hus ho
    by_cases hpv : isPseudonode v = true <;> simp [hpu, hpv]
  · simp

end

end Ze.IsisSpf
