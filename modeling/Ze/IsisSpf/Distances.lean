import Ze.IsisSpf.Invariant

/-!
# The loop ends, and with the distances

The turns that `compute` gives its loop empty the heap: a turn takes one item, and the items it adds
are no more than the edges of the node it settles, which no later turn settles again (`slack`). With
the heap empty the invariant makes the distances closed under every usable edge, and `Labels` reads
them as the costs of shortest paths.
-/

namespace Ze.IsisSpf

open Ze.Lib List

/-! ## How many turns are left -/

def isSettled (tents : SortedMap SourceId Tent) (id : SourceId) : Bool :=
  (tents.lookup id).any Tent.settled

/-- The items in the heap and the edges of the nodes that are not settled. -/
def slack (g : Graph) (s : State) : ℕ :=
  s.heap.length + (g.items.map fun x => if isSettled s.tents x.1 then 0 else x.2.edges.length).sum

section

variable {g : Graph} {r : SourceId} {done : List SourceId} {s s' : State}

lemma relax_slack (cur : Tent) (c r : SourceId) (s : State) (e : Edge)
    (hcur : cur.dist < maxPathMetric) :
    (relax cur c r s e).heap.length ≤ s.heap.length + 1 ∧
      ∀ id, isSettled (relax cur c r s e).tents id = isSettled s.tents id := by
  rcases relax_cases cur c r s e hcur with
    ⟨heq, -⟩ | ⟨-, -, hold, heq⟩ | ⟨-, -, nt, hnt, hns, -, heq⟩
  · rw [heq]
    exact ⟨Nat.le_succ _, fun _ => rfl⟩
  · rw [heq]
    refine ⟨(Heap.length_push _ _).le, fun id => ?_⟩
    unfold isSettled
    rw [SortedMap.lookup_put]
    by_cases hid : id = e.toId
    · rw [if_pos hid, hid]
      rcases hl : s.tents.lookup e.toId with _ | nt
      · rfl
      · simp [(hold nt hl).1]
    · rw [if_neg hid]
  · rw [heq]
    refine ⟨Nat.le_succ _, fun id => ?_⟩
    unfold isSettled
    rw [SortedMap.lookup_put]
    by_cases hid : id = e.toId
    · rw [if_pos hid, hid, hnt]
      rfl
    · rw [if_neg hid]

lemma relaxAll_slack (cur : Tent) (c r : SourceId) (es : List Edge) (s : State)
    (hcur : cur.dist < maxPathMetric) :
    (es.foldl (relax cur c r) s).heap.length ≤ s.heap.length + es.length ∧
      ∀ id, isSettled (es.foldl (relax cur c r) s).tents id = isSettled s.tents id := by
  induction es generalizing s with
  | nil => exact ⟨le_rfl, fun _ => rfl⟩
  | cons e es ih =>
    rw [foldl_cons, length_cons]
    obtain ⟨hlen, hset⟩ := relax_slack cur c r s e hcur
    obtain ⟨hlen', hset'⟩ := ih (relax cur c r s e)
    exact ⟨by omega, fun id => (hset' id).trans (hset id)⟩

lemma expanded_length_le {id : SourceId} {node : Node} (h : g.lookup id = some node) :
    (expanded g r id).length ≤ node.edges.length := by
  unfold expanded
  rw [h]
  simp only
  split_ifs
  · exact Nat.zero_le _
  · exact le_rfl

lemma Inv.slack_visit {item : HeapItem} {heap : List HeapItem} (I : Inv g r (expanded g r) done s)
    (hperm : s.heap.Perm (item :: heap)) :
    slack g (IsisSpf.visit g r { s with heap := heap } item) + 1 ≤ slack g s := by
  have hlen := hperm.length_eq
  rw [length_cons] at hlen
  obtain ⟨cur, hc, -⟩ := I.items item (hperm.mem_iff.2 mem_cons_self)
  have hdrop : slack g { s with heap := heap } + 1 ≤ slack g s := by
    unfold slack
    simp only
    omega
  unfold IsisSpf.visit
  simp only [hc]
  by_cases hset : cur.settled
  · rw [if_pos hset]
    exact hdrop
  rw [if_neg hset]
  by_cases hlt : cur.dist < item.dist
  · rw [if_pos hlt]
    exact hdrop
  rw [if_neg hlt]
  -- the node is settled now: its edges pay for the items they add
  obtain ⟨hadd, hsame⟩ := relaxAll_slack cur item.id r (expanded g r item.id)
    ⟨heap, s.tents.put item.id { cur with settled := true }⟩ (I.real _ cur hc).1
  have hnow : ∀ id, isSettled (s.tents.put item.id { cur with settled := true }) id
      = (isSettled s.tents id || decide (id = item.id)) := by
    intro id
    unfold isSettled
    rw [SortedMap.lookup_put]
    by_cases hid : id = item.id
    · simp [hid]
    · simp [hid]
  have hbefore : isSettled s.tents item.id = false := by
    unfold isSettled
    rw [hc]
    simpa using hset
  unfold slack
  simp only at hadd hsame ⊢
  simp only [hsame, hnow]
  have hmono : ∀ x ∈ g.items,
      (if (isSettled s.tents x.1 || decide (x.1 = item.id)) = true then 0 else x.2.edges.length)
        ≤ if isSettled s.tents x.1 = true then 0 else x.2.edges.length := by
    intro x _
    by_cases hx : isSettled s.tents x.1
    · simp [hx]
    · rw [if_neg hx]
      split_ifs <;> omega
  rcases hg : g.lookup item.id with _ | node
  · have hnone : expanded g r item.id = [] := by
      unfold expanded
      rw [hg]
    have hsum := sum_le_sum hmono
    rw [hnone] at hadd ⊢
    simp only [length_nil] at hadd
    omega
  · have hle := expanded_length_le (r := r) hg
    have hsum := sum_map_add_le _ _ (k := node.edges.length) ((g.mem_items_iff).2 hg) hmono
      (by simp [hbefore])
    omega

lemma Inv.turn (I : Inv g r (expanded g r) done s) (hturn : Turn g r s s') :
    ∃ done', Inv g r (expanded g r) done' s' ∧ slack g s' + 1 ≤ slack g s := by
  obtain ⟨item, heap, hperm, hleast, rfl⟩ := hturn
  have hslack := I.slack_visit hperm
  rcases I.visit hperm hleast with ⟨I', -⟩ | ⟨I', -⟩
  · exact ⟨done, I', hslack⟩
  · exact ⟨item.id :: done, I', hslack⟩

lemma Inv.loop_heap {n : ℕ} (I : Inv g r (expanded g r) done s)
    (hord : Heap.Ordered HeapItem.less s.heap) (hn : slack g s ≤ n) :
    (IsisSpf.loop g r n s).heap = [] := by
  induction n generalizing done s with
  | zero =>
    unfold slack at hn
    exact length_eq_zero_iff.1 (by show s.heap.length = 0; omega)
  | succ n ih =>
    unfold IsisSpf.loop
    rcases hpop : Heap.pop HeapItem.less s.heap with _ | ⟨item, heap⟩
    · exact Heap.pop_eq_none.1 hpop
    · obtain ⟨hturn, hord'⟩ := turn_of_pop (g := g) (r := r) hord hpop
      obtain ⟨done', I', hslack⟩ := I.turn hturn
      exact ih I' hord' (by omega)

end

/-! ## Where the search ends -/

/-- The search can end here, whichever of the items at one distance it takes first. -/
def Outcome (g : Graph) (r : SourceId) (s : State) : Prop :=
  Relation.ReflTransGen (Turn g r) (start r) s ∧ s.heap = []

lemma outcome_search (g : Graph) (r : SourceId) : Outcome g r (search g r) := by
  have hslack : slack g (start r) ≤ 1 + edgeCount g := by
    unfold slack edgeCount
    apply Nat.add_le_add
    · exact le_rfl
    · apply sum_le_sum
      intro x _
      split_ifs <;> omega
  have hord : Heap.Ordered HeapItem.less (start r).heap := by
    intro k hk
    unfold Heap.lessAt start
    rw [getElem?_eq_none (by simp; omega)]
  exact ⟨runs_loop _ hord, (inv_start g r).loop_heap hord hslack⟩

namespace Outcome

variable {g : Graph} {r : SourceId} {s : State}

lemma inv (h : Outcome g r s) : ∃ done, Inv g r (expanded g r) done s ∧
    ∀ v t, s.tents.lookup v = some t → t.settled ∧ v ∈ done := by
  obtain ⟨hruns, hheap⟩ := h
  have hinv : ∃ done, Inv g r (expanded g r) done s := by
    clear hheap
    induction hruns with
    | refl => exact ⟨[], inv_start g r⟩
    | tail _ hturn ih =>
      obtain ⟨done, I⟩ := ih
      obtain ⟨done', I', -⟩ := I.turn hturn
      exact ⟨done', I'⟩
  obtain ⟨done, I⟩ := hinv
  refine ⟨done, I, fun v t ht => ?_⟩
  have hmem : v ∈ done := by
    by_contra hv
    have hq := I.queued v t ht hv
    rw [hheap] at hq
    cases hq
  exact ⟨(I.settled v t ht).2 hmem, hmem⟩

end Outcome

def State.label (s : State) (v : SourceId) : Option ℕ := (s.tents.lookup v).map Tent.dist

lemma State.label_eq_some {s : State} {v : SourceId} {d : ℕ} :
    s.label v = some d ↔ ∃ t, s.tents.lookup v = some t ∧ t.dist = d := by
  unfold label
  rw [Option.map_eq_some_iff]

lemma Outcome.labels {g : Graph} {r : SourceId} {s : State} (h : Outcome g r s) :
    Labels (Usable g r) r maxPathMetric s.label := by
  obtain ⟨done, I, hall⟩ := h.inv
  constructor
  · obtain ⟨t, ht, hd, -⟩ := I.root
    exact State.label_eq_some.2 ⟨t, ht, hd⟩
  · intro v d hv
    obtain ⟨t, ht, rfl⟩ := State.label_eq_some.1 hv
    exact I.real v t ht
  · intro u d v m hu he hlt
    obtain ⟨t, ht, rfl⟩ := State.label_eq_some.1 hu
    obtain ⟨e, hmem, rfl, rfl, hm⟩ := usable_iff.1 he
    obtain ⟨t', ht', hle⟩ := I.closed u (hall u t ht).2 t ht e hmem hm hlt
    exact ⟨t'.dist, State.label_eq_some.2 ⟨t', ht', rfl⟩, hle⟩

lemma lookup_compute {g : Graph} {root : SystemId} {level : Isis.Level} {v : SourceId}
    {n : NodeResult} :
    (compute g root level).nodes.lookup v = some n ↔
      g.lookup (newSourceID root 0) ≠ none ∧
        ∃ t, (search g (newSourceID root 0)).tents.lookup v = some t ∧
          n = ⟨v, t.dist, t.firstHops⟩ := by
  unfold compute
  rcases hg : g.lookup (newSourceID root 0) with _ | node
  · simp [hg]
  · obtain ⟨done, -, hall⟩ := (outcome_search g (newSourceID root 0)).inv
    simp only [hg, SortedMap.lookup_collect, Option.bind_eq_some_iff, ne_eq, reduceCtorEq,
      not_false_eq_true, true_and]
    constructor
    · rintro ⟨t, ht, hn⟩
      rw [if_pos (hall v t ht).1] at hn
      exact ⟨t, ht, (Option.some.inj hn).symm⟩
    · rintro ⟨t, ht, rfl⟩
      exact ⟨t, ht, by rw [if_pos (hall v t ht).1]⟩

/-- The nodes of the result and their metrics are those of the shortest paths from the root, where
it is a node of the graph: paths over edges below the maximum link metric that leave no overloaded
node but the root and stay below the maximum path metric. -/
theorem compute_metric_iff (g : Graph) (root : SystemId) (level : Isis.Level) (v : SourceId)
    (d : ℕ) :
    (∃ n, (compute g root level).nodes.lookup v = some n ∧ n.metric = d) ↔
      g.lookup (newSourceID root 0) ≠ none ∧
        IsLeast {c ∈ pathCosts (Usable g (newSourceID root 0)) (newSourceID root 0) v |
          c < maxPathMetric} d := by
  rw [← (outcome_search g (newSourceID root 0)).labels.isLeast_iff, State.label_eq_some]
  simp only [lookup_compute]
  constructor
  · rintro ⟨n, ⟨hroot, t, ht, rfl⟩, rfl⟩
    exact ⟨hroot, t, ht, rfl⟩
  · rintro ⟨hroot, t, ht, rfl⟩
    exact ⟨_, ⟨hroot, t, ht, rfl⟩, rfl⟩

end Ze.IsisSpf
