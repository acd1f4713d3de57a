import Ze.Lib.Heap
import Ze.IsisSpf.Graph

/-!
# The search

`Compute` of `internal/plugins/isis/spf/spf.go`: the shortest-path search of one level from the
local router, with its heap, its tentative states and the first hops it merges.
-/

namespace Ze.IsisSpf

open Ze.Lib List

/-! ## Metrics -/

def maxMetric : ℕ := 2 ^ 24 - 1

def maxPathMetric : ℕ := 0xFE000000

def clampMetric (base delta : ℕ) : ℕ :=
  let sum := (base + delta) % 2 ^ 64
  if sum < base ∨ maxPathMetric < sum then maxPathMetric else sum

/-! ## The heap and the tentative states -/

structure HeapItem where
  id : SourceId
  dist : ℕ
  deriving DecidableEq

/-- The order of the heap. Source: push, pop, the comparisons. -/
def HeapItem.less (a b : HeapItem) : Bool := decide (a.dist < b.dist)

structure Tent where
  dist : ℕ
  firstHops : List SystemId := []
  settled : Bool := false

/-- What the loop keeps. Source: Compute, h and tents. -/
structure State where
  heap : List HeapItem
  tents : SortedMap SourceId Tent

/-! ## First hops -/

def mergeHops (a b : List SystemId) : List SystemId :=
  b.foldl (fun out x => if x ∈ out then out else out ++ [x]) a

def firstHopsFor (cur : Tent) (fromId rootId toId : SourceId) : List SystemId :=
  if fromId = rootId then
    if isPseudonode toId then [] else [systemID toId]
  else if cur.firstHops.isEmpty && isPseudonode fromId && !isPseudonode toId then
    [systemID toId]
  else cur.firstHops

/-! ## The loop -/

def relax (cur : Tent) (fromId rootId : SourceId) (s : State) (e : Edge) : State :=
  if maxMetric ≤ e.metric.toNat then s
  else
    let nd := clampMetric cur.dist e.metric.toNat
    if maxPathMetric ≤ nd then s
    else
      let hops := firstHopsFor cur fromId rootId e.toId
      match s.tents.lookup e.toId with
      | none =>
        { heap := Heap.push HeapItem.less s.heap ⟨e.toId, nd⟩
          tents := s.tents.put e.toId { dist := nd, firstHops := hops } }
      | some nt =>
        if nt.settled then s
        else if nd < nt.dist then
          { heap := Heap.push HeapItem.less s.heap ⟨e.toId, nd⟩
            tents := s.tents.put e.toId { nt with dist := nd, firstHops := hops } }
        else if nd = nt.dist then
          { s with
            tents := s.tents.put e.toId { nt with firstHops := mergeHops nt.firstHops hops } }
        else s

/-- The edges that are relaxed when a node is settled: none of a node the graph does not hold, and
none of an overloaded one that is not the root.
Source: Compute, from the lookup of the node on. -/
def expanded (g : Graph) (rootId id : SourceId) : List Edge :=
  match g.lookup id with
  | none => []
  | some node => if node.overload && id ≠ rootId then [] else node.edges

/-- One turn of the loop with the item it has popped. Source: Compute, the body of the loop. -/
def visit (g : Graph) (rootId : SourceId) (s : State) (item : HeapItem) : State :=
  match s.tents.lookup item.id with
  | none => s
  | some cur =>
    if cur.settled then s
    else if cur.dist < item.dist then s
    else
      (expanded g rootId item.id).foldl (relax cur item.id rootId)
        { s with tents := s.tents.put item.id { cur with settled := true } }

/-- The loop, at most `n` turns of it. Source: Compute, the loop. -/
def loop (g : Graph) (rootId : SourceId) : ℕ → State → State
  | 0, s => s
  | n + 1, s =>
    match Heap.pop HeapItem.less s.heap with
    | none => s
    | some (item, heap) => loop g rootId n (visit g rootId { s with heap := heap } item)

/-- How the loop starts. Source: Compute, tents and h. -/
def start (rootId : SourceId) : State where
  heap := [⟨rootId, 0⟩]
  tents := SortedMap.empty.put rootId { dist := 0 }

def edgeCount (g : Graph) : ℕ := (g.items.map fun x => x.2.edges.length).sum

/-- Where the loop ends. Source: Compute, tents after the loop. -/
def search (g : Graph) (rootId : SourceId) : State :=
  loop g rootId (1 + edgeCount g) (start rootId)

/-! ## The result -/

structure NodeResult where
  id : SourceId
  metric : ℕ
  firstHops : List SystemId
  deriving DecidableEq

structure Result where
  root : SystemId
  level : Isis.Level
  nodes : SortedMap SourceId NodeResult

def compute (g : Graph) (root : SystemId) (level : Isis.Level) : Result :=
  let rootId := newSourceID root 0
  match g.lookup rootId with
  | none => ⟨root, level, .empty⟩
  | some _ =>
    { root := root
      level := level
      nodes := (search g rootId).tents.collect fun id t =>
        if t.settled then some ⟨id, t.dist, t.firstHops⟩ else none }

/-! ## What the parts do -/

lemma clampMetric_lt {base delta : ℕ} (hb : base < maxPathMetric) (hd : delta < maxMetric) :
    clampMetric base delta < maxPathMetric ↔ base + delta < maxPathMetric := by
  have hsum : (base + delta) % 2 ^ 64 = base + delta := by
    apply Nat.mod_eq_of_lt
    unfold maxPathMetric at hb
    unfold maxMetric at hd
    omega
  unfold clampMetric
  simp only [hsum]
  split_ifs <;> omega

lemma clampMetric_eq {base delta : ℕ} (h : base + delta < maxPathMetric) :
    clampMetric base delta = base + delta := by
  have hsum : (base + delta) % 2 ^ 64 = base + delta := by
    apply Nat.mod_eq_of_lt
    unfold maxPathMetric at h
    omega
  unfold clampMetric
  simp only [hsum]
  split_ifs <;> omega

lemma mem_mergeHops {a b : List SystemId} {h : SystemId} : h ∈ mergeHops a b ↔ h ∈ a ∨ h ∈ b := by
  unfold mergeHops
  induction b generalizing a with
  | nil => simp
  | cons x b ih =>
    rw [foldl_cons, ih, mem_cons]
    by_cases hx : x ∈ a
    · rw [if_pos hx]
      constructor
      · rintro (h | h)
        · exact .inl h
        · exact .inr (.inr h)
      · rintro (h | rfl | h)
        · exact .inl h
        · exact .inl hx
        · exact .inr h
    · rw [if_neg hx, mem_append, mem_singleton, or_assoc]

end Ze.IsisSpf
