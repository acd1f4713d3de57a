import Ze.IsisSpf.Distances

/-!
# Adjacencies that one side lists

Clause 7.2 of ISO/IEC 10589 lets a path use an adjacency only where both ends list it. Neither
`BuildGraph` nor `Compute` looks at the far end, so the paths the search uses are two-way exactly
for the LSPs that happen to be (`usedEdges_twoWay_iff`).
-/

namespace Ze.IsisSpf

open Ze.Lib List

def lists (records : List LspRecord) (u v : SourceId) : Bool :=
  (recordsOf records u).any fun rec => rec.edges.any fun e => e.toId = v

/-- The adjacencies the LSPs offer to a path: below the maximum link metric, and of a system whose
LSPs do not set the overload bit, or of the root. -/
def Advertised (records : List LspRecord) (r u v : SourceId) (m : ℕ) : Prop :=
  (u = r ∨ (recordsOf records u).any LspRecord.overload = false) ∧
    ∃ rec ∈ recordsOf records u, ∃ e ∈ rec.edges, e.toId = v ∧ e.metric.toNat = m ∧ m < maxMetric

/-- `u` to `v` is an edge of a path that the result uses towards a node: a path whose cost is the
node's metric. Source: spf.go NodeResult. -/
def UsedEdge (records : List LspRecord) (root : SystemId) (level : Isis.Level) (u v : SourceId) :
    Prop :=
  ∃ w n us, (compute (buildGraph records) root level).nodes.lookup w = some n ∧
    IsPath (Usable (buildGraph records) (newSourceID root 0)) (newSourceID root 0) (w :: us)
      n.metric ∧ [v, u] <:+: w :: us

variable {records : List LspRecord} {r u v : SourceId} {m : ℕ}

lemma usable_buildGraph : Usable (buildGraph records) r u v m ↔ Advertised records r u v m := by
  unfold Usable Advertised
  rw [lookup_buildGraph]
  by_cases hnil : recordsOf records u = []
  · rw [if_pos hnil, hnil]
    simp
  · rw [if_neg hnil]
    constructor
    · rintro ⟨node, hnode, hover, e, he, hrest⟩
      cases hnode
      obtain ⟨rec, hrec, he⟩ := mem_flatMap.1 he
      refine ⟨?_, rec, hrec, e, he, hrest⟩
      by_cases hu : u = r
      · exact .inl hu
      · exact .inr (Bool.eq_false_iff.2 fun h => hu (hover h))
    · rintro ⟨hover, rec, hrec, e, he, hrest⟩
      refine ⟨_, rfl, fun h => ?_, e, mem_flatMap.2 ⟨rec, hrec, he⟩, hrest⟩
      rcases hover with hu | hover
      · exact hu
      · simp only at h
        rw [hover] at h
        cases h

lemma Advertised.lists
    (h : Advertised records r u v m) : lists records u v := by
  obtain ⟨-, rec, hrec, e, he, hto, -⟩ := h
  refine any_eq_true.2 ⟨rec, hrec, any_eq_true.2 ⟨e, he, ?_⟩⟩
  simpa using hto

/-- The edges of the paths that the result uses are the last edges of the cheapest chains of
advertised adjacencies, from a root that has an LSP. -/
lemma usedEdge_iff (records : List LspRecord) (root : SystemId) (level : Isis.Level)
    (u v : SourceId) :
    UsedEdge records root level u v ↔
      recordsOf records (newSourceID root 0) ≠ [] ∧
        ∃ us c, c < maxPathMetric ∧
          IsShortest (Advertised records (newSourceID root 0))
    (newSourceID root 0) v (u :: us) c := by
  have hgraph : Usable (buildGraph records) (newSourceID root 0)
      = Advertised records (newSourceID root 0) := by
    funext a b m
    exact propext usable_buildGraph
  have hroot : (buildGraph records).lookup (newSourceID root 0) ≠ none ↔
      recordsOf records (newSourceID root 0) ≠ [] := by
    rw [lookup_buildGraph]
    by_cases hnil : recordsOf records (newSourceID root 0) = []
    · simp [hnil]
    · simp [hnil]
  have L := (outcome_search (buildGraph records) (newSourceID root 0)).labels
  unfold UsedEdge
  constructor
  · rintro ⟨w, n, us, hn, hp, hin⟩
    obtain ⟨hr, t, ht, rfl⟩ := lookup_compute.1 hn
    have hlabel := State.label_eq_some.2 ⟨t, ht, rfl⟩
    obtain ⟨us', hs'⟩ := L.exists_shortest hlabel
    have hs : IsShortest (Usable (buildGraph records) (newSourceID root 0)) (newSourceID root 0) w
        us t.dist := ⟨hp, hs'.least⟩
    obtain ⟨us₀, c, hle, hs₀⟩ := hs.of_infix hin
    rw [hgraph] at hs₀
    have hlt := (L.real w t.dist hlabel).1
    exact ⟨hroot.1 hr, us₀, c, by omega, hs₀⟩
  · rintro ⟨hr, us, c, hc, hs⟩
    rw [← hgraph] at hs
    obtain ⟨t, ht, hd⟩ := State.label_eq_some.1 (L.of_shortest hs hc)
    refine ⟨v, ⟨v, t.dist, t.firstHops⟩, u :: us, ?_, ?_, (prefix_append [v, u] us).isInfix⟩
    · exact lookup_compute.2 ⟨hroot.2 hr, t, ht, rfl⟩
    · rw [hd]
      exact hs.path

/-- Every edge of the paths that the result uses is listed by both its ends iff no
adjacency that one side alone lists is the last of a cheapest chain of advertised adjacencies from
the root. -/
theorem usedEdges_twoWay_iff (records : List LspRecord) (root : SystemId) (level : Isis.Level) :
    (∀ u v, UsedEdge records root level u v →
      lists records u v ∧ lists records v u) ↔
      ∀ u v, lists records u v → lists records v u = false →
        recordsOf records (newSourceID root 0) ≠ [] → ∀ us c,
          IsShortest (Advertised records (newSourceID root 0)) (newSourceID root 0) v (u :: us) c →
            maxPathMetric ≤ c := by
  constructor
  · intro h u v _ hback hr us c hs
    by_contra hc
    have := (h u v ((usedEdge_iff records root level u v).2 ⟨hr, us, c, by omega, hs⟩)).2
    rw [hback] at this
    cases this
  · intro h u v hused
    obtain ⟨hr, us, c, hc, hs⟩ := (usedEdge_iff records root level u v).1 hused
    obtain ⟨_, _, he, -, -⟩ := hs.tail
    refine ⟨he.lists, ?_⟩
    by_contra hback
    rw [Bool.not_eq_true] at hback
    have := h u v he.lists hback hr us c hs
    omega

/-- Systems 1 and 3 list each other at 1, 1 and 4 at 10, and 3 lists 4 at 1, which does not list 3.
-/
def oneWay : List LspRecord :=
  [ ⟨newSourceID 1 0, false,
      [⟨22, [0, 0, 0, 0, 0, 3, 0, 0, 0, 1, 0, 0, 0, 0, 0, 0, 4, 0, 0, 0, 10, 0]⟩]⟩,
    ⟨newSourceID 3 0, false,
      [⟨22, [0, 0, 0, 0, 0, 1, 0, 0, 0, 1, 0, 0, 0, 0, 0, 0, 4, 0, 0, 0, 1, 0]⟩]⟩,
    ⟨newSourceID 4 0, false, [⟨22, [0, 0, 0, 0, 0, 1, 0, 0, 0, 10, 0]⟩]⟩ ]

/-- The path to system 4 runs over the adjacency that only system 3 lists. -/
theorem oneWay_used : ¬ ∀ u v, UsedEdge oneWay 1 .l1 u v → lists oneWay u v ∧ lists oneWay v u := by
  intro h
  have hn : (compute (buildGraph oneWay) 1 .l1).nodes.lookup (newSourceID 4 0)
      = some ⟨newSourceID 4 0, 2, [3]⟩ := by decide +kernel
  have hedge : ∀ u v m,
      (⟨v, m⟩ : Edge) ∈ expanded (buildGraph oneWay) (newSourceID 1 0) u → m.toNat < maxMetric →
        Usable (buildGraph oneWay) (newSourceID 1 0) u v m.toNat := fun u v m he hm =>
    usable_iff.2 ⟨⟨v, m⟩, he, rfl, rfl, hm⟩
  have hpath : IsPath (Usable (buildGraph oneWay) (newSourceID 1 0)) (newSourceID 1 0)
      [newSourceID 4 0, newSourceID 3 0, newSourceID 1 0] 2 :=
    ⟨.step (.step .start (hedge _ _ 1 (by decide +kernel) (by decide)))
      (hedge _ _ 1 (by decide +kernel) (by decide)), by decide⟩
  have hused : UsedEdge oneWay 1 .l1 (newSourceID 3 0) (newSourceID 4 0) :=
    ⟨_, _, _, hn, hpath, (prefix_append _ [newSourceID 1 0]).isInfix⟩
  have hback : lists oneWay (newSourceID 4 0) (newSourceID 3 0) = false := by decide +kernel
  rw [(h _ _ hused).2] at hback
  cases hback

end Ze.IsisSpf
