import Mathlib.Logic.Relation
import Ze.Lib.ShortestPath
import Ze.IsisSpf.Compute

/-!
# What the search keeps

One invariant carries both the distances and the first hops. It is stated with a history that the
program does not keep: `done`, the settled nodes, the latest first. A node is `Before` another when
there was a moment at which only the first one was settled.
-/

namespace Ze.IsisSpf

open Ze.Lib List
open SortedMap (lookup_put lookup_put_some)
open HeapItem (less)
open Option (some.inj)
open Function (update update_eq_self update_idem update_of_ne update_self)

/-- What one relaxation can do: nothing, where the edge or the sum is too large or the target is
settled or closer; a new distance with new first hops; or a merge of first hops at the same
distance. -/
lemma relax_cases (cur : Tent) (u r : SourceId) (s : State) (e : Edge)
    (hcur : cur.dist < maxPathMetric) :
    (relax cur u r s e = s ∧
      (e.metric.toNat < maxMetric → cur.dist + e.metric.toNat < maxPathMetric →
        ∃ nt, s.tents.lookup e.toId = some nt ∧
          (nt.settled ∨ nt.dist < cur.dist + e.metric.toNat))) ∨
    (e.metric.toNat < maxMetric ∧ cur.dist + e.metric.toNat < maxPathMetric ∧
      (∀ nt, s.tents.lookup e.toId = some nt →
        nt.settled = false ∧ cur.dist + e.metric.toNat < nt.dist) ∧
      relax cur u r s e =
        { heap := Heap.push less s.heap ⟨e.toId, cur.dist + e.metric.toNat⟩
          tents := s.tents.put e.toId
            { dist := cur.dist + e.metric.toNat
              firstHops := firstHopsFor cur u r e.toId } }) ∨
    (e.metric.toNat < maxMetric ∧ cur.dist + e.metric.toNat < maxPathMetric ∧
      ∃ nt, s.tents.lookup e.toId = some nt ∧ nt.settled = false ∧
        nt.dist = cur.dist + e.metric.toNat ∧
        relax cur u r s e =
          { s with
            tents := s.tents.put e.toId
              { nt with firstHops := mergeHops nt.firstHops (firstHopsFor cur u r e.toId) } }) := by
  unfold relax
  by_cases hm : maxMetric ≤ e.metric.toNat
  · rw [if_pos hm]
    exact .inl ⟨rfl, fun h => absurd h (by omega)⟩
  rw [if_neg hm]
  have hm' : e.metric.toNat < maxMetric := by omega
  by_cases hsum : cur.dist + e.metric.toNat < maxPathMetric
  swap
  · have hge : ¬ clampMetric cur.dist e.metric.toNat < maxPathMetric :=
      fun h => hsum ((clampMetric_lt hcur hm').1 h)
    simp only
    rw [if_pos (by omega)]
    exact .inl ⟨rfl, fun _ h => absurd h hsum⟩
  simp only [clampMetric_eq hsum]
  rw [if_neg (by omega)]
  rcases hl : s.tents.lookup e.toId with _ | nt
  · exact .inr (.inl ⟨hm', hsum, by simp, rfl⟩)
  simp only
  by_cases hset : nt.settled
  · rw [if_pos hset]
    exact .inl ⟨rfl, fun _ _ => ⟨nt, rfl, .inl hset⟩⟩
  rw [if_neg hset]
  rw [Bool.not_eq_true] at hset
  by_cases hlt : cur.dist + e.metric.toNat < nt.dist
  · rw [if_pos hlt]
    refine .inr (.inl ⟨hm', hsum, ?_, ?_⟩)
    · rintro _ ⟨⟩
      exact ⟨hset, hlt⟩
    · rw [hset]
  rw [if_neg hlt]
  by_cases heq : cur.dist + e.metric.toNat = nt.dist
  · rw [if_pos heq]
    exact .inr (.inr ⟨hm', hsum, nt, rfl, hset, heq.symm, rfl⟩)
  · rw [if_neg heq]
    exact .inl ⟨rfl, fun _ _ => ⟨nt, rfl, .inr (by omega)⟩⟩

/-! ## The history -/

/-- There was a moment at which `u` was settled and `v` was not. -/
def Before (done : List SourceId) (u v : SourceId) : Prop :=
  ∃ l, l <:+ done ∧ u ∈ l ∧ v ∉ l

variable {u v w : SourceId} {tents : SortedMap SourceId Tent} {tu : Tent} {d : ℕ}

lemma Before.mem {done : List SourceId} (h : Before done u v) : u ∈ done := by
  obtain ⟨l, hl, hu, -⟩ := h
  exact hl.subset hu

lemma before_of_not_mem {done : List SourceId} (hu : u ∈ done)
    (hv : v ∉ done) : Before done u v := ⟨done, suffix_rfl, hu, hv⟩

lemma before_cons {done : List SourceId} :
    Before (w :: done) u v ↔ Before done u v ∨ (u = w ∧ v ≠ w ∧ v ∉ done) := by
  constructor
  · rintro ⟨l, hl, hu, hv⟩
    rcases suffix_cons_iff.1 hl with rfl | hl
    · rw [mem_cons, not_or] at hv
      rcases mem_cons.1 hu with rfl | hu
      · exact .inr ⟨rfl, hv.1, hv.2⟩
      · exact .inl (before_of_not_mem hu hv.2)
    · exact .inl ⟨l, hl, hu, hv⟩
  · rintro (⟨l, hl, hu, hv⟩ | ⟨rfl, hvw, hv⟩)
    · exact ⟨l, hl.trans (suffix_cons _ _), hu, hv⟩
    · exact ⟨u :: done, suffix_rfl, mem_cons_self, by simp [hvw, hv]⟩

lemma before_head {done : List SourceId} (hn : (u :: done).Nodup) :
    Before (u :: done) u v ↔ v ∉ u :: done := by
  rw [before_cons, mem_cons, not_or]
  constructor
  · rintro (h | ⟨-, h⟩)
    · exact absurd h.mem (nodup_cons.1 hn).1
    · exact h
  · intro h
    exact .inr ⟨rfl, h⟩

lemma before_total {done : List SourceId} (hn : done.Nodup) (hu : u ∈ done)
    (hv : v ∈ done) (hne : u ≠ v) : Before done u v ∨ Before done v u := by
  induction done with
  | nil => cases hu
  | cons w done ih =>
    obtain ⟨hw, hn'⟩ := nodup_cons.1 hn
    rcases mem_cons.1 hu with rfl | hu'
    · rcases mem_cons.1 hv with rfl | hv'
      · exact absurd rfl hne
      · exact .inr (before_cons.2 (.inl (before_of_not_mem hv' hw)))
    · rcases mem_cons.1 hv with rfl | hv'
      · exact .inl (before_cons.2 (.inl (before_of_not_mem hu' hw)))
      · rcases ih hn' hu' hv' with h | h
        · exact .inl (before_cons.2 (.inl h))
        · exact .inr (before_cons.2 (.inl h))

/-- `u` was settled before `v` and has relaxed an edge that reaches `v` at `d`. -/
structure Feeds (rel : SourceId → List Edge) (done : List SourceId)
    (tents : SortedMap SourceId Tent)
    (u : SourceId) (tu : Tent) (v : SourceId) (d : ℕ) : Prop where
  before : Before done u v
  tent : tents.lookup u = some tu
  edge : ∃ e ∈ rel u, e.toId = v ∧ e.metric.toNat < maxMetric ∧ tu.dist + e.metric.toNat = d

/-- The edges relaxed so far after one more out of `c`. -/
def grow (rel : SourceId → List Edge) (c : SourceId) (e : Edge) : SourceId → List Edge :=
  update rel c (rel c ++ [e])

lemma mem_grow {rel : SourceId → List Edge} {c : SourceId} {e e' : Edge} :
    e' ∈ grow rel c e u ↔ e' ∈ rel u ∨ (u = c ∧ e' = e) := by
  unfold grow
  by_cases hu : u = c
  · subst hu
    rw [update_self, mem_append, mem_singleton]
    simp
  · rw [update_of_ne hu]
    simp [hu]

lemma feeds_grow {rel : SourceId → List Edge} {done : List SourceId} {c : SourceId} {e : Edge} :
    Feeds (grow rel c e) done tents u tu v d ↔
      Feeds rel done tents u tu v d ∨
        (u = c ∧ Before done c v ∧ tents.lookup c = some tu ∧ e.toId = v ∧
          e.metric.toNat < maxMetric ∧ tu.dist + e.metric.toNat = d) := by
  constructor
  · rintro ⟨hb, ht, e', he', hto, hm, hd⟩
    rcases mem_grow.1 he' with he' | ⟨rfl, rfl⟩
    · exact .inl ⟨hb, ht, e', he', hto, hm, hd⟩
    · exact .inr ⟨rfl, hb, ht, hto, hm, hd⟩
  · rintro (⟨hb, ht, e', he', hto, hm, hd⟩ | ⟨rfl, hb, ht, hto, hm, hd⟩)
    · exact ⟨hb, ht, e', mem_grow.2 (.inl he'), hto, hm, hd⟩
    · exact ⟨hb, ht, e, mem_grow.2 (.inr ⟨rfl, rfl⟩), hto, hm, hd⟩

lemma feeds_put {rel : SourceId → List Edge} {done : List SourceId} {t : Tent} (hw : w ∉ done) :
    Feeds rel done (tents.put w t) u tu v d ↔ Feeds rel done tents u tu v d := by
  have hsame : Before done u v → (tents.put w t).lookup u = tents.lookup u := by
    intro hb
    rw [lookup_put, if_neg]
    rintro rfl
    exact hw hb.mem
  constructor
  · rintro ⟨hb, ht, he⟩
    exact ⟨hb, by rw [← hsame hb, ht], he⟩
  · rintro ⟨hb, ht, he⟩
    exact ⟨hb, by rw [hsame hb, ht], he⟩

/-! ## The invariant -/

/-- The edges a path may use: an adjacency below the maximum link metric, out of a node that is not
overloaded or is the root. -/
def Usable (g : Graph) (r u v : SourceId) (m : ℕ) : Prop :=
  ∃ node, g.lookup u = some node ∧ (node.overload = true → u = r) ∧
    ∃ e ∈ node.edges, e.toId = v ∧ e.metric.toNat = m ∧ m < maxMetric

lemma usable_iff {g : Graph} {r : SourceId} {m : ℕ} :
    Usable g r u v m ↔
      ∃ e ∈ expanded g r u, e.toId = v ∧ e.metric.toNat = m ∧ m < maxMetric := by
  unfold Usable expanded
  rcases g.lookup u with _ | node
  · simp
  · by_cases hu : u = r
    · simp [hu]
    · by_cases ho : node.overload
      · simp [hu, ho]
      · simp [ho]

/-- What holds after every relaxation. Source: spf.go Compute. -/
structure Inv (g : Graph) (r : SourceId) (rel : SourceId → List Edge) (done : List SourceId)
    (s : State) : Prop where
  root : ∃ t, s.tents.lookup r = some t ∧ t.dist = 0 ∧ t.firstHops = []
  rootDone : done ≠ [] → r ∈ done
  first : done = [] → ∀ v t, s.tents.lookup v = some t → v = r
  real : ∀ v t, s.tents.lookup v = some t →
    t.dist < maxPathMetric ∧ ∃ us, Trail (Usable g r) r (v :: us) t.dist
  settled : ∀ v t, s.tents.lookup v = some t → (t.settled = true ↔ v ∈ done)
  known : ∀ v ∈ done, ∃ t, s.tents.lookup v = some t
  nodup : done.Nodup
  queued : ∀ v t, s.tents.lookup v = some t → v ∉ done → ⟨v, t.dist⟩ ∈ s.heap
  items : ∀ i ∈ s.heap, ∃ t, s.tents.lookup i.id = some t ∧ t.dist ≤ i.dist
  low : ∀ u ∈ done, ∀ t, s.tents.lookup u = some t → ∀ i ∈ s.heap, t.dist ≤ i.dist
  mono : ∀ u tu v tv, Before done u v → s.tents.lookup u = some tu → s.tents.lookup v = some tv →
    tu.dist ≤ tv.dist
  closed : ∀ u ∈ done, ∀ t, s.tents.lookup u = some t → ∀ e ∈ rel u,
    e.metric.toNat < maxMetric → t.dist + e.metric.toNat < maxPathMetric →
    ∃ t', s.tents.lookup e.toId = some t' ∧ t'.dist ≤ t.dist + e.metric.toNat
  hops : ∀ v t, s.tents.lookup v = some t → v ≠ r → ∀ h, h ∈ t.firstHops ↔
    ∃ u tu, Feeds rel done s.tents u tu v t.dist ∧ h ∈ firstHopsFor tu u r v
  fed : ∀ v t, s.tents.lookup v = some t → v ≠ r → ∃ u tu, Feeds rel done s.tents u tu v t.dist

section

variable {g : Graph} {r c : SourceId} {rel : SourceId → List Edge} {done : List SourceId}
  {s : State} {cur : Tent} {e : Edge}

section

variable (I : Inv g r rel (c :: done) s) (hc : s.tents.lookup c = some cur)
include I hc

lemma Inv.le_latest {v : SourceId} {t : Tent} (hv : v ∈ c :: done)
    (ht : s.tents.lookup v = some t) : t.dist ≤ cur.dist := by
  rcases mem_cons.1 hv with rfl | hv'
  · rw [hc] at ht
    cases ht
    exact le_rfl
  · apply I.mono v t c cur _ ht hc
    exact before_cons.2 (.inl (before_of_not_mem hv' (nodup_cons.1 I.nodup).1))

lemma Inv.skip
    (hskip : e.metric.toNat < maxMetric → cur.dist + e.metric.toNat < maxPathMetric →
      ∃ nt, s.tents.lookup e.toId = some nt ∧
        (nt.settled ∨ nt.dist < cur.dist + e.metric.toNat)) :
    Inv g r (grow rel c e) (c :: done) s := by
  -- the edge feeds nothing: what it reaches is settled already, or closer
  have hfeeds : ∀ u tu v t, s.tents.lookup v = some t →
      (Feeds (grow rel c e) (c :: done) s.tents u tu v t.dist ↔
        Feeds rel (c :: done) s.tents u tu v t.dist) := by
    intro u tu v t ht
    rw [feeds_grow]
    constructor
    · rintro (h | ⟨rfl, hb, htu, rfl, hm, hd⟩)
      · exact h
      · exfalso
        rw [hc] at htu
        cases htu
        obtain ⟨nt, hnt, hcase⟩ := hskip hm (by rw [hd]; exact (I.real _ t ht).1)
        rw [ht] at hnt
        cases hnt
        rcases hcase with hset | hlt
        · exact (before_head I.nodup).1 hb ((I.settled _ _ ht).1 hset)
        · omega
    · exact .inl
  refine { I with closed := ?_, hops := ?_, fed := ?_ }
  · intro u hu t ht e' he' hm hsum
    rcases mem_grow.1 he' with he' | ⟨rfl, rfl⟩
    · exact I.closed u hu t ht e' he' hm hsum
    · rw [hc] at ht
      cases ht
      obtain ⟨nt, hnt, hcase⟩ := hskip hm hsum
      refine ⟨nt, hnt, ?_⟩
      rcases hcase with hset | hlt
      · have := I.le_latest hc ((I.settled _ _ hnt).1 hset) hnt
        omega
      · omega
  · intro v t ht hv h
    rw [I.hops v t ht hv h]
    constructor
    · rintro ⟨u, tu, hf, hh⟩
      exact ⟨u, tu, (hfeeds u tu v t ht).2 hf, hh⟩
    · rintro ⟨u, tu, hf, hh⟩
      exact ⟨u, tu, (hfeeds u tu v t ht).1 hf, hh⟩
  · intro v t ht hv
    obtain ⟨u, tu, hf⟩ := I.fed v t ht hv
    exact ⟨u, tu, (hfeeds u tu v t ht).2 hf⟩

lemma Inv.write
    (he : e ∈ expanded g r c) (hm : e.metric.toNat < maxMetric)
    (hsum : cur.dist + e.metric.toNat < maxPathMetric) {t' : Tent} {heap' : List HeapItem}
    (hd : t'.dist = cur.dist + e.metric.toNat) (hns : t'.settled = false)
    (hold : ∀ nt, s.tents.lookup e.toId = some nt → nt.settled = false ∧ t'.dist ≤ nt.dist)
    (hhops : ∀ h, h ∈ t'.firstHops ↔
      (∃ nt, s.tents.lookup e.toId = some nt ∧ nt.dist = t'.dist ∧ h ∈ nt.firstHops) ∨
        h ∈ firstHopsFor cur c r e.toId)
    (hheap : ∀ i, i ∈ heap' ↔ i = ⟨e.toId, t'.dist⟩ ∨ i ∈ s.heap) :
    Inv g r (grow rel c e) (c :: done) { heap := heap', tents := s.tents.put e.toId t' } := by
  have hnew : e.toId ∉ c :: done := by
    intro hmem
    obtain ⟨nt, hnt⟩ := I.known _ hmem
    have hset := (I.settled _ nt hnt).2 hmem
    rw [(hold nt hnt).1] at hset
    cases hset
  have hroot : r ∈ c :: done := I.rootDone (by simp)
  have hne : r ≠ e.toId := fun h => hnew (h ▸ hroot)
  have hput : ∀ v, (s.tents.put e.toId t').lookup v
      = if v = e.toId then some t' else s.tents.lookup v := fun v =>
    lookup_put s.tents e.toId v t'
  have hother : ∀ v, v ∈ c :: done → (s.tents.put e.toId t').lookup v = s.tents.lookup v := by
    intro v hv
    rw [hput, if_neg]
    rintro rfl
    exact hnew hv
  have hfeeds : ∀ u tu v d, Feeds (grow rel c e) (c :: done) (s.tents.put e.toId t') u tu v d ↔
        Feeds rel (c :: done) s.tents u tu v d ∨
          (u = c ∧ tu = cur ∧ e.toId = v ∧ t'.dist = d) := by
    intro u tu v d
    rw [feeds_put hnew, feeds_grow, hc, hd]
    constructor
    · rintro (h | ⟨rfl, -, htu, hto, -, hsd⟩)
      · exact .inl h
      · cases htu
        exact .inr ⟨rfl, rfl, hto, hsd⟩
    · rintro (h | ⟨rfl, rfl, rfl, hsd⟩)
      · exact .inl h
      · exact .inr ⟨rfl, (before_head I.nodup).2 hnew, rfl, rfl, hm, hsd⟩
  -- an edge relaxed earlier that reaches the target at its new distance found it there already
  have hsame : ∀ u tu, Feeds rel (c :: done) s.tents u tu e.toId t'.dist →
      ∃ nt, s.tents.lookup e.toId = some nt ∧ nt.dist = t'.dist := by
    rintro u tu ⟨hb, htu, e', he', hto, hm', hsd⟩
    obtain ⟨nt, hnt, hle⟩ := I.closed u hb.mem tu htu e' he' hm' (by omega)
    rw [hto] at hnt
    exact ⟨nt, hnt, le_antisymm (by omega) (hold nt hnt).2⟩
  refine ⟨?_, I.rootDone, fun h => absurd h (by simp), ?_, ?_, ?_, I.nodup, ?_, ?_, ?_, ?_, ?_, ?_,
    ?_⟩
  · obtain ⟨t, ht, h⟩ := I.root
    exact ⟨t, by rw [hput, if_neg hne, ht], h⟩
  · -- real
    intro v t ht
    rcases lookup_put_some ht with ⟨hv, rfl⟩ | ⟨hv, ht⟩
    · obtain ⟨-, us, htr⟩ := I.real c cur hc
      refine ⟨by rw [hd]; exact hsum, c :: us, ?_⟩
      rw [hd, hv]
      exact .step htr (usable_iff.2 ⟨e, he, rfl, rfl, hm⟩)
    · exact I.real v t ht
  · -- settled
    intro v t ht
    rcases lookup_put_some ht with ⟨hv, rfl⟩ | ⟨hv, ht⟩
    · rw [hns, hv]
      simp only [Bool.false_eq_true, false_iff]
      exact hnew
    · exact I.settled v t ht
  · -- known
    intro v hv
    rw [hother v hv]
    exact I.known v hv
  · -- queued
    intro v t ht hv
    rcases lookup_put_some ht with ⟨hv', rfl⟩ | ⟨hv', ht⟩
    · exact (hheap _).2 (.inl (by rw [hv']))
    · exact (hheap _).2 (.inr (I.queued v t ht hv))
  · -- items
    intro i hi
    rcases (hheap i).1 hi with rfl | hi
    · exact ⟨t', by rw [hput, if_pos rfl], le_rfl⟩
    · obtain ⟨t, ht, hle⟩ := I.items i hi
      by_cases hv : i.id = e.toId
      · refine ⟨t', by rw [hput, if_pos hv], ?_⟩
        rw [hv] at ht
        exact (hold t ht).2.trans hle
      · exact ⟨t, by rw [hput, if_neg hv, ht], hle⟩
  · -- low
    intro u hu t ht i hi
    rw [hother u hu] at ht
    rcases (hheap i).1 hi with rfl | hi
    · have := I.le_latest hc hu ht
      simp only
      omega
    · exact I.low u hu t ht i hi
  · -- mono
    intro u tu v tv hb htu htv
    rw [hother u hb.mem] at htu
    rcases lookup_put_some htv with ⟨hv, rfl⟩ | ⟨hv, htv⟩
    · have := I.le_latest hc hb.mem htu
      omega
    · exact I.mono u tu v tv hb htu htv
  · -- closed
    intro u hu t ht e' he' hm' hsum'
    rw [hother u hu] at ht
    rcases mem_grow.1 he' with he' | ⟨rfl, rfl⟩
    · obtain ⟨t₁, ht₁, hle⟩ := I.closed u hu t ht e' he' hm' hsum'
      by_cases hv : e'.toId = e.toId
      · refine ⟨t', by rw [hput, if_pos hv], ?_⟩
        rw [hv] at ht₁
        exact (hold t₁ ht₁).2.trans hle
      · exact ⟨t₁, by rw [hput, if_neg hv, ht₁], hle⟩
    · rw [hc] at ht
      cases ht
      exact ⟨t', by rw [hput, if_pos rfl], by omega⟩
  · -- hops
    intro v t ht hv h
    rcases lookup_put_some ht with ⟨hv', rfl⟩ | ⟨hv', ht⟩
    · subst hv'
      rw [hhops]
      constructor
      · rintro (⟨nt, hnt, hdn, hh⟩ | hh)
        · obtain ⟨u, tu, hf, hh'⟩ := (I.hops _ nt hnt hv h).1 hh
          rw [hdn] at hf
          exact ⟨u, tu, (hfeeds _ _ _ _).2 (.inl hf), hh'⟩
        · exact ⟨c, cur, (hfeeds _ _ _ _).2 (.inr ⟨rfl, rfl, rfl, rfl⟩), hh⟩
      · rintro ⟨u, tu, hf, hh⟩
        rcases (hfeeds _ _ _ _).1 hf with hf | ⟨rfl, rfl, -, -⟩
        · obtain ⟨nt, hnt, hdn⟩ := hsame u tu hf
          refine .inl ⟨nt, hnt, hdn, (I.hops _ nt hnt hv h).2 ⟨u, tu, ?_, hh⟩⟩
          rw [hdn]
          exact hf
        · exact .inr hh
    · rw [I.hops v t ht hv h]
      constructor
      · rintro ⟨u, tu, hf, hh⟩
        exact ⟨u, tu, (hfeeds _ _ _ _).2 (.inl hf), hh⟩
      · rintro ⟨u, tu, hf, hh⟩
        rcases (hfeeds _ _ _ _).1 hf with hf | ⟨-, -, hto, -⟩
        · exact ⟨u, tu, hf, hh⟩
        · exact absurd hto.symm hv'
  · -- fed
    intro v t ht hv
    rcases lookup_put_some ht with ⟨hv', rfl⟩ | ⟨hv', ht⟩
    · exact ⟨c, cur, (hfeeds _ _ _ _).2 (.inr ⟨rfl, rfl, hv'.symm, rfl⟩)⟩
    · obtain ⟨u, tu, hf⟩ := I.fed v t ht hv
      exact ⟨u, tu, (hfeeds _ _ _ _).2 (.inl hf)⟩

lemma Inv.relax (he : e ∈ expanded g r c) :
    Inv g r (grow rel c e) (c :: done) (relax cur c r s e) ∧
      (IsisSpf.relax cur c r s e).tents.lookup c = some cur := by
  have hcset : cur.settled := (I.settled c cur hc).2 mem_cons_self
  rcases relax_cases cur c r s e (I.real c cur hc).1 with
    ⟨heq, hskip⟩ | ⟨hm, hsum, hold, heq⟩ | ⟨hm, hsum, nt, hnt, hns, hdn, heq⟩
  · rw [heq]
    exact ⟨I.skip hc hskip, hc⟩
  · have hne : c ≠ e.toId := by
      intro h
      rw [(hold cur (h ▸ hc)).1] at hcset
      cases hcset
    rw [heq]
    refine ⟨I.write hc he hm hsum rfl rfl ?_ ?_ ?_, ?_⟩
    · intro nt hnt
      exact ⟨(hold nt hnt).1, (hold nt hnt).2.le⟩
    · intro h
      constructor
      · exact .inr
      · rintro (⟨nt, hnt, hdn, -⟩ | hh)
        · have := (hold nt hnt).2
          simp only at hdn
          omega
        · exact hh
    · intro i
      exact Heap.mem_push
    · rw [lookup_put, if_neg hne, hc]
  · have hne : c ≠ e.toId := by
      intro h
      rw [← h, hc] at hnt
      cases hnt
      rw [hns] at hcset
      cases hcset
    have hnew : e.toId ∉ c :: done := by
      intro hmem
      rw [(I.settled _ nt hnt).2 hmem] at hns
      cases hns
    rw [heq]
    refine ⟨I.write hc he hm hsum hdn hns ?_ ?_ ?_, ?_⟩
    · intro nt' hnt'
      rw [hnt] at hnt'
      cases hnt'
      exact ⟨hns, le_rfl⟩
    · intro h
      simp only [mem_mergeHops]
      constructor
      · rintro (hh | hh)
        · exact .inl ⟨nt, hnt, rfl, hh⟩
        · exact .inr hh
      · rintro (⟨nt', hnt', -, hh⟩ | hh)
        · rw [hnt] at hnt'
          cases hnt'
          exact .inl hh
        · exact .inr hh
    · intro i
      constructor
      · exact .inr
      · rintro (rfl | hi)
        · exact I.queued _ nt hnt hnew
        · exact hi
    · rw [lookup_put, if_neg hne, hc]

end

lemma Inv.relaxAll (es : List Edge) (I : Inv g r rel (c :: done) s)
    (hc : s.tents.lookup c = some cur) (hes : ∀ e ∈ es, e ∈ expanded g r c) :
    Inv g r (update rel c (rel c ++ es)) (c :: done)
      (es.foldl (IsisSpf.relax cur c r) s) := by
  induction es generalizing rel s with
  | nil =>
    rw [append_nil, update_eq_self]
    exact I
  | cons e es ih =>
    obtain ⟨I', hc'⟩ := I.relax hc (hes e mem_cons_self)
    have hrest := ih I' hc' fun e' he' => hes e' (mem_cons_of_mem _ he')
    have hrel : update (grow rel c e) c (grow rel c e c ++ es)
        = update rel c (rel c ++ e :: es) := by
      unfold grow
      rw [update_idem, update_self, append_assoc, singleton_append]
    rw [hrel] at hrest
    exact hrest

/-! ## One turn of the loop -/

variable {item : HeapItem} {heap : List HeapItem}

lemma Inv.drop (I : Inv g r rel done s) (hperm : s.heap.Perm (item :: heap))
    (hstale : ∀ t, s.tents.lookup item.id = some t → item.id ∉ done → t.dist < item.dist) :
    Inv g r rel done { s with heap := heap } := by
  have hsub : ∀ i ∈ heap, i ∈ s.heap := fun i hi => hperm.mem_iff.2 (mem_cons_of_mem _ hi)
  refine { I with queued := ?_, items := ?_, low := ?_ }
  · intro v t ht hv
    rcases mem_cons.1 (hperm.mem_iff.1 (I.queued v t ht hv)) with h | h
    · subst h
      exact absurd (hstale t ht hv) (by simp)
    · exact h
  · exact fun i hi => I.items i (hsub i hi)
  · exact fun u hu t ht i hi => I.low u hu t ht i (hsub i hi)

lemma Inv.settle (I : Inv g r rel done s) (hperm : s.heap.Perm (item :: heap))
    (hleast : ∀ i ∈ heap, item.dist ≤ i.dist)
    (hc : s.tents.lookup item.id = some cur) (hns : cur.settled = false)
    (hle : item.dist ≤ cur.dist) :
    Inv g r (update rel item.id []) (item.id :: done)
      { heap := heap, tents := s.tents.put item.id { cur with settled := true } } := by
  have hsub : ∀ i ∈ heap, i ∈ s.heap := fun i hi => hperm.mem_iff.2 (mem_cons_of_mem _ hi)
  have hmem : item ∈ s.heap := hperm.mem_iff.2 mem_cons_self
  have hmin : ∀ i ∈ s.heap, item.dist ≤ i.dist := by
    intro i hi
    rcases mem_cons.1 (hperm.mem_iff.1 hi) with rfl | hi
    · exact le_rfl
    · exact hleast i hi
  have heq : cur.dist = item.dist := by
    obtain ⟨t, ht, hle'⟩ := I.items item hmem
    rw [hc] at ht
    cases ht
    omega
  have hnew : item.id ∉ done := by
    intro h
    rw [(I.settled _ cur hc).2 h] at hns
    cases hns
  have hput : ∀ v, (s.tents.put item.id { cur with settled := true }).lookup v
      = if v = item.id then some { cur with settled := true } else s.tents.lookup v := fun v =>
    lookup_put s.tents item.id v _
  -- the distances and the first hops are as they were
  have hold : ∀ v t, (s.tents.put item.id { cur with settled := true }).lookup v = some t →
      ∃ t₀, s.tents.lookup v = some t₀ ∧ t₀.dist = t.dist ∧ t₀.firstHops = t.firstHops := by
    intro v t ht
    rcases lookup_put_some ht with ⟨hv, rfl⟩ | ⟨hv, ht⟩
    · exact ⟨cur, by rw [hv, hc], rfl, rfl⟩
    · exact ⟨t, ht, rfl, rfl⟩
  have hkeep : ∀ v t₀, s.tents.lookup v = some t₀ →
      ∃ t, (s.tents.put item.id { cur with settled := true }).lookup v = some t ∧
        t.dist = t₀.dist := by
    intro v t₀ ht
    rw [hput]
    by_cases hv : v = item.id
    · rw [hv, hc] at ht
      cases ht
      exact ⟨{ cur with settled := true }, by rw [if_pos hv], rfl⟩
    · exact ⟨t₀, by rw [if_neg hv, ht], rfl⟩
  have hfeeds : ∀ u tu v d, Feeds (update rel item.id []) (item.id :: done)
          (s.tents.put item.id { cur with settled := true }) u tu v d ↔
        Feeds rel done s.tents u tu v d := by
    intro u tu v d
    constructor
    · rintro ⟨hb, htu, e, he, hrest⟩
      rcases before_cons.1 hb with hb | ⟨rfl, -, -⟩
      · have hu : u ≠ item.id := fun h => hnew (h ▸ hb.mem)
        rw [hput, if_neg hu] at htu
        rw [update_of_ne hu] at he
        exact ⟨hb, htu, e, he, hrest⟩
      · rw [update_self] at he
        cases he
    · rintro ⟨hb, htu, e, he, hrest⟩
      have hu : u ≠ item.id := fun h => hnew (h ▸ hb.mem)
      refine ⟨before_cons.2 (.inl hb), by rw [hput, if_neg hu, htu], e, ?_, hrest⟩
      rw [update_of_ne hu]
      exact he
  refine ⟨?_, ?_, fun h => absurd h (by simp), ?_, ?_, ?_, nodup_cons.2 ⟨hnew, I.nodup⟩, ?_, ?_, ?_,
    ?_, ?_, ?_, ?_⟩
  · -- root
    obtain ⟨t₀, ht₀, hd, hh⟩ := I.root
    rw [hput]
    by_cases hr : r = item.id
    · rw [hr, hc] at ht₀
      cases ht₀
      exact ⟨{ cur with settled := true }, by rw [if_pos hr], hd, hh⟩
    · exact ⟨t₀, by rw [if_neg hr, ht₀], hd, hh⟩
  · -- rootDone
    intro _
    by_cases hdone : done = []
    · rw [I.first hdone _ cur hc]
      exact mem_cons_self
    · exact mem_cons_of_mem _ (I.rootDone hdone)
  · -- real
    intro v t ht
    obtain ⟨t₀, ht₀, hd, -⟩ := hold v t ht
    rw [← hd]
    exact I.real v t₀ ht₀
  · -- settled
    intro v t ht
    rcases lookup_put_some ht with ⟨hv, rfl⟩ | ⟨hv, ht⟩
    · simp [hv]
    · rw [I.settled v t ht, mem_cons]
      simp [hv]
  · -- known
    intro v hv
    rcases mem_cons.1 hv with rfl | hv
    · exact ⟨_, by rw [hput, if_pos rfl]⟩
    · obtain ⟨t₀, ht₀⟩ := I.known v hv
      obtain ⟨t, ht, -⟩ := hkeep v t₀ ht₀
      exact ⟨t, ht⟩
  · -- queued
    intro v t ht hv
    rw [mem_cons, not_or] at hv
    rw [hput, if_neg hv.1] at ht
    rcases mem_cons.1 (hperm.mem_iff.1 (I.queued v t ht hv.2)) with h | h
    · exact absurd (congrArg HeapItem.id h) hv.1
    · exact h
  · -- items
    intro i hi
    obtain ⟨t₀, ht₀, hle'⟩ := I.items i (hsub i hi)
    obtain ⟨t, ht, hd⟩ := hkeep _ t₀ ht₀
    exact ⟨t, ht, by omega⟩
  · -- low
    intro u hu t ht i hi
    obtain ⟨t₀, ht₀, hd, -⟩ := hold u t ht
    rw [← hd]
    rcases mem_cons.1 hu with rfl | hu
    · rw [hc] at ht₀
      cases ht₀
      rw [heq]
      exact hmin i (hsub i hi)
    · exact I.low u hu t₀ ht₀ i (hsub i hi)
  · -- mono
    intro u tu v tv hb htu htv
    obtain ⟨tu₀, htu₀, hdu, -⟩ := hold u tu htu
    obtain ⟨tv₀, htv₀, hdv, -⟩ := hold v tv htv
    rw [← hdu, ← hdv]
    rcases before_cons.1 hb with hb | ⟨rfl, -, hv⟩
    · exact I.mono u tu₀ v tv₀ hb htu₀ htv₀
    · rw [hc] at htu₀
      cases htu₀
      rw [heq]
      exact hmin _ (I.queued v tv₀ htv₀ hv)
  · -- closed
    intro u hu t ht e' he' hm' hsum'
    by_cases hu' : u = item.id
    · rw [hu', update_self] at he'
      cases he'
    · rw [update_of_ne hu'] at he'
      rw [hput, if_neg hu'] at ht
      obtain ⟨t₀, ht₀, hle'⟩ := I.closed u ((mem_cons.1 hu).resolve_left hu') t ht e' he' hm' hsum'
      obtain ⟨t₁, ht₁, hd⟩ := hkeep _ t₀ ht₀
      exact ⟨t₁, ht₁, by omega⟩
  · -- hops
    intro v t ht hv h
    obtain ⟨t₀, ht₀, hd, hh⟩ := hold v t ht
    rw [← hh, ← hd, I.hops v t₀ ht₀ hv h]
    simp only [hfeeds]
  · -- fed
    intro v t ht hv
    obtain ⟨t₀, ht₀, hd, -⟩ := hold v t ht
    rw [← hd]
    simp only [hfeeds]
    exact I.fed v t₀ ht₀ hv

end

section

variable {g : Graph} {r : SourceId} {done : List SourceId} {s s' : State}

/-- A turn of the search with a least item of the heap: any of them, where there are several. -/
def Turn (g : Graph) (r : SourceId) (s s' : State) : Prop :=
  ∃ item heap, s.heap.Perm (item :: heap) ∧ (∀ i ∈ heap, item.dist ≤ i.dist) ∧
    s' = visit g r { s with heap := heap } item

lemma relaxAll_settled {cur t : Tent} {c u : SourceId} (hcur : cur.dist < maxPathMetric)
    (es : List Edge) (ht : s.tents.lookup u = some t) (hset : t.settled) :
    (es.foldl (relax cur c r) s).tents.lookup u = some t := by
  induction es generalizing s with
  | nil => exact ht
  | cons e es ih =>
    rw [foldl_cons]
    apply ih
    have hne : ∀ nt, s.tents.lookup e.toId = some nt → nt.settled = false → u ≠ e.toId := by
      rintro nt hnt hns rfl
      rw [ht] at hnt
      rw [some.inj hnt, hns] at hset
      cases hset
    rcases relax_cases cur c r s e hcur with
      ⟨heq, -⟩ | ⟨-, -, hold, heq⟩ | ⟨-, -, nt, hnt, hns, -, heq⟩
    · rw [heq, ht]
    · rw [heq, lookup_put, if_neg, ht]
      rintro rfl
      exact hne t ht (hold t ht).1 rfl
    · rw [heq, lookup_put, if_neg (hne nt hnt hns), ht]

/-- A turn leaves the settled nodes as they are. -/
lemma Turn.settled (I : Inv g r (expanded g r) done s) (hturn : Turn g r s s') {u : SourceId}
    {t : Tent} (ht : s.tents.lookup u = some t) (hu : u ∈ done) : s'.tents.lookup u = some t := by
  obtain ⟨item, heap, -, -, rfl⟩ := hturn
  have hset := (I.settled u t ht).2 hu
  unfold IsisSpf.visit
  rcases hc : s.tents.lookup item.id with _ | cur
  · exact ht
  simp only
  split_ifs with hcur
  · exact ht
  · exact ht
  · refine relaxAll_settled (I.real _ cur hc).1 _ ?_ hset
    rw [lookup_put, if_neg, ht]
    rintro rfl
    rw [hc] at ht
    exact hcur (some.inj ht ▸ hset)

/-- A turn drops its item, or settles the node of the item at its distance. -/
lemma Inv.visit {item : HeapItem} {heap : List HeapItem} (I : Inv g r (expanded g r) done s)
    (hperm : s.heap.Perm (item :: heap)) (hleast : ∀ i ∈ heap, item.dist ≤ i.dist) :
    (Inv g r (expanded g r) done (visit g r { s with heap := heap } item) ∧
      (item.id ∈ done ∨ ∀ t, s.tents.lookup item.id = some t → t.dist < item.dist)) ∨
    (Inv g r (expanded g r) (item.id :: done) (visit g r { s with heap := heap } item) ∧
      ∃ t, (IsisSpf.visit g r { s with heap := heap } item).tents.lookup item.id = some t ∧
        t.dist = item.dist) := by
  have hmem : item ∈ s.heap := hperm.mem_iff.2 mem_cons_self
  obtain ⟨cur, hc, hcle⟩ := I.items item hmem
  unfold IsisSpf.visit
  simp only [hc]
  by_cases hset : cur.settled
  · rw [if_pos hset]
    have hdone := (I.settled _ cur hc).1 hset
    exact .inl ⟨I.drop hperm fun t _ hn => absurd hdone hn, .inl hdone⟩
  rw [if_neg hset]
  rw [Bool.not_eq_true] at hset
  by_cases hlt : cur.dist < item.dist
  · rw [if_pos hlt]
    have hstale : ∀ t, s.tents.lookup item.id = some t → t.dist < item.dist := by
      intro t ht
      rw [hc] at ht
      cases ht
      exact hlt
    exact .inl ⟨I.drop hperm fun t ht _ => hstale t ht, .inr fun t ht => hstale t (hc ▸ ht)⟩
  rw [if_neg hlt]
  have I' := (I.settle hperm hleast hc hset (by omega)).relaxAll (expanded g r item.id)
    (by rw [lookup_put, if_pos rfl])
    (fun _ he => he)
  rw [update_self, nil_append, update_idem, update_eq_self] at I'
  refine .inr ⟨I', { cur with settled := true }, ?_, ?_⟩
  · exact relaxAll_settled (I.real _ cur hc).1 _ (by rw [lookup_put, if_pos rfl]) rfl
  · simp only
    omega

/-! ### The turns of the code -/

lemma HeapItem.less_asymm (x y : HeapItem) (h : x.less y) : y.less x = false := by
  simp only [less, decide_eq_true_eq, decide_eq_false_iff_not] at h ⊢
  omega

lemma HeapItem.less_trans (x y z : HeapItem) (h : x.less y) (h' : y.less z) : x.less z := by
  simp only [less, decide_eq_true_eq] at h h' ⊢
  omega

lemma HeapItem.less_weak (x y z : HeapItem) (h : x.less z) : x.less y ∨ y.less z := by
  simp only [less, decide_eq_true_eq] at h ⊢
  omega

/-- The heap of the code gives it a least item, so its turns are turns of the search. -/
lemma turn_of_pop {item : HeapItem} {heap : List HeapItem}
    (hord : Heap.Ordered less s.heap)
    (hpop : Heap.pop less s.heap = some (item, heap)) :
    Turn g r s (IsisSpf.visit g r { s with heap := heap } item) ∧
      Heap.Ordered less (IsisSpf.visit g r { s with heap := heap } item).heap := by
  refine ⟨⟨item, heap, Heap.perm_pop hpop, fun i hi => ?_, rfl⟩, ?_⟩
  · have := hord.pop_le HeapItem.less_asymm HeapItem.less_weak hpop
      ((Heap.mem_pop hpop).2 (.inr hi))
    simpa [less] using this
  have hheap : Heap.Ordered less heap :=
    hord.pop HeapItem.less_asymm HeapItem.less_weak hpop
  have hrelax : ∀ (cur : Tent) (es : List Edge) (s : State), Heap.Ordered less s.heap →
      Heap.Ordered less (es.foldl (IsisSpf.relax cur item.id r) s).heap := by
    intro cur es
    induction es with
    | nil => exact fun s hs => hs
    | cons e es ih =>
      intro s hs
      refine ih _ ?_
      have hpush := hs.push HeapItem.less_asymm HeapItem.less_trans HeapItem.less_weak
      unfold IsisSpf.relax
      dsimp only
      split_ifs
      · exact hs
      · exact hs
      · split
        · exact hpush _
        · split_ifs
          · exact hs
          · exact hpush _
          · exact hs
          · exact hs
  unfold IsisSpf.visit
  split
  · exact hheap
  · split_ifs
    · exact hheap
    · exact hheap
    · exact hrelax _ _ _ hheap

lemma runs_loop (n : ℕ) (hord : Heap.Ordered less s.heap) :
    Relation.ReflTransGen (Turn g r) s (loop g r n s) := by
  induction n generalizing s with
  | zero => exact .refl
  | succ n ih =>
    unfold IsisSpf.loop
    rcases hpop : Heap.pop less s.heap with _ | ⟨item, heap⟩
    · exact .refl
    · obtain ⟨hturn, hord'⟩ := turn_of_pop hord hpop
      exact (ih hord').head hturn

lemma inv_start (g : Graph) (r : SourceId) : Inv g r (expanded g r) [] (start r) := by
  have hput : ∀ v, (start r).tents.lookup v = if v = r then some { dist := 0 } else none := by
    intro v
    unfold start
    rw [lookup_put, SortedMap.lookup_empty]
  have honly : ∀ v t, (start r).tents.lookup v = some t → v = r ∧ t = { dist := 0 } := by
    intro v t ht
    rw [hput] at ht
    by_cases hv : v = r
    · rw [if_pos hv] at ht
      exact ⟨hv, (some.inj ht).symm⟩
    · rw [if_neg hv] at ht
      cases ht
  refine ⟨⟨_, by rw [hput, if_pos rfl], rfl, rfl⟩, fun h => absurd rfl h,
    fun _ v t ht => (honly v t ht).1, ?_, ?_, by simp, nodup_nil, ?_, ?_, by simp, ?_, by simp,
    fun v t ht hv => absurd (honly v t ht).1 hv, fun v t ht hv => absurd (honly v t ht).1 hv⟩
  · intro v t ht
    obtain ⟨rfl, rfl⟩ := honly v t ht
    exact ⟨by decide, [], .start⟩
  · intro v t ht
    obtain ⟨rfl, rfl⟩ := honly v t ht
    simp
  · intro v t ht _
    obtain ⟨rfl, rfl⟩ := honly v t ht
    exact mem_singleton_self _
  · intro i hi
    rw [mem_singleton.1 hi]
    exact ⟨_, by rw [hput, if_pos rfl], le_rfl⟩
  · intro u tu v tv hb
    cases hb.mem

end

end Ze.IsisSpf
