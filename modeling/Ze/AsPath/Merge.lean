import Mathlib.Data.List.Basic

/-!
# AS paths and the AS4_PATH merge

The segments of `internal/core/bgp/attribute/aspath.go` and the reconstruction of `as4.go`, over
lists of segments.

What a path says to a receiver is its list of hops: an AS_SEQUENCE is a hop for each of its AS
numbers, an AS_SET is one hop, a confederation segment is none.
-/

namespace Ze.AsPath

open List

/-! ## Paths -/

/-- An AS number, in four octets. Source: aspath.go the elements of ASPathSegment.ASNs. -/
abbrev Asn := BitVec 32

/-- The kind of a segment. Source: aspath.go ASPathSegmentType. -/
inductive SegmentType
  | asSet
  | asSequence
  | asConfedSequence
  | asConfedSet
  deriving DecidableEq, Repr

/-- A segment of a path. Source: aspath.go ASPathSegment. -/
structure Segment where
  type : SegmentType
  asns : List Asn
  deriving DecidableEq, Repr

/-- A path: the segments of an AS_PATH or of an AS4_PATH. Source: aspath.go ASPath; as4.go
AS4Path. -/
abbrev Path := List Segment

/-- The reserved AS number that stands for one that two octets do not hold. Source: as4.go. -/
def asTrans : Asn := 23456#32

/-- Whether two octets do not hold the number. Source: as4.go. -/
def isNonMappable (asn : Asn) : Bool := decide (0xFFFF < asn.toNat)

/-- Source: as4.go. -/
def SegmentType.isConfedSegment (t : SegmentType) : Bool :=
  t == .asConfedSequence || t == .asConfedSet

/-- The number that an old speaker is told. Source: aspath.go writeSegmentWithSplit, the branch
of two octets. -/
def narrowAsn (asn : Asn) : Asn := if isNonMappable asn then asTrans else asn

/-- The segment that an old speaker is told. Source: aspath.go writeSegmentWithSplit. -/
def Segment.narrow (s : Segment) : Segment := ⟨s.type, s.asns.map narrowAsn⟩

/-- The path that an old speaker is told. Source: aspath.go WriteToWithASN4(…, false). -/
def narrow (p : Path) : Path := p.map Segment.narrow

/-! ## The merge -/

/-- The length of a path: a set counts as one, a confederation segment not at all. Source: as4.go.
-/
def countASNs : Path → ℕ
  | [] => 0
  | s :: p =>
    (match s.type with
      | .asSequence => s.asns.length
      | .asSet => if 0 < s.asns.length then 1 else 0
      | .asConfedSequence => 0
      | .asConfedSet => 0) + countASNs p

/-- Source: as4.go. -/
def leadingPart (s : Segment) (wanted : ℕ) : Segment × ℕ :=
  if s.asns.length = 0 then (s, 0)
  else if s.type = .asSet then (s, 1)
  else if s.asns.length ≤ wanted then (s, s.asns.length)
  else (⟨s.type, s.asns.take wanted⟩, wanted)

/-- Source: as4.go. -/
def appendLeadingSegments : Path → ℕ → Path
  | [], _ => []
  | s :: p, wanted =>
    if s.type.isConfedSegment then s :: appendLeadingSegments p wanted
    else if wanted < 1 then []
    else (leadingPart s wanted).1 :: appendLeadingSegments p (wanted - (leadingPart s wanted).2)

/-- Source: as4.go. -/
def appendAS4Segments (p : Path) : Path := p.filter fun s => !s.type.isConfedSegment

/-- Source: as4.go. -/
def mergeAS4Path : Option Path → Option Path → Option Path
  | asPath, none => asPath
  | asPath, some [] => asPath
  | none, some as4Path => some (appendAS4Segments as4Path)
  | some asPath, some as4Path =>
    if countASNs asPath < countASNs as4Path then some asPath
    else some (appendLeadingSegments asPath (countASNs asPath - countASNs as4Path) ++
      appendAS4Segments as4Path)

/-! ## Hops -/

/-- A hop of a path: an AS number of a sequence, or a set. -/
inductive Hop
  | as (asn : Asn)
  | set (asns : List Asn)
  deriving DecidableEq, Repr

def Hop.asns : Hop → List Asn
  | .as asn => [asn]
  | .set asns => asns

def Segment.hops (s : Segment) : List Hop :=
  match s.type with
  | .asSequence => s.asns.map .as
  | .asSet => if 0 < s.asns.length then [.set s.asns] else []
  | .asConfedSequence => []
  | .asConfedSet => []

def hops (p : Path) : List Hop := p.flatMap Segment.hops

def flatten (p : Path) : List Asn := p.flatMap Segment.asns

def Plain (p : Path) : Prop := ∀ s ∈ p, s.type = .asSequence ∨ s.type = .asSet

@[simp] lemma hops_nil : hops [] = [] := rfl

@[simp] lemma hops_cons (s : Segment) (p : Path) : hops (s :: p) = s.hops ++ hops p := rfl

@[simp] lemma hops_append (p p' : Path) : hops (p ++ p') = hops p ++ hops p' := by
  simp [hops]

@[simp] lemma flatten_cons (s : Segment) (p : Path) : flatten (s :: p) = s.asns ++ flatten p :=
  rfl

lemma countASNs_eq (p : Path) : countASNs p = (hops p).length := by
  induction p with
  | nil => rfl
  | cons s p ih =>
    rw [countASNs, hops_cons, length_append, ih]
    congr 1
    rcases s with ⟨_ | _ | _ | _, asns⟩
    · simp only [Segment.hops]
      split_ifs <;> rfl
    · simp [Segment.hops]
    · rfl
    · rfl

variable {p r : Path}

lemma flatten_eq_hops (hp : Plain p) : flatten p = (hops p).flatMap Hop.asns := by
  induction p with
  | nil => rfl
  | cons s p ih =>
    have htail : Plain p := fun s' hs' => hp s' (mem_cons_of_mem _ hs')
    have hhead : s.hops.flatMap Hop.asns = s.asns := by
      rcases hp s mem_cons_self with hs | hs
      · simp [Segment.hops, hs, flatMap_map, Hop.asns]
      · by_cases hlen : 0 < s.asns.length
        · simp [Segment.hops, hs, hlen, Hop.asns]
        · have hnil : s.asns = [] := length_eq_zero_iff.1 (by omega)
          simp [Segment.hops, hs, hnil]
    rw [flatten_cons, hops_cons, flatMap_append, hhead, ih htail]

variable {s : Segment} {q : List (BitVec 16)}

lemma hops_of_isConfedSegment (h : s.type.isConfedSegment) : s.hops = [] := by
  rcases s with ⟨_ | _ | _ | _, asns⟩ <;> first | rfl | cases h

/-! ## The leading part -/

lemma leadingPart_spec {wanted : ℕ} (hs : s.type.isConfedSegment = false) (hw : 1 ≤ wanted) :
    (leadingPart s wanted).1.hops = s.hops.take wanted ∧
      (leadingPart s wanted).2 = (s.hops.take wanted).length ∧
      (leadingPart s wanted).1.type = s.type := by
  rcases s with ⟨t, asns⟩
  unfold leadingPart
  by_cases hnil : asns.length = 0
  · have hasns : asns = [] := length_eq_zero_iff.1 hnil
    subst hasns
    rcases t with _ | _ | _ | _ <;> simp [Segment.hops]
  · rw [if_neg hnil]
    rcases t with _ | _ | _ | _
    · have htake : ([Hop.set asns] : List Hop).take wanted = [Hop.set asns] :=
        take_of_length_le (by simpa using hw)
      simp [Segment.hops, show 0 < asns.length by omega, htake]
    · rw [if_neg (by simp)]
      split_ifs with hle
      · simp [Segment.hops, ← map_take, take_of_length_le hle]
      · have hlt : wanted ≤ asns.length := by simpa using Nat.le_of_not_le hle
        simp [Segment.hops, hlt]
    · cases hs
    · cases hs

lemma hops_appendLeadingSegments (p : Path) (wanted : ℕ) :
    hops (appendLeadingSegments p wanted) = (hops p).take wanted := by
  induction p generalizing wanted with
  | nil => simp [appendLeadingSegments]
  | cons s p ih =>
    rw [appendLeadingSegments]
    by_cases hconfed : s.type.isConfedSegment
    · rw [if_pos hconfed, hops_cons, hops_cons, hops_of_isConfedSegment hconfed, ih]
      simp
    · rw [if_neg hconfed]
      split_ifs with hw
      · have hzero : wanted = 0 := by omega
        subst hzero
        rfl
      · have hplain : s.type.isConfedSegment = false := by simpa using hconfed
        obtain ⟨hhops, hcost, -⟩ := leadingPart_spec hplain (Nat.le_of_not_lt hw)
        rw [hops_cons, hops_cons, hhops, ih, hcost, take_append, length_take]
        congr 2
        omega

lemma plain_appendLeadingSegments (hp : Plain p) (wanted : ℕ) :
    Plain (appendLeadingSegments p wanted) := by
  induction p generalizing wanted with
  | nil => simpa [appendLeadingSegments] using hp
  | cons s p ih =>
    have hhead := hp s mem_cons_self
    have htail : Plain p := fun s' hs' => hp s' (mem_cons_of_mem _ hs')
    have hconfed : s.type.isConfedSegment = false := by
      rcases hhead with hs | hs <;> rw [hs] <;> rfl
    rw [appendLeadingSegments, if_neg (by simp [hconfed])]
    split_ifs with hw
    · intro s' hs'
      cases hs'
    · intro s' hs'
      rcases mem_cons.1 hs' with rfl | hs'
      · rw [(leadingPart_spec hconfed (by omega)).2.2]
        exact hhead
      · exact ih htail _ s' hs'

lemma appendAS4Segments_of_plain (hp : Plain p) : appendAS4Segments p = p := by
  apply filter_eq_self.2
  intro s hs
  rcases hp s hs with h | h <;> rw [h] <;> rfl

/-! ## Old speakers -/

/-- What the speakers on the way have prepended: each opens a segment of its own or extends the
first one, and the last speaker's number stands first. Source: aspath.go Prepend (RFC 4271
Section 5.1.2, where either is open to a speaker). -/
inductive Prepended : List (BitVec 16) → Path → Path → Prop
  | none (p : Path) : Prepended [] p p
  | fresh {q : List (BitVec 16)} {p r : Path} (a : BitVec 16) (h : Prepended q p r) :
      Prepended (a :: q) p (⟨.asSequence, [a.setWidth 32]⟩ :: r)
  | extend {q : List (BitVec 16)} {p r : Path} {asns : List Asn} (a : BitVec 16)
      (h : Prepended q p (⟨.asSequence, asns⟩ :: r)) :
      Prepended (a :: q) p (⟨.asSequence, a.setWidth 32 :: asns⟩ :: r)

lemma hops_of_prepended (h : Prepended q p r) :
    hops r = q.map (fun a => Hop.as (a.setWidth 32)) ++ hops p := by
  induction h with
  | none p => rfl
  | fresh a h ih =>
    rw [hops_cons, ih]
    rfl
  | extend a h ih =>
    rw [map_cons, cons_append, ← ih]
    rfl

lemma plain_of_prepended (h : Prepended q p r) (hp : Plain p) : Plain r := by
  induction h with
  | none p => exact hp
  | fresh a h ih =>
    intro s hs
    rcases mem_cons.1 hs with rfl | hs
    · exact .inl rfl
    · exact ih hp s hs
  | extend a h ih =>
    intro s hs
    rcases mem_cons.1 hs with rfl | hs
    · exact .inl rfl
    · exact ih hp s (mem_cons_of_mem _ hs)

lemma length_hops_narrow (p : Path) : (hops (narrow p)).length = (hops p).length := by
  induction p with
  | nil => rfl
  | cons s p ih =>
    rw [narrow, map_cons, ← narrow, hops_cons, hops_cons, length_append, length_append, ih]
    congr 1
    rcases s with ⟨_ | _ | _ | _, asns⟩
    · simp only [Segment.narrow, Segment.hops, length_map]
      split_ifs <;> rfl
    · simp [Segment.narrow, Segment.hops]
    · rfl
    · rfl

lemma plain_narrow (hp : Plain p) : Plain (narrow p) := by
  intro s hs
  obtain ⟨s', hs', rfl⟩ := mem_map.1 hs
  exact hp s' hs'

lemma hops_mergeAS4Path (hp : Plain p)
    (hcount : (hops p).length ≤ (hops r).length) (hnil : p ≠ []) :
    mergeAS4Path (some r) (some p) =
      some (appendLeadingSegments r ((hops r).length - (hops p).length) ++ p) := by
  rcases p with _ | ⟨s, p⟩
  · exact absurd rfl hnil
  · simp only [mergeAS4Path, countASNs_eq]
    rw [if_neg (by omega), appendAS4Segments_of_plain hp]

/-- **The tunnel.** Whatever path of sequences and sets is narrowed for old speakers, and whatever
numbers they prepend to it on the way, in segments of their own or in the first one, the merge with
the AS4_PATH that travelled beside it is those numbers followed by the path: hop by hop, and AS
number by AS number. -/
theorem mergeAS4Path_prepended (p : Path) (hp : Plain p) (q : List (BitVec 16)) (r : Path)
    (hr : Prepended q (narrow p) r) :
    ∃ merged, mergeAS4Path (some r) (some p) = some merged ∧
      hops merged = q.map (fun a => Hop.as (a.setWidth 32)) ++ hops p ∧
      flatten merged = q.map (fun a => a.setWidth 32) ++ flatten p := by
  have hhops := hops_of_prepended hr
  have hplain := plain_of_prepended hr (plain_narrow hp)
  have hlen : (hops r).length = q.length + (hops p).length := by
    rw [hhops, length_append, length_map, length_hops_narrow]
  have hasns : ∀ {m : Path}, Plain m →
      hops m = q.map (fun a => Hop.as (a.setWidth 32)) ++ hops p →
      flatten m = q.map (fun a => a.setWidth 32) ++ flatten p := by
    intro m hm hmh
    rw [flatten_eq_hops hm, hmh, flatMap_append, ← flatten_eq_hops hp, flatMap_map]
    congr 1
    exact flatMap_pure_eq_map _ q
  by_cases hnil : p = []
  · subst hnil
    refine ⟨r, rfl, ?_, hasns hplain ?_⟩ <;> exact hhops
  · have hmerged : hops (appendLeadingSegments r q.length ++ p) =
        q.map (fun a => Hop.as (a.setWidth 32)) ++ hops p := by
      rw [hops_append, hops_appendLeadingSegments, hhops,
        take_append_of_le_length (by simp), take_of_length_le (by simp)]
    have hmplain : Plain (appendLeadingSegments r q.length ++ p) := by
      intro s hs
      rcases mem_append.1 hs with hs | hs
      · exact plain_appendLeadingSegments hplain _ s hs
      · exact hp s hs
    refine ⟨appendLeadingSegments r q.length ++ p, ?_, hmerged, hasns hmplain hmerged⟩
    rw [hops_mergeAS4Path hp (by omega) hnil, hlen, Nat.add_sub_cancel]

/-- The path `{1, 70000} 70001 2` behind two old speakers: 64500 extended the sequence that 64501
opened in front of the set. -/
theorem mergeAS4Path_set :
    Prepended [64500#16, 64501#16]
        (narrow [⟨.asSet, [1#32, 70000#32]⟩, ⟨.asSequence, [70001#32, 2#32]⟩])
        [⟨.asSequence, [64500#32, 64501#32]⟩, ⟨.asSet, [1#32, 23456#32]⟩,
          ⟨.asSequence, [23456#32, 2#32]⟩] ∧
      ∃ merged, mergeAS4Path
          (some [⟨.asSequence, [64500#32, 64501#32]⟩, ⟨.asSet, [1#32, 23456#32]⟩,
            ⟨.asSequence, [23456#32, 2#32]⟩])
          (some [⟨.asSet, [1#32, 70000#32]⟩, ⟨.asSequence, [70001#32, 2#32]⟩]) = some merged ∧
        hops merged = [Hop.as 64500#32, Hop.as 64501#32] ++
          hops [⟨.asSet, [1#32, 70000#32]⟩, ⟨.asSequence, [70001#32, 2#32]⟩] ∧
        flatten merged = [64500#32, 64501#32] ++
          flatten [⟨.asSet, [1#32, 70000#32]⟩, ⟨.asSequence, [70001#32, 2#32]⟩] := by
  have hr : Prepended [64500#16, 64501#16]
      (narrow [⟨.asSet, [1#32, 70000#32]⟩, ⟨.asSequence, [70001#32, 2#32]⟩])
      [⟨.asSequence, [64500#32, 64501#32]⟩, ⟨.asSet, [1#32, 23456#32]⟩,
        ⟨.asSequence, [23456#32, 2#32]⟩] :=
    Prepended.extend _ (Prepended.fresh _ (Prepended.none _))
  refine ⟨hr, mergeAS4Path_prepended _ ?_ _ _ hr⟩
  intro s hs
  rcases mem_cons.1 hs with rfl | hs
  · exact .inr rfl
  · rcases mem_singleton.1 hs with rfl
    exact .inl rfl

end Ze.AsPath
