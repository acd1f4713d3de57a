import Ze.AsPath.Lengths

/-!
# Two counts of an AS path

The length of an AS_PATH as best-path selection reckons it from the octets (`asPathLength` of
`plugins/rib/bestpath.go`), and as the parsed path gives it (`PathLength` of
`core/bgp/attribute/aspath.go`).
-/

namespace Ze.Rib

open Ze.AsPath List
open SegmentType (octet)

/-! ## The two counts -/

/-- The length of a value, by its octets: an AS_SET counts as one, every other segment by its number
of ASes. Source: bestpath.go. -/
def asPathLength : List Octet → ℕ
  | segType :: count :: rest =>
    (if segType = 1#8 then 1 else count.toNat) + asPathLength (rest.drop (count.toNat * 4))
  | [] | [_] => 0
termination_by data => data.length
decreasing_by
  simp only [length_drop, length_cons]
  omega

/-- What a segment adds to the length of its path. Source: aspath.go PathLength,
the body of the loop. -/
def segmentLength (seg : Segment) : ℕ :=
  match seg.type with
  | .asSequence => seg.asns.length
  | .asSet => if 0 < seg.asns.length then 1 else 0
  | .asConfedSequence | .asConfedSet => 0

/-- Source: aspath.go. -/
def pathLength (p : Path) : ℕ := (p.map segmentLength).sum

/-! ## The segments of a value -/

/-- The type octet and the count of each segment of a value. Source: bestpath.go
asPathLength, the octets it reads. -/
def segmentHeaders : List Octet → List (Octet × ℕ)
  | segType :: count :: rest =>
    (segType, count.toNat) :: segmentHeaders (rest.drop (count.toNat * 4))
  | [] | [_] => []
termination_by data => data.length
decreasing_by
  simp only [length_drop, length_cons]
  omega

/-- What the octets of a segment count beyond what the segment adds to the length of a path. -/
def excess (header : Octet × ℕ) : ℕ :=
  if header.1 = 1#8 then (if header.2 = 0 then 1 else 0)
  else if header.1 = 3#8 ∨ header.1 = 4#8 then header.2
  else 0

lemma eq_octet_of_ofOctet {b : Octet} {t : SegmentType} (h : SegmentType.ofOctet b = some t) :
    b = t.octet := by
  have hfound := find?_some h
  rw [beq_iff_eq] at hfound
  exact hfound.symm

lemma count_eq_segmentLength_add_excess (t : SegmentType) (asns : List Asn) :
    (if t.octet = 1#8 then 1 else asns.length) =
      segmentLength ⟨t, asns⟩ + excess (t.octet, asns.length) := by
  rcases t with _ | _ | _ | _
  · by_cases h : asns.length = 0
    · simp [segmentLength, excess, octet, h]
    · simp [segmentLength, excess, octet, h, Nat.pos_of_ne_zero h]
  · simp [segmentLength, excess, octet]
  · simp [segmentLength, excess, octet]
  · simp [segmentLength, excess, octet]

lemma asPathLength_of_parseSegments {total : ℕ} {data : List Octet} {p : Path}
    (h : parseSegments true total data = .ok p) :
    asPathLength data = pathLength p + ((segmentHeaders data).map excess).sum := by
  fun_induction parseSegments true total data generalizing p with
  | case1 =>
    cases h
    rw [asPathLength, segmentHeaders]
    rfl
  | case2 | case3 | case4 | case5 => cases h
  | case6 total t count rest type htype hmax hlen ih =>
    rcases hrest : parseSegments true (total + count.toNat)
        (rest.drop (count.toNat * asnSize true)) with e | p'
    · rw [hrest] at h
      cases h
    · rw [hrest] at h
      cases h
      have hread := length_readAsns true count.toNat rest (by omega)
      have hhead := count_eq_segmentLength_add_excess type (readAsns true count.toNat rest)
      have htail := ih hrest
      rw [hread, ← eq_octet_of_ofOctet htype] at hhead
      simp only [asnSize, if_true] at htail
      rw [asPathLength, segmentHeaders, htail, hhead, pathLength, pathLength, map_cons,
        map_cons, sum_cons, sum_cons]
      omega

lemma asPathLength_eq {value : List Octet} {p : Path} (h : parseASPath value true = .ok p) :
    asPathLength value = pathLength p + ((segmentHeaders value).map excess).sum :=
  asPathLength_of_parseSegments h

lemma excess_eq_zero_iff (header : Octet × ℕ) :
    excess header = 0 ↔ (header.1 = 1#8 → header.2 ≠ 0) ∧
      (header.1 = 3#8 ∨ header.1 = 4#8 → header.2 = 0) := by
  obtain ⟨t, n⟩ := header
  simp only [excess]
  by_cases hset : t = 1#8
  · subst hset
    simp
  · rw [if_neg hset]
    by_cases hconfed : t = 3#8 ∨ t = 4#8
    · simp [hset, hconfed]
    · simp [hset, hconfed]

/-- **Theorem.** On a value that `ParseASPath` accepts in four-octet form, best-path selection
reckons the length of the parsed path iff no AS_SET of the value is empty and every confederation
segment of it is. -/
theorem asPathLength_eq_iff {value : List Octet} {p : Path} (h : parseASPath value true = .ok p) :
    asPathLength value = pathLength p ↔ ∀ header ∈ segmentHeaders value,
      (header.1 = 1#8 → header.2 ≠ 0) ∧ (header.1 = 3#8 ∨ header.1 = 4#8 → header.2 = 0) := by
  have hsum : asPathLength value = pathLength p ↔ ((segmentHeaders value).map excess).sum = 0 := by
    rw [asPathLength_eq h]
    omega
  rw [hsum, sum_eq_zero_iff, forall_mem_map]
  exact forall₂_congr fun header _ => excess_eq_zero_iff header

/-- A path of two ASes and a set of two others has length three both ways. -/
theorem asPathLength_eq_sequence_set :
    ∃ p, parseASPath [2#8, 2#8, 0#8, 0#8, 0#8, 1#8, 0#8, 0#8, 0#8, 2#8, 1#8, 2#8, 0#8, 0#8, 0#8,
        3#8, 0#8, 0#8, 0#8, 4#8] true = .ok p ∧
      asPathLength [2#8, 2#8, 0#8, 0#8, 0#8, 1#8, 0#8, 0#8, 0#8, 2#8, 1#8, 2#8, 0#8, 0#8, 0#8,
        3#8, 0#8, 0#8, 0#8, 4#8] = pathLength p := by
  have hparse : parseASPath [2#8, 2#8, 0#8, 0#8, 0#8, 1#8, 0#8, 0#8, 0#8, 2#8, 1#8, 2#8, 0#8, 0#8,
      0#8, 3#8, 0#8, 0#8, 0#8, 4#8] true =
      .ok [⟨.asSequence, [1#32, 2#32]⟩, ⟨.asSet, [3#32, 4#32]⟩] := by
    simp [parseASPath, parseSegments, SegmentType.ofOctet, octet, readAsns, uint32,
      asnSize, maxASPathTotalLength]
  refine ⟨_, hparse, (asPathLength_eq_iff hparse).2 ?_⟩
  simp [segmentHeaders]

/-- A route of one confederation member AS counts as one AS further away than its path is long. -/
theorem asPathLength_ne_confed :
    parseASPath [3#8, 1#8, 0#8, 0#8, 253#8, 233#8] true =
        .ok [⟨.asConfedSequence, [65001#32]⟩] ∧
      asPathLength [3#8, 1#8, 0#8, 0#8, 253#8, 233#8] = 1 ∧
      pathLength [⟨.asConfedSequence, [65001#32]⟩] = 0 := by
  refine ⟨?_, ?_, rfl⟩
  · simp [parseASPath, parseSegments, SegmentType.ofOctet, octet, readAsns, uint32,
      asnSize, maxASPathTotalLength]
  · simp [asPathLength]

end Ze.Rib
