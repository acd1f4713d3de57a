import Ze.AsPath.Shift

/-!
# The shift against the re-encoding

A single AS number is put before a leading sequence by a shift of the octets, and every other edit
of the AS path family decodes the path and writes it anew. For one edit the two should lead to one
section.
-/

namespace Ze.AsPath

open BitVec (ofNat toNat_ofNat)
open List (any_append any_cons any_nil append_assoc cons flatMap_cons foldl_cons forall_mem_append
  forall_mem_cons forall_mem_nil length_append length_cons length_eq_zero_iff length_nil
  mem_cons_self nil_append reverseRecOn)
open Option (filter_some map_some)

/-! ## A path is written as it was read -/

def Holds (asn4 : Bool) (asn : Asn) : Prop := asn4 = true ∨ isNonMappable asn = false

variable {asn : Asn} {p q : Path}

lemma narrowAsn_of_mappable (h : isNonMappable asn = false) : narrowAsn asn = asn := by
  rw [narrowAsn, h]
  rfl

lemma isNonMappable_uint16 (a b : Octet) : isNonMappable (ofNat 32 (uint16 a b)) = false := by
  have hlt := uint16_lt a b
  rw [isNonMappable, toNat_ofNat, decide_eq_false_iff_not]
  omega

lemma write_readAsns (asn4 : Bool) (n : ℕ) (data : List Octet)
    (h : n * asnSize asn4 ≤ data.length) :
    (readAsns asn4 n data).flatMap (writeAsn asn4) = data.take (n * asnSize asn4) ∧
      ∀ asn ∈ readAsns asn4 n data, Holds asn4 asn := by
  induction n generalizing data with
  | zero => exact ⟨by rw [Nat.zero_mul]; rfl, fun asn hasn => by cases hasn⟩
  | succ n ih =>
    rcases asn4 with _ | _
    · rcases data with _ | ⟨a, _ | ⟨b, rest⟩⟩
      on_goal 3 =>
        simp only [asnSize, Bool.false_eq_true, if_false, length_cons] at h ih
        obtain ⟨hwrite, hholds⟩ := ih rest (by omega)
        have hmap := isNonMappable_uint16 a b
        have hone : writeAsn false (ofNat 32 (uint16 a b)) = [a, b] := by
          have hlt := uint16_lt a b
          rw [writeAsn, if_neg Bool.false_ne_true, narrowAsn_of_mappable hmap, toNat_ofNat,
            Nat.mod_eq_of_lt (by omega), putUint16_uint16]
        have hcons : readAsns false (n + 1) (a :: b :: rest) =
            ofNat 32 (uint16 a b) :: readAsns false n rest := rfl
        have hsize : (n + 1) * asnSize false = n * 2 + 1 + 1 := Nat.succ_mul n 2
        rw [hcons, flatMap_cons, hwrite, hone, hsize, List.take_succ_cons, List.take_succ_cons]
        exact ⟨rfl, forall_mem_cons.2 ⟨.inr hmap, hholds⟩⟩
      all_goals
        simp only [asnSize, Bool.false_eq_true, if_false, length_cons, length_nil] at h
        omega
    · rcases data with _ | ⟨a, _ | ⟨b, _ | ⟨c, _ | ⟨d, rest⟩⟩⟩⟩
      on_goal 5 =>
        simp only [asnSize, if_true, length_cons] at h ih
        obtain ⟨hwrite, hholds⟩ := ih rest (by omega)
        have hcons : readAsns true (n + 1) (a :: b :: c :: d :: rest) =
            uint32 a b c d :: readAsns true n rest := rfl
        have hsize : (n + 1) * asnSize true = n * 4 + 1 + 1 + 1 + 1 := Nat.succ_mul n 4
        rw [hcons, flatMap_cons, hwrite, writeAsn, if_pos rfl, putUint32_uint32, hsize]
        exact ⟨rfl, fun asn _ => .inl rfl⟩
      all_goals
        simp only [asnSize, if_true, length_cons, length_nil] at h
        omega

lemma Wire.cons {s : Segment} (hne : s.asns ≠ []) (hle : s.asns.length ≤ 255) (hp : Wire p) :
    Wire (s :: p) :=
  forall_mem_cons.2 ⟨⟨hne, hle⟩, hp⟩

def PathHolds (asn4 : Bool) (p : Path) : Prop := ∀ s ∈ p, ∀ asn ∈ s.asns, Holds asn4 asn

lemma SegmentType.octet_of_ofOctet {b : Octet} {type : SegmentType}
    (h : SegmentType.ofOctet b = some type) :
    type.octet = b := by
  have hfound := List.find?_some h
  simpa using hfound

variable {data value shifted v : List Octet} {asns : List Asn} {intent : ASPathIntent}

lemma write_of_parse {asn4 : Bool} {total : ℕ}
    (h : parseSegments asn4 total data = .ok p) (hne : ∀ s ∈ p, s.asns ≠ []) :
    writeToWithASN4 p asn4 = data ∧ Wire p ∧ PathHolds asn4 p := by
  fun_induction parseSegments asn4 total data generalizing p with
  | case1 =>
    cases h
    exact ⟨rfl, forall_mem_nil _, forall_mem_nil _⟩
  | case2 | case3 | case4 | case5 => cases h
  | case6 total t count rest type htype hmax hlen ih =>
    rcases hrest : parseSegments asn4 (total + count.toNat)
        (rest.drop (count.toNat * asnSize asn4)) with e | p'
    · rw [hrest] at h
      cases h
    · rw [hrest] at h
      cases h
      obtain ⟨hwrite, hwire, hholds⟩ := ih hrest fun s hs => hne s (List.mem_cons_of_mem _ hs)
      obtain ⟨hread, hfits⟩ := write_readAsns asn4 count.toNat rest (by omega)
      have hcount := length_readAsns asn4 count.toNat rest (by omega)
      have hwire' : Wire (⟨type, readAsns asn4 count.toNat rest⟩ :: p') :=
        Wire.cons (hne _ mem_cons_self) (by simp only [hcount]; omega) hwire
      refine ⟨?_, hwire', forall_mem_cons.2 ⟨hfits, hholds⟩⟩
      have hofNat : ofNat 8 count.toNat = count := by
        apply BitVec.eq_of_toNat_eq
        rw [toNat_ofNat]
        omega
      rw [writeToWithASN4_cons asn4 hwire', hwrite, hread, hcount, hofNat,
        SegmentType.octet_of_ofOctet htype, List.take_append_drop]

/-! ## The shifted value -/

lemma readBack_of_holds {asn4 : Bool} (h : Holds asn4 asn) : readBack asn4 asn = asn := by
  rcases h with rfl | h
  · rfl
  · rw [readBack, narrowAsn_of_mappable h, ite_self]

/-- AS numbers with that of a peer replaced, the first `skip` excepted. -/
def overrideAsns (peerAS localAS : Asn) (skip : ℕ) (asns : List Asn) : List Asn :=
  asns.take skip ++ (asns.drop skip).map fun asn => if asn = peerAS then localAS else asn

section

variable {peerAS localAS : Asn} {asn4 : Bool}

lemma overrideNumbers_write (hlocal : Holds asn4 localAS) (skip : ℕ) (asns : List Asn)
    (hasns : ∀ asn ∈ asns, Holds asn4 asn) (rest : List Octet) :
    overrideNumbers peerAS localAS asn4 asns.length skip (asns.flatMap (writeAsn asn4) ++ rest) =
      (overrideAsns peerAS localAS skip asns).flatMap (writeAsn asn4) := by
  induction asns generalizing skip with
  | nil =>
    rw [overrideAsns, List.take_nil, List.drop_nil]
    rfl
  | cons asn asns ih =>
    obtain ⟨hasn, hrest⟩ := forall_mem_cons.1 hasns
    have hlen := length_writeAsn asn4 asn
    have htake : (writeAsn asn4 asn ++ (asns.flatMap (writeAsn asn4) ++ rest)).take (asnSize asn4) =
        writeAsn asn4 asn := by
      rw [← hlen, List.take_left]
    have hdrop : (writeAsn asn4 asn ++ (asns.flatMap (writeAsn asn4) ++ rest)).drop (asnSize asn4) =
        asns.flatMap (writeAsn asn4) ++ rest := by
      rw [← hlen, List.drop_left]
    rw [flatMap_cons, append_assoc, length_cons]
    rcases skip with _ | skip
    · have hread : readAsns asn4 1 (writeAsn asn4 asn ++ (asns.flatMap (writeAsn asn4) ++ rest)) =
          [asn] := by
        have hback := readAsns_write asn4 [asn] (asns.flatMap (writeAsn asn4) ++ rest)
        rw [List.flatMap_singleton, List.map_singleton, readBack_of_holds hasn] at hback
        exact hback
      have hwrite : (if asn4 then putUint32 localAS else putUint16 (localAS.toNat % 65536)) =
          writeAsn asn4 localAS := by
        rcases hlocal with rfl | hmap
        · rfl
        · rw [writeAsn, narrowAsn_of_mappable hmap]
          rw [isNonMappable, decide_eq_false_iff_not] at hmap
          rw [Nat.mod_eq_of_lt (by omega)]
      have hcons : overrideAsns peerAS localAS 0 (asn :: asns) =
          (if asn = peerAS then localAS else asn) :: overrideAsns peerAS localAS 0 asns := rfl
      rw [overrideNumbers, hread, hwrite, htake, hdrop, ih 0 hrest, hcons, flatMap_cons]
      by_cases heq : asn = peerAS
      · rw [if_pos heq, if_pos (by rw [heq])]
      · rw [if_neg heq, if_neg fun h => heq (List.singleton_injective h)]
    · have hcons : overrideAsns peerAS localAS (skip + 1) (asn :: asns) =
          asn :: overrideAsns peerAS localAS skip asns := rfl
      rw [overrideNumbers, htake, hdrop, ih skip hrest, hcons, flatMap_cons]

/-- A path with the AS number of a peer replaced, the first `skip` numbers excepted. -/
def overrideFrom (peerAS localAS : Asn) : ℕ → Path → Path
  | _, [] => []
  | skip, s :: p =>
    ⟨s.type, overrideAsns peerAS localAS skip s.asns⟩ ::
      overrideFrom peerAS localAS (skip - s.asns.length) p

lemma length_overrideAsns (skip : ℕ) (asns : List Asn) :
    (overrideAsns peerAS localAS skip asns).length = asns.length := by
  rw [overrideAsns, length_append, List.length_map, List.length_take, List.length_drop]
  omega

lemma wire_overrideFrom {p : Path} (h : Wire p) (skip : ℕ) :
    Wire (overrideFrom peerAS localAS skip p) := by
  induction p generalizing skip with
  | nil => exact forall_mem_nil _
  | cons s p ih =>
    obtain ⟨hne, hle⟩ := h s mem_cons_self
    have hlen := @length_overrideAsns peerAS localAS skip s.asns
    have hne' : overrideAsns peerAS localAS skip s.asns ≠ [] := by
      rw [ne_eq, ← length_eq_zero_iff, hlen, length_eq_zero_iff]
      exact hne
    rw [overrideFrom]
    exact Wire.cons hne' (by rw [hlen]; exact hle) (ih h.tail _)

lemma overrideSegments_write (hlocal : Holds asn4 localAS) {p : Path} (hwire : Wire p)
    (hholds : PathHolds asn4 p) (skip : ℕ) :
    overrideSegments peerAS localAS asn4 skip (writeToWithASN4 p asn4) =
      writeToWithASN4 (overrideFrom peerAS localAS skip p) asn4 := by
  induction p generalizing skip with
  | nil =>
    rw [writeToWithASN4, List.flatMap_nil, overrideSegments]
    · rfl
    · exact fun _ _ _ h => by cases h
  | cons s p ih =>
    obtain ⟨hs, hp⟩ := forall_mem_cons.1 hholds
    obtain ⟨hne, hle⟩ := hwire s mem_cons_self
    have hcount := toNat_count hle
    have hlen := length_flatMap_writeAsn asn4 s.asns
    have hpos : 0 < asnSize asn4 := by cases asn4 <;> decide
    have hroom : ¬ (s.asns.flatMap (writeAsn asn4) ++
        writeToWithASN4 p asn4).length / asnSize asn4 <
        s.asns.length := by
      rw [length_append, hlen, Nat.not_lt, Nat.le_div_iff_mul_le hpos]
      exact Nat.le_add_right _ _
    have hwire' := @wire_overrideFrom peerAS localAS _ hwire skip
    rw [overrideFrom] at hwire' ⊢
    rw [writeToWithASN4_cons asn4 hwire, overrideSegments, hcount, if_neg hroom,
      overrideNumbers_write hlocal skip s.asns hs, ← hlen, List.drop_left, ih hwire.tail hp,
      writeToWithASN4_cons asn4 hwire', length_overrideAsns]
    rfl

lemma overrideFrom_zero (hpeer : peerAS ≠ 0#32) (p : Path) :
    overrideFrom peerAS localAS 0 p = overridePath peerAS localAS p := by
  rw [overridePath, if_neg hpeer]
  induction p with
  | nil => rfl
  | cons s p ih =>
    rw [overrideFrom, Nat.zero_sub, ih, List.map_cons]
    rfl

end

lemma prependAsn_room (h : asns.length < 255) (asn : Asn) :
    prependAsn (⟨.asSequence, asns⟩ :: p) asn = ⟨.asSequence, asn :: asns⟩ :: p := by
  rw [prependAsn, if_neg]
  rw [maxASPathSegmentLength]
  omega

section

variable (hshift : tryShift value intent = some shifted)
  (hparse : parseASPath value intent.srcASN4 = .ok p) (hne : ∀ s ∈ p, s.asns ≠ [])
include hshift hparse hne

lemma tryShift_cases :
    ∃ asn asns rest, intent.prepend = [asn] ∧ p = ⟨.asSequence, asns⟩ :: rest ∧ asns.length < 255 ∧
      intent.srcASN4 = intent.dstASN4 ∧ Holds intent.dstASN4 asn ∧
      shifted = overrideASPathValue (writeToWithASN4 (prependAsn p asn) intent.dstASN4)
        intent.overridePeerAS intent.overrideLocalAS intent.dstASN4 1 := by
  unfold tryShift at hshift
  split at hshift
  · rename_i asn t count tail hprepend
    by_cases hwidth : intent.srcASN4 ≠ intent.dstASN4
    · rw [if_pos hwidth] at hshift
      cases hshift
    by_cases hmap : intent.dstASN4 = false ∧ isNonMappable asn
    · rw [if_neg hwidth, if_pos hmap] at hshift
      cases hshift
    by_cases hroom : t ≠ SegmentType.asSequence.octet ∨ maxASPathSegmentLength ≤ count.toNat
    · rw [if_neg hwidth, if_neg hmap, if_pos hroom] at hshift
      cases hshift
    rw [if_neg hwidth, if_neg hmap, if_neg hroom] at hshift
    rw [not_or, not_not] at hroom
    obtain ⟨rfl, hroom⟩ := hroom
    rw [not_not] at hwidth
    have hholds : Holds intent.dstASN4 asn := by
      by_cases hdst : intent.dstASN4
      · exact .inl hdst
      · exact .inr (Bool.eq_false_iff.2 fun h => hmap ⟨Bool.eq_false_iff.2 hdst, h⟩)
    obtain ⟨hwrite, hwire, -⟩ := write_of_parse hparse hne
    -- The first segment of the path is the sequence at the head of the value.
    rcases p with _ | ⟨⟨type, asns⟩, rest⟩
    · cases hwrite
    · have hfirst := hwrite
      rw [writeToWithASN4_cons _ hwire] at hfirst
      obtain ⟨htype, hcons⟩ := cons.inj hfirst
      obtain ⟨hcount, htail⟩ := cons.inj hcons
      obtain ⟨hnil, hle⟩ := hwire _ mem_cons_self
      have hseq : type = .asSequence := by
        cases type <;> first | rfl | cases htype
      have hlen : count.toNat = asns.length := by
        rw [← hcount, toNat_ofNat]
        exact Nat.mod_eq_of_lt (Nat.lt_succ_of_le hle)
      subst hseq
      rw [maxASPathSegmentLength, Nat.not_le, hlen] at hroom
      have hwire' : Wire (⟨.asSequence, asn :: asns⟩ :: rest) := by
        exact Wire.cons (List.cons_ne_nil _ _) (Nat.succ_le_of_lt hroom) hwire.tail
      refine ⟨asn, asns, rest, hprepend, rfl, hroom, hwidth, hholds, ?_⟩
      cases hshift
      have hasn : (if intent.dstASN4 then putUint32 asn else putUint16 asn.toNat) =
          writeAsn intent.dstASN4 asn := by
        rcases hholds with hdst | hmap
        · rw [hdst]
          rfl
        · rw [writeAsn, narrowAsn_of_mappable hmap]
      rw [prependAsn_room hroom, writeToWithASN4_cons _ hwire', ← htail, hwidth, hlen, hasn,
        flatMap_cons, length_cons]
      simp only [List.cons_append, nil_append, append_assoc]
  · cases hshift

lemma tryShift_eq
    (hlocal : intent.overridePeerAS ≠ 0#32 → Holds intent.dstASN4 intent.overrideLocalAS) :
    shifted = writeToWithASN4
      (intent.prepend.foldl prependAsn (overridePath intent.overridePeerAS intent.overrideLocalAS
        p))
      intent.dstASN4 := by
  obtain ⟨asn, asns, rest, hprepend, rfl, hroom, hwidth, hholds, rfl⟩ :=
    tryShift_cases hshift hparse hne
  obtain ⟨-, hwire, hpath⟩ := write_of_parse hparse hne
  rw [hwidth] at hpath
  obtain ⟨hfirst, hrest⟩ := forall_mem_cons.1 hpath
  rw [hprepend, foldl_cons, List.foldl_nil, overrideASPathValue]
  split_ifs with hpeer
  · rw [overridePath, if_pos hpeer]
  · have hwire' : Wire (⟨.asSequence, asn :: asns⟩ :: rest) := by
      exact Wire.cons (List.cons_ne_nil _ _) (Nat.succ_le_of_lt hroom) hwire.tail
    have hpath' : PathHolds intent.dstASN4 (⟨.asSequence, asn :: asns⟩ :: rest) :=
      forall_mem_cons.2 ⟨forall_mem_cons.2 ⟨hholds, hfirst⟩, hrest⟩
    rw [prependAsn_room hroom, overrideSegments_write (hlocal hpeer) hwire' hpath',
      ← overrideFrom_zero hpeer,
      overrideFrom, overrideFrom, prependAsn_room (by rw [length_overrideAsns]; exact hroom),
        Nat.zero_sub, length_cons, Nat.sub_eq_zero_of_le (Nat.le_add_left 1 _)]
    rfl

end

/-! ## Joined sequences -/

/-- Two neighbouring sequences that one segment can hold. Source: aspath_as4.go joinSequences.
-/
def Joinable (l s : Segment) : Prop :=
  l.type = .asSequence ∧ s.type = .asSequence ∧ l.asns.length + s.asns.length ≤ 255

lemma joinSegment_cases (j : Path) (s : Segment) :
    (joinSegment j s = j ++ [s] ∧ ∀ l ∈ j.getLast?, ¬ Joinable l s) ∨
      ∃ j' l, j = j' ++ [l] ∧ Joinable l s ∧ joinSegment j s = j' ++ [⟨.asSequence, l.asns ++
        s.asns⟩] := by
  rcases hlast : j.getLast? with _ | l
  · refine .inl ⟨?_, fun l hl => by cases hl⟩
    rw [joinSegment, hlast]
  · obtain ⟨j', rfl⟩ := List.getLast?_eq_some_iff.1 hlast
    rw [joinSegment, hlast]
    simp only
    split_ifs with hapart
    · refine .inl ⟨rfl, ?_⟩
      rintro l' hl' ⟨hl, hs, hlen⟩
      cases hl'
      rw [maxASPathSegmentLength] at hapart
      rcases hapart with hapart | hapart | hapart
      · exact hapart hs
      · exact hapart hl
      · omega
    · rw [not_or, not_or, not_not, not_not, Nat.not_lt] at hapart
      obtain ⟨hs, hl, hlen⟩ := hapart
      refine .inr ⟨j', l, rfl, ⟨hl, hs, hlen⟩, ?_⟩
      rw [List.dropLast_concat, hl]

lemma joinSequences_concat (p : Path) (s : Segment) :
    joinSequences (p ++ [s]) = joinSegment (joinSequences p) s := by
  rw [joinSequences, List.foldl_append]
  rfl

lemma hops_joinSequences (p : Path) : hops (joinSequences p) = hops p := by
  induction p using reverseRecOn with
  | nil => rfl
  | append_singleton p s ih =>
    rw [joinSequences_concat, hops_append, ← ih]
    rcases joinSegment_cases (joinSequences p) s with ⟨heq, -⟩ | ⟨j, l, hj, ⟨hl, hs, -⟩, heq⟩
    · rw [heq, hops_append]
    · rw [heq, hj, hops_append, hops_append, append_assoc]
      simp only [hops_cons, hops_nil, Segment.hops, hl, hs, List.map_append, List.append_nil]

lemma pathHasNonMappableAS_joinSequences (p : Path) :
    pathHasNonMappableAS (joinSequences p) = pathHasNonMappableAS p := by
  induction p using reverseRecOn with
  | nil => rfl
  | append_singleton p s ih =>
    rw [joinSequences_concat]
    simp only [pathHasNonMappableAS, any_append, any_cons, any_nil, Bool.or_false] at ih ⊢
    rw [← ih]
    rcases joinSegment_cases (joinSequences p) s with ⟨heq, -⟩ | ⟨j, l, hj, ⟨hl, hs, -⟩, heq⟩
    · rw [heq]
      simp only [any_append, any_cons, any_nil, Bool.or_false]
    · have hseq : SegmentType.asSequence.isConfedSegment = false := rfl
      rw [heq, hj]
      simp only [any_append, any_cons, any_nil, Bool.or_false, hl, hs, hseq,
        Bool.not_false, Bool.true_and, Bool.or_assoc]

lemma wire_joinSequences (h : Wire p) : Wire (joinSequences p) := by
  induction p using reverseRecOn with
  | nil => exact h
  | append_singleton p s ih =>
    obtain ⟨hp, hs⟩ := forall_mem_append.1 h
    have hj := ih hp
    rw [joinSequences_concat]
    rcases joinSegment_cases (joinSequences p) s with ⟨heq, -⟩ | ⟨j, l, hjl, ⟨-, -, hlen⟩, heq⟩
    · rw [heq]
      exact forall_mem_append.2 ⟨hj, hs⟩
    · rw [heq]
      rw [hjl] at hj
      refine forall_mem_append.2 ⟨(forall_mem_append.1 hj).1, List.forall_mem_singleton.2 ?_⟩
      refine ⟨?_, by rw [length_append]; exact hlen⟩
      have hne := (hs s mem_cons_self).1
      exact List.append_ne_nil_of_right_ne_nil _ hne

lemma plain_joinSequences (h : Plain p) : Plain (joinSequences p) := by
  induction p using reverseRecOn with
  | nil => exact h
  | append_singleton p s ih =>
    obtain ⟨hp, hs⟩ := forall_mem_append.1 h
    have hj := ih hp
    rw [joinSequences_concat]
    rcases joinSegment_cases (joinSequences p) s with ⟨heq, -⟩ | ⟨j, l, hjl, -, heq⟩
    · rw [heq]
      exact forall_mem_append.2 ⟨hj, hs⟩
    · rw [heq]
      rw [hjl] at hj
      exact forall_mem_append.2
        ⟨(forall_mem_append.1 hj).1, List.forall_mem_singleton.2 (.inl rfl)⟩

lemma length_foldl_joinSegment_le (j q : Path) :
    (q.foldl joinSegment j).length ≤ j.length + q.length := by
  induction q generalizing j with
  | nil => exact Nat.le_refl _
  | cons s q ih =>
    have hle := ih (joinSegment j s)
    have hstep : (joinSegment j s).length ≤ j.length + 1 := by
      rcases joinSegment_cases j s with ⟨heq, -⟩ | ⟨j', l, rfl, -, heq⟩
      · rw [heq, length_append, List.length_singleton]
      · rw [heq, length_append, length_append, List.length_singleton, List.length_singleton]
        exact Nat.le_succ _
    rw [foldl_cons, length_cons]
    omega

lemma foldl_joinSegment_eq_iff (j : Path) (l : Segment) (q : Path) :
    q.foldl joinSegment (j ++ [l]) = j ++ [l] ++ q ↔
      List.IsChain (fun a b => ¬ Joinable a b) (l :: q) := by
  induction q generalizing j l with
  | nil =>
    rw [List.foldl_nil, List.append_nil]
    exact ⟨fun _ => .singleton _, fun _ => rfl⟩
  | cons s q ih =>
    rw [foldl_cons, List.isChain_cons_cons]
    rcases joinSegment_cases (j ++ [l]) s with ⟨heq, hapart⟩ | ⟨j', l', hj, hjoin, heq⟩
    · have hnot : ¬ Joinable l s := hapart l (by rw [List.getLast?_concat]; rfl)
      rw [heq, List.append_cons (j ++ [l]) s q, ih]
      exact ⟨fun h => ⟨hnot, h⟩, fun h => h.2⟩
    · obtain ⟨rfl, hl⟩ := List.append_inj' hj rfl
      cases hl
      constructor
      · intro hsame
        have hle := length_foldl_joinSegment_le (joinSegment (j ++ [l]) s) q
        rw [hsame, heq] at hle
        simp only [length_append, length_cons, length_nil] at hle
        omega
      · exact fun h => absurd hjoin h.1

lemma joinSequences_eq_iff (q : Path) :
    joinSequences q = q ↔ List.IsChain (fun a b => ¬ Joinable a b) q := by
  rcases q with _ | ⟨s, q⟩
  · exact ⟨fun _ => .nil, fun _ => rfl⟩
  · exact foldl_joinSegment_eq_iff [] s q

/-! ## The AS4_PATH of an old speaker -/

lemma hops_appendAS4Segments (p : Path) : hops (appendAS4Segments p) = hops p := by
  induction p with
  | nil => rfl
  | cons s p ih =>
    rw [appendAS4Segments] at ih ⊢
    by_cases hconfed : s.type.isConfedSegment
    · rw [List.filter_cons_of_neg (by rw [hconfed]; decide), ih, hops_cons,
        hops_of_isConfedSegment hconfed, nil_append]
    · rw [List.filter_cons_of_pos (by rw [Bool.not_eq_true] at hconfed; rw [hconfed]; rfl),
        hops_cons, ih, hops_cons]

lemma plain_appendAS4Segments (p : Path) : Plain (appendAS4Segments p) := by
  intro s hs
  have hconfed := (List.mem_filter.1 hs).2
  rcases s with ⟨_ | _ | _ | _, asns⟩
  · exact .inr rfl
  · exact .inl rfl
  · cases hconfed
  · cases hconfed

lemma wire_appendAS4Segments (h : Wire p) : Wire (appendAS4Segments p) :=
  fun s hs => h s (List.mem_filter.1 hs).1

lemma wire_appendLeadingSegments (h : Wire p) (wanted : ℕ) :
    Wire (appendLeadingSegments p wanted) := by
  induction p generalizing wanted with
  | nil => exact h
  | cons s p ih =>
    obtain ⟨hne, hle⟩ := h s mem_cons_self
    rw [appendLeadingSegments]
    split_ifs with hconfed hw
    · exact Wire.cons hne hle (ih h.tail _)
    · exact forall_mem_nil _
    · have hpart : (leadingPart s wanted).1.asns ≠ [] := by
        unfold leadingPart
        split_ifs
        · exact hne
        · exact hne
        · exact hne
        · rw [ne_eq, List.take_eq_nil_iff, not_or]
          exact ⟨by omega, hne⟩
      exact Wire.cons hpart (Nat.le_trans (length_leadingPart_le s wanted) hle) (ih h.tail _)

lemma writeAS4Path_appendAS4Segments (p : Path) :
    writeAS4Path (appendAS4Segments p) = writeAS4Path p := by
  rw [writeAS4Path, appendAS4Segments, List.filter_filter, writeAS4Path]
  simp only [Bool.and_self]

lemma write_of_parseAS4Segments (h : parseAS4Segments data = .ok q) :
    writeToWithASN4 q true = data ∧ Wire q := by
  fun_induction parseAS4Segments data generalizing q with
  | case1 =>
    cases h
    exact ⟨rfl, forall_mem_nil _⟩
  | case2 | case3 | case4 | case5 => cases h
  | case6 t count rest hzero type htype hlen ih =>
    rcases hrest : parseAS4Segments (rest.drop (count.toNat * 4)) with e | q'
    · rw [hrest] at h
      cases h
    · rw [hrest] at h
      cases h
      obtain ⟨hwrite, hwire⟩ := ih hrest
      have hsize : count.toNat * asnSize true ≤ rest.length := Nat.le_of_not_lt hlen
      have hread := (write_readAsns true count.toNat rest hsize).1
      have hcount := length_readAsns true count.toNat rest hsize
      have hne : readAsns true count.toNat rest ≠ [] := by
        rw [ne_eq, ← length_eq_zero_iff, hcount]
        exact hzero
      have hwire' : Wire (⟨type, readAsns true count.toNat rest⟩ :: q') :=
        Wire.cons hne (by simp only [hcount]; omega) hwire
      refine ⟨?_, hwire'⟩
      have hofNat : ofNat 8 count.toNat = count := by
        apply BitVec.eq_of_toNat_eq
        rw [toNat_ofNat]
        omega
      rw [writeToWithASN4_cons true hwire', hwrite, hread, hcount, hofNat,
        SegmentType.octet_of_ofOctet htype]
      exact congrArg (t :: count :: ·) (List.take_append_drop _ _)

lemma write_of_parseAS4Path (h : parseAS4Path v = .ok q) : writeToWithASN4 q true = v ∧ Wire q := by
  unfold parseAS4Path at h
  split_ifs at h with hnil heven
  · cases h
    exact ⟨(length_eq_zero_iff.1 hnil).symm, forall_mem_nil _⟩
  · exact write_of_parseAS4Segments h

lemma mergeAS4Path_of_ne_nil (h : q ≠ []) :
    mergeAS4Path (some p) (some q) =
      if countASNs p < countASNs q then some p
      else some (appendLeadingSegments p (countASNs p - countASNs q) ++ appendAS4Segments q) := by
  rcases q with _ | ⟨s, q⟩
  · exact absurd rfl h
  · rfl

/-- A received AS4_PATH that the re-encoding leaves as it is: with as many AS numbers as the path
that the destination gets, one of them over 65535, no confederation segment, and no two neighbouring
sequences that one segment can hold. -/
structure Unchanged (p q : Path) : Prop where
  count : countASNs q = countASNs p
  plain : Plain q
  owed : pathHasNonMappableAS q = true
  apart : List.IsChain (fun a b => ¬ Joinable a b) q

lemma as4PathForRewrite_eq_iff {rest : Path} (hwire : Wire (⟨.asSequence, asn :: asns⟩ :: rest))
    (hmap : pathHasNonMappableAS (⟨.asSequence, asn :: asns⟩ :: rest) = false) :
    (∃ q', as4PathForRewrite (⟨.asSequence, asn :: asns⟩ :: rest)
      (parseAS4Path v).toOption false false =
        some q' ∧ writeAS4Path q' = v) ↔
      ∃ q, parseAS4Path v = .ok q ∧ Unchanged (⟨.asSequence, asn :: asns⟩ :: rest) q := by
  generalize hp : (⟨.asSequence, asn :: asns⟩ :: rest : Path) = p at hwire hmap
  have hzero : appendLeadingSegments p 0 = [] := by
    rw [← hp]
    rfl
  have hnone : as4PathFor (some p) = none := by
    rw [as4PathFor, filter_some, hmap]
    rfl
  have hjoined : as4PathFor (some (joinSequences p)) = none := by
    rw [as4PathFor, filter_some, pathHasNonMappableAS_joinSequences, hmap]
    rfl
  rcases hparse : parseAS4Path v with e | q
  · -- An AS4_PATH that cannot be read is dropped.
    constructor
    · rintro ⟨q', hq', -⟩
      cases hnone.symm.trans hq'
    · rintro ⟨q, hq, -⟩
      cases hq
  · have hderived : as4PathForRewrite p (Except.ok q : Except PathError Path).toOption false false =
        as4PathFor ((mergeAS4Path (some p) (some q)).map joinSequences) := rfl
    rw [hderived]
    obtain ⟨hv, hwireq⟩ := write_of_parseAS4Path hparse
    constructor
    · rintro ⟨q', hq', hwrite⟩
      refine ⟨q, rfl, ?_⟩
      -- The received path is completed, as it is neither empty nor longer.
      by_cases hnil : q = []
      · rw [hnil] at hq'
        exact absurd (hjoined.symm.trans hq') (Option.some_ne_none _).symm
      · rw [mergeAS4Path_of_ne_nil hnil] at hq'
        split_ifs at hq' with hshort
        · rw [map_some, hjoined] at hq'
          cases hq'
        · rw [map_some, as4PathFor, filter_some] at hq'
          split_ifs at hq' with howed
          cases hq'
          have hmerged : Wire (appendLeadingSegments p (countASNs p - countASNs q) ++
              appendAS4Segments q) :=
            forall_mem_append.2
              ⟨wire_appendLeadingSegments hwire _, wire_appendAS4Segments hwireq⟩
          have hread : parseAS4Path v = .ok (appendAS4Segments (joinSequences
              (appendLeadingSegments p (countASNs p - countASNs q) ++ appendAS4Segments q))) := by
            rw [← hwrite, ← writeAS4Path_appendAS4Segments]
            exact parseAS4Path_write (plain_appendAS4Segments _)
              (wire_appendAS4Segments (wire_joinSequences hmerged))
          have hq := Except.ok.inj (hparse.symm.trans hread)
          have hplain : Plain q := by
            rw [hq]
            exact plain_appendAS4Segments _
          have hcount : countASNs q = countASNs p := by
            have hhops := congrArg List.length (congrArg hops hq)
            rw [hops_appendAS4Segments, hops_joinSequences, hops_append, hops_appendLeadingSegments,
              hops_appendAS4Segments, length_append, List.length_take, ← countASNs_eq,
              ← countASNs_eq] at hhops
            omega
          rw [hcount, Nat.sub_self, hzero, nil_append,
            appendAS4Segments_of_plain hplain] at hq howed
          rw [appendAS4Segments_of_plain (plain_joinSequences hplain)] at hq
          rw [pathHasNonMappableAS_joinSequences] at howed
          exact ⟨hcount, hplain, howed, (joinSequences_eq_iff q).1 hq.symm⟩
    · rintro ⟨q', hq', hsame⟩
      cases hq'
      have hne : q ≠ [] := by
        rintro rfl
        cases hsame.owed
      have hmerge : mergeAS4Path (some p) (some q) = some q := by
        rw [mergeAS4Path_of_ne_nil hne, if_neg (by rw [hsame.count]; exact Nat.lt_irrefl _),
          hsame.count, Nat.sub_self, hzero, nil_append, appendAS4Segments_of_plain hsame.plain]
      refine ⟨q, ?_, ?_⟩
      · rw [hmerge, map_some, (joinSequences_eq_iff q).2 hsame.apart, as4PathFor,
          filter_some, hsame.owed]
        rfl
      · rw [writeAS4Path_eq hsame.plain hwireq, hv]

end Ze.AsPath
