import Ze.AsPath.Collapse
import Mathlib.Algebra.Order.BigOperators.Group.List
import Mathlib.Algebra.Order.Group.Nat
import Mathlib.Data.List.Nodup

/-!
# The length field of a narrowed UPDATE

`TranscodeASPath` reckons the length of the new attribute section before it writes the attributes.
For a body of any attributes, none of them twice, this file compares the two.
-/

namespace Ze.AsPath

open List
open Option (elim_none elim_some mapM_some some.inj)

/-! ## What is read -/

lemma putUint16_uint16 (a b : Octet) : putUint16 (uint16 a b) = [a, b] := by
  rw [putUint16, uint16]
  congr 1
  · apply BitVec.eq_of_toNat_eq
    rw [BitVec.toNat_ofNat]
    omega
  · congr 1
    apply BitVec.eq_of_toNat_eq
    rw [BitVec.toNat_ofNat]
    omega

variable {data : List Octet} {p : Path} {n : ℕ}

/-- The attributes that are found in a section are all of it. -/
lemma scanAttrs_eq {off : ℕ} {attrs : List Attr}
    (h : scanAttrs off data = .ok attrs) : attrs.flatMap Attr.octets = data := by
  fun_induction scanAttrs off data generalizing attrs with
  | case1 =>
    cases h
    rfl
  | case2 | case3 | case4 | case5 => cases h
  | case6 off flags code l hext l' rest hlen ih =>
    rcases hrest : scanAttrs (off + 4 + uint16 l l') (rest.drop (uint16 l l')) with e | attrs'
    · rw [hrest] at h
      cases h
    · rw [hrest] at h
      cases h
      have htake : (rest.take (uint16 l l')).length = uint16 l l' := by
        rw [length_take]
        omega
      rw [flatMap_cons, ih hrest, Attr.octets]
      simp only [hext, if_true, htake, putUint16_uint16, cons_append, nil_append, take_append_drop]
  | case7 => cases h
  | case8 off flags code l rest hext hlen ih =>
    rcases hrest : scanAttrs (off + 3 + l.toNat) (rest.drop l.toNat) with e | attrs'
    · rw [hrest] at h
      cases h
    · rw [hrest] at h
      cases h
      have htake : (rest.take l.toNat).length = l.toNat := by
        rw [length_take]
        omega
      rw [flatMap_cons, ih hrest, Attr.octets]
      simp only [hext, Bool.false_eq_true, if_false, htake, BitVec.ofNat_toNat, BitVec.setWidth_eq,
        cons_append, nil_append, take_append_drop]

variable {payload withdrawn attrOctets nlri : List Octet} {a : Attr}

lemma splitUpdate_eq
    (h : splitUpdate payload = .ok (withdrawn, attrOctets, nlri)) :
    payload = updateOctets withdrawn attrOctets nlri ∧ withdrawn.length < 65536 ∧
      attrOctets.length < 65536 := by
  unfold splitUpdate at h
  split at h
  · rename_i w w' rest
    split_ifs at h with hshort
    split at h
    · rename_i a a' tail hdrop
      split_ifs at h with hshort'
      cases h
      have hw := uint16_lt w w'
      have ha := uint16_lt a a'
      have hwlen : (rest.take (uint16 w w')).length = uint16 w w' := by
        rw [length_take]
        omega
      have halen : (tail.take (uint16 a a')).length = uint16 a a' := by
        rw [length_take]
        omega
      refine ⟨?_, by omega, by omega⟩
      rw [updateOctets, hwlen, halen, putUint16_uint16, putUint16_uint16]
      have hrest : rest.take (uint16 w w') ++ a :: a' :: tail = rest := by
        rw [← hdrop, take_append_drop]
      simp only [cons_append, nil_append, append_assoc, take_append_drop, hrest]
    · cases h
  · cases h

/-! ## The octets of a path -/

lemma length_writeSegmentWithSplit (type : SegmentType) (asns : List Asn) (asn4 : Bool) :
    (writeSegmentWithSplit type asns asn4).length =
      if asns.length = 0 then 0
      else (asns.length + maxASPathSegmentLength - 1) / maxASPathSegmentLength * 2 +
        asns.length * asnSize asn4 := by
  fun_induction writeSegmentWithSplit type asns asn4 with
  | case1 asns hzero => simp [hzero]
  | case2 asns hpos ih =>
    have hmul : (asns.drop 255).length * asnSize asn4 + (asns.take 255).length * asnSize asn4 =
        asns.length * asnSize asn4 := by
      rw [← Nat.add_mul, length_take, length_drop]
      congr 1
      omega
    have hdrop := length_drop (i := maxASPathSegmentLength) (l := asns)
    have hmax : maxASPathSegmentLength = 255 := rfl
    rw [if_neg hpos, length_append, length_append, length_flatMap_writeAsn]
    by_cases hlong : maxASPathSegmentLength < asns.length
    · rw [if_pos hlong, ih hlong, if_neg (by omega)]
      simp only [hmax, length_cons, length_nil] at hdrop hlong ⊢
      omega
    · have hzero : (asns.drop 255).length = 0 := by
        rw [hmax] at hdrop hlong
        omega
      rw [hzero] at hmul
      rw [if_neg hlong]
      simp only [hmax, length_cons, length_nil] at hlong ⊢
      omega

lemma length_writeToWithASN4_any (p : Path) (asn4 : Bool) :
    (writeToWithASN4 p asn4).length = lenWithASN4 p asn4 := by
  rw [writeToWithASN4, lenWithASN4, length_flatMap]
  congr 1
  apply map_congr_left
  intro s _
  exact length_writeSegmentWithSplit s.type s.asns asn4

lemma length_readAsns (fourByte : Bool) (n : ℕ) (data : List Octet)
    (h : n * asnSize fourByte ≤ data.length) : (readAsns fourByte n data).length = n := by
  induction n generalizing data with
  | zero => rfl
  | succ n ih =>
    rw [Nat.succ_mul] at h
    rcases fourByte with _ | _
    · simp only [asnSize, Bool.false_eq_true, if_false] at h ih
      rcases data with _ | ⟨a, _ | ⟨b, rest⟩⟩
      on_goal 3 =>
        simp only [readAsns, Bool.false_eq_true, if_false, length_cons]
        rw [ih rest (by simp only [length_cons] at h; omega)]
      all_goals
        simp only [length_cons, length_nil] at h
        omega
    · simp only [asnSize, if_true] at h ih
      rcases data with _ | ⟨a, _ | ⟨b, _ | ⟨c, _ | ⟨d, rest⟩⟩⟩⟩
      on_goal 5 =>
        simp only [readAsns, if_true, length_cons]
        rw [ih rest (by simp only [length_cons] at h; omega)]
      all_goals
        simp only [length_cons, length_nil] at h
        omega

lemma length_of_parseSegments {fourByte : Bool} {total : ℕ}
    (h : parseSegments fourByte total data = .ok p) :
    (p.map fun s => 2 + s.asns.length * asnSize fourByte).sum = data.length ∧
      ∀ s ∈ p, s.asns.length ≤ 255 := by
  fun_induction parseSegments fourByte total data generalizing p with
  | case1 =>
    cases h
    exact ⟨rfl, fun s hs => by cases hs⟩
  | case2 | case3 | case4 | case5 => cases h
  | case6 total t count rest type htype hmax hlen ih =>
    rcases hrest : parseSegments fourByte (total + count.toNat)
        (rest.drop (count.toNat * asnSize fourByte)) with e | p'
    · rw [hrest] at h
      cases h
    · rw [hrest] at h
      cases h
      obtain ⟨hsum, hshort⟩ := ih hrest
      have hread := length_readAsns fourByte count.toNat rest (by omega)
      refine ⟨?_, ?_⟩
      · rw [map_cons, sum_cons, hsum, hread, length_drop, length_cons, length_cons]
        omega
      · rw [forall_mem_cons, hread]
        exact ⟨by omega, hshort⟩

lemma len_le_of_parse {value : List Octet} (h : parseASPath value true = .ok p) :
    lenWithASN4 p false ≤ value.length ∧ lenAS4Path p ≤ value.length := by
  obtain ⟨hsum, hshort⟩ := length_of_parseSegments h
  rw [← hsum]
  clear hsum h
  induction p with
  | nil => exact ⟨Nat.le_refl _, Nat.le_refl _⟩
  | cons s p ih =>
    obtain ⟨hlen, hlen4⟩ := ih fun s' hs' => hshort s' (mem_cons_of_mem _ hs')
    simp only [lenWithASN4, lenAS4Path, asnSize, Bool.false_eq_true, if_false, if_true,
      maxASPathSegmentLength, map_cons, sum_cons] at hlen hlen4 ⊢
    refine ⟨?_, ?_⟩
    · split_ifs <;> omega
    · rw [filter_cons]
      split_ifs
      · rw [map_cons, sum_cons]
        omega
      · omega

/-! ## What is written -/

lemma length_writeHeader (flags code : Octet) (n : ℕ) :
    (writeHeader flags code n).length = if 255 < n ∨ isExtLength flags = true then 4 else 3 := by
  rw [writeHeader]
  by_cases hlong : 255 < n
  · simp [hlong, isExtLength_or, putUint16]
  · by_cases hext : isExtLength flags = true <;> simp [hlong, hext, putUint16]

lemma isExtLength_tombstone (flags : Octet) :
    isExtLength (0x80#8 ||| (flags &&& 0x50#8)) = isExtLength flags := by
  revert flags
  decide

lemma length_discardAggregator (a : Attr) :
    (discardAggregator a).length = a.hdrLen + max a.value.length tombstoneMinValueLen := by
  unfold discardAggregator
  simp only
  split_ifs with hfits hhdr
  · rw [tombstoneMinValueLen] at hfits ⊢
    simp only [putUint16, length_append, length_cons, length_nil, length_replicate]
    omega
  · have hthree : a.hdrLen = 3 := by
      unfold Attr.hdrLen at hhdr ⊢
      split_ifs at hhdr ⊢ <;> omega
    rw [tombstoneMinValueLen] at hfits ⊢
    simp only [length_append, length_cons, length_nil, length_replicate]
    omega
  · rw [length_append, length_writeHeader, isExtLength_tombstone, Attr.hdrLen]
    rw [tombstoneMinValueLen] at hfits ⊢
    by_cases hext : isExtLength a.flags
    · rw [if_pos (.inr hext), if_pos hext]
      simp only [length_cons, length_nil]
      omega
    · rw [if_neg (by simp [hext]), if_neg hext]
      simp only [length_cons, length_nil]
      omega

/-- The octets that an attribute takes for an old speaker. -/
def oldSpeakerSize (path : Option Path) (node : Option (Asn × List Octet)) (a : Attr) : ℕ :=
  if a.code = attrASPath then
    match path with
    | some p => (if 255 < lenWithASN4 p false then 4 else 3) + lenWithASN4 p false
    | none => a.hdrLen + a.value.length
  else if a.code = attrAS4Path then 0
  else if a.code = attrAggregator then
    match node with
    | some _ => 9
    | none => a.hdrLen + max a.value.length tombstoneMinValueLen
  else if a.code = attrAS4Aggregator then
    match node with
    | some _ => 0
    | none => a.hdrLen + a.value.length
  else a.hdrLen + a.value.length

/-- The path of the attributes, if they have one that can be read. -/
def pathOf (attrs : List Attr) : Option Path :=
  (lastAttr attrASPath attrs).bind fun a => (parseASPath a.value true).toOption

/-- The octets that attributes take for an old speaker: the AS_PATH at two octets a number, an
AGGREGATOR of eight octets at six, one of less than two at two, no AS4 attributes but those that
carry a number that two octets do not hold. -/
def oldSpeakerLength (attrs : List Attr) : ℕ :=
  (attrs.map (oldSpeakerSize (pathOf attrs) (readAggregator (lastAttr attrAggregator attrs)))).sum +
    as4PathWireSize (as4PathFor (pathOf attrs)) +
    ((readAggregator (lastAttr attrAggregator attrs)).elim 0 fun n =>
      if isNonMappable n.1 then 11 else 0)

lemma readAggregator_some {n : Asn × List Octet} (h : readAggregator (some a) = some n) :
    a.value.length = 8 ∧ n.2.length = 4 := by
  unfold readAggregator at h
  split at h
  · rename_i heq
    cases h
    rw [some.inj heq]
    exact ⟨rfl, rfl⟩
  · cases h

lemma readAggregator_none (h : readAggregator (some a) = none) : a.value.length ≠ 8 := by
  intro hlen
  unfold readAggregator at h
  match hvalue : a.value, hlen with
  | [_, _, _, _, _, _, _, _], _ =>
    simp only [Option.map_some, hvalue] at h
    cases h

section

variable {attrs : List Attr} {path : Option Path} (honce : (attrs.map Attr.code).Nodup)
  (hpath : ((lastAttr attrASPath attrs).mapM fun a => parseASPath a.value true) = .ok path)

include honce

lemma lastAttr_of_code {a : Attr} {code : Octet} (ha : a ∈ attrs) (hcode : a.code = code) :
    lastAttr code attrs = some a :=
  hcode ▸ lastAttr_eq_some honce ha

include hpath

lemma path_cases {a : Attr} (ha : a ∈ attrs) (hcode : a.code = attrASPath) :
    ∃ p, path = some p ∧ lenWithASN4 p false ≤ a.value.length ∧ lenAS4Path p ≤ a.value.length := by
  rw [lastAttr_of_code honce ha hcode, mapM_some] at hpath
  rcases hp : parseASPath a.value true with e | p
  · rw [hp] at hpath
    cases hpath
  · rw [hp] at hpath
    cases hpath
    exact ⟨p, rfl, len_le_of_parse hp⟩

lemma length_transcodeAttr {a : Attr} (ha : a ∈ attrs) :
    (transcodeAttr path (readAggregator (lastAttr attrAggregator attrs)) a).length =
      oldSpeakerSize path (readAggregator (lastAttr attrAggregator attrs)) a := by
  unfold transcodeAttr oldSpeakerSize
  have hlt : a.value.length < 65536 := by
    have h := a.fits
    split_ifs at h <;> omega
  by_cases hasp : a.code = attrASPath
  · obtain ⟨p, rfl, hle, -⟩ := path_cases honce hpath ha hasp
    rw [if_pos hasp, if_pos hasp]
    simp only
    rw [length_append, length_writeHeader, length_writeToWithASN4_any,
      Nat.mod_eq_of_lt (by omega : lenWithASN4 p false < 65536)]
    simp [isExtLength, flagTransitive]
  rw [if_neg hasp, if_neg hasp]
  by_cases has4 : a.code = attrAS4Path
  · rw [if_pos has4, if_pos has4]
    rfl
  rw [if_neg has4, if_neg has4]
  by_cases hagg : a.code = attrAggregator
  · rw [if_pos hagg, if_pos hagg, lastAttr_of_code honce ha hagg]
    rcases hn : readAggregator (some a) with _ | ⟨asn, ip⟩
    · have hne := readAggregator_none hn
      simp only
      split_ifs with hodd
      · exact length_discardAggregator a
      · rw [Attr.length_octets, tombstoneMinValueLen]
        omega
    · have hip := (readAggregator_some hn).2
      simp only at hip ⊢
      rw [length_append, length_append, hip, length_writeHeader]
      rfl
  rw [if_neg hagg, if_neg hagg]
  by_cases has4agg : a.code = attrAS4Aggregator
  · rw [if_pos has4agg, if_pos has4agg]
    rcases readAggregator (lastAttr attrAggregator attrs) with _ | n
    · exact Attr.length_octets a
    · rfl
  · rw [if_neg has4agg, if_neg has4agg]
    exact Attr.length_octets a

omit honce hpath in
lemma length_writeAS4PathAttr {as4Path : Option Path}
    (h : ∀ p, as4Path = some p → lenAS4Path p < 65536) :
    (writeAS4PathAttr as4Path).length = as4PathWireSize as4Path := by
  unfold writeAS4PathAttr as4PathWireSize
  rcases as4Path with _ | p
  · rfl
  · simp only
    rw [length_append, length_writeHeader, length_writeAS4Path, Nat.mod_eq_of_lt (h p rfl)]
    by_cases hlong : 255 < lenAS4Path p <;> simp [hlong, isExtLength, flagOptionalTransitive]

omit honce in
lemma pathOf_eq : pathOf attrs = path := by
  unfold pathOf
  rcases hlast : lastAttr attrASPath attrs with _ | a
  · rw [hlast] at hpath
    cases hpath
    rfl
  · rw [hlast, mapM_some] at hpath
    rcases hp : parseASPath a.value true with e | p
    · rw [hp] at hpath
      cases hpath
    · rw [hp] at hpath
      cases hpath
      rw [Option.bind_some, hp]
      rfl

omit honce hpath in
lemma oldSpeakerSize_eq (path : Option Path) (node : Option (Asn × List Octet)) (a : Attr) :
    (oldSpeakerSize path node a : ℤ) = (a.octets.length : ℤ) +
      (if a.code = attrASPath then
        (path.elim 0 fun p => (if 255 < lenWithASN4 p false then 4 else 3) +
          (lenWithASN4 p false : ℤ) -
          spanLen (some a)) else 0) +
      (if a.code = attrAS4Path then - spanLen (some a) else 0) +
      (if a.code = attrAggregator then
        (node.elim ((max a.value.length tombstoneMinValueLen : ℕ) - (a.value.length : ℤ)) fun _ =>
          9 - spanLen (some a)) else 0) +
      (if a.code = attrAS4Aggregator then (node.elim 0 fun _ => - spanLen (some a)) else 0) := by
  rw [Attr.length_octets]
  unfold oldSpeakerSize spanLen
  by_cases hasp : a.code = attrASPath
  · rw [if_pos hasp, if_pos hasp, if_neg (by rw [hasp]; decide), if_neg (by rw [hasp]; decide),
      if_neg (by rw [hasp]; decide)]
    rcases path with _ | p
    · simp
    · simp only [elim_some]
      split_ifs <;> omega
  rw [if_neg hasp, if_neg hasp]
  by_cases has4 : a.code = attrAS4Path
  · rw [if_pos has4, if_pos has4, if_neg (by rw [has4]; decide), if_neg (by rw [has4]; decide)]
    push_cast
    omega
  rw [if_neg has4, if_neg has4]
  by_cases hagg : a.code = attrAggregator
  · rw [if_pos hagg, if_pos hagg, if_neg (by rw [hagg]; decide)]
    rcases node with _ | n
    · simp only [elim_none]
      push_cast
      omega
    · simp only [elim_some]
      push_cast
      omega
  rw [if_neg hagg, if_neg hagg]
  by_cases has4agg : a.code = attrAS4Aggregator
  · rw [if_pos has4agg, if_pos has4agg]
    rcases node with _ | n
    · simp
    · simp only [elim_some]
      push_cast
      omega
  · rw [if_neg has4agg, if_neg has4agg]
    push_cast
    omega

/-- The octet that is not reckoned: that of an extended length of an AGGREGATOR that is too short
for a marker. Source: aspath_transcode.go rebuiltTombstone. -/
def unreckoned (attrs : List Attr) : ℕ :=
  (lastAttr attrAggregator attrs).elim 0 fun a =>
    if a.value.length < tombstoneMinValueLen ∧ isExtLength a.flags = true then 1 else 0

omit honce hpath in
lemma newAttrLen_parts (n : ℕ) (attrs : List Attr) (path : Option Path)
    (node : Option (Asn × List Octet)) :
    newAttrLen n attrs path node = n +
      (path.elim 0 fun p => (if 255 < lenWithASN4 p false then 4 else 3) +
        (lenWithASN4 p false : ℤ) -
        spanLen (lastAttr attrASPath attrs)) -
      spanLen (lastAttr attrAS4Path attrs) + as4PathWireSize (as4PathFor path) +
      (node.elim 0 fun n => 9 - spanLen (lastAttr attrAggregator attrs) -
        spanLen (lastAttr attrAS4Aggregator attrs) + (if isNonMappable n.1 then 11 else 0)) +
      ((lastAttr attrAggregator attrs).elim 0 fun a =>
        if a.value.length < tombstoneMinValueLen then
          3 + (tombstoneMinValueLen : ℤ) - (a.hdrLen + a.value.length) else 0) := by
  unfold newAttrLen
  rcases path with _ | p <;> rcases node with _ | ⟨asn, ip⟩ <;>
    rcases lastAttr attrAggregator attrs with _ | a <;> rfl

omit hpath in
lemma sum_of_once_elim (code : Octet) (f : Attr → ℤ) :
    (attrs.map fun a => if a.code = code then f a else 0).sum = (lastAttr code attrs).elim 0 f := by
  rw [sum_of_once honce]
  rcases lastAttr code attrs with _ | a <;> rfl

omit honce hpath in
lemma aggregatorParts_eq (last last4 : Option Attr) :
    (last.elim 0 fun a => (readAggregator last).elim
        ((max a.value.length tombstoneMinValueLen : ℕ) - (a.value.length : ℤ)) fun _ =>
          9 - spanLen (some a)) +
      (last4.elim 0 fun a => (readAggregator last).elim 0 fun _ => - spanLen (some a)) +
      (((readAggregator last).elim 0 fun n => if isNonMappable n.1 then 11 else 0 : ℕ) : ℤ) =
      ((readAggregator last).elim 0 fun n => 9 - spanLen last - spanLen last4 +
        (if isNonMappable n.1 then 11 else 0)) +
      (last.elim 0 fun a => if a.value.length < tombstoneMinValueLen then
        3 + (tombstoneMinValueLen : ℤ) - (a.hdrLen + a.value.length) else 0) +
      ((last.elim 0 fun a =>
        if a.value.length < tombstoneMinValueLen ∧ isExtLength a.flags = true then 1 else 0 :
          ℕ) : ℤ) := by
  rcases last with _ | a
  · rcases last4 with _ | a' <;> rfl
  · rcases hn : readAggregator (some a) with _ | ⟨asn, ip⟩
    · simp only [elim_none, elim_some, Attr.hdrLen, tombstoneMinValueLen]
      rcases last4 with _ | a'
      all_goals
        simp only [elim_none, elim_some]
        by_cases hext : isExtLength a.flags
        · simp only [hext, if_true, and_true]
          split_ifs <;> omega
        · simp only [hext, Bool.false_eq_true, if_false, and_false]
          split_ifs <;> omega
    · have hshort : ¬ a.value.length < tombstoneMinValueLen := by
        rw [(readAggregator_some hn).1]
        decide
      simp only [hshort, if_false, false_and, elim_some]
      rcases last4 with _ | a' <;> simp only [spanLen, elim_none, elim_some] <;> split_ifs <;> omega

lemma oldSpeakerLength_eq :
    (oldSpeakerLength attrs : ℤ) =
      newAttrLen (attrs.flatMap Attr.octets).length attrs path
        (readAggregator (lastAttr attrAggregator attrs)) + unreckoned attrs := by
  have hpathOf := pathOf_eq hpath
  set node := readAggregator (lastAttr attrAggregator attrs) with hnode
  have hsum : ((attrs.map (oldSpeakerSize path node)).sum : ℤ) =
      (attrs.map fun a => (oldSpeakerSize path node a : ℤ)).sum := by
    rw [← Nat.coe_castAddMonoidHom, map_list_sum, map_map]
    rfl
  have hoctets : ((attrs.flatMap Attr.octets).length : ℤ) =
      (attrs.map fun a => (a.octets.length : ℤ)).sum := by
    exact Body.length_flatMap_octets attrs id
  simp only [oldSpeakerSize_eq] at hsum
  rw [sum_map_add, sum_map_add, sum_map_add, sum_map_add, sum_of_once_elim honce,
    sum_of_once_elim honce, sum_of_once_elim honce, sum_of_once_elim honce, ← hoctets] at hsum
  have haggregator := aggregatorParts_eq (lastAttr attrAggregator attrs)
    (lastAttr attrAS4Aggregator attrs)
  have has4 : ((lastAttr attrAS4Path attrs).elim 0 fun a => - spanLen (some a)) =
      - spanLen (lastAttr attrAS4Path attrs) := by
    rcases lastAttr attrAS4Path attrs with _ | a <;> rfl
  have hasp : ((lastAttr attrASPath attrs).elim 0 fun a => path.elim 0 fun p =>
        (if 255 < lenWithASN4 p false then 4 else 3) + (lenWithASN4 p false : ℤ) - spanLen
          (some a)) =
      path.elim 0 fun p => (if 255 < lenWithASN4 p false then 4 else 3) +
        (lenWithASN4 p false : ℤ) -
        spanLen (lastAttr attrASPath attrs) := by
    rcases hlast : lastAttr attrASPath attrs with _ | a
    · rw [hlast] at hpath
      cases hpath
      rfl
    · rfl
  rw [oldSpeakerLength, newAttrLen_parts, unreckoned, hpathOf, ← hnode]
  rw [← hnode] at haggregator
  rw [hasp, has4] at hsum
  push_cast at haggregator hsum ⊢
  rw [hsum]
  omega

lemma length_emitted :
    (attrs.flatMap (transcodeAttr path (readAggregator (lastAttr attrAggregator attrs))) ++
        writeAS4PathAttr (as4PathFor path) ++
        writeAS4AggregatorAttr (readAggregator (lastAttr attrAggregator attrs))).length =
      oldSpeakerLength attrs := by
  have hpathOf := pathOf_eq hpath
  have hsizes : (attrs.map fun a =>
      (transcodeAttr path (readAggregator (lastAttr attrAggregator attrs)) a).length) =
      attrs.map (oldSpeakerSize path (readAggregator (lastAttr attrAggregator attrs))) :=
    map_congr_left fun a ha => length_transcodeAttr honce hpath ha
  have has4 : (writeAS4PathAttr (as4PathFor path)).length = as4PathWireSize (as4PathFor path) := by
    apply length_writeAS4PathAttr
    intro p hp
    obtain ⟨hp, -⟩ := Option.filter_eq_some_iff.mp hp
    rcases hlast : lastAttr attrASPath attrs with _ | a
    · rw [hlast] at hpath
      cases hpath
      cases hp
    · obtain ⟨hmem, hcode⟩ := mem_of_lastAttr hlast
      obtain ⟨p', hp', -, hle⟩ := path_cases honce hpath hmem hcode
      rw [hp] at hp'
      cases hp'
      have hlt := a.length_lt
      omega
  have has4agg : (writeAS4AggregatorAttr (readAggregator (lastAttr attrAggregator attrs))).length =
      (readAggregator (lastAttr attrAggregator attrs)).elim 0 fun n =>
        if isNonMappable n.1 then 11 else 0 := by
    rcases hlast : lastAttr attrAggregator attrs with _ | a
    · rfl
    · rcases hn : readAggregator (some a) with _ | ⟨asn, ip⟩
      · rfl
      · have hip := (readAggregator_some hn).2
        simp only [writeAS4AggregatorAttr, elim_some] at hip ⊢
        split_ifs
        · rw [length_append, length_append, hip]
          rfl
        · rfl
  rw [length_append, length_append, length_flatMap, hsizes, has4, has4agg, oldSpeakerLength,
    hpathOf]

end

/-! ## Reading back -/

def Once (payload : List Octet) : Prop :=
  ∀ withdrawn attrOctets nlri attrs, splitUpdate payload = .ok (withdrawn, attrOctets, nlri) →
    scanAttrs (4 + withdrawn.length) attrOctets = .ok attrs → (attrs.map Attr.code).Nodup

/-- A body reads back with the withdrawn routes and the NLRI of another, and its length field counts
the octets between the two. -/
def SameRoutes (payload out : List Octet) : Prop :=
  ∀ withdrawn attrOctets nlri, splitUpdate payload = .ok (withdrawn, attrOctets, nlri) →
    ∃ attrOctets', splitUpdate out = .ok (withdrawn, attrOctets', nlri) ∧
      out.length = 4 + withdrawn.length + attrOctets'.length + nlri.length

/-- A body without an AGGREGATOR of less than two octets whose length is extended, and whose
attributes fit their length field for an old speaker. -/
def Reckoned (payload : List Octet) : Prop :=
  ∀ withdrawn attrOctets nlri attrs, splitUpdate payload = .ok (withdrawn, attrOctets, nlri) →
    scanAttrs (4 + withdrawn.length) attrOctets = .ok attrs →
      (∀ a ∈ attrs, a.code = attrAggregator → a.value.length < 2 → isExtLength a.flags = false) ∧
        oldSpeakerLength attrs < 65536

lemma splitUpdate_field (rest : List Octet) (hw : withdrawn.length < 65536) (hn : n < 65536) :
    splitUpdate (putUint16 withdrawn.length ++ withdrawn ++ putUint16 n ++ rest) =
      if rest.length < n then .error .updateTruncated
      else .ok (withdrawn, rest.take n, rest.drop n) := by
  simp only [putUint16, cons_append, nil_append, append_assoc, splitUpdate, uint16_ofNat,
    Nat.mod_eq_of_lt hw]
  rw [if_neg (by simp only [length_append, length_cons]; omega)]
  simp only [drop_left, uint16_ofNat, take_left, Nat.mod_eq_of_lt hn]

lemma sameRoutes_iff (emitted : List Octet)
    (hsplit : splitUpdate payload = .ok (withdrawn, attrOctets, nlri)) (hn : n < 65536) :
    SameRoutes payload (putUint16 withdrawn.length ++ withdrawn ++ putUint16 n ++ (emitted ++
      nlri)) ↔
      n = emitted.length := by
  obtain ⟨-, hw, -⟩ := splitUpdate_eq hsplit
  have hout := splitUpdate_field (emitted ++ nlri) hw hn
  constructor
  · intro hsame
    obtain ⟨attrOctets', hread, -⟩ := hsame _ _ _ hsplit
    rw [hout] at hread
    split_ifs at hread with hshort
    rw [length_append] at hshort
    have hnlri := congrArg (fun r => match r with
      | Except.ok (_, _, nlri) => length nlri
      | Except.error (_ : UpdateError) => 0) hread
    simp only [length_drop, length_append] at hnlri
    omega
  · rintro rfl withdrawn' attrOctets' nlri' hsplit'
    obtain ⟨rfl, rfl, rfl⟩ : withdrawn = withdrawn' ∧ attrOctets = attrOctets' ∧ nlri = nlri' := by
      rw [hsplit] at hsplit'
      cases hsplit'
      exact ⟨rfl, rfl, rfl⟩
    refine ⟨emitted, ?_, ?_⟩
    · rw [hout, if_neg (by rw [length_append]; omega), take_left, drop_left]
    · simp only [putUint16, length_append, length_cons, length_nil]
      omega

lemma unreckoned_eq_zero_iff {attrs : List Attr} (honce : (attrs.map Attr.code).Nodup) :
    unreckoned attrs = 0 ↔
      ∀ a ∈ attrs, a.code = attrAggregator → a.value.length < 2 → isExtLength a.flags = false := by
  unfold unreckoned tombstoneMinValueLen
  constructor
  · intro hzero a ha hcode hshort
    rw [lastAttr_of_code honce ha hcode, elim_some] at hzero
    split_ifs at hzero with hext
    rw [← Bool.not_eq_true]
    exact fun h => hext ⟨hshort, h⟩
  · intro hall
    rcases hlast : lastAttr attrAggregator attrs with _ | a
    · rfl
    · obtain ⟨hmem, hcode⟩ := mem_of_lastAttr hlast
      rw [elim_some, if_neg]
      rintro ⟨hshort, hext⟩
      rw [hall a hmem hcode hshort] at hext
      cases hext

lemma oldSpeakerLength_le {attrs : List Attr} (hasp : lastAttr attrASPath attrs = none)
    (hagg : lastAttr attrAggregator attrs = none) :
    oldSpeakerLength attrs ≤ (attrs.flatMap Attr.octets).length := by
  have hpath : pathOf attrs = none := by
    rw [pathOf, hasp]
    rfl
  have hsize : ∀ a ∈ attrs, oldSpeakerSize none none a ≤ a.octets.length := by
    intro a ha
    unfold oldSpeakerSize
    rw [if_neg (lastAttr_eq_none.1 hasp a ha), if_neg (lastAttr_eq_none.1 hagg a ha),
      Attr.length_octets]
    split_ifs
    · exact Nat.zero_le _
    · exact Nat.le_refl _
    · exact Nat.le_refl _
  have hsum : (attrs.map (oldSpeakerSize none none)).sum ≤ (attrs.map fun a =>
      a.octets.length).sum :=
    sum_le_sum hsize
  rw [oldSpeakerLength, hpath, hagg, length_flatMap]
  exact hsum

lemma sameRoutes_transcoded {out : List Octet} {attrs : List Attr}
    (hsplit : splitUpdate payload = .ok (withdrawn, attrOctets, nlri))
    (hscan : scanAttrs (4 + withdrawn.length) attrOctets = .ok attrs)
    (honce : (attrs.map Attr.code).Nodup) (h : transcodeASPath payload true false = .ok out) :
    SameRoutes payload out ↔ unreckoned attrs = 0 ∧ oldSpeakerLength attrs < 65536 := by
  obtain ⟨hpayload, hw, hattr⟩ := splitUpdate_eq hsplit
  have hoctets := scanAttrs_eq hscan
  rw [transcodeASPath, if_neg (by decide), if_neg (by decide), hsplit] at h
  simp only [hscan] at h
  split_ifs at h with hnone
  · -- The body is copied.
    cases h
    have hle := oldSpeakerLength_le hnone.1 hnone.2
    rw [hoctets] at hle
    have hzero : unreckoned attrs = 0 := by
      rw [unreckoned, hnone.2]
      rfl
    refine ⟨fun _ => ⟨hzero, by omega⟩, fun _ => ?_⟩
    have hself := (sameRoutes_iff attrOctets hsplit hattr).2 rfl
    rwa [← append_assoc, ← updateOctets, ← hpayload] at hself
  · rcases hpath : (lastAttr attrASPath attrs).mapM fun a => parseASPath a.value true with e | path
    · rw [hpath] at h
      cases h
    · rw [hpath] at h
      cases h
      have hhead : payload.take (2 + withdrawn.length) =
          putUint16 withdrawn.length ++ withdrawn := by
        rw [hpayload]
        exact Body.take_updateOctets _ _ _
      have hlen := oldSpeakerLength_eq honce hpath
      rw [hoctets] at hlen
      have hu : unreckoned attrs ≤ 1 := by
        unfold unreckoned
        rcases lastAttr attrAggregator attrs with _ | a
        · exact Nat.zero_le _
        · rw [elim_some]
          split_ifs <;> omega
      have hemitted := length_emitted honce hpath
      rw [hhead]
      have happ : ∀ a b c d e f g : List Octet, a ++ b ++ c ++ d ++ e ++ f ++ g =
          a ++ b ++ c ++ (d ++ e ++ f ++ g) := by
        intro a b c d e f g
        simp only [append_assoc]
      rw [happ, sameRoutes_iff _ hsplit (by omega), hemitted]
      omega

/-- **The length field of a narrowed UPDATE.** For every body that is narrowed, with no attribute
type twice: what is written reads back with the withdrawn routes and the NLRI of the body, and its
length field counts the attribute octets, if and only if the body has no AGGREGATOR of less than two
octets with an extended length, and its attributes fit their length field for an old speaker. -/
theorem transcoded_reads_back_iff {payload out : List Octet} {srcASN4 dstASN4 : Bool}
    (h : transcodeASPath payload srcASN4 dstASN4 = .ok out) (hwritten : out ≠ [])
    (honce : Once payload) :
    SameRoutes payload out ↔ Reckoned payload := by
  rcases srcASN4 with _ | _
  · rcases dstASN4 with _ | _ <;> cases h
    exact absurd rfl hwritten
  rcases dstASN4 with _ | _
  · rcases hsplit : splitUpdate payload with e | ⟨withdrawn, attrOctets, nlri⟩
    · rw [transcodeASPath, if_neg (by decide), if_neg (by decide), hsplit] at h
      cases h
    · rcases hscan : scanAttrs (4 + withdrawn.length) attrOctets with e | attrs
      · rw [transcodeASPath, if_neg (by decide), if_neg (by decide), hsplit] at h
        simp only [hscan] at h
        cases h
      · have hnodup := honce _ _ _ _ hsplit hscan
        rw [sameRoutes_transcoded hsplit hscan hnodup h, unreckoned_eq_zero_iff hnodup]
        constructor
        · intro hcond withdrawn' attrOctets' nlri' attrs' hsplit' hscan'
          rw [hsplit] at hsplit'
          cases hsplit'
          rw [hscan] at hscan'
          cases hscan'
          exact hcond
        · exact fun hall => hall _ _ _ _ hsplit hscan
  · cases h
    exact absurd rfl hwritten

def exampleAggregator : Attr :=
  ⟨0xc0#8, attrAggregator, [0#8, 1#8, 0x11#8, 0x70#8, 192#8, 0#8, 2#8, 1#8], by decide⟩

/-- An AGGREGATOR of one octet, with an extended length. -/
def shortAggregator : Attr := ⟨0xd0#8, attrAggregator, [0#8], by decide⟩

/-- A body with one attribute, which announces 10.0.0.0/8. -/
def bodyOf (a : Attr) : List Octet := updateOctets [] a.octets [8#8, 10#8]

lemma splitUpdate_bodyOf (a : Attr) (h : a.octets.length < 65536) :
    splitUpdate (bodyOf a) = .ok ([], a.octets, [8#8, 10#8]) := by
  rw [bodyOf, splitUpdate_updateOctets _ _ (by decide), Nat.mod_eq_of_lt h, take_length,
    drop_length, nil_append]

lemma scanAttrs_bodyOf (off : ℕ) (a : Attr) : scanAttrs off a.octets = .ok [a] := by
  have h := scanAttrs_octets off [a]
  rwa [flatMap_cons, flatMap_nil, append_nil] at h

lemma attrs_of_bodyOf (ha : a.octets.length < 65536)

    {attrs : List Attr} (hsplit : splitUpdate (bodyOf a) = .ok (withdrawn, attrOctets, nlri))
    (hscan : scanAttrs (4 + withdrawn.length) attrOctets = .ok attrs) : attrs = [a] := by
  rw [splitUpdate_bodyOf a ha] at hsplit
  cases hsplit
  rw [scanAttrs_bodyOf] at hscan
  cases hscan
  rfl

lemma once_bodyOf (ha : a.octets.length < 65536) : Once (bodyOf a) := by
  intro withdrawn attrOctets nlri attrs hsplit hscan
  rw [attrs_of_bodyOf ha hsplit hscan]
  exact nodup_singleton _

lemma transcodeASPath_bodyOf (ha : a.octets.length < 65536) (hcode : a.code = attrAggregator) :
    ∃ out, transcodeASPath (bodyOf a) true false = .ok out ∧ out ≠ [] := by
  have hasp : lastAttr attrASPath [a] = none := by
    apply lastAttr_eq_none.2
    intro a' ha'
    rw [mem_singleton.1 ha', hcode]
    decide
  have hagg : lastAttr attrAggregator [a] = some a := by
    rw [← hcode]
    exact lastAttr_eq_some (nodup_singleton _) mem_cons_self
  rw [transcodeASPath, if_neg (by decide), if_neg (by decide), splitUpdate_bodyOf a ha]
  simp only [scanAttrs_bodyOf, hasp, hagg]
  rw [if_neg (by simp)]
  refine ⟨_, rfl, fun h => ?_⟩
  have hlen := congrArg length h
  simp only [length_append, length_cons, length_nil] at hlen
  omega

theorem exampleAggregator_reads_back : ∃ out,
    transcodeASPath (bodyOf exampleAggregator) true false = .ok out ∧
      SameRoutes (bodyOf exampleAggregator) out := by
  have ha : exampleAggregator.octets.length < 65536 := by decide
  obtain ⟨out, hout, hne⟩ := transcodeASPath_bodyOf ha rfl
  refine ⟨out, hout, (transcoded_reads_back_iff hout hne (once_bodyOf ha)).2 ?_⟩
  intro withdrawn attrOctets nlri attrs hsplit hscan
  rw [attrs_of_bodyOf ha hsplit hscan]
  decide

/-- The marker of an AGGREGATOR of one octet with an extended length takes an octet more than
reckoned: the length field leaves it to the NLRI. -/
theorem shortAggregator_not_read_back : ∃ out,
    transcodeASPath (bodyOf shortAggregator) true false = .ok out ∧ out ≠ [] ∧
      Once (bodyOf shortAggregator) ∧ ¬ SameRoutes (bodyOf shortAggregator) out := by
  have ha : shortAggregator.octets.length < 65536 := by decide
  obtain ⟨out, hout, hne⟩ := transcodeASPath_bodyOf ha rfl
  refine ⟨out, hout, hne, once_bodyOf ha, fun hsame => ?_⟩
  have hiff := sameRoutes_transcoded (splitUpdate_bodyOf _ ha) (scanAttrs_bodyOf _ _)
    (nodup_singleton _) hout
  exact absurd (hiff.1 hsame).1 (by decide)

end Ze.AsPath
