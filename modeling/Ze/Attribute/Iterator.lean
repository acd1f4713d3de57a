import Ze.AsPath.Lengths

/-!
# The attribute iterator

`AttrIterator` of `core/bgp/attribute/iterator.go`, which walks over the octets of a path-attribute
section one attribute at a time. The iterator is the octets that it has yet to read.
-/

namespace Ze.Attribute

open Ze.AsPath
open List (cons_append drop_succ_cons length_take nil_append)

lemma fits_long {flags : Octet} (l l' : Octet) (rest : List Octet) (h : isExtLength flags) :
    (rest.take (uint16 l l')).length < if isExtLength flags then 65536 else 256 := by
  have hlt := uint16_lt l l'
  rw [if_pos h, length_take]
  omega

lemma fits_short {flags : Octet} (l : Octet) (rest : List Octet) (h : ¬ isExtLength flags) :
    (rest.take l.toNat).length < if isExtLength flags then 65536 else 256 := by
  rw [if_neg h, length_take]
  omega

/-- The attribute at the head of the octets; `none` at their end, and where they are malformed.
Source: iterator.go Next. -/
def nextAttr : List Octet → Option Attr
  | flags :: code :: l :: rest =>
    if hext : isExtLength flags then
      match rest with
      | [] => none
      | l' :: rest =>
        if rest.length < uint16 l l' then none
        else some ⟨flags, code, rest.take (uint16 l l'), fits_long l l' rest hext⟩
    else
      if rest.length < l.toNat then none
      else some ⟨flags, code, rest.take l.toNat, fits_short l rest hext⟩
  | [] | [_] | [_, _] => none

lemma nextAttr_octets_append (a : Attr) (rest : List Octet) :
    nextAttr (a.octets ++ rest) = some a := by
  obtain ⟨flags, code, value, hfits⟩ := a
  rw [Attr.octets]
  by_cases hext : isExtLength flags
  · have hlen : value.length < 65536 := by simpa [hext] using hfits
    simp only [hext, if_true, putUint16, cons_append, nil_append, nextAttr,
      uint16_ofNat, Nat.mod_eq_of_lt hlen, dif_pos]
    rw [if_neg (by simp)]
    simp only [List.take_left]
  · have hlen : (BitVec.ofNat 8 value.length).toNat = value.length := by
      rw [BitVec.toNat_ofNat, Nat.mod_eq_of_lt]
      simpa [hext] using hfits
    rw [if_neg hext]
    simp only [cons_append, nil_append]
    rw [nextAttr, dif_neg hext]
    simp only [hlen]
    rw [if_neg (by simp)]
    simp only [List.take_left]

lemma eq_octets_append_of_nextAttr {data : List Octet} {a : Attr} (h : nextAttr data = some a) :
    data = a.octets ++ data.drop a.octets.length := by
  rcases data with _ | ⟨flags, _ | ⟨code, _ | ⟨l, rest⟩⟩⟩
  · cases h
  · cases h
  · cases h
  · rw [nextAttr] at h
    split_ifs at h with hext hlen
    · rcases rest with _ | ⟨l', rest⟩
      · cases h
      · dsimp only at h
        split_ifs at h with hlen
        cases h
        have htake : (rest.take (uint16 l l')).length = uint16 l l' := by
          rw [length_take]
          omega
        rw [Attr.length_octets, Attr.octets, Attr.hdrLen]
        simp only [hext, if_true, htake, putUint16_uint16, cons_append, nil_append]
        rw [Nat.add_comm 4, drop_succ_cons, drop_succ_cons, drop_succ_cons,
          drop_succ_cons, List.take_append_drop]
    · cases h
      have htake : (rest.take l.toNat).length = l.toNat := by
        rw [length_take]
        omega
      rw [Attr.length_octets, Attr.octets, Attr.hdrLen, if_neg hext, if_neg hext]
      simp only [htake, cons_append, nil_append, BitVec.ofNat_toNat, BitVec.setWidth_eq]
      rw [Nat.add_comm 3, drop_succ_cons, drop_succ_cons, drop_succ_cons, List.take_append_drop]

lemma three_le_length_octets (a : Attr) : 3 ≤ a.octets.length := by
  rw [Attr.length_octets, Attr.hdrLen]
  split_ifs <;> omega

lemma length_le_length_octets (attrs : List Attr) :
    attrs.length ≤ (attrs.flatMap Attr.octets).length := by
  induction attrs with
  | nil => exact Nat.zero_le _
  | cons a attrs ih =>
    have ha := three_le_length_octets a
    rw [List.flatMap_cons, List.length_append, List.length_cons]
    omega

lemma flatMap_octets_injective {s t : List Attr}
    (h : s.flatMap Attr.octets = t.flatMap Attr.octets) : s = t := by
  have hs := scanAttrs_octets 0 s
  rw [h, scanAttrs_octets] at hs
  exact (Except.ok.inj hs).symm

end Ze.Attribute
