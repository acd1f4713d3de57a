import Ze.Attribute.Iterator
import Mathlib.Data.List.Induction

/-!
# The span index, the iterator and the single-code scan

Three walks over the octets of a path-attribute section: `SpanIndex` of `core/bgp/attribute/span.go`
with one span for each attribute and a presence bit for each type code, `AttrIterator` and
`AttrFind` of `iterator.go`. Each reads the headers on its own.

Default file: `span.go`.
-/

namespace Ze.Attribute

open Ze.AsPath List
open Attr (octets)
open BitVec (ofNat twoPow)
open Nat (add_assoc add_zero mod_eq_of_lt)
open Option (bind_some map_some)

/-- Flags, type code, length and the length of the header; `none` is `ErrShortData`.
Source: core/bgp/attribute/attribute.go. -/
def parseHeader : List Octet → Option (Octet × Octet × ℕ × ℕ)
  | flags :: code :: l :: rest =>
    if isExtLength flags then
      match rest with
      | [] => none
      | l' :: _ => some (flags, code, uint16 l l', 4)
    else some (flags, code, l.toNat, 3)
  | [] | [_] | [_, _] => none

/-! ## The iterator -/

structure AttrIterator where
  data : List Octet
  offset : ℕ
  deriving DecidableEq

/-- Source: iterator.go. -/
def newAttrIterator (data : List Octet) : AttrIterator := ⟨data, 0⟩

/-- What `Next` returns with an attribute. Source: iterator.go Next. -/
structure Yield where
  typeCode : Octet
  flags : Octet
  value : List Octet
  deriving DecidableEq

/-- The next attribute and the iterator after it; `none` when the iteration is complete or the data
malformed. Source: iterator.go. -/
def AttrIterator.next (it : AttrIterator) : Option (Yield × AttrIterator) :=
  if it.data.length ≤ it.offset then none
  else if it.data.length < it.offset + 3 then none
  else
    let flags := it.data.getD it.offset 0#8
    let typeCode := it.data.getD (it.offset + 1) 0#8
    let finish (length hdrLen : ℕ) :=
      let valueStart := it.offset + hdrLen
      if it.data.length < valueStart + length then none
      else some (⟨typeCode, flags, (it.data.drop valueStart).take length⟩,
        { it with offset := valueStart + length })
    if isExtLength flags then
      if it.data.length < it.offset + 4 then none
      else finish (uint16 (it.data.getD (it.offset + 2) 0#8) (it.data.getD (it.offset + 3) 0#8)) 4
    else finish (it.data.getD (it.offset + 2) 0#8).toNat 3

/-- An attribute as type code, flags and the range of its value in the section.
Source: span.go Span; iterator.go Next, Offset -/
structure Entry where
  code : Octet
  flags : Octet
  start : ℕ
  length : ℕ
  deriving DecidableEq, Repr

/-- The loop over `Next` until it says no more: what was yielded, with the range of each value,
which ends where the iterator stands after it, and the iterator where it stopped.
Source: iterator.go AttrIterator, the loop of its comment -/
def AttrIterator.collect : ℕ → AttrIterator → List Entry × AttrIterator
  | 0, it => ([], it)
  | turns + 1, it =>
    match it.next with
    | none => ([], it)
    | some (y, it') =>
      let rest := AttrIterator.collect turns it'
      (⟨y.typeCode, y.flags, it'.offset - y.value.length, y.value.length⟩ :: rest.1, rest.2)

/-- All that an iterator yields. Source: iterator.go AttrIterator. -/
def iterate (data : List Octet) : List Entry × AttrIterator :=
  AttrIterator.collect (data.length + 1) (newAttrIterator data)

/-! ## The single-code scan -/

/-- What `AttrFind` returns when it finds the attribute. Source: iterator.go
AttrFind. -/
structure Found where
  hdrStart : ℕ
  flags : Octet
  value : List Octet
  deriving DecidableEq

/-- The loop of `AttrFind`. Source: iterator.go AttrFind. -/
def attrFindLoop (data : List Octet) (code : Octet) : ℕ → ℕ → Option Found
  | 0, _ => none
  | turns + 1, offset =>
    if data.length < offset + 3 then none
    else
      let f := data.getD offset 0#8
      let tc := data.getD (offset + 1) 0#8
      let finish (length hdrLen : ℕ) :=
        let valueStart := offset + hdrLen
        if data.length < valueStart + length then none
        else if tc = code then some ⟨offset, f, (data.drop valueStart).take length⟩
        else attrFindLoop data code turns (valueStart + length)
      if isExtLength f then
        if data.length < offset + 4 then none
        else finish (uint16 (data.getD (offset + 2) 0#8) (data.getD (offset + 3) 0#8)) 4
      else finish (data.getD (offset + 2) 0#8).toNat 3

/-- Source: iterator.go. -/
def attrFind (data : List Octet) (code : Octet) : Option Found :=
  attrFindLoop data code (data.length + 1) 0

/-! ## The span index -/

structure Span where
  offset : ℕ
  length : ℕ
  code : Octet
  hdrLen : ℕ
  deriving DecidableEq, Repr

def spanInline : ℕ := 8

def spanMaxOffset : ℕ := 65535

/-- The index: eight spans inline and the rest spilled, four words of presence bits, and the count,
which is a 16-bit number. -/
structure SpanIndex where
  inline : List Span
  spill : List Span
  presence : List (BitVec 64)
  n : ℕ
  spilled : Bool
  deriving DecidableEq

/-- Why a section is not indexed: it is too large, or at an offset a header does not parse, a type
code is there twice, or a value runs past the end.
Source: build -/
inductive BuildError
  | sectionTooLarge (length : ℕ)
  | header (offset : ℕ)
  | duplicate (code : Octet) (offset : ℕ)
  | truncated (code : Octet) (offset : ℕ)
  deriving DecidableEq, Repr

namespace SpanIndex

/-- The zero value. Source: SpanIndex. -/
def zero : SpanIndex :=
  ⟨replicate spanInline ⟨0, 0, 0#8, 0⟩, [], replicate 4 0#64, 0, false⟩

/-- The word and the bit of a type code. Source: has, mark. -/
def wordOf (code : Octet) : ℕ := (code >>> 6).toNat

/-- Source: has, mark. -/
def bitOf (code : Octet) : BitVec 64 := 1#64 <<< (code &&& 63#8).toNat

def has (x : SpanIndex) (code : Octet) : Bool :=
  x.presence.getD (wordOf code) 0#64 &&& bitOf code != 0#64

def mark (x : SpanIndex) (code : Octet) : SpanIndex :=
  { x with presence :=
      x.presence.set (wordOf code) (x.presence.getD (wordOf code) 0#64 ||| bitOf code) }

def add (x : SpanIndex) (s : Span) : SpanIndex :=
  if x.n < spanInline then { x with inline := x.inline.set x.n s, n := (x.n + 1) % 65536 }
  else { x with spill := x.spill ++ [s], spilled := true, n := (x.n + 1) % 65536 }

/-- The `i`-th span in wire order; `none` is the panic. Source: At. -/
def spanAt (x : SpanIndex) (i : ℕ) : Option Span :=
  if x.n ≤ i then none
  else if i < spanInline then x.inline[i]?
  else x.spill[i - spanInline]?

/-- The entries of an index, `At(0)` to `At(Len() - 1)`. Source: Len, At. -/
def spans (x : SpanIndex) : List Span := (range x.n).filterMap x.spanAt

/-- The position of a type code; `none` is -1. Absence is settled by the presence bit, and then the
inline spans and the spilled ones are searched in order. -/
def findIndex (x : SpanIndex) (code : Octet) : Option ℕ :=
  if !x.has code then none
  else
    match (x.inline.take (min x.n spanInline)).findIdx? (·.code == code) with
    | some i => some i
    | none => (x.spill.findIdx? (·.code == code)).map (spanInline + ·)

def find (x : SpanIndex) (code : Octet) : Option Span := (x.findIndex code).bind x.spanAt

/-- The loop of `build`. Source: build. -/
def buildLoop (packed : List Octet) : ℕ → ℕ → SpanIndex → Except BuildError SpanIndex
  | 0, _, x => .ok x
  | turns + 1, offset, x =>
    if packed.length ≤ offset then .ok x
    else
      match parseHeader (packed.drop offset) with
      | none => .error (.header offset)
      | some (_, code, length, hdrLen) =>
        if x.has code then .error (.duplicate code offset)
        else if packed.length < offset + hdrLen + length then .error (.truncated code offset)
        else buildLoop packed turns (offset + hdrLen + length)
          ((x.mark code).add ⟨(offset + hdrLen) % 65536, length, code, hdrLen % 256⟩)

/-- Fill an index in place; the storage of the spilled spans is kept and emptied.
Source: build, Rebuild -/
def build (x : SpanIndex) (packed : List Octet) : Except BuildError SpanIndex :=
  if spanMaxOffset < packed.length then .error (.sectionTooLarge packed.length)
  else buildLoop packed (packed.length + 1) 0 { zero with spill := x.spill.take 0 }

end SpanIndex

def buildSpanIndex (packed : List Octet) : Except BuildError SpanIndex :=
  SpanIndex.zero.build packed

/-- A span read as an entry; the flags stand at the start of the header. Source: Span. -/
def Span.entry (packed : List Octet) (s : Span) : Entry :=
  ⟨s.code, packed.getD (s.offset - s.hdrLen) 0#8, s.offset, s.length⟩

/-- An entry read as what `AttrFind` returns of it. Source: iterator.go
AttrFind. -/
def Entry.found (data : List Octet) (e : Entry) : Found :=
  ⟨e.start - (if isExtLength e.flags then 4 else 3), e.flags, (data.drop e.start).take e.length⟩

/-- The offset an error names. Source: build. -/
def BuildError.offset : BuildError → Option ℕ
  | .sectionTooLarge _ => none
  | .header offset | .duplicate _ offset | .truncated _ offset => some offset

/-! ## One header for three readers -/

lemma parseHeader_short {flags : Octet} (hext : ¬ isExtLength flags) (code l : Octet)
    (rest : List Octet) :
    parseHeader (flags :: code :: l :: rest) = some (flags, code, l.toNat, 3) := by
  unfold parseHeader
  exact if_neg hext

lemma parseHeader_drop (data : List Octet) (offset : ℕ) :
    parseHeader (data.drop offset) =
      if data.length < offset + 3 then none
      else if isExtLength (data.getD offset 0#8) then
        if data.length < offset + 4 then none
        else some (data.getD offset 0#8, data.getD (offset + 1) 0#8,
          uint16 (data.getD (offset + 2) 0#8) (data.getD (offset + 3) 0#8), 4)
      else some (data.getD offset 0#8, data.getD (offset + 1) 0#8,
        (data.getD (offset + 2) 0#8).toNat, 3) := by
  have hget : ∀ k, data.getD (offset + k) 0#8 = (data.drop offset).getD k 0#8 := by
    intro k
    rw [getD_eq_getElem?_getD, getD_eq_getElem?_getD, getElem?_drop]
  have hlen : (data.drop offset).length = data.length - offset := length_drop
  have hget₀ := hget 0
  rw [add_zero] at hget₀
  rw [hget₀, hget 1, hget 2, hget 3]
  rcases hdrop : data.drop offset with _ | ⟨flags, _ | ⟨code, _ | ⟨l, rest⟩⟩⟩
  · rw [hdrop, length_nil] at hlen
    rw [if_pos (by omega)]
    rfl
  · rw [hdrop, length_singleton] at hlen
    rw [if_pos (by omega)]
    rfl
  · rw [hdrop] at hlen
    simp only [length_cons, length_nil] at hlen
    rw [if_pos (by omega)]
    rfl
  · rw [hdrop] at hlen
    simp only [length_cons] at hlen
    have hflags : (flags :: code :: l :: rest).getD 0 0#8 = flags := rfl
    rw [if_neg (by omega), hflags]
    by_cases hext : isExtLength flags
    · rw [if_pos hext]
      rcases rest with _ | ⟨l', rest⟩
      · rw [length_nil] at hlen
        rw [if_pos (by omega), parseHeader, if_pos hext]
      · rw [length_cons] at hlen
        rw [if_neg (by omega), parseHeader, if_pos hext]
        rfl
    · rw [if_neg hext, parseHeader_short hext]
      rfl

lemma bind_parseHeader_drop {α : Type} (data : List Octet) (offset : ℕ)
    (f : Octet × Octet × ℕ × ℕ → Option α) :
    (parseHeader (data.drop offset)).bind f =
      if data.length < offset + 3 then none
      else if isExtLength (data.getD offset 0#8) then
        if data.length < offset + 4 then none
        else f (data.getD offset 0#8, data.getD (offset + 1) 0#8,
          uint16 (data.getD (offset + 2) 0#8) (data.getD (offset + 3) 0#8), 4)
      else f (data.getD offset 0#8, data.getD (offset + 1) 0#8,
        (data.getD (offset + 2) 0#8).toNat, 3) := by
  rw [parseHeader_drop]
  split_ifs <;> rfl

lemma next_eq (data : List Octet) (offset : ℕ) :
    AttrIterator.next ⟨data, offset⟩ =
      (parseHeader (data.drop offset)).bind fun h =>
        if data.length < offset + h.2.2.2 + h.2.2.1 then none
        else some (⟨h.2.1, h.1, (data.drop (offset + h.2.2.2)).take h.2.2.1⟩,
          ⟨data, offset + h.2.2.2 + h.2.2.1⟩) := by
  rw [bind_parseHeader_drop, AttrIterator.next]
  dsimp only
  by_cases hend : data.length ≤ offset
  · rw [if_pos hend, if_pos (by omega)]
  rw [if_neg hend]

lemma attrFindLoop_succ (data : List Octet) (code : Octet) (turns offset : ℕ) :
    attrFindLoop data code (turns + 1) offset =
      (parseHeader (data.drop offset)).bind fun h =>
        if data.length < offset + h.2.2.2 + h.2.2.1 then none
        else if h.2.1 = code then
          some ⟨offset, h.1, (data.drop (offset + h.2.2.2)).take h.2.2.1⟩
        else attrFindLoop data code turns (offset + h.2.2.2 + h.2.2.1) := by
  rw [bind_parseHeader_drop, attrFindLoop]

/-! ## A section as attributes and a rest -/

lemma parseHeader_octets_append (a : Attr) (rest : List Octet) :
    parseHeader (a.octets ++ rest) = some (a.flags, a.code, a.value.length, a.hdrLen) := by
  obtain ⟨flags, code, value, hfits⟩ := a
  rw [octets, Attr.hdrLen]
  by_cases hext : isExtLength flags
  · have hlen : value.length < 65536 := by simpa [hext] using hfits
    simp only [hext, if_true, putUint16, cons_append, nil_append, parseHeader,
      uint16_ofNat, mod_eq_of_lt hlen]
  · have hlen : (ofNat 8 value.length).toNat = value.length := by
      rw [BitVec.toNat_ofNat, mod_eq_of_lt]
      simpa [hext] using hfits
    rw [if_neg hext, if_neg hext]
    simp only [cons_append, nil_append]
    rw [parseHeader_short hext, hlen]

lemma header_of_nextAttr_none {rest : List Octet} (h : nextAttr rest = none) :
    parseHeader rest = none ∨
      ∃ flags code length hdrLen, parseHeader rest = some (flags, code, length, hdrLen) ∧
        rest.length < hdrLen + length := by
  rcases rest with _ | ⟨flags, _ | ⟨code, _ | ⟨l, rest⟩⟩⟩
  · exact .inl rfl
  · exact .inl rfl
  · exact .inl rfl
  · rw [nextAttr] at h
    by_cases hext : isExtLength flags
    · rw [dif_pos hext] at h
      rcases rest with _ | ⟨l', rest⟩
      · refine .inl ?_
        rw [parseHeader, if_pos hext]
      · refine .inr ⟨flags, code, uint16 l l', 4, ?_, ?_⟩
        · rw [parseHeader, if_pos hext]
        · dsimp only at h
          split_ifs at h with hlt
          simp only [length_cons]
          omega
    · rw [dif_neg hext] at h
      refine .inr ⟨flags, code, l.toNat, 3, parseHeader_short hext code l rest, ?_⟩
      · split_ifs at h with hlt
        simp only [length_cons]
        omega

lemma exists_cut (data : List Octet) :
    ∃ (attrs : List Attr) (rest : List Octet),
      data = attrs.flatMap octets ++ rest ∧ nextAttr rest = none := by
  induction hlen : data.length using Nat.strong_induction_on generalizing data with
  | _ n ih =>
    rcases hnext : nextAttr data with _ | a
    · exact ⟨[], data, rfl, hnext⟩
    · have hdata := eq_octets_append_of_nextAttr hnext
      have hshort : (data.drop a.octets.length).length < n := by
        have hthree := three_le_length_octets a
        have hle : a.octets.length ≤ data.length := by
          rw [hdata, length_append]
          omega
        rw [length_drop]
        omega
      obtain ⟨attrs, rest, hrest, hnone⟩ := ih _ hshort (data.drop a.octets.length) rfl
      refine ⟨a :: attrs, rest, ?_, hnone⟩
      rw [flatMap_cons, append_assoc, ← hrest, ← hdata]

/-- The entries of attributes that stand from an offset on. Source: Span. -/
def entriesFrom : ℕ → List Attr → List Entry
  | _, [] => []
  | offset, a :: attrs =>
    ⟨a.code, a.flags, offset + a.hdrLen, a.value.length⟩ ::
      entriesFrom (offset + a.octets.length) attrs

lemma map_code_entriesFrom (offset : ℕ) (attrs : List Attr) :
    (entriesFrom offset attrs).map (·.code) = attrs.map (·.code) := by
  induction attrs generalizing offset with
  | nil => rfl
  | cons a attrs ih => rw [entriesFrom, map_cons, map_cons, ih]

lemma drop_hdrLen_octets (a : Attr) : a.octets.drop a.hdrLen = a.value := by
  rw [octets, Attr.hdrLen]
  split_ifs <;> rfl

/-- An attribute stands at an offset, with octets after it. -/
structure Standing (data : List Octet) (offset : ℕ) (a : Attr) (tail : List Octet) : Prop where
  header : parseHeader (data.drop offset) = some (a.flags, a.code, a.value.length, a.hdrLen)
  value : (data.drop (offset + a.hdrLen)).take a.value.length = a.value
  flags : data.getD offset 0#8 = a.flags
  fits : offset + a.octets.length ≤ data.length
  rest : data.drop (offset + a.octets.length) = tail

lemma standing_of_drop {data tail : List Octet} {offset : ℕ} {a : Attr}
    (h : data.drop offset = a.octets ++ tail) : Standing data offset a tail := by
  have hlen := congrArg length h
  rw [length_drop, length_append] at hlen
  have hthree := three_le_length_octets a
  constructor
  · rw [h, parseHeader_octets_append]
  · have hle : a.hdrLen ≤ a.octets.length := by
      rw [Attr.length_octets]
      omega
    rw [← drop_drop, h, drop_append_of_le_length hle, drop_hdrLen_octets, take_left']
    rfl
  · have hget : data.getD offset 0#8 = (data.drop offset).getD 0 0#8 := by
      rw [getD_eq_getElem?_getD, getD_eq_getElem?_getD, getElem?_drop, add_zero]
    rw [hget, h, octets]
    rfl
  · omega
  · rw [← drop_drop, h, drop_left]

lemma stop_of_drop {data rest : List Octet} {offset : ℕ} (h : data.drop offset = rest)
    (hnone : nextAttr rest = none) :
    parseHeader (data.drop offset) = none ∨
      ∃ flags code length hdrLen,
        parseHeader (data.drop offset) = some (flags, code, length, hdrLen) ∧
        data.length < offset + hdrLen + length := by
  have hlen := congrArg length h
  rw [length_drop] at hlen
  rcases header_of_nextAttr_none hnone with hparse | ⟨flags, code, length, hdrLen, hparse, hlt⟩
  · exact .inl (h ▸ hparse)
  · exact .inr ⟨flags, code, length, hdrLen, h ▸ hparse, by omega⟩

/-- The iterator yields the attributes and stops at the rest. -/
lemma collect_cut {data rest : List Octet} (hnone : nextAttr rest = none) :
    (attrs : List Attr) → ∀ offset turns, data.drop offset = attrs.flatMap octets ++ rest →
      attrs.length < turns →
      AttrIterator.collect turns ⟨data, offset⟩ =
        (entriesFrom offset attrs, ⟨data, offset + (attrs.flatMap octets).length⟩)
  | [], offset, turns + 1, h, _ => by
    have hnext : AttrIterator.next ⟨data, offset⟩ = none := by
      rw [next_eq]
      rcases stop_of_drop h hnone with hparse | ⟨flags, code, length, hdrLen, hparse, hlt⟩
      · rw [hparse]
        rfl
      · rw [hparse, bind_some, if_pos hlt]
    rw [AttrIterator.collect, hnext]
    rfl
  | a :: attrs, offset, turns + 1, h, hturns => by
    rw [flatMap_cons, append_assoc] at h
    have hstand := standing_of_drop h
    have hlen := a.length_octets
    have hfits := hstand.fits
    have hnext : AttrIterator.next ⟨data, offset⟩ =
        some (⟨a.code, a.flags, a.value⟩, ⟨data, offset + a.octets.length⟩) := by
      rw [next_eq, hstand.header, bind_some]
      dsimp only
      rw [if_neg (by omega), hstand.value, hlen, add_assoc]
    have hrest := collect_cut hnone attrs (offset + a.octets.length) turns hstand.rest
      (Nat.lt_of_succ_lt_succ hturns)
    rw [AttrIterator.collect, hnext]
    dsimp only
    rw [hrest, entriesFrom, flatMap_cons, length_append]
    have hstart : offset + a.octets.length - a.value.length = offset + a.hdrLen := by omega
    rw [hstart, add_assoc]

lemma attrFindLoop_cut {data rest : List Octet} (hnone : nextAttr rest = none) (code : Octet) :
    (attrs : List Attr) → ∀ offset turns, data.drop offset = attrs.flatMap octets ++ rest →
      attrs.length < turns →
      attrFindLoop data code turns offset =
        ((entriesFrom offset attrs).find? (·.code == code)).map (Entry.found data)
  | [], offset, turns + 1, h, _ => by
    rw [attrFindLoop_succ]
    rcases stop_of_drop h hnone with hparse | ⟨flags, code', length, hdrLen, hparse, hlt⟩
    · rw [hparse]
      rfl
    · rw [hparse, bind_some, if_pos hlt]
      rfl
  | a :: attrs, offset, turns + 1, h, hturns => by
    rw [flatMap_cons, append_assoc] at h
    have hstand := standing_of_drop h
    have hlen := a.length_octets
    have hfits := hstand.fits
    rw [attrFindLoop_succ, hstand.header, bind_some]
    dsimp only
    rw [if_neg (by omega), hstand.value]
    by_cases hcode : a.code = code
    · rw [if_pos hcode, entriesFrom, find?_cons_of_pos (by simpa using hcode), map_some,
        Entry.found]
      dsimp only
      rw [hstand.value, Attr.hdrLen, Nat.add_sub_cancel]
    · have hrest := attrFindLoop_cut hnone code attrs (offset + a.octets.length) turns hstand.rest
        (Nat.lt_of_succ_lt_succ hturns)
      rw [if_neg hcode, entriesFrom, find?_cons_of_neg (by simpa using hcode), ← hrest, hlen,
        add_assoc]

/-! ## The index -/

namespace SpanIndex

lemma wordOf_eq (code : Octet) : wordOf code = code.toNat / 64 := by
  rw [wordOf, BitVec.toNat_ushiftRight, Nat.shiftRight_eq_div_pow]

lemma bitOf_eq (code : Octet) : bitOf code = twoPow 64 (code.toNat % 64) := by
  have hmask : (code &&& 63#8).toNat = code.toNat % 64 := by
    rw [BitVec.toNat_and]
    exact Nat.and_two_pow_sub_one_eq_mod code.toNat 6
  rw [bitOf, hmask, BitVec.twoPow_eq]

lemma has_eq (x : SpanIndex) (code : Octet) :
    x.has code = (x.presence.getD (code.toNat / 64) 0#64).getLsbD (code.toNat % 64) := by
  rw [has, wordOf_eq, bitOf_eq, BitVec.and_twoPow]
  have hne : twoPow 64 (code.toNat % 64) ≠ 0#64 := by
    intro hzero
    have hbit := congrArg (BitVec.getLsbD · (code.toNat % 64)) hzero
    simp [BitVec.getLsbD_twoPow] at hbit
    omega
  split_ifs with hbit
  · rw [hbit]
    simpa using hne
  · rw [Bool.not_eq_true] at hbit
    rw [hbit]
    rfl

lemma has_mark {x : SpanIndex} (hlen : x.presence.length = 4) (code code' : Octet) :
    (x.mark code).has code' = (x.has code' || code == code') := by
  rw [has_eq, has_eq, mark, wordOf_eq, bitOf_eq]
  dsimp only
  by_cases hword : code.toNat / 64 = code'.toNat / 64
  · have hget : (x.presence.set (code.toNat / 64) (x.presence.getD (code.toNat / 64) 0#64 |||
          twoPow 64 (code.toNat % 64))).getD (code'.toNat / 64) 0#64 =
        x.presence.getD (code'.toNat / 64) 0#64 ||| twoPow 64 (code.toNat % 64) := by
      rw [hword, getD_eq_getElem?_getD, getElem?_set_self (by omega)]
      rfl
    rw [hget, BitVec.getLsbD_or, BitVec.getLsbD_twoPow]
    congr 1
    rw [decide_eq_true (by omega : code.toNat % 64 < 64), Bool.true_and]
    rw [Bool.eq_iff_iff, beq_iff_eq, decide_eq_true_eq, ← BitVec.toNat_inj]
    omega
  · have hne : ¬ code = code' := fun heq => hword (by rw [heq])
    rw [getD_eq_getElem?_getD, getElem?_set_ne hword, ← getD_eq_getElem?_getD,
      beq_eq_false_iff_ne.2 hne, Bool.or_false]

/-- An index holds a list of spans. Source: SpanIndex. -/
structure Holds (x : SpanIndex) (held : List Span) : Prop where
  inlineLen : x.inline.length = 8
  inline : x.inline.take (min held.length 8) = held.take 8
  spill : x.spill = held.drop 8
  presenceLen : x.presence.length = 4
  n : x.n = held.length
  has : ∀ code, x.has code = true ↔ code ∈ held.map (·.code)

lemma holds_zero : Holds { zero with spill := [] } [] where
  inlineLen := rfl
  inline := rfl
  spill := rfl
  presenceLen := rfl
  n := rfl
  has := by
    intro code
    have hword : (replicate 4 0#64).getD (code.toNat / 64) 0#64 = 0#64 := by
      rw [getD_eq_getElem?_getD, getElem?_replicate, if_pos (by omega)]
      rfl
    rw [has_eq]
    simp only [zero, hword, BitVec.getLsbD_zero, Bool.false_eq_true, map_nil, not_mem_nil]

variable {x : SpanIndex} {held : List Span}

lemma Holds.record (h : x.Holds held) (s : Span) (hroom : held.length + 1 < 65536) :
    ((x.mark s.code).add s).Holds (held ++ [s]) := by
  have hn : (x.mark s.code).n = held.length := h.n
  have hcount : (held.length + 1) % 65536 = (held ++ [s]).length := by
    rw [mod_eq_of_lt hroom, length_append, length_singleton]
  have hhas : ∀ code, (x.mark s.code).has code ↔ code ∈ (held ++ [s]).map (·.code) := by
    intro code
    rw [has_mark h.presenceLen, Bool.or_eq_true, h.has, beq_iff_eq, map_append,
      mem_append, map_singleton, mem_singleton, eq_comm]
  have hpresence : (x.mark s.code).presence.length = 4 := by
    rw [mark, length_set]
    exact h.presenceLen
  have height : spanInline = 8 := rfl
  have hlong : (held ++ [s]).length = held.length + 1 := by
    rw [length_append, length_singleton]
  unfold add
  rw [hn]
  by_cases hfits : held.length < spanInline
  · rw [if_pos hfits]
    rw [height] at hfits
    have hheld : x.inline.take held.length = held := by
      have hinline := h.inline
      have hall : held.take 8 = held := take_of_length_le (Nat.le_of_lt hfits)
      rw [Nat.min_eq_left (Nat.le_of_lt hfits), hall] at hinline
      exact hinline
    have hlt : held.length < x.inline.length := by
      rw [h.inlineLen]
      exact hfits
    refine ⟨?_, ?_, ?_, hpresence, hcount, hhas⟩
    · show (x.inline.set held.length s).length = 8
      rw [length_set]
      exact h.inlineLen
    · show (x.inline.set held.length s).take (min (held ++ [s]).length 8) = (held ++ [s]).take 8
      have hall : (held ++ [s]).take 8 = held ++ [s] := take_of_length_le (by omega)
      rw [hall, hlong, Nat.min_eq_left (by omega), take_add_one,
        take_set_of_le (Nat.le_refl _), hheld, getElem?_set_self hlt]
      rfl
    · show x.spill = (held ++ [s]).drop 8
      have hnone : (held ++ [s]).drop 8 = [] := drop_of_length_le (by omega)
      rw [hnone, h.spill]
      exact drop_of_length_le (Nat.le_of_lt hfits)
  · rw [if_neg hfits]
    rw [height] at hfits
    refine ⟨h.inlineLen, ?_, ?_, hpresence, hcount, hhas⟩
    · show x.inline.take (min (held ++ [s]).length 8) = (held ++ [s]).take 8
      have hinline := h.inline
      rw [Nat.min_eq_right (by omega)] at hinline
      rw [hlong, Nat.min_eq_right (by omega), take_append_of_le_length (by omega)]
      exact hinline
    · show x.spill ++ [s] = (held ++ [s]).drop 8
      rw [drop_append_of_le_length (by omega), ← h.spill]

lemma Holds.spanAt (h : x.Holds held) (i : ℕ) : x.spanAt i = held[i]? := by
  unfold SpanIndex.spanAt
  rw [h.n]
  by_cases hend : held.length ≤ i
  · rw [if_pos hend, getElem?_eq_none hend]
  rw [if_neg hend]
  by_cases hinline : i < spanInline
  · have hlt : i < 8 := hinline
    have hread := congrArg (·[i]?) h.inline
    simp only [getElem?_take] at hread
    rw [if_pos (by omega), if_pos hlt] at hread
    rw [if_pos hinline, hread]
  · have hge : 8 ≤ i := Nat.le_of_not_lt hinline
    rw [if_neg hinline, h.spill, getElem?_drop]
    congr 1
    have : spanInline = 8 := rfl
    omega

lemma filterMap_range_getElem? {α : Type} (l : List α) :
    (range l.length).filterMap (fun i => l[i]?) = l := by
  induction l using reverseRecOn with
  | nil => rfl
  | append_singleton l a ih =>
    rw [length_append, length_singleton, range_succ, filterMap_append]
    have hbefore : (range l.length).filterMap (fun i => (l ++ [a])[i]?) = l := by
      refine Eq.trans (filterMap_congr ?_) ih
      intro i hi
      rw [getElem?_append_left (mem_range.1 hi)]
    rw [hbefore]
    simp

lemma Holds.spans (h : x.Holds held) : x.spans = held := by
  have hread : x.spanAt = fun i => held[i]? := funext h.spanAt
  rw [SpanIndex.spans, h.n, hread, filterMap_range_getElem?]

lemma Holds.find (h : x.Holds held) (code : Octet) : x.find code = held.find? (·.code == code) := by
  have hread : x.spanAt = fun i => held[i]? := funext h.spanAt
  have hindex : x.findIndex code = held.findIdx? (·.code == code) := by
    unfold findIndex
    by_cases hmem : x.has code
    · have hsplit : held.findIdx? (·.code == code) = ((held.take 8).findIdx? (·.code == code)).or
            (((held.drop 8).findIdx? (·.code == code)).map (· + (held.take 8).length)) := by
        rw [← findIdx?_append, take_append_drop]
      have hinline : x.inline.take (min x.n spanInline) = held.take 8 := by
        rw [h.n]
        exact h.inline
      rw [if_neg (by simp [hmem]), hinline, h.spill, hsplit]
      rcases hfirst : (held.take 8).findIdx? (·.code == code) with _ | i
      · rw [hfirst, Option.none_or]
        dsimp only
        rcases hspill : (held.drop 8).findIdx? (·.code == code) with _ | j
        · rw [hspill]
          rfl
        · have hne : held.drop 8 ≠ [] := by
            intro hnil
            rw [hnil] at hspill
            cases hspill
          have hlong : 8 < held.length := by
            by_contra hle
            apply hne
            exact drop_of_length_le (Nat.le_of_not_lt hle)
          rw [hspill, map_some, map_some, length_take, Nat.min_eq_left (by omega), Nat.add_comm]
          rfl
      · rw [hfirst]
        rfl
    · have hnot : held.findIdx? (·.code == code) = none := by
        rw [findIdx?_eq_none_iff]
        intro s hs
        rw [beq_eq_false_iff_ne]
        intro heq
        exact hmem ((h.has code).2 (heq ▸ mem_map_of_mem hs))
      rw [if_pos (by simpa using hmem), hnot]
  rw [SpanIndex.find, hindex, hread, find?_eq_bind_findIdx?_getElem?]

/-- The spans of attributes that stand from an offset on. Source: build. -/
def spansFrom : ℕ → List Attr → List Span
  | _, [] => []
  | offset, a :: attrs =>
    ⟨offset + a.hdrLen, a.value.length, a.code, a.hdrLen⟩ ::
      spansFrom (offset + a.octets.length) attrs

/-- What the loop of the index comes to on a section of attributes and a rest: every attribute is
recorded and nothing is left; or they are and the rest is refused where it begins; or an attribute
is refused because its type code is there already.
Source: build -/
inductive Outcome (held : List Span) (offset : ℕ) (attrs : List Attr) (rest : List Octet) :
    Except BuildError SpanIndex → Prop
  /-- The index is built. -/
  | built {idx : SpanIndex} (ended : rest = [])
      (holds : idx.Holds (held ++ spansFrom offset attrs)) :
      Outcome held offset attrs rest (.ok idx)
  /-- The rest has no header. -/
  | header (left : rest ≠ []) : Outcome held offset attrs rest
      (.error (.header (offset + (attrs.flatMap octets).length)))
  /-- The value of the rest does not fit. -/
  | truncated (left : rest ≠ []) {code : Octet} : Outcome held offset attrs rest
      (.error (.truncated code (offset + (attrs.flatMap octets).length)))
  /-- The rest has the type code of an attribute before it. -/
  | repeatedRest (left : rest ≠ []) {code : Octet}
      (seen : code ∈ held.map (·.code) ++ attrs.map (·.code)) : Outcome held offset attrs rest
      (.error (.duplicate code (offset + (attrs.flatMap octets).length)))
  /-- An attribute has the type code of one before it. -/
  | repeated {before after : List Attr} {a : Attr} (cut : attrs = before ++ a :: after)
      (seen : a.code ∈ held.map (·.code) ++ before.map (·.code)) : Outcome held offset attrs rest
      (.error (.duplicate a.code (offset + (before.flatMap octets).length)))

lemma Outcome.cons {held : List Span} {offset : ℕ} {a : Attr} {attrs : List Attr}
    {rest : List Octet} {result : Except BuildError SpanIndex}
    (h : Outcome (held ++ [⟨offset + a.hdrLen, a.value.length, a.code, a.hdrLen⟩])
      (offset + a.octets.length) attrs rest result) :
    Outcome held offset (a :: attrs) rest result := by
  have hseen : ∀ {code : Octet} {before : List Attr},
      code ∈ (held ++ [(⟨offset + a.hdrLen, a.value.length, a.code, a.hdrLen⟩ : Span)]).map
        (fun s : Span => s.code) ++ before.map (·.code) →
      code ∈ held.map (·.code) ++ (a :: before).map (·.code) := by
    intro code before hmem
    rw [map_append, append_assoc] at hmem
    exact hmem
  have hlen : ∀ before : List Attr, offset + a.octets.length + (before.flatMap octets).length =
      offset + ((a :: before).flatMap octets).length := by
    intro before
    rw [flatMap_cons, length_append, add_assoc]
  rcases h with ⟨hended, hholds⟩ | ⟨hleft⟩ | ⟨hleft⟩ | ⟨hleft, hmem⟩ | ⟨hcut, hmem⟩
  · rw [append_assoc] at hholds
    exact .built hended hholds
  · rw [hlen]
    exact .header hleft
  · rw [hlen]
    exact .truncated hleft
  · rw [hlen]
    exact .repeatedRest hleft (hseen hmem)
  · rw [hlen]
    exact .repeated (by rw [hcut]; rfl) (hseen hmem)

lemma buildLoop_cut {packed rest : List Octet} (hnone : nextAttr rest = none)
    (hsize : packed.length ≤ 65535) :
    (attrs : List Attr) → ∀ offset turns (x : SpanIndex) (held : List Span),
      packed.drop offset = attrs.flatMap octets ++ rest → attrs.length < turns →
      x.Holds held → held.length ≤ offset →
      Outcome held offset attrs rest (buildLoop packed turns offset x)
  | [], offset, turns + 1, x, held, h, _, hx, _ => by
    have hlen := congrArg length h
    rw [length_drop, flatMap_nil, nil_append] at hlen
    rw [buildLoop]
    by_cases hend : packed.length ≤ offset
    · rw [if_pos hend]
      refine .built (eq_nil_of_length_eq_zero (by omega)) ?_
      rw [spansFrom, append_nil]
      exact hx
    · have hleft : rest ≠ [] := by
        intro hnil
        rw [hnil, length_nil] at hlen
        omega
      rw [if_neg hend]
      rcases stop_of_drop h hnone with hparse | ⟨flags, code, length, hdrLen, hparse, hlt⟩
      · rw [hparse]
        exact .header hleft
      · rw [hparse]
        dsimp only
        by_cases hhas : x.has code
        · rw [if_pos hhas]
          refine .repeatedRest hleft ?_
          rw [map_nil, append_nil]
          exact (hx.has code).1 hhas
        · rw [if_neg hhas, if_pos hlt]
          exact .truncated hleft
  | a :: attrs, offset, turns + 1, x, held, h, hturns, hx, hheld => by
    rw [flatMap_cons, append_assoc] at h
    have hstand := standing_of_drop h
    have hlen := a.length_octets
    have hfits := hstand.fits
    have hthree := three_le_length_octets a
    have hhdr : a.hdrLen ≤ 4 := by
      rw [Attr.hdrLen]
      split_ifs <;> omega
    rw [buildLoop, if_neg (by omega), hstand.header]
    dsimp only
    by_cases hhas : x.has a.code
    · rw [if_pos hhas]
      have hcut : a :: attrs = [] ++ a :: attrs := rfl
      refine .repeated hcut ?_
      rw [map_nil, append_nil]
      exact (hx.has a.code).1 hhas
    · rw [if_neg hhas, if_neg (by omega), mod_eq_of_lt (by omega : offset + a.hdrLen < 65536),
        mod_eq_of_lt (by omega : a.hdrLen < 256), add_assoc, ← hlen]
      apply Outcome.cons
      refine buildLoop_cut hnone hsize attrs (offset + a.octets.length) turns _ _ hstand.rest
        (Nat.lt_of_succ_lt_succ hturns) ?_ ?_
      · exact hx.record ⟨offset + a.hdrLen, a.value.length, a.code, a.hdrLen⟩ (by omega)
      · rw [length_append, length_singleton]
        omega

lemma Outcome.of_ok {held : List Span} {offset : ℕ} {attrs : List Attr} {rest : List Octet}
    {idx : SpanIndex} (h : Outcome held offset attrs rest (.ok idx)) :
    rest = [] ∧ idx.Holds (held ++ spansFrom offset attrs) := by
  rcases h with ⟨hended, hholds⟩
  exact ⟨hended, hholds⟩

lemma Outcome.of_malformed {held : List Span} {offset o : ℕ} {attrs : List Attr}
    {rest : List Octet} {result : Except BuildError SpanIndex}
    (h : Outcome held offset attrs rest result)
    (hresult : result = .error (.header o) ∨ ∃ code, result = .error (.truncated code o)) :
    rest ≠ [] ∧ o = offset + (attrs.flatMap octets).length := by
  rcases h with ⟨hended, hholds⟩ | ⟨hleft⟩ | ⟨hleft⟩ | ⟨hleft, hmem⟩ | ⟨hcut, hmem⟩
  · rcases hresult with heq | ⟨code, heq⟩ <;> cases heq
  · rcases hresult with heq | ⟨code, heq⟩ <;> cases heq
    exact ⟨hleft, rfl⟩
  · rcases hresult with heq | ⟨code, heq⟩ <;> cases heq
    exact ⟨hleft, rfl⟩
  · rcases hresult with heq | ⟨code, heq⟩ <;> cases heq
  · rcases hresult with heq | ⟨code, heq⟩ <;> cases heq

lemma Outcome.of_duplicate {held : List Span} {offset o : ℕ} {attrs : List Attr}
    {rest : List Octet} {code : Octet}
    (h : Outcome held offset attrs rest (.error (.duplicate code o))) :
    ∃ before after, attrs = before ++ after ∧
      code ∈ held.map (·.code) ++ before.map (·.code) ∧
      o = offset + (before.flatMap octets).length := by
  rcases h with _ | _ | _ | ⟨-, hmem⟩ | ⟨hcut, hmem⟩
  · exact ⟨attrs, [], (append_nil attrs).symm, hmem, rfl⟩
  · exact ⟨_, _, hcut, hmem, rfl⟩

lemma Outcome.refused {held : List Span} {offset : ℕ} {attrs : List Attr} {rest : List Octet}
    {result : Except BuildError SpanIndex} (h : Outcome held offset attrs rest result)
    (hleft : rest ≠ []) (hnodup : (held.map (·.code) ++ attrs.map (·.code)).Nodup) :
    ∃ err, result = .error err ∧
      err.offset = some (offset + (attrs.flatMap octets).length) := by
  rcases h with ⟨hended, hholds⟩ | ⟨_⟩ | ⟨_⟩ | ⟨_, hmem⟩ | ⟨hcut, hmem⟩
  · exact absurd hended hleft
  · exact ⟨_, rfl, rfl⟩
  · exact ⟨_, rfl, rfl⟩
  · exact ⟨_, rfl, rfl⟩
  · subst hcut
    rw [map_append, map_cons, ← append_assoc] at hnodup
    exact absurd hmem (disjoint_right.1 hnodup.disjoint mem_cons_self)

end SpanIndex

/-! ## The three walks -/

lemma turns_of_cut (attrs : List Attr) (rest : List Octet) :
    attrs.length < (attrs.flatMap octets ++ rest).length + 1 := by
  have hle := length_le_length_octets attrs
  rw [length_append]
  omega

lemma iterate_cut {attrs : List Attr} {rest : List Octet} (hnone : nextAttr rest = none) :
    iterate (attrs.flatMap octets ++ rest) =
      (entriesFrom 0 attrs,
        ⟨attrs.flatMap octets ++ rest, (attrs.flatMap octets).length⟩) := by
  have hdrop : (attrs.flatMap octets ++ rest).drop 0 = attrs.flatMap octets ++ rest := rfl
  have hcollect := collect_cut hnone attrs 0 _ hdrop (turns_of_cut attrs rest)
  rw [Nat.zero_add] at hcollect
  exact hcollect

lemma attrFind_cut {attrs : List Attr} {rest : List Octet} (hnone : nextAttr rest = none)
    (code : Octet) :
    attrFind (attrs.flatMap octets ++ rest) code =
      ((entriesFrom 0 attrs).find? (·.code == code)).map
        (Entry.found (attrs.flatMap octets ++ rest)) := by
  have hdrop : (attrs.flatMap octets ++ rest).drop 0 = attrs.flatMap octets ++ rest := rfl
  exact attrFindLoop_cut hnone code attrs 0 _ hdrop (turns_of_cut attrs rest)

lemma build_cut {attrs : List Attr} {rest : List Octet} (hnone : nextAttr rest = none) :
    (65535 < (attrs.flatMap octets ++ rest).length ∧
      buildSpanIndex (attrs.flatMap octets ++ rest) =
        .error (.sectionTooLarge (attrs.flatMap octets ++ rest).length)) ∨
    ((attrs.flatMap octets ++ rest).length ≤ 65535 ∧
      SpanIndex.Outcome [] 0 attrs rest (buildSpanIndex (attrs.flatMap octets ++ rest))) := by
  have hdrop : (attrs.flatMap octets ++ rest).drop 0 = attrs.flatMap octets ++ rest := rfl
  rw [buildSpanIndex, SpanIndex.build]
  by_cases hlarge : spanMaxOffset < (attrs.flatMap octets ++ rest).length
  · rw [if_pos hlarge]
    exact .inl ⟨hlarge, rfl⟩
  · rw [if_neg hlarge]
    have hsize := Nat.le_of_not_lt hlarge
    refine .inr ⟨hsize, ?_⟩
    exact SpanIndex.buildLoop_cut hnone hsize attrs 0 _ _ [] hdrop (turns_of_cut attrs rest)
      SpanIndex.holds_zero (Nat.le_refl 0)

lemma map_entry_spansFrom {data rest : List Octet} {attrs : List Attr} {offset : ℕ}
    (h : data.drop offset = attrs.flatMap octets ++ rest) :
    (SpanIndex.spansFrom offset attrs).map (Span.entry data) = entriesFrom offset attrs := by
  induction attrs generalizing offset with
  | nil => rfl
  | cons a attrs ih =>
    rw [flatMap_cons, append_assoc] at h
    have hstand := standing_of_drop h
    rw [SpanIndex.spansFrom, map_cons, ih hstand.rest, entriesFrom, Span.entry]
    dsimp only
    rw [Nat.add_sub_cancel, hstand.flags]

lemma entriesFrom_append (offset : ℕ) (before after : List Attr) :
    entriesFrom offset (before ++ after) =
      entriesFrom offset before ++
        entriesFrom (offset + (before.flatMap octets).length) after := by
  induction before generalizing offset with
  | nil => rfl
  | cons a before ih =>
    rw [cons_append, entriesFrom, ih, entriesFrom, cons_append, flatMap_cons,
      length_append, add_assoc]

lemma exists_entry_of_code {attrs : List Attr} {code : Octet} (h : code ∈ attrs.map (·.code))
    (offset : ℕ) :
    ∃ e ∈ entriesFrom offset attrs, e.code = code ∧
      e.start + e.length ≤ offset + (attrs.flatMap octets).length := by
  obtain ⟨a, ha, hcode⟩ := mem_map.1 h
  obtain ⟨before, after, rfl⟩ := append_of_mem ha
  refine ⟨⟨a.code, a.flags, offset + (before.flatMap octets).length + a.hdrLen,
    a.value.length⟩, ?_, hcode, ?_⟩
  · rw [entriesFrom_append, entriesFrom]
    apply mem_append_right
    exact mem_cons_self
  · have hlen := a.length_octets
    simp only [flatMap_append, flatMap_cons, length_append]
    omega

/-- The span index, the iterator and the single-code scan over any section. An index that is built
has the entries that the iterator yields, and the iterator comes to the end of the section; the scan
returns the first of them with its type code and nothing when there is none; an error about a header
or a value is reported at the attribute where the iterator stops; and where the iterator stops
early, the index is refused there. Two refusals are the index's own: a section of more than 65535
octets, and a type code that an attribute before it has, up to where the iterator stops. -/
theorem walks_agree (packed : List Octet) :
    (∀ idx, buildSpanIndex packed = .ok idx →
      idx.spans.map (Span.entry packed) = (iterate packed).1 ∧
      (iterate packed).2.offset = packed.length ∧
      ∀ code, (idx.find code).map (Span.entry packed) =
        (iterate packed).1.find? (·.code == code)) ∧
    (∀ code, attrFind packed code =
      ((iterate packed).1.find? (·.code == code)).map (Entry.found packed)) ∧
    (∀ offset, (buildSpanIndex packed = .error (.header offset) ∨
        ∃ code, buildSpanIndex packed = .error (.truncated code offset)) →
      (iterate packed).2.offset = offset ∧ offset < packed.length) ∧
    (packed.length ≤ 65535 → ((iterate packed).1.map (·.code)).Nodup →
      (iterate packed).2.offset < packed.length →
      ∃ err, buildSpanIndex packed = .error err ∧ err.offset = some (iterate packed).2.offset) ∧
    (∀ code offset, buildSpanIndex packed = .error (.duplicate code offset) →
      offset ≤ (iterate packed).2.offset ∧
      ∃ e ∈ (iterate packed).1, e.code = code ∧ e.start + e.length ≤ offset) ∧
    (∀ length, buildSpanIndex packed = .error (.sectionTooLarge length) →
      length = packed.length ∧ 65535 < packed.length) := by
  obtain ⟨attrs, rest, rfl, hnone⟩ := exists_cut packed
  rw [iterate_cut hnone]
  dsimp only
  have hentries := @map_entry_spansFrom (attrs.flatMap octets ++ rest) rest attrs 0 rfl
  have hlen : (attrs.flatMap octets ++ rest).length =
      (attrs.flatMap octets).length + rest.length := length_append
  have hcases := @build_cut attrs rest hnone
  refine ⟨?_, attrFind_cut hnone, ?_, ?_, ?_, ?_⟩
  · intro idx hbuild
    rcases hcases with ⟨-, hlarge⟩ | ⟨-, hout⟩
    · rw [hbuild] at hlarge
      cases hlarge
    · rw [hbuild] at hout
      obtain ⟨hended, hholds⟩ := hout.of_ok
      rw [nil_append] at hholds
      refine ⟨?_, ?_, ?_⟩
      · rw [hholds.spans, hentries]
      · rw [hlen, hended, length_nil, add_zero]
      · intro code
        rw [hholds.find, ← hentries, find?_map]
        rfl
  · intro offset hbuild
    rcases hcases with ⟨-, hlarge⟩ | ⟨-, hout⟩
    · rw [hlarge] at hbuild
      rcases hbuild with heq | ⟨code, heq⟩ <;> cases heq
    · obtain ⟨hleft, ho⟩ := hout.of_malformed hbuild
      have hpos := length_pos_iff.2 hleft
      omega
  · intro hsize hnodup hstop
    rw [map_code_entriesFrom] at hnodup
    rcases hcases with ⟨hlarge, -⟩ | ⟨-, hout⟩
    · omega
    · have hleft : rest ≠ [] := by
        intro hnil
        rw [hlen, hnil, length_nil] at hstop
        omega
      have hrefused := hout.refused hleft hnodup
      rw [Nat.zero_add] at hrefused
      exact hrefused
  · intro code offset hbuild
    rcases hcases with ⟨-, hlarge⟩ | ⟨-, hout⟩
    · rw [hbuild] at hlarge
      cases hlarge
    · rw [hbuild] at hout
      obtain ⟨before, after, rfl, hmem, ho⟩ := hout.of_duplicate
      obtain ⟨e, he, hcode, hend⟩ := exists_entry_of_code hmem 0
      refine ⟨?_, e, ?_, hcode, ?_⟩
      · rw [ho, flatMap_append, length_append]
        omega
      · rw [entriesFrom_append]
        exact mem_append_left _ he
      · rw [ho]
        exact hend
  · intro length hbuild
    rcases hcases with ⟨hlarge, herr⟩ | ⟨-, hout⟩
    · rw [hbuild] at herr
      injection herr with herr
      injection herr with herr
      exact ⟨herr, hlarge⟩
    · rw [hbuild] at hout
      cases hout

/-- A section in which ORIGIN stands twice: the index refuses the second one, at offset 4, and the
iterator yields both and comes to the end, at offset 8. -/
theorem duplicate_stops_index_only :
    buildSpanIndex [0x40#8, 1#8, 1#8, 0#8, 0x40#8, 1#8, 1#8, 0#8] = .error (.duplicate 1#8 4) ∧
    iterate [0x40#8, 1#8, 1#8, 0#8, 0x40#8, 1#8, 1#8, 0#8] =
      ([⟨1#8, 0x40#8, 3, 1⟩, ⟨1#8, 0x40#8, 7, 1⟩],
        ⟨[0x40#8, 1#8, 1#8, 0#8, 0x40#8, 1#8, 1#8, 0#8], 8⟩) ∧
    attrFind [0x40#8, 1#8, 1#8, 0#8, 0x40#8, 1#8, 1#8, 0#8] 1#8 = some ⟨0, 0x40#8, [0#8]⟩ := by
  refine ⟨rfl, ?_, ?_⟩ <;> decide +kernel

end Ze.Attribute
