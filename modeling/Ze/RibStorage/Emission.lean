import Ze.RibStorage.Attributes
import Ze.Lib.GoMap
import Mathlib.Data.List.Sort

/-!
# The section of a stored route

`ToWireBytes` of `plugins/rib/storage/familyrib.go`: the section of a stored route is written again,
the pooled attributes first and then the others in the order of their types, with the large
communities in their place among the others.
-/

namespace Ze.RibStorage

open Ze.AsPath Ze.Attribute Ze.Lib List
open BitVec (lt_def ofNat)

/-! ## The writes -/

/-- The flags that a pooled attribute is written with. Source: ToWireBytes. -/
def Field.flags : Field → Octet
  | origin => 0x40#8
  | asPath => 0x40#8
  | nextHop => 0x40#8
  | med => 0x80#8
  | localPref => 0x40#8
  | atomicAggregate => 0x40#8
  | aggregator => 0xC0#8
  | communities => 0xC0#8
  | originatorID => 0x80#8
  | clusterList => 0x80#8
  | extCommunities => 0xC0#8
  | largeCommunities => 0xC0#8

def appendAttrWire (dst : List Octet) (code flags : Octet) (value : List Octet) : List Octet :=
  if 255 < value.length then
    dst ++ ([flags ||| 0x10#8, code] ++ putUint16 value.length) ++ value
  else dst ++ [flags, code, ofNat 8 value.length] ++ value

/-- Source: ToWireBytes, otherByType. -/
abbrev OtherByType := Finmap fun _ : Octet => List Octet

/-- Source: parseOtherAttrs, the loop; fuel bounds the attributes. -/
def parseOtherLoop : ℕ → List Octet → OtherByType → OtherByType
  | fuel + 1, code :: flags :: hi :: lo :: rest, result =>
    let length := uint16 hi lo
    if rest.length < length then result
    else
      let wire := (if 255 < length then [flags ||| 0x10#8, code] ++ putUint16 length
        else [flags &&& ~~~0x10#8, code, ofNat 8 length]) ++ rest.take length
      parseOtherLoop fuel (rest.drop length) (result.insert code wire)
  | _, _, result => result

def parseOtherAttrs (data : List Octet) : OtherByType := parseOtherLoop data.length data ∅

def sortBytes (b : List Octet) : List Octet := b.insertionSort fun x y => x.toNat ≤ y.toNat

/-- Source: ToWireBytes, writeAttr. -/
def writeAttr (e : RouteEntry) (st : List Octet × OtherByType) (f : Field) :
    List Octet × OtherByType :=
  match e.pooled f with
  | some data => (appendAttrWire st.1 f.code f.flags data, st.2)
  | none =>
    match st.2.lookup f.code with
    | some wire => (st.1 ++ wire, st.2.erase f.code)
    | none => st

/-- One of the other attributes; `large` says that the large communities are still to be written.
Source: ToWireBytes, the body of the loop over codes. -/
def writeOther (e : RouteEntry) (st : (List Octet × OtherByType) × Bool) (code : Octet) :
    (List Octet × OtherByType) × Bool :=
  let st := if st.2 && Field.code .largeCommunities < code then
    (writeAttr e st.1 .largeCommunities, false) else st
  ((st.1.1 ++ (st.1.2.lookup code).getD [], st.1.2), st.2)

/-- The section of a stored route. The range over the map meets its keys in the order `ord`. -/
def toWireBytes (ord : RangeOrder Octet) (e : RouteEntry) : List Octet :=
  let otherByType := match e.otherAttrs with
    | some data => parseOtherAttrs data
    | none => ∅
  let st := Field.leading.foldl (writeAttr e) ([], otherByType)
  let codes := sortBytes (ord.keys st.2.keys)
  let large := (e.pooled .largeCommunities).isSome
  let st := codes.foldl (writeOther e) (st, large)
  if st.2 then (writeAttr e st.1 .largeCommunities).1 else st.1.1

/-! ## What is written -/

/-- A pooled attribute as it is written. Source: appendAttrWire. -/
def pooledAttr (f : Field) (value : List Octet) : Attr := .written f.flags f.code value

/-- Another attribute as it is written: with the flags that it came with, but for the Extended
Length bit.
Source: parseOtherAttrs. -/
def restored (a : Attr) : Attr := .written (a.flags &&& ~~~0x10#8) a.code a.value

/-- The attributes that are written for some fields. -/
def pooledAttrs (e : RouteEntry) (fields : List Field) : List Attr :=
  fields.filterMap fun f => (e.pooled f).map (pooledAttr f)

/-- The other attributes in the order of their types. Source: ToWireBytes. -/
def sortedOthers (attrs : List Attr) : List Attr :=
  ((others attrs).map restored).insertionSort fun a b => a.code.toNat ≤ b.code.toNat

def emitted (attrs : List Attr) : List Attr :=
  pooledAttrs (entryOf attrs) Field.leading ++
    (sortedOthers attrs).filter (fun a => a.code.toNat ≤ 32) ++
    pooledAttrs (entryOf attrs) [.largeCommunities] ++
    (sortedOthers attrs).filter fun a => ¬ a.code.toNat ≤ 32

/-! ## The octets of a write -/

lemma isExtLength_flags (f : Field) : isExtLength f.flags = false := by
  rcases f <;> rfl

lemma isExtLength_and_not (flags : Octet) : isExtLength (flags &&& ~~~0x10#8) = false := by
  revert flags
  decide

lemma and_not_or (flags : Octet) : flags &&& ~~~0x10#8 ||| 0x10#8 = flags ||| 0x10#8 := by
  revert flags
  decide

variable {value : List Octet}

lemma octets_written_eq {flags : Octet} (code : Octet)
    (hflags : isExtLength flags = false) (hlen : value.length < 65536) :
    (Attr.written flags code value).octets =
      (if 255 < value.length then [flags ||| 0x10#8, code] ++ putUint16 value.length
        else [flags, code, ofNat 8 value.length]) ++ value := by
  rw [Attr.octets_written hlen, writeHeader]
  split_ifs with hlong hext hext
  · rfl
  · rw [isExtLength_or] at hext
    exact absurd rfl hext
  · rw [hflags] at hext
    cases hext
  · rfl

lemma appendAttrWire_eq (dst : List Octet) (f : Field) (hlen : value.length < 65536) :
    appendAttrWire dst f.code f.flags value = dst ++ (pooledAttr f value).octets := by
  rw [pooledAttr, octets_written_eq f.code (isExtLength_flags f) hlen, appendAttrWire]
  split_ifs <;> simp

lemma length_pooled_lt {attrs : List Attr} {f : Field}
    (h : (entryOf attrs).pooled f = some value) : value.length < 65536 := by
  obtain ⟨a, -, rfl⟩ := Option.map_eq_some_iff.1 h
  exact length_value_lt a

lemma lookup_parseOtherLoop (fuel : ℕ) (rest : List Attr) (result : OtherByType) (code : Octet)
    (honce : (rest.map Attr.code).Nodup) (hfuel : rest.length ≤ fuel) :
    (parseOtherLoop fuel (packed rest) result).lookup code =
      ((lastAttr code rest).map fun a => (restored a).octets).or (result.lookup code) := by
  induction rest generalizing fuel result with
  | nil => rcases fuel with _ | fuel <;> rfl
  | cons a rest ih =>
    obtain ⟨fuel, rfl⟩ : ∃ n, fuel = n + 1 :=
      ⟨fuel - 1, by rw [length_cons] at hfuel; omega⟩
    have hlen := length_value_lt a
    have hpacked : packed (a :: rest) = a.code :: a.flags ::
        ofNat 8 (a.value.length / 256) :: ofNat 8 a.value.length ::
        (a.value ++ packed rest) := by
      simp [packed, putUint16]
    have hwire : (if 255 < a.value.length then
        [a.flags ||| 0x10#8, a.code] ++ putUint16 a.value.length
        else [a.flags &&& ~~~0x10#8, a.code, ofNat 8 a.value.length]) ++ a.value =
        (restored a).octets := by
      rw [restored, octets_written_eq a.code (isExtLength_and_not a.flags) hlen, and_not_or]
    have honce' := honce
    rw [map_cons, nodup_cons] at honce
    rw [hpacked, parseOtherLoop]
    simp only [uint16_ofNat, Nat.mod_eq_of_lt hlen, take_left, drop_left, hwire]
    rw [if_neg (by simp), ih fuel _ honce.2 (by simpa using hfuel), lookup_insert_eq]
    by_cases hcode : code = a.code
    · subst hcode
      have hnone : lastAttr a.code rest = none := by
        apply lastAttr_eq_none.2
        exact fun b hb h => honce.1 (mem_map.2 ⟨b, hb, h⟩)
      rw [hnone, lastAttr_eq_some honce' mem_cons_self, if_pos rfl]
      rfl
    · have hskip : lastAttr code (a :: rest) = lastAttr code rest := by
        rw [lastAttr, filter_cons_of_neg (by simpa using fun h => hcode h.symm), lastAttr]
      rw [hskip, if_neg hcode]

/-! ## The order of the writes -/

/-- The attributes are in the order of their types. -/
def Ascending (attrs : List Attr) : Prop := attrs.Pairwise fun a b => a.code.toNat < b.code.toNat

lemma filter_append_filter {attrs : List Attr} (bound : ℕ)
    (h : attrs.Pairwise fun a b => a.code.toNat ≤ b.code.toNat) :
    attrs.filter (fun a => a.code.toNat ≤ bound) ++
      attrs.filter (fun a => ¬ a.code.toNat ≤ bound) = attrs := by
  induction attrs with
  | nil => rfl
  | cons a attrs ih =>
    rw [pairwise_cons] at h
    by_cases ha : a.code.toNat ≤ bound
    · rw [filter_cons_of_pos (by simpa using ha), filter_cons_of_neg (by simpa using ha),
        cons_append, ih h.2]
    · have hnone : attrs.filter (fun b => b.code.toNat ≤ bound) = [] := by
        apply filter_eq_nil_iff.2
        intro b hb
        have hab := h.1 b hb
        rw [decide_eq_true_eq]
        omega
      have htail := ih h.2
      rw [hnone, nil_append] at htail
      rw [filter_cons_of_neg (by simpa using ha), filter_cons_of_pos (by simpa using ha),
        hnone, htail, nil_append]

lemma pairwise_sortedOthers (attrs : List Attr) :
    (sortedOthers attrs).Pairwise fun a b => a.code.toNat ≤ b.code.toNat := by
  exact pairwise_insertionSort _ _

lemma sortedOthers_perm (attrs : List Attr) :
    (sortedOthers attrs).Perm ((others attrs).map restored) :=
  perm_insertionSort _ _

lemma sortBytes_eq {codes : List Octet} {attrs : List Attr}
    (h : codes.Perm ((others attrs).map Attr.code)) :
    sortBytes codes = (sortedOthers attrs).map Attr.code := by
  have hperm : (sortBytes codes).Perm ((sortedOthers attrs).map Attr.code) := by
    refine (perm_insertionSort _ _).trans (h.trans ?_)
    have hmap := (sortedOthers_perm attrs).map Attr.code
    rw [map_map] at hmap
    exact hmap.symm
  refine hperm.eq_of_pairwise ?_ (pairwise_insertionSort _ _) ?_
  · intro x y _ _ hxy hyx
    exact BitVec.eq_of_toNat_eq (Nat.le_antisymm hxy hyx)
  · exact pairwise_map.2 (pairwise_sortedOthers attrs)

/-! ## The written section -/

section

variable {attrs : List Attr} {m : OtherByType}

lemma writeAttr_entryOf (r : List Octet) {f : Field} (hm : m.lookup f.code = none) :
    writeAttr (entryOf attrs) (r, m) f =
      (r ++ (pooledAttrs (entryOf attrs) [f]).flatMap Attr.octets, m) := by
  rw [writeAttr, pooledAttrs, filterMap_cons, filterMap_nil]
  rcases h : (entryOf attrs).pooled f with _ | value
  · simp [hm]
  · simp [appendAttrWire_eq r f (length_pooled_lt h)]

lemma foldl_writeAttr (r : List Octet) (fields : List Field)
    (hm : ∀ f : Field, m.lookup f.code = none) :
    fields.foldl (writeAttr (entryOf attrs)) (r, m) =
      (r ++ (pooledAttrs (entryOf attrs) fields).flatMap Attr.octets, m) := by
  induction fields generalizing r with
  | nil => simp [pooledAttrs]
  | cons f fields ih =>
    have hsplit : pooledAttrs (entryOf attrs) (f :: fields) =
        pooledAttrs (entryOf attrs) [f] ++ pooledAttrs (entryOf attrs) fields :=
      filterMap_append (l := [f])
    rw [foldl_cons, writeAttr_entryOf r (hm f), ih, hsplit, flatMap_append, append_assoc]

lemma foldl_writeOther (e : RouteEntry) (r : List Octet) (l : List Attr)
    (hl : ∀ a ∈ l, m.lookup a.code = some a.octets) :
    (l.map Attr.code).foldl (writeOther e) ((r, m), false) =
      ((r ++ l.flatMap Attr.octets, m), false) := by
  induction l generalizing r with
  | nil => simp
  | cons a l ih =>
    rw [forall_mem_cons] at hl
    have hstep : writeOther e ((r, m), false) a.code = ((r ++ a.octets, m), false) := by
      simp [writeOther, hl.1]
    rw [map_cons, foldl_cons, hstep, ih _ hl.2, flatMap_cons, append_assoc]

lemma foldl_writeOther_large (attrs : List Attr) (r : List Octet) (l : List Attr)
    (hm : m.lookup (Field.code .largeCommunities) = none)
    (hl : ∀ a ∈ l, m.lookup a.code = some a.octets)
    (hsorted : l.Pairwise fun a b => a.code.toNat ≤ b.code.toNat) :
    (let st := (l.map Attr.code).foldl (writeOther (entryOf attrs)) ((r, m), true)
      if st.2 then (writeAttr (entryOf attrs) st.1 .largeCommunities).1 else st.1.1) =
      r ++ (l.filter (fun a => a.code.toNat ≤ 32) ++
        pooledAttrs (entryOf attrs) [.largeCommunities] ++
        l.filter fun a => ¬ a.code.toNat ≤ 32).flatMap Attr.octets := by
  induction l generalizing r with
  | nil => simp [writeAttr_entryOf r hm]
  | cons a l ih =>
    rw [forall_mem_cons] at hl
    have hcut := filter_append_filter 32 hsorted
    rw [pairwise_cons] at hsorted
    rw [map_cons, foldl_cons]
    by_cases ha : a.code.toNat ≤ 32
    · have hstep : writeOther (entryOf attrs) ((r, m), true) a.code =
          ((r ++ a.octets, m), true) := by
        have hnot : ¬ Field.code .largeCommunities < a.code := by
          rw [lt_def]
          exact Nat.not_lt.2 ha
        simp [writeOther, hnot, hl.1]
      rw [hstep, ih _ hl.2 hsorted.2, filter_cons_of_pos (by simpa using ha),
        filter_cons_of_neg (by simpa using ha), cons_append, cons_append,
        flatMap_cons, append_assoc]
    · have hnone : (a :: l).filter (fun b => b.code.toNat ≤ 32) = [] := by
        apply filter_eq_nil_iff.2
        intro b hb
        rw [decide_eq_true_eq]
        rcases mem_cons.1 hb with rfl | hb
        · exact ha
        · have hab := hsorted.1 b hb
          omega
      have hstep : writeOther (entryOf attrs) ((r, m), true) a.code =
          ((r ++ (pooledAttrs (entryOf attrs) [.largeCommunities]).flatMap Attr.octets ++ a.octets,
            m), false) := by
        have hlt : Field.code .largeCommunities < a.code := by
          rw [lt_def]
          exact Nat.lt_of_not_le ha
        simp [writeOther, hlt, writeAttr_entryOf r hm, hl.1]
      rw [hnone, nil_append] at hcut
      rw [hstep, foldl_writeOther _ _ _ hl.2, hnone, hcut, nil_append, flatMap_append, flatMap_cons]
      simp

lemma lookup_otherByType (honce : (attrs.map Attr.code).Nodup) (code : Octet) :
    (match (entryOf attrs).otherAttrs with
      | some data => parseOtherAttrs data
      | none => (∅ : OtherByType)).lookup code =
      (lastAttr code (others attrs)).map fun a => (restored a).octets := by
  have honce' : ((others attrs).map Attr.code).Nodup :=
    honce.sublist (filter_sublist.map Attr.code)
  by_cases hnone : others attrs = []
  · rw [entryOf, if_pos hnone, hnone]
    rfl
  · have hfuel : (others attrs).length ≤ (packed (others attrs)).length := by
      generalize others attrs = l
      induction l with
      | nil => exact Nat.zero_le _
      | cons a l ih =>
        rw [packed] at ih ⊢
        rw [flatMap_cons]
        simp only [length_append, length_cons]
        omega
    rw [entryOf, if_neg hnone]
    dsimp only
    rw [parseOtherAttrs, lookup_parseOtherLoop _ _ _ _ honce' hfuel]
    simp

lemma lastAttr_others (f : Field) : lastAttr f.code (others attrs) = none := by
  apply lastAttr_eq_none.2
  intro a ha hcode
  have hnone := (mem_filter.1 ha).2
  rw [hcode, Field.ofCode_code] at hnone
  cases hnone

/-- **The written section.** What is written for a parsed section, whatever the order of the ranges.
-/
lemma toWireBytes_entryOf (ord : RangeOrder Octet) (honce : (attrs.map Attr.code).Nodup) :
    toWireBytes ord (entryOf attrs) = (emitted attrs).flatMap Attr.octets := by
  have honce' : ((others attrs).map Attr.code).Nodup :=
    honce.sublist (filter_sublist.map Attr.code)
  rw [toWireBytes]
  have hlookup := lookup_otherByType honce
  set m := match (entryOf attrs).otherAttrs with
    | some data => parseOtherAttrs data
    | none => (∅ : OtherByType) with hm
  have hfree : ∀ f : Field, m.lookup f.code = none := by
    intro f
    rw [hlookup, lastAttr_others]
    rfl
  have hcodes : sortBytes (ord.keys m.keys) = (sortedOthers attrs).map Attr.code := by
    apply sortBytes_eq
    refine (perm_ext_iff_of_nodup (ord.nodup_keys _) honce').2 fun code => ?_
    rw [ord.mem_keys, Finmap.mem_keys, Finmap.mem_iff, mem_map]
    constructor
    · rintro ⟨wire, hwire⟩
      rw [hlookup, Option.map_eq_some_iff] at hwire
      obtain ⟨a, ha, -⟩ := hwire
      exact ⟨a, mem_of_lastAttr ha⟩
    · rintro ⟨a, ha, rfl⟩
      rw [hlookup, lastAttr_eq_some honce' ha]
      exact ⟨_, rfl⟩
  have hothers : ∀ a ∈ sortedOthers attrs, m.lookup a.code = some a.octets := by
    intro a ha
    obtain ⟨b, hb, rfl⟩ := mem_map.1 ((sortedOthers_perm attrs).mem_iff.1 ha)
    have hcode : (restored b).code = b.code := rfl
    rw [hcode, hlookup, lastAttr_eq_some honce' hb]
    rfl
  have hsorted := pairwise_sortedOthers attrs
  rw [foldl_writeAttr [] _ hfree, nil_append, hcodes]
  rcases hlarge : (entryOf attrs).pooled .largeCommunities with _ | value
  · have hnone : pooledAttrs (entryOf attrs) [.largeCommunities] = [] := by
      rw [pooledAttrs, filterMap_cons, hlarge]
      rfl
    rw [Option.isSome_none, foldl_writeOther _ _ _ hothers, emitted, hnone, append_nil,
      append_assoc, filter_append_filter 32 hsorted, flatMap_append]
    rfl
  · have hwrite := foldl_writeOther_large attrs
      ((pooledAttrs (entryOf attrs) Field.leading).flatMap Attr.octets) (sortedOthers attrs)
      (hfree _) hothers hsorted
    rw [Option.isSome_some]
    refine hwrite.trans ?_
    simp only [emitted, flatMap_append, append_assoc]

end

end Ze.RibStorage
