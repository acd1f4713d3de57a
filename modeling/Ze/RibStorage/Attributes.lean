import Ze.Attribute.Iterator

/-!
# The attributes of a stored route

`ParseAttributes` of `plugins/rib/storage/attrparse.go`: the attributes of a received section are
scattered over one pool for each of twelve types, and the others are packed into one string. An
entry has the strings that its handles stand for; a pool that is shut down or full is not modelled.
-/

namespace Ze.RibStorage

open Ze.AsPath Ze.Attribute List
open Except (ok)

/-! ## The pools -/

/-- The attributes with a pool of their own. Source: plugins/rib/storage/bundle.go Bundle;
plugins/rib/storage/routeentry.go RouteEntry.ASPath. -/
inductive Field
  | origin
  | asPath
  | nextHop
  | med
  | localPref
  | atomicAggregate
  | aggregator
  | communities
  | originatorID
  | clusterList
  | extCommunities
  | largeCommunities
  deriving DecidableEq, Repr

namespace Field

/-- The type of an attribute. Source: core/bgp/attribute/attribute.go AttributeCode. -/
def code : Field → Octet
  | origin => 1#8
  | asPath => 2#8
  | nextHop => 3#8
  | med => 4#8
  | localPref => 5#8
  | atomicAggregate => 6#8
  | aggregator => 7#8
  | communities => 8#8
  | originatorID => 9#8
  | clusterList => 10#8
  | extCommunities => 16#8
  | largeCommunities => 32#8

/-- The name of an attribute in an error. Source: ParseAttributes. -/
def label : Field → String
  | origin => "origin"
  | asPath => "as-path"
  | nextHop => "next-hop"
  | med => "med"
  | localPref => "local-pref"
  | atomicAggregate => "atomic-aggregate"
  | aggregator => "aggregator"
  | communities => "communities"
  | originatorID => "originator-id"
  | clusterList => "cluster-list"
  | extCommunities => "ext-communities"
  | largeCommunities => "large-communities"

/-- The fields that are written before the other attributes, in the order of the writes. Source:
plugins/rib/storage/familyrib.go ToWireBytes. -/
def leading : List Field :=
  [origin, asPath, nextHop, med, localPref, atomicAggregate, aggregator, communities, originatorID,
    clusterList, extCommunities]

/-- Every field. Source: bundle.go Bundle. -/
def all : List Field := leading ++ [largeCommunities]

/-- The field of a type. Source: ParseAttributes, the switch. -/
def ofCode (code : Octet) : Option Field := all.find? fun f => f.code == code

lemma ofCode_code (f : Field) : ofCode f.code = some f := by
  rcases f <;> rfl

lemma code_of_ofCode {code : Octet} {f : Field} (h : ofCode code = some f) : f.code = code := by
  simpa using find?_some h

lemma mem_all (f : Field) : f ∈ all := by
  rcases f <;> decide

lemma code_injective {f g : Field} (h : f.code = g.code) : f = g := by
  have hf := ofCode_code f
  rw [h, ofCode_code] at hf
  exact (Option.some.inj hf).symm

end Field

/-- A stored route: the string of each field that it has, and the string of the other attributes.
Source: routeentry.go RouteEntry; bundle.go Bundle. -/
@[ext]
structure RouteEntry where
  pooled : Field → Option (List Octet)
  otherAttrs : Option (List Octet)

def maxDataLength : ℕ := 65535

/-! ## The parse -/

/-- Why a section is refused. Source: ParseAttributes. -/
inductive ParseError
  | duplicate (code : Octet)
  | intern (label : String)
  | malformed (offset : ℕ)
  deriving DecidableEq, Repr

def appendOtherAttr (dst : List Octet) (a : Attr) : List Octet :=
  dst ++ ([a.code, a.flags] ++ putUint16 a.value.length ++ a.value)

/-- The state of the parse.
Source: ParseAttributes, bundle, aspathHandle, otherAttrs and seen. -/
structure Parsing where
  pooled : Field → Option (List Octet)
  otherAttrs : List Octet
  seen : Octet → Bool

/-- One attribute that was read. Source: ParseAttributes, the body of the loop. -/
def parseAttr (st : Parsing) (a : Attr) : Except ParseError Parsing :=
  if st.seen a.code then .error (.duplicate a.code)
  else
    let st := { st with seen := fun code => code == a.code || st.seen code }
    match Field.ofCode a.code with
    | some f =>
      if maxDataLength < a.value.length then .error (.intern f.label)
      else .ok { st with pooled := fun g => if g = f then some a.value else st.pooled g }
    | none => .ok { st with otherAttrs := appendOtherAttr st.otherAttrs a }

/-- The loop, with the octets that are left when the iterator has no more; `fuel` bounds the
attributes.
Source: ParseAttributes, the loop. -/
def parseLoop : ℕ → List Octet → Parsing → Except ParseError (Parsing × List Octet)
  | 0, data, st => .ok (st, data)
  | fuel + 1, data, st =>
    match nextAttr data with
    | none => .ok (st, data)
    | some a =>
      match parseAttr st a with
      | .error e => .error e
      | .ok st => parseLoop fuel (data.drop a.octets.length) st

/-- The entry of what was read, its other attributes interned as one string.
Source: ParseAttributes, after the loop. -/
def Parsing.entry (st : Parsing) : Except ParseError RouteEntry :=
  if 0 < st.otherAttrs.length then
    if maxDataLength < st.otherAttrs.length then .error (.intern "other-attrs")
    else .ok ⟨st.pooled, some st.otherAttrs⟩
  else .ok ⟨st.pooled, none⟩

def parseAttributes (raw : List Octet) : Except ParseError RouteEntry :=
  if raw.isEmpty then .ok ⟨fun _ => none, none⟩
  else
    match parseLoop raw.length raw ⟨fun _ => none, [], fun _ => false⟩ with
    | .error e => .error e
    | .ok (st, rest) =>
      if rest.length ≠ 0 then .error (.malformed (raw.length - rest.length)) else st.entry

/-! ## What a section leaves -/

def others (attrs : List Attr) : List Attr :=
  attrs.filter fun a => (Field.ofCode a.code).isNone

/-- The other attributes as they are stored. Source: appendOtherAttr. -/
def packed (attrs : List Attr) : List Octet :=
  attrs.flatMap fun a => [a.code, a.flags] ++ putUint16 a.value.length ++ a.value

/-- What the parse has stored of the attributes that it has read. -/
def parsed (attrs : List Attr) : Parsing where
  pooled f := (lastAttr f.code attrs).map Attr.value
  otherAttrs := packed (others attrs)
  seen code := (attrs.map Attr.code).contains code

def entryOf (attrs : List Attr) : RouteEntry where
  pooled f := (lastAttr f.code attrs).map Attr.value
  otherAttrs := if others attrs = [] then none else some (packed (others attrs))

lemma length_value_lt (a : Attr) : a.value.length < 65536 := by
  have hfits := a.fits
  split_ifs at hfits <;> omega

lemma lastAttr_concat (code : Octet) (attrs : List Attr) (a : Attr) :
    lastAttr code (attrs ++ [a]) = if a.code = code then some a else lastAttr code attrs := by
  rw [lastAttr, filter_append, lastAttr]
  by_cases h : a.code = code
  · rw [if_pos h, filter_cons_of_pos (by simpa using h), filter_nil, getLast?_append]
    rfl
  · rw [if_neg h, filter_cons_of_neg (by simpa using h), filter_nil, append_nil]

/-- **Step.** An attribute of a new type is stored, one of a type that was seen refuses the section.
-/
lemma parseAttr_parsed (attrs : List Attr) (a : Attr) :
    parseAttr (parsed attrs) a =
      if a.code ∈ attrs.map Attr.code then .error (.duplicate a.code)
      else .ok (parsed (attrs ++ [a])) := by
  have hseen : (fun code => code == a.code || (parsed attrs).seen code) =
      (parsed (attrs ++ [a])).seen := by
    funext code
    simp only [parsed, map_append, map_cons, map_nil, contains_eq_mem, mem_append, mem_singleton]
    by_cases hcode : code = a.code
    · simp [hcode]
    · simp [hcode]
  unfold parseAttr
  by_cases hdup : a.code ∈ attrs.map Attr.code
  · rw [if_pos hdup, if_pos]
    simpa [parsed] using hdup
  · rw [if_neg hdup, if_neg (by simpa [parsed] using hdup)]
    rcases hfield : Field.ofCode a.code with _ | f
    · simp only [hseen]
      congr 1
      simp only [parsed, Parsing.mk.injEq, and_true]
      constructor
      · funext f
        rw [lastAttr_concat, if_neg]
        intro hcode
        rw [hcode, Field.ofCode_code] at hfield
        cases hfield
      · rw [appendOtherAttr, others, others, filter_append,
          filter_cons_of_pos (by rw [hfield]; rfl), filter_nil, packed, packed,
          flatMap_append, flatMap_singleton]
    · have hlen := length_value_lt a
      have hcode := Field.code_of_ofCode hfield
      simp only [hseen]
      rw [if_neg (by rw [maxDataLength]; omega)]
      congr 1
      simp only [parsed, Parsing.mk.injEq, and_true]
      constructor
      · funext g
        rw [lastAttr_concat]
        by_cases hg : g = f
        · rw [if_pos hg, hg, if_pos hcode.symm, Option.map_some]
        · rw [if_neg hg, if_neg]
          exact fun h => hg (Field.code_injective (h.symm.trans hcode.symm))
      · rw [others, others, filter_append,
          filter_cons_of_neg (by rw [hfield]; simp), filter_nil, append_nil]

/-- **Run.** The loop over a section of attributes of distinct types. -/
lemma parseLoop_octets (fuel : ℕ) (done todo : List Attr)
    (honce : ((done ++ todo).map Attr.code).Nodup) (hfuel : todo.length ≤ fuel) :
    parseLoop fuel (todo.flatMap Attr.octets) (parsed done) = .ok (parsed (done ++ todo), []) := by
  induction todo generalizing done fuel with
  | nil =>
    rw [append_nil]
    rcases fuel with _ | fuel <;> rfl
  | cons a todo ih =>
    obtain ⟨fuel, rfl⟩ : ∃ n, fuel = n + 1 :=
      ⟨fuel - 1, by rw [length_cons] at hfuel; omega⟩
    have hsame : done ++ [a] ++ todo = done ++ a :: todo := by simp
    have hnew : a.code ∉ done.map Attr.code := by
      rw [map_append, map_cons] at honce
      intro hmem
      exact (nodup_append.1 honce).2.2 _ hmem _ mem_cons_self rfl
    rw [parseLoop, flatMap_cons, nextAttr_octets_append]
    simp only [parseAttr_parsed, if_neg hnew, drop_left]
    rw [ih fuel (done ++ [a]) (by rwa [hsame]) (by simpa using hfuel), hsame]

lemma eq_octets_of_parseLoop (fuel : ℕ) (data : List Octet) (done : List Attr)
    (honce : (done.map Attr.code).Nodup) {st : Parsing}
    (h : parseLoop fuel data (parsed done) = .ok (st, [])) :
    ∃ todo, data = todo.flatMap Attr.octets ∧ ((done ++ todo).map Attr.code).Nodup ∧
      st = parsed (done ++ todo) := by
  induction fuel generalizing data done with
  | zero =>
    rw [parseLoop, ok.injEq, Prod.mk.injEq] at h
    exact ⟨[], h.2, by rwa [append_nil], by rw [append_nil, h.1]⟩
  | succ fuel ih =>
    rw [parseLoop] at h
    rcases hnext : nextAttr data with _ | a
    · simp only [hnext, ok.injEq, Prod.mk.injEq] at h
      exact ⟨[], h.2, by rwa [append_nil], by rw [append_nil, h.1]⟩
    · simp only [hnext, parseAttr_parsed] at h
      by_cases hdup : a.code ∈ done.map Attr.code
      · rw [if_pos hdup] at h
        cases h
      · rw [if_neg hdup] at h
        have honce' : ((done ++ [a]).map Attr.code).Nodup := by
          rw [map_append]
          refine List.Nodup.append honce (nodup_singleton _) ?_
          rw [disjoint_right]
          intro code hcode
          rw [map_cons, map_nil, mem_singleton] at hcode
          rwa [hcode]
        obtain ⟨todo, hdata, hnodup, hst⟩ := ih _ _ honce' h
        have hsame : done ++ [a] ++ todo = done ++ a :: todo := by simp
        rw [hsame] at hnodup hst
        refine ⟨a :: todo, ?_, hnodup, hst⟩
        rw [flatMap_cons, ← hdata]
        exact eq_octets_append_of_nextAttr hnext

lemma length_packed_pos {attrs : List Attr} : 0 < (packed attrs).length ↔ attrs ≠ [] := by
  rcases attrs with _ | ⟨a, attrs⟩
  · simp [packed]
  · simp [packed]

lemma entry_parsed (attrs : List Attr) :
    (parsed attrs).entry =
      if maxDataLength < (packed (others attrs)).length then .error (.intern "other-attrs")
      else .ok (entryOf attrs) := by
  rw [Parsing.entry]
  change (if 0 < (packed (others attrs)).length then _ else _) = _
  by_cases hpos : 0 < (packed (others attrs)).length
  · rw [if_pos hpos, entryOf, if_neg (length_packed_pos.1 hpos)]
    rfl
  · have hnone : others attrs = [] := by
      by_contra hne
      exact hpos (length_packed_pos.2 hne)
    rw [if_neg hpos, if_neg (by omega), entryOf, if_pos hnone]
    rfl

/-- **The accepted sections.** A section is accepted exactly when it is a list of attributes of
distinct types whose others can be packed, and the entry is that of the list. -/
lemma parseAttributes_eq_ok_iff {raw : List Octet} {e : RouteEntry} :
    parseAttributes raw = .ok e ↔ ∃ attrs : List Attr, raw = attrs.flatMap Attr.octets ∧
      (attrs.map Attr.code).Nodup ∧ (packed (others attrs)).length ≤ maxDataLength ∧
      e = entryOf attrs := by
  have hstart : (⟨fun _ => none, [], fun _ => false⟩ : Parsing) = parsed [] := rfl
  constructor
  · intro h
    unfold parseAttributes at h
    by_cases hempty : raw.isEmpty
    · rw [if_pos hempty, ok.injEq] at h
      rw [List.isEmpty_iff] at hempty
      exact ⟨[], hempty, nodup_nil, Nat.zero_le _, h.symm⟩
    · rw [if_neg hempty, hstart] at h
      rcases hloop : parseLoop raw.length raw (parsed []) with e' | ⟨st, rest⟩
      · rw [hloop] at h
        cases h
      · rw [hloop] at h
        dsimp only at h
        split_ifs at h with hrest
        rw [not_not, length_eq_zero_iff] at hrest
        subst hrest
        obtain ⟨attrs, hraw, honce, rfl⟩ := eq_octets_of_parseLoop _ _ [] nodup_nil hloop
        rw [nil_append] at honce h
        rw [entry_parsed] at h
        split_ifs at h with hlen
        exact ⟨attrs, hraw, honce, Nat.le_of_not_lt hlen, (ok.inj h).symm⟩
  · rintro ⟨attrs, rfl, honce, hlen, rfl⟩
    have hcount := length_le_length_octets attrs
    unfold parseAttributes
    by_cases hempty : (attrs.flatMap Attr.octets).isEmpty
    · rw [List.isEmpty_iff] at hempty
      rw [hempty, length_nil, Nat.le_zero, length_eq_zero_iff] at hcount
      rw [hempty, hcount]
      rfl
    · rw [if_neg hempty, hstart, parseLoop_octets _ [] attrs honce hcount, nil_append]
      dsimp only
      rw [if_neg (by simp), entry_parsed, if_neg (Nat.not_lt.2 hlen)]

end Ze.RibStorage
