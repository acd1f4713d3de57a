import Ze.Attribute.Iterator
import Ze.Lib.Splice

/-!
# Attributes that are forwarded unrecognized

`forwardOpaquePayload` of `reactor/forward_body.go`: before an UPDATE body goes to another peer, the
optional attributes whose type is not recognized are treated as RFC 4271 Section 5 asks. The body is
copied into a read buffer, or, when the caller owns it, compacted where it stands; the walk then
reads the octets that it is writing.
-/

namespace Ze.Forward.Opaque

open Ze.AsPath Ze.Attribute Ze.Lib List
open Option (some.inj)

/-! ## The treatment of an attribute -/

variable (recognized : Octet → Bool)

/-- Source: forward_body.go forwardOpaquePayload, unknown; core/bgp/attribute/attribute.go
FlagOptional. -/
def unknown (a : Attr) : Bool := a.flags &&& 0x80#8 != 0#8 && !recognized a.code

/-- Source: forward_body.go forwardOpaquePayload, drop; attribute.go
FlagTransitive. -/
def drops (a : Attr) : Bool := unknown recognized a && a.flags &&& 0x40#8 == 0#8

/-- Source: forward_body.go forwardOpaquePayload, stamp; attribute.go
FlagPartial. -/
def stamps (a : Attr) : Bool :=
  unknown recognized a && a.flags &&& 0x40#8 != 0#8 && a.flags &&& 0x20#8 == 0#8

/-- Whether an attribute is treated at all. Source: forwardOpaquePayload, drop || stamp. -/
def acts (a : Attr) : Bool := drops recognized a || stamps recognized a

/-! ## The walk -/

/-- The state of the walk. `input` is the memory of the received body and `out` that of the answer,
which is `none` until the first attribute that is treated; in an owned body they are one.
Source: forwardOpaquePayload, payload, out, written and iter. -/
structure Pass where
  input : List Octet
  out : Option (List Octet)
  written : ℕ
  offset : ℕ

variable (owned : Bool) (readBuf : List Octet) (attrStart attrLen : ℕ)

/-- The octets of the attribute section, as the memory has them now. Source:
core/bgp/wire/update_sections.go. -/
def Pass.attrs (st : Pass) : List Octet := (st.input.drop attrStart).take attrLen

/-- The buffer of a copy: a read buffer of the pool, whatever it holds, or a new one if that is too
short.
Source: forwardOpaquePayload, getReadBuf. -/
def borrowed (payload : List Octet) : List Octet :=
  if readBuf.length < payload.length then replicate payload.length 0#8 else readBuf

/-- The answer is begun with what precedes the first attribute that is treated.
Source: forwardOpaquePayload, out == nil && (drop || stamp). -/
def Pass.begin (st : Pass) : Pass :=
  if owned then { st with out := some st.input, written := attrStart + st.offset }
  else
    let buf := borrowed readBuf st.input
    let head := st.input.take (attrStart + st.offset)
    { st with
      out := some (splice buf 0 head)
      written := min buf.length head.length }

/-- Source: forwardOpaquePayload, the body of the loop after Next. -/
def Pass.next (st : Pass) (a : Attr) : Pass :=
  let n := a.octets.length
  let start := st.offset
  let st := if st.out.isNone && acts recognized a then
    st.begin owned readBuf attrStart else st
  match st.out with
  | none => { st with offset := start + n }
  | some out =>
    if drops recognized a then { st with offset := start + n }
    else
      let out := if !owned || st.written != attrStart + start then
        splice out st.written (((st.attrs attrStart attrLen).drop start).take n) else out
      let out := if stamps recognized a then out.modify st.written (· ||| 0x20#8) else out
      { input := if owned then out else st.input
        out := some out
        written := st.written + n
        offset := start + n }

/-- The walk; `fuel` bounds the attributes. `none` is a malformed section.
Source: forwardOpaquePayload, the loop. -/
def Pass.walk : ℕ → Pass → Option Pass
  | 0, st => some st
  | fuel + 1, st =>
    if attrLen - st.offset = 0 then some st
    else
      match nextAttr ((st.attrs attrStart attrLen).drop st.offset) with
      | none => none
      | some a => Pass.walk fuel (st.next recognized owned readBuf attrStart attrLen a)

/-- Why a body is not forwarded. Source: forwardOpaquePayload. -/
inductive ForwardError
  | sections (e : UpdateError)
  | malformedAttributes
  deriving DecidableEq, Repr

/-- The end of the answer: the length of its attributes, and the NLRI.
Source: forwardOpaquePayload, after the loop. -/
def Pass.finish (nlriLen : ℕ) (st : Pass) : Option (List Octet) :=
  match st.out with
  | none => none
  | some out =>
    let out := splice out (attrStart - 2) (putUint16 (st.written - attrStart))
    let input := if owned then out else st.input
    let nlri := (input.drop (attrStart + attrLen)).take nlriLen
    let out := if !owned || st.written != attrStart + attrLen then splice out st.written nlri
      else out
    some (out.take (st.written + nlriLen))

/-- The treated body; `none` when the treatment leaves it as it is. -/
def forwardOpaquePayload (payload : List Octet) : Except ForwardError (Option (List Octet)) :=
  match splitUpdate payload with
  | .error e => .error (.sections e)
  | .ok (withdrawn, attrs, nlri) =>
    let attrStart := 4 + withdrawn.length
    match Pass.walk recognized owned readBuf attrStart attrs.length attrs.length
        ⟨payload, none, 0, 0⟩ with
    | none => .error .malformedAttributes
    | some st => .ok (st.finish owned attrStart attrs.length nlri.length)

/-! ## What the treatment is -/

lemma isExtLength_or_incomplete (flags : Octet) :
    isExtLength (flags ||| 0x20#8) = isExtLength flags := by
  revert flags
  decide

/-- The attribute with its Partial bit set. Source: RFC 4271 Section 5. -/
def setPartial (a : Attr) : Attr where
  flags := a.flags ||| 0x20#8
  code := a.code
  value := a.value
  fits := by
    rw [isExtLength_or_incomplete]
    exact a.fits

/-- What becomes of an attribute: an unrecognized optional one is dropped if it is not transitive,
and has its Partial bit set if it is; every other attribute is passed on as it is.
Source: RFC 4271 Section 5, as forwardOpaquePayload quotes it. -/
def treat (a : Attr) : Option Attr :=
  if unknown recognized a then
    if a.flags &&& 0x40#8 = 0#8 then none else some (setPartial a)
  else some a

/-- The treated attributes, in their order. Source: RFC 4271 Section 5. -/
def treated (attrs : List Attr) : List Attr := attrs.filterMap (treat recognized)

/-- The body of the treated attributes, with the withdrawn routes and the NLRI. Source: RFC 4271
Section 5. -/
def treatment (withdrawn : List Octet) (attrs : List Attr) (nlri : List Octet) : List Octet :=
  updateOctets withdrawn ((treated recognized attrs).flatMap Attr.octets) nlri

lemma treat_of_drops {a : Attr} (h : drops recognized a) : treat recognized a = none := by
  rw [drops, Bool.and_eq_true, beq_iff_eq] at h
  rw [treat, if_pos h.1, if_pos h.2]

lemma treat_of_stamps {a : Attr} (h : stamps recognized a) :
    treat recognized a = some (setPartial a) := by
  rw [stamps, Bool.and_eq_true, Bool.and_eq_true, bne_iff_ne] at h
  rw [treat, if_pos h.1.1, if_neg h.1.2]

lemma or_partial_of_ne {flags : Octet} (h : flags &&& 0x20#8 ≠ 0#8) : flags ||| 0x20#8 = flags := by
  revert flags
  decide

lemma treat_of_kept {a : Attr} (hd : drops recognized a = false)
    (hs : stamps recognized a = false) : treat recognized a = some a := by
  rw [treat]
  split_ifs with hu ht
  · rw [drops, hu, ht] at hd
    cases hd
  · rw [stamps, hu, Bool.true_and, Bool.and_eq_false_imp] at hs
    have hpartial := hs (bne_iff_ne.2 ht)
    rw [beq_eq_false_iff_ne] at hpartial
    simp only [setPartial, or_partial_of_ne hpartial]
  · rfl

lemma treat_of_not_acts {a : Attr} (h : acts recognized a = false) :
    treat recognized a = some a := by
  rw [acts, Bool.or_eq_false_iff] at h
  exact treat_of_kept recognized h.1 h.2

lemma octets_setPartial (a : Attr) : (setPartial a).octets = a.octets.modify 0 (· ||| 0x20#8) := by
  simp only [Attr.octets, setPartial, isExtLength_or_incomplete]
  rfl

variable {b : Attr}

lemma length_octets_of_treat {a : Attr} (h : treat recognized a = some b) :
    b.octets.length = a.octets.length := by
  rw [treat] at h
  split_ifs at h
  · cases h
    rw [octets_setPartial, length_modify]
  · rw [some.inj h]

/-! ## The section and its treatment -/

def octetsOf (attrs : List Attr) : List Octet := attrs.flatMap Attr.octets

lemma octetsOf_cons (a : Attr) (attrs : List Attr) :
    octetsOf (a :: attrs) = a.octets ++ octetsOf attrs := rfl

lemma octetsOf_append (s t : List Attr) : octetsOf (s ++ t) = octetsOf s ++ octetsOf t :=
  flatMap_append

lemma treated_append (s t : List Attr) :
    treated recognized (s ++ t) = treated recognized s ++ treated recognized t :=
  filterMap_append

lemma treated_of_drops {a : Attr} (h : drops recognized a) : treated recognized [a] = [] := by
  rw [treated, filterMap_cons, treat_of_drops recognized h]
  rfl

lemma treated_of_treat {a : Attr} (h : treat recognized a = some b) :
    treated recognized [a] = [b] := by
  rw [treated, filterMap_cons, h]
  rfl

lemma treated_of_not_acts {attrs : List Attr} (h : ∀ a ∈ attrs, acts recognized a = false) :
    treated recognized attrs = attrs := by
  induction attrs with
  | nil => rfl
  | cons a attrs ih =>
    rw [forall_mem_cons] at h
    rw [← singleton_append, treated_append, ih h.2,
      treated_of_treat recognized (treat_of_not_acts recognized h.1)]

lemma length_octetsOf_treated_le (attrs : List Attr) :
    (octetsOf (treated recognized attrs)).length ≤ (octetsOf attrs).length := by
  induction attrs with
  | nil => exact Nat.le_refl _
  | cons a attrs ih =>
    rw [← singleton_append, treated_append, octetsOf_append, octetsOf_append,
      length_append, length_append]
    apply Nat.add_le_add _ ih
    rcases h : treat recognized a with _ | b
    · rw [treated, filterMap_cons, h]
      exact Nat.zero_le _
    · rw [treated_of_treat recognized h, octetsOf_cons, octetsOf_cons, length_append,
        length_append, length_octets_of_treat recognized h]

/-! ## The invariant of the walk -/

/-- The walk of a body has read the attributes `done` and has `todo` before it: what it will read is
as it was received, and what it has written is what precedes the attributes and the treatment of
`done`. -/
structure Pass.Writes (head nlri : List Octet) (done todo : List Attr) (st : Pass) : Prop where
  offset : st.offset = (octetsOf done).length
  length : st.input.length = (head ++ (octetsOf (done ++ todo) ++ nlri)).length
  pending : st.input.drop (head.length + st.offset) = octetsOf todo ++ nlri
  unbegun : st.out = none → (∀ a ∈ done, acts recognized a = false) ∧
    st.input = head ++ (octetsOf (done ++ todo) ++ nlri)
  cause : ∀ out, st.out = some out → ∃ a ∈ done ++ todo, acts recognized a = true
  begun : ∀ out, st.out = some out → st.input.length ≤ out.length ∧
    st.written = head.length + (octetsOf (treated recognized done)).length ∧
    out.take st.written = head ++ octetsOf (treated recognized done) ∧
    (owned = true → st.input = out)

namespace Pass.Writes

variable {recognized owned} {head nlri : List Octet} {done todo : List Attr} {st : Pass}
  {a : Attr}

lemma drop_attrs (h : st.Writes recognized owned head nlri done todo) :
    (st.attrs head.length (octetsOf (done ++ todo)).length).drop st.offset = octetsOf todo := by
  rw [Pass.attrs, drop_take, drop_drop, h.pending, h.offset, octetsOf_append,
    length_append, Nat.add_sub_cancel_left, take_left]

lemma begin (h : st.Writes recognized owned head nlri done todo) (hout : st.out = none)
    (hcause : ∃ a ∈ done ++ todo, acts recognized a) :
    (st.begin owned readBuf head.length).Writes recognized owned head nlri done todo ∧
      (st.begin owned readBuf head.length).offset = st.offset ∧
      ∃ out, (st.begin owned readBuf head.length).out = some out := by
  obtain ⟨hquiet, hinput⟩ := h.unbegun hout
  have htreated := treated_of_not_acts recognized hquiet
  have htake : st.input.take (head.length + st.offset) = head ++ octetsOf done := by
    rw [hinput, octetsOf_append, append_assoc, ← append_assoc head, h.offset,
      ← length_append, take_left]
  have hle : head.length + st.offset ≤ st.input.length := by
    rw [h.length, h.offset, octetsOf_append]
    simp only [length_append]
    omega
  by_cases ho : owned
  · subst ho
    refine ⟨⟨h.offset, h.length, h.pending, fun hnone => (by cases hnone), fun _ _ => hcause,
      ?_⟩, rfl, _, rfl⟩
    rintro out hsome
    cases hsome
    refine ⟨Nat.le_refl _, ?_, ?_, fun _ => rfl⟩
    · rw [htreated, ← h.offset]
      rfl
    · rw [htreated]
      exact htake
  · rw [Bool.not_eq_true] at ho
    subst ho
    have hbuf : st.input.length ≤ (borrowed readBuf st.input).length := by
      rw [borrowed]
      split_ifs with hshort
      · rw [length_replicate]
      · omega
    have hlen : (st.input.take (head.length + st.offset)).length = head.length + st.offset := by
      rw [length_take]
      omega
    have hfits : 0 + (st.input.take (head.length + st.offset)).length ≤
        (borrowed readBuf st.input).length := by
      rw [hlen]
      omega
    have hwritten : min (borrowed readBuf st.input).length
        (st.input.take (head.length + st.offset)).length = head.length + st.offset := by
      rw [hlen]
      omega
    refine ⟨⟨h.offset, h.length, h.pending, fun hnone => (by cases hnone), fun _ _ => hcause,
      ?_⟩, rfl, _, rfl⟩
    rintro out hsome
    cases hsome
    refine ⟨?_, ?_, ?_, fun hc => (by cases hc)⟩
    · rw [length_splice hfits]
      exact hbuf
    · rw [htreated, ← h.offset]
      exact hwritten
    · have hend := take_splice_end hfits
      rw [Nat.zero_add, hlen, take_zero, nil_append] at hend
      change (splice (borrowed readBuf st.input) 0 _).take (min _ _) = _
      rw [hwritten, hend, htake, htreated]

lemma pass (h : st.Writes recognized owned head nlri done (a :: todo)) (hout : st.out = none)
    (hkept : acts recognized a = false) :
    ({ st with offset := st.offset + a.octets.length } : Pass).Writes recognized owned head nlri
      (done ++ [a]) todo := by
  obtain ⟨hquiet, hinput⟩ := h.unbegun hout
  have hsame : done ++ [a] ++ todo = done ++ a :: todo := by simp
  have hbegun : ∀ {P : Prop} (out : List Octet), st.out = some out → P := by
    intro P out hsome
    rw [hout] at hsome
    cases hsome
  refine ⟨?_, ?_, ?_, fun _ => ⟨?_, ?_⟩, fun out => hbegun out, fun out => hbegun out⟩
  · rw [octetsOf_append, length_append, h.offset]
    simp [octetsOf]
  · rw [hsame]
    exact h.length
  · rw [← Nat.add_assoc, ← drop_drop, h.pending, octetsOf_cons, append_assoc, drop_left]
  · rw [forall_mem_append]
    exact ⟨hquiet, fun x hx => (mem_singleton.1 hx) ▸ hkept⟩
  · rw [hsame]
    exact hinput

variable {out : List Octet}

lemma skip (h : st.Writes recognized owned head nlri done (a :: todo))
    (hout : st.out = some out) (hdrop : drops recognized a) :
    ({ st with offset := st.offset + a.octets.length } : Pass).Writes recognized owned head nlri
      (done ++ [a]) todo := by
  obtain ⟨hlen, hwritten, htake, hown⟩ := h.begun out hout
  have hsame : done ++ [a] ++ todo = done ++ a :: todo := by simp
  have htreated : treated recognized (done ++ [a]) = treated recognized done := by
    rw [treated_append, treated_of_drops _ hdrop, append_nil]
  refine ⟨?_, ?_, ?_, fun hnone => ?_, fun out' _ => ?_, fun out' hsome => ?_⟩
  · rw [octetsOf_append, length_append, h.offset]
    simp [octetsOf]
  · rw [hsame]
    exact h.length
  · rw [← Nat.add_assoc, ← drop_drop, h.pending, octetsOf_cons, append_assoc, drop_left]
  · rw [hout] at hnone
    cases hnone
  · rw [hsame]
    exact h.cause out hout
  · obtain rfl := some.inj (hout.symm.trans hsome)
    rw [htreated]
    exact ⟨hlen, hwritten, htake, hown⟩

lemma placed (h : st.Writes recognized owned head nlri done (a :: todo))
    (hout : st.out = some out) :
    (if !owned || st.written != head.length + st.offset then
      splice out st.written (((st.attrs head.length
        (octetsOf (done ++ a :: todo)).length).drop st.offset).take a.octets.length) else out) =
      out.take st.written ++ (a.octets ++ out.drop (st.written + a.octets.length)) ∧
      st.written + a.octets.length ≤ head.length + st.offset + a.octets.length ∧
      head.length + st.offset + a.octets.length ≤ out.length := by
  obtain ⟨hlen, hwritten, htake, hown⟩ := h.begun out hout
  have hle := length_octetsOf_treated_le recognized done
  have hroom : head.length + st.offset + a.octets.length ≤ out.length := by
    have hinput := h.length
    rw [octetsOf_append, octetsOf_cons] at hinput
    simp only [length_append] at hinput
    have hoffset := h.offset
    omega
  have hoffset := h.offset
  refine ⟨?_, by omega, hroom⟩
  split_ifs with hcopy
  · rw [h.drop_attrs, octetsOf_cons, take_left, splice_of_fits (by omega)]
  · simp only [Bool.or_eq_true, Bool.not_eq_true', bne_iff_ne, not_or, Bool.not_eq_false,
      not_not] at hcopy
    have hdrop : out.drop st.written = a.octets ++ (octetsOf todo ++ nlri) := by
      rw [← hown hcopy.1, hcopy.2, h.pending, octetsOf_cons, append_assoc]
    exact (splice_self hdrop).symm

lemma stamped {pos : ℕ} {b : Attr} (hpos : pos + a.octets.length ≤ out.length)
    (hdrop : drops recognized a = false) (htreat : treat recognized a = some b) :
    (if stamps recognized a then
      (out.take pos ++ (a.octets ++ out.drop (pos + a.octets.length))).modify pos (· ||| 0x20#8)
      else out.take pos ++ (a.octets ++ out.drop (pos + a.octets.length))) =
      splice out pos b.octets := by
  have hlen := length_octets_of_treat recognized htreat
  rw [splice_of_fits (by omega), hlen]
  split_ifs with hs
  · have hb := treat_of_stamps recognized hs
    obtain rfl := some.inj (htreat.symm.trans hb)
    have hcons : ∃ rest, a.octets = a.flags :: rest := ⟨_, rfl⟩
    obtain ⟨rest, hrest⟩ := hcons
    have htake : (out.take pos).length = pos := by
      rw [length_take]
      omega
    have hmodify := modify_append_cons (out.take pos)
      (rest ++ out.drop (pos + (a.flags :: rest).length)) a.flags (· ||| 0x20#8)
    rw [htake] at hmodify
    rw [octets_setPartial, hrest, cons_append, hmodify, modify_zero_cons, cons_append]
  · rw [Bool.not_eq_true] at hs
    rw [some.inj (htreat.symm.trans (treat_of_kept recognized hdrop hs))]

lemma keep (h : st.Writes recognized owned head nlri done (a :: todo))
    {b : Attr} (hout : st.out = some out) (htreat : treat recognized a = some b)
    (hroom : head.length + st.offset + a.octets.length ≤ out.length) :
    Pass.Writes recognized owned head nlri (done ++ [a]) todo
      { input := if owned then splice out st.written b.octets else st.input
        out := some (splice out st.written b.octets)
        written := st.written + a.octets.length
        offset := st.offset + a.octets.length } := by
  obtain ⟨hlen, hwritten, htake, hown⟩ := h.begun out hout
  have hle := length_octetsOf_treated_le recognized done
  have hoffset := h.offset
  have hb := length_octets_of_treat recognized htreat
  have hfits : st.written + b.octets.length ≤ out.length := by omega
  have hsame : done ++ [a] ++ todo = done ++ a :: todo := by simp
  have hinput : (if owned then splice out st.written b.octets else st.input).length =
      st.input.length := by
    split_ifs with ho
    · rw [length_splice hfits, hown ho]
    · rfl
  refine ⟨?_, ?_, ?_, fun hnone => (by cases hnone), fun _ _ => hsame ▸ h.cause out hout, ?_⟩
  · rw [octetsOf_append, length_append, h.offset]
    simp [octetsOf]
  · rw [hsame, hinput]
    exact h.length
  · -- what is written ends where the next attribute begins, or before
    have hrest : st.input.drop (head.length + (st.offset + a.octets.length)) =
        octetsOf todo ++ nlri := by
      rw [← Nat.add_assoc, ← drop_drop, h.pending, octetsOf_cons, append_assoc, drop_left]
    split_ifs with ho
    · have hend : st.written + b.octets.length ≤
          head.length + (st.offset + a.octets.length) := by omega
      rw [drop_splice hfits hend, ← hown ho]
      exact hrest
    · exact hrest
  · intro out' hsome
    cases hsome
    have htreated : octetsOf (treated recognized (done ++ [a])) =
        octetsOf (treated recognized done) ++ b.octets := by
      rw [treated_append, treated_of_treat _ htreat, octetsOf_append, octetsOf_cons]
      exact congrArg _ (append_nil _)
    refine ⟨?_, ?_, ?_, fun ho => if_pos ho⟩
    · rw [hinput, length_splice hfits]
      exact hlen
    · rw [htreated, length_append, hb]
      change st.written + a.octets.length = _
      omega
    · rw [htreated, ← hb, take_splice_end hfits, htake, append_assoc]

lemma next (h : st.Writes recognized owned head nlri done (a :: todo)) :
    (st.next recognized owned readBuf head.length (octetsOf (done ++ a :: todo)).length a).Writes
      recognized owned head nlri (done ++ [a]) todo := by
  -- the state once the answer is begun, if this attribute begins it
  have hbegun : ∃ st', (if st.out.isNone && acts recognized a then
      st.begin owned readBuf head.length else st) = st' ∧ st'.offset = st.offset ∧
      st'.Writes recognized owned head nlri done (a :: todo) ∧
      (st'.out = none → acts recognized a = false) := by
    by_cases hnone : st.out = none
    · by_cases hact : acts recognized a
      · obtain ⟨hw, hoff, out, hsome⟩ := h.begin readBuf hnone ⟨a, by simp, hact⟩
        refine ⟨_, if_pos (by rw [hnone, hact]; rfl), hoff, hw, fun hn => ?_⟩
        rw [hsome] at hn
        cases hn
      · refine ⟨st, if_neg (by rw [hnone]; simpa using hact), rfl, h, fun _ => ?_⟩
        rwa [Bool.not_eq_true] at hact
    · refine ⟨st, if_neg ?_, rfl, h, fun hn => absurd hn hnone⟩
      rw [Bool.and_eq_true, Option.isNone_iff_eq_none]
      exact fun hc => hnone hc.1
  obtain ⟨st', hst', hoff, hw, hkept⟩ := hbegun
  rw [Pass.next]
  simp only [hst']
  rcases hout : st'.out with _ | out
  · simp only [← hoff]
    have := hw.pass hout (hkept hout)
    rwa [hout] at this
  · obtain ⟨hplaced, hend, hroom⟩ := hw.placed hout
    simp only [← hoff]
    by_cases hd : drops recognized a
    · rw [if_pos hd]
      have := hw.skip hout hd
      rwa [hout] at this
    · rw [if_neg hd]
      rw [Bool.not_eq_true] at hd
      obtain ⟨b, htreat⟩ : ∃ b, treat recognized a = some b := by
        by_cases hs : stamps recognized a
        · exact ⟨_, treat_of_stamps recognized hs⟩
        · exact ⟨_, treat_of_kept recognized hd (Bool.not_eq_true _ ▸ hs)⟩
      rw [hplaced, stamped (by omega) hd htreat]
      exact hw.keep hout htreat hroom

lemma walk (fuel : ℕ) (h : st.Writes recognized owned head nlri done todo)
    (hfuel : todo.length ≤ fuel) :
    ∃ st', Pass.walk recognized owned readBuf head.length (octetsOf (done ++ todo)).length fuel st =
        some st' ∧ st'.Writes recognized owned head nlri (done ++ todo) [] := by
  induction todo generalizing done st fuel with
  | nil =>
    rw [append_nil] at *
    refine ⟨st, ?_, h⟩
    rcases fuel with _ | fuel
    · rfl
    · rw [Pass.walk, if_pos (by rw [h.offset, Nat.sub_self])]
  | cons a todo ih =>
    obtain ⟨fuel, rfl⟩ : ∃ n, fuel = n + 1 :=
      ⟨fuel - 1, by rw [length_cons] at hfuel; omega⟩
    have hmore : ¬ (octetsOf (done ++ a :: todo)).length - st.offset = 0 := by
      have ha := three_le_length_octets a
      rw [h.offset, octetsOf_append, octetsOf_cons]
      simp only [length_append]
      omega
    have hsame : done ++ [a] ++ todo = done ++ a :: todo := by simp
    obtain ⟨st', hwalk, hw⟩ := ih fuel (h.next readBuf) (by simpa using hfuel)
    rw [hsame] at hwalk hw
    refine ⟨st', ?_, hw⟩
    rw [Pass.walk, if_neg hmore, h.drop_attrs, octetsOf_cons, nextAttr_octets_append]
    exact hwalk

lemma finish {withdrawn : List Octet} {attrs : List Attr} {field : List Octet}
    (hfield : field.length = 2)
    (h : st.Writes recognized owned (putUint16 withdrawn.length ++ withdrawn ++ field) nlri attrs
      []) :
    st.finish owned (putUint16 withdrawn.length ++ withdrawn ++ field).length
        (octetsOf attrs).length nlri.length =
      if st.out = none then none else some (treatment recognized withdrawn attrs nlri) := by
  set head := putUint16 withdrawn.length ++ withdrawn ++ field with hhead
  rw [Pass.finish]
  rcases hout : st.out with _ | out
  · rfl
  · obtain ⟨hlen, hwritten, htake, hown⟩ := h.begun out hout
    have hle := length_octetsOf_treated_le recognized attrs
    have hoffset := h.offset
    have hinput := h.length
    have hpending := h.pending
    rw [append_nil] at hinput
    rw [octetsOf, flatMap_nil, nil_append, hoffset] at hpending
    simp only [length_append] at hinput
    have hhead2 : head.length - 2 = (putUint16 withdrawn.length ++ withdrawn).length := by
      rw [hhead, length_append, hfield, Nat.add_sub_cancel]
    have hsize : st.written - head.length = (octetsOf (treated recognized attrs)).length := by
      omega
    have hputs : (putUint16 (octetsOf (treated recognized attrs)).length).length = 2 := rfl
    have htwo : 2 ≤ head.length := by
      rw [hhead, length_append, hfield]
      omega
    -- the length field is written over that of the section
    set out₁ := splice out (head.length - 2)
      (putUint16 (octetsOf (treated recognized attrs)).length) with hout₁
    have hfits₁ : head.length - 2 +
        (putUint16 (octetsOf (treated recognized attrs)).length).length ≤ out.length := by
      rw [hputs]
      omega
    have hend₁ : head.length - 2 +
        (putUint16 (octetsOf (treated recognized attrs)).length).length = head.length := by
      rw [hputs]
      omega
    have htake₁ : out₁.take st.written = putUint16 withdrawn.length ++ withdrawn ++
        putUint16 (octetsOf (treated recognized attrs)).length ++
        octetsOf (treated recognized attrs) := by
      have hfront := take_splice_end hfits₁
      have hback : (out₁.drop head.length).take (octetsOf (treated recognized attrs)).length =
          octetsOf (treated recognized attrs) := by
        have hcut := congrArg (drop head.length) htake
        rw [drop_take, drop_left, hsize] at hcut
        rw [hout₁, drop_splice hfits₁ hend₁.le, hcut]
      have hprefix : out.take (head.length - 2) = putUint16 withdrawn.length ++ withdrawn := by
        have hcut := congrArg (take (head.length - 2)) htake
        rw [take_take, Nat.min_eq_left (by omega), take_append_of_le_length (by omega)] at hcut
        rw [hcut, hhead2, hhead, take_left]
      rw [hend₁, hprefix] at hfront
      rw [hwritten, take_add, hback, hout₁, hfront]
    have hread : ((if owned then out₁ else st.input).drop
        (head.length + (octetsOf attrs).length)).take nlri.length = nlri := by
      split_ifs with ho
      · rw [hout₁, drop_splice hfits₁ (by omega), ← hown ho, hpending, take_length]
      · rw [hpending, take_length]
    have hlen₁ : out₁.length = out.length := length_splice hfits₁
    have hgoal : treatment recognized withdrawn attrs nlri = out₁.take st.written ++ nlri := by
      rw [htake₁, treatment, updateOctets, octetsOf]
    rw [if_neg (by simp), hgoal]
    simp only [hsize, ← hout₁, hread]
    split_ifs with hcopy
    · rw [take_splice_end (by omega)]
    · simp only [Bool.or_eq_true, Bool.not_eq_true', bne_iff_ne, not_or, Bool.not_eq_false,
        not_not] at hcopy
      rw [if_pos hcopy.1, ← hcopy.2] at hread
      rw [take_add, hread]

end Pass.Writes

/-! ## The treated body -/

section

variable {recognized} {payload withdrawn nlri : List Octet} {attrs : List Attr}

lemma writes_start (owned : Bool) (head nlri : List Octet) (attrs : List Attr) :
    Pass.Writes recognized owned head nlri [] attrs
      ⟨head ++ (octetsOf attrs ++ nlri), none, 0, 0⟩ := by
  refine ⟨rfl, rfl, ?_, fun _ => ⟨?_, rfl⟩, fun out hsome => (by cases hsome),
    fun out hsome => (by cases hsome)⟩
  · rw [Nat.add_zero, drop_left]
  · exact fun a ha => absurd ha not_mem_nil

lemma forwardOpaquePayload_spec (owned : Bool) (readBuf : List Octet)
    (hsplit : splitUpdate payload = .ok (withdrawn, octetsOf attrs, nlri)) :
    forwardOpaquePayload recognized owned readBuf payload =
      .ok (if ∀ a ∈ attrs, acts recognized a = false then none
        else some (treatment recognized withdrawn attrs nlri)) := by
  obtain ⟨hpayload, -, -⟩ := splitUpdate_eq hsplit
  set head := putUint16 withdrawn.length ++ withdrawn ++ putUint16 (octetsOf attrs).length
    with hhead
  have hstart : 4 + withdrawn.length = head.length := by
    simp only [hhead, length_append, putUint16, length_cons, length_nil]
    omega
  have hbody : payload = head ++ (octetsOf attrs ++ nlri) := by
    rw [hpayload, updateOctets, hhead, append_assoc]
  obtain ⟨st, hwalk, hw⟩ := (writes_start owned head nlri attrs).walk readBuf
    (octetsOf attrs).length (length_le_length_octets attrs)
  rw [nil_append] at hwalk hw
  rw [forwardOpaquePayload, hsplit]
  simp only [hstart, hbody]
  rw [hwalk]
  dsimp only
  rw [hw.finish rfl]
  congr 1
  by_cases hnone : st.out = none
  · rw [if_pos hnone, if_pos (hw.unbegun hnone).1]
  · obtain ⟨out, hsome⟩ := Option.ne_none_iff_exists'.mp hnone
    obtain ⟨a, ha, hact⟩ := hw.cause out hsome
    rw [append_nil] at ha
    rw [if_neg hnone, if_neg]
    intro hquiet
    rw [hquiet a ha] at hact
    cases hact

end

/-- **The treated body.** For every well-formed UPDATE body the answer is the body whose
unrecognized optional attributes are treated, the non-transitive ones removed and the transitive
ones with the Partial bit set, and whose other attributes, order, withdrawn routes and NLRI are as
they were received; `none` stands for the body itself. An owned body, compacted where it stands, is
answered as a copied one is, whatever the read buffer held. -/
theorem forwardOpaquePayload_eq (recognized : Octet → Bool) {payload withdrawn nlri : List Octet}
    {attrs : List Attr}
    (hsplit : splitUpdate payload = .ok (withdrawn, attrs.flatMap Attr.octets, nlri)) :
    (∀ owned readBuf, ∃ answer,
      forwardOpaquePayload recognized owned readBuf payload = .ok answer ∧
        answer.getD payload = updateOctets withdrawn
          ((attrs.filterMap (treat recognized)).flatMap Attr.octets) nlri) ∧
      ∀ readBuf readBuf', forwardOpaquePayload recognized true readBuf payload =
        forwardOpaquePayload recognized false readBuf' payload := by
  constructor
  · intro owned readBuf
    refine ⟨_, forwardOpaquePayload_spec owned readBuf hsplit, ?_⟩
    split_ifs with hquiet
    · rw [Option.getD_none, ← treated, treated_of_not_acts recognized hquiet]
      exact (splitUpdate_eq hsplit).1
    · rfl
  · intro readBuf readBuf'
    rw [forwardOpaquePayload_spec true readBuf hsplit,
      forwardOpaquePayload_spec false readBuf' hsplit]

/-- The type of ORIGIN alone is registered. -/
def onlyOrigin (code : Octet) : Bool := code == 1#8

/-- A body whose first attribute is dropped, whose second is passed on and whose third is stamped,
with a withdrawn prefix before them and an announced one after them. -/
theorem forwardOpaquePayload_compacts :
    forwardOpaquePayload onlyOrigin true []
        [0, 1, 0, 0, 12, 0x80, 99, 1, 7, 0x40, 1, 1, 0, 0xC0, 98, 1, 5, 8, 10] =
      .ok (some [0, 1, 0, 0, 8, 0x40, 1, 1, 0, 0xE0, 98, 1, 5, 8, 10]) ∧
    ∀ readBuf', forwardOpaquePayload onlyOrigin true []
        [0, 1, 0, 0, 12, 0x80, 99, 1, 7, 0x40, 1, 1, 0, 0xC0, 98, 1, 5, 8, 10] =
      forwardOpaquePayload onlyOrigin false readBuf'
        [0, 1, 0, 0, 12, 0x80, 99, 1, 7, 0x40, 1, 1, 0, 0xC0, 98, 1, 5, 8, 10] := by
  have hsplit : splitUpdate [0, 1, 0, 0, 12, 0x80, 99, 1, 7, 0x40, 1, 1, 0, 0xC0, 98, 1, 5, 8, 10] =
      .ok ([0], ([⟨0x80, 99, [7], by decide⟩, ⟨0x40, 1, [0], by decide⟩,
        ⟨0xC0, 98, [5], by decide⟩] : List Attr).flatMap Attr.octets, [8, 10]) := by
    decide
  exact ⟨by decide, fun readBuf' => (forwardOpaquePayload_eq onlyOrigin hsplit).2 [] readBuf'⟩

end Ze.Forward.Opaque
