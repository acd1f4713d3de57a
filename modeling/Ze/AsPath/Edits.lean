import Ze.AsPath.Collapsed
import Mathlib.Data.List.Infix

/-!
# Attribute edits and the rebuild of an attribute section

Filters record what is to become of the attributes of an UPDATE as operations,
`filterapi.ModAccumulator`, and `buildModifiedPayload` of
`internal/component/bgp/reactor/forward_build.go` writes the section once: a handler for each edited
type plans what it becomes, and a walk writes the planned attributes and the others.

Default file: `filterapi.go`.
-/

namespace Ze.AsPath

open List
open BitVec (ofNat)

/-! ## Operations -/

/-- What an operation does to an attribute. Source: AttrModSet and its kin. -/
inductive Action
  | set
  | add
  | remove
  | prepend
  | suppress
  | replaceNLRI
  deriving DecidableEq, Repr

/-- An operation on one attribute type, with the octets of its buffer or those that its generator
writes.
Source: AttrOp, AttrGenerator. -/
structure AttrOp where
  code : Octet
  action : Action
  value : List Octet
  generated : Bool
  deriving DecidableEq

/-- The buffer of an operation, which one with a generator does not have. -/
def AttrOp.buf (op : AttrOp) : List Octet := if op.generated then [] else op.value

/-- Source: ModAccumulator.Op, for an operation without a value. -/
def suppressOp (code : Octet) : AttrOp := ⟨code, .suppress, [], false⟩

/-- Source: ModAccumulator.OpGen. -/
def generatedOp (code : Octet) (value : List Octet) : AttrOp := ⟨code, .set, value, true⟩

/-- The operations on one type, in the order in which they were recorded. Source: GroupedOps. -/
def opsOf (code : Octet) (ops : List AttrOp) : List AttrOp := ops.filter fun op => op.code == code

def removeOps (code : Octet) (ops : List AttrOp) : List AttrOp :=
  ops.filter fun op => op.code != code

def lastSetOrSuppress (ops : List AttrOp) : Option (AttrOp × ℕ) :=
  (ops.zipIdx.filter fun e => e.1.action == .set || e.1.action == .suppress).getLast?

/-! ## Plans -/

/-- What a handler plans for its attribute. Source: editset.go KeepAll, Emit, Drop, Fail.
-/
inductive Slot
  | verbatim
  | emit (flags : Octet) (value : List Octet)
  | drop
  | fail
  deriving DecidableEq

/-- A handler reads the attribute as it came, if it did, and the operations on its type.
Source: AttrModHandler. -/
abbrev Handler := Option Attr → List AttrOp → Slot

/-- Source: editset.go. -/
def attrValueMax : ℕ := 65535

def keepOrDrop : Option Attr → Slot
  | none => .drop
  | some _ => .verbatim

/-- The handler of a type that is set or suppressed. A plan cannot name an operation past the 256th.
Source: filter_delta_handlers.go genericAttrSetHandler; editset.go AttrPlan.Op,
appendFragment. -/
def genericAttrSetHandler (flags : Octet) : Handler := fun src ops =>
  match lastSetOrSuppress ops with
  | none => keepOrDrop src
  | some (op, i) =>
    if op.action = .suppress then .drop
    else if 255 < i ∨ attrValueMax < op.value.length then .fail
    else .emit flags op.value

/-- One operation's part in the count of prepended AS numbers and their width. Source:
filter_delta_handlers.go prependASNCount, the loop. -/
def countPrepend (acc : Option (ℕ × ℕ)) (op : AttrOp) : Option (ℕ × ℕ) :=
  match acc with
  | none => none
  | some (count, width) =>
    if op.action ≠ .prepend then acc
    else
      match op.buf with
      | [] => acc
      | [_] => none
      | t :: n :: rest =>
        if t ≠ SegmentType.asSequence.octet ∨ n = 0#8 then none
        else
          let w := rest.length / n.toNat
          if w ≠ 2 ∧ w ≠ 4 then none
          else if rest.length ≠ n.toNat * w then none
          else if width ≠ 0 ∧ w ≠ width then none
          else some (count + n.toNat, w)

def prependASNCount (ops : List AttrOp) : Option (ℕ × ℕ) := ops.foldl countPrepend (some (0, 0))

/-- The octets of the prepended AS numbers. Source: filter_delta_handlers.go emitPrependASNs.
-/
def prependASNs (ops : List AttrOp) : List Octet :=
  (ops.filter fun op => op.action == .prepend).flatMap fun op => op.buf.drop 2

def leadingSequence (base : List Octet) (width : ℕ) : Bool :=
  match base with
  | t :: n :: rest =>
    t == SegmentType.asSequence.octet && n != 0#8 && decide (n.toNat * width ≤ rest.length)
  | _ => false

/-- New sequences for AS numbers that do not fit the leading one; the leftmost is the one that is
not full.
Source: filter_delta_handlers.go aspathHandler, the loop over rest. -/
def newSequences (asns : List Octet) (width emitted rest : ℕ) : List Octet :=
  if rest = 0 then []
  else
    let n := (rest - 1) % maxASPathSegmentLength + 1
    [SegmentType.asSequence.octet, ofNat 8 n] ++ (asns.drop (emitted * width)).take
      (n * width) ++
      newSequences asns width (emitted + n) (rest - n)
termination_by rest

/-- The value of a path with AS numbers prepended to a base. Source: filter_delta_handlers.go
aspathHandler, emitBase. -/
def prependedValue (asns : List Octet) (count width : ℕ) (base whole : List Octet)
    (baseKnown : Bool) :
    List Octet :=
  let room := if baseKnown && leadingSequence base width then
    maxASPathSegmentLength - ((base.drop 1).headD 0#8).toNat else 0
  let joined := min count room
  let rest := count - joined
  newSequences asns width 0 rest ++
    if 0 < joined then
      [SegmentType.asSequence.octet, ofNat 8 (((base.drop 1).headD 0#8).toNat + joined)] ++
        (asns.drop (rest * width)).take (joined * width) ++ base.drop 2
    else whole

def aspathHandler : Handler := fun src ops =>
  match prependASNCount ops with
  | none => .fail
  | some (count, width) =>
    if count = 0 then genericAttrSetHandler flagTransitive src ops
    else
      let last := lastSetOrSuppress ops
      if (last.any fun e => e.1.action == .suppress) = true then .drop
      else
        let base := last.elim (src.elim [] Attr.value) fun e => e.1.buf
        let whole := last.elim (src.elim [] Attr.value) fun e => e.1.value
        let value := prependedValue (prependASNs ops) count width base whole
          (last.all fun e => !e.1.generated)
        let far := (ops.zipIdx.any fun e => e.1.action == .prepend && !e.1.buf.isEmpty &&
          decide (255 < e.2)) ||
          last.any fun e => decide (255 < e.2)
        if far = true ∨ attrValueMax < value.length then .fail else .emit flagTransitive value

/-- The handlers: those of the AS path family, and those that are registered for other types.
Source: filter_delta_handlers.go attrModHandlersWithDefaults, genericAttrCodes. -/
def handlerFor (registered : Octet → Option Handler) (code : Octet) : Option Handler :=
  if code = attrASPath then some aspathHandler
  else if code = attrAggregator ∨ code = attrAS4Path ∨ code = attrAS4Aggregator then
    some (genericAttrSetHandler flagOptionalTransitive)
  else registered code

/-! ## The section -/

/-- Source: attribute.go. -/
def attrMPReachNLRI : Octet := 14#8

/-- Source: attribute.go. -/
def attrMPUnreachNLRI : Octet := 15#8

def isMPAttrCode (code : Octet) : Bool := code == attrMPReachNLRI || code == attrMPUnreachNLRI

/-- Whether the rebuilt body keeps an MP_REACH_NLRI. Source: forward_build.go. -/
def mpReachWritten (source : List Attr) (ops : List AttrOp) : Bool :=
  (lastAttr attrMPReachNLRI source).isSome &&
    ((opsOf attrMPReachNLRI ops).filter fun op => op.action == .replaceNLRI).getLast?.all fun op =>
      !op.buf.isEmpty

def advertises (nlri : List Octet) (nlriOverride : Option (List Octet)) (source : List Attr)
    (ops : List AttrOp) : Bool :=
  !(nlriOverride.getD nlri).isEmpty || mpReachWritten source ops

section

variable (registered : Octet → Option Handler) (nlri : List Octet) (nlriOverride : Option
  (List Octet))
  (source : List Attr) (ops : List AttrOp)

/-- What is planned for a type, if anything: no attribute is created on a body that advertises
nothing, and there is nothing to keep of one that did not come. Source: forward_build.go
planAttr; editset.go KeepAll. -/
def planAttr (code : Octet) : Option Slot :=
  if opsOf code ops = [] then none
  else if lastAttr code source = none ∧ advertises nlri nlriOverride source ops = false then none
  else
    match handlerFor registered code with
    | none => some .fail
    | some handler =>
      let slot := handler (lastAttr code source) (opsOf code ops)
      if slot = .verbatim ∧ lastAttr code source = none then some .fail else some slot

/-- The attribute that is written for a type, if any. Source: forward_build.go emitSlot,
keep; editset.go SlotWrite. -/
def emitAttr (code : Octet) : Option Attr :=
  match planAttr registered nlri nlriOverride source ops code with
  | none => lastAttr code source
  | some .verbatim => lastAttr code source
  | some (.emit flags value) => some (.written flags code value)
  | some .drop => none
  | some .fail => none

/-- The walk: the attributes in the order in which they came, and each new one before the first that
has a greater type. Source: forward_build.go attrEmitter.run. -/
def emitRun (emit : Octet → Option Attr) : List Attr → List Octet → List Attr
  | [], new => new.filterMap emit
  | a :: rest, new =>
    (new.takeWhile fun c => c.toNat < a.code.toNat).filterMap emit ++
      (if isMPAttrCode a.code then [] else (emit a.code).toList) ++
      emitRun emit rest (new.dropWhile fun c => c.toNat < a.code.toNat)

/-- The types of the operations, in ascending order. Source: GroupedOps. -/
def touchedCodes : List Octet :=
  ((range 256).map (ofNat 8)).filter fun c => ops.any fun op => op.code == c

/-- The types that the operations add. Source: forward_build.go nextNew. -/
def newCodes : List Octet :=
  (touchedCodes ops).filter fun c => (lastAttr c source).isNone && !isMPAttrCode c

/-- The attributes of the rebuilt section; nothing is written if a handler refuses. Source:
forward_build.go buildModifiedPayloadWithLimit, attrEmitter.run, emitMP. -/
def rebuild : Option (List Attr) :=
  let emit := emitAttr registered nlri nlriOverride source ops
  if ∃ op ∈ ops, planAttr registered nlri nlriOverride source ops op.code = some .fail then none
  else some ([attrMPUnreachNLRI, attrMPReachNLRI].filterMap emit ++
    emitRun emit source (newCodes source ops))

end

/-! ## What is written -/

lemma mem_emitRun {emit : Octet → Option Attr} {source : List Attr} {new : List Octet} {a : Attr} :
    a ∈ emitRun emit source new ↔
      (∃ c ∈ new, emit c = some a) ∨
        ∃ s ∈ source, isMPAttrCode s.code = false ∧ emit s.code = some a := by
  induction source generalizing new with
  | nil =>
    rw [emitRun, mem_filterMap]
    simp only [not_mem_nil, false_and, exists_false, or_false]
  | cons s source ih =>
    have hnew : ∀ c, c ∈ new ↔ (c ∈ new.takeWhile fun c => c.toNat < s.code.toNat) ∨
        c ∈ new.dropWhile fun c => c.toNat < s.code.toNat := by
      intro c
      rw [← mem_append, takeWhile_append_dropWhile]
    have hone : a ∈ (if isMPAttrCode s.code then [] else (emit s.code).toList) ↔
        isMPAttrCode s.code = false ∧ emit s.code = some a := by
      rcases isMPAttrCode s.code with _ | _
      · simp only [Bool.false_eq_true, if_false, Option.mem_toList, true_and]
      · simp only [if_true, not_mem_nil, Bool.true_eq_false, false_and]
    rw [emitRun, mem_append, mem_append, mem_filterMap, hone, ih]
    constructor
    · rintro ((⟨c, hc, hemit⟩ | hs) | ⟨c, hc, hemit⟩ | ⟨s', hs', hemit⟩)
      · exact .inl ⟨c, (hnew c).2 (.inl hc), hemit⟩
      · exact .inr ⟨s, mem_cons_self, hs⟩
      · exact .inl ⟨c, (hnew c).2 (.inr hc), hemit⟩
      · exact .inr ⟨s', mem_cons_of_mem _ hs', hemit⟩
    · rintro (⟨c, hc, hemit⟩ | ⟨s', hs', hemit⟩)
      · rcases (hnew c).1 hc with hc | hc
        · exact .inl (.inl ⟨c, hc, hemit⟩)
        · exact .inr (.inl ⟨c, hc, hemit⟩)
      · rcases mem_cons.1 hs' with rfl | hs'
        · exact .inl (.inr hemit)
        · exact .inr (.inr ⟨s', hs', hemit⟩)

lemma mem_touchedCodes {ops : List AttrOp} {c : Octet} :
    c ∈ touchedCodes ops ↔ opsOf c ops ≠ [] := by
  have hmem : c ∈ (range 256).map (ofNat 8) := by
    apply mem_map.2
    exact ⟨c.toNat, mem_range.2 c.isLt, BitVec.eq_of_toNat_eq (by simp)⟩
  rw [touchedCodes, mem_filter, opsOf, ne_eq, filter_eq_nil_iff]
  simp only [hmem, true_and, any_eq_true, not_forall, not_not, exists_prop]

section

variable {registered : Octet → Option Handler} {nlri : List Octet} {nlriOverride : Option
  (List Octet)}
  {source : List Attr} {ops : List AttrOp}

lemma emitAttr_of_untouched {code : Octet} (h : opsOf code ops = []) :
    emitAttr registered nlri nlriOverride source ops code = lastAttr code source := by
  rw [emitAttr, planAttr, if_pos h]

lemma code_of_emitAttr {code : Octet} {a : Attr}
    (h : emitAttr registered nlri nlriOverride source ops code = some a) : a.code = code := by
  unfold emitAttr at h
  split at h
  · exact (mem_of_lastAttr h).2
  · exact (mem_of_lastAttr h).2
  · cases h
    rfl
  · cases h
  · cases h

lemma mem_rebuild {out : List Attr} {a : Attr}
    (h : rebuild registered nlri nlriOverride source ops = some out) :
    a ∈ out ↔ ∃ code, emitAttr registered nlri nlriOverride source ops code = some a := by
  simp only [rebuild] at h
  split_ifs at h with hfail
  cases h
  rw [mem_append, mem_filterMap, mem_emitRun]
  constructor
  · rintro (⟨c, -, hc⟩ | ⟨c, -, hc⟩ | ⟨s, -, -, hs⟩)
    · exact ⟨c, hc⟩
    · exact ⟨c, hc⟩
    · exact ⟨s.code, hs⟩
  · rintro ⟨code, hcode⟩
    by_cases hmp : isMPAttrCode code
    · refine .inl ⟨code, ?_, hcode⟩
      rw [isMPAttrCode, Bool.or_eq_true, beq_iff_eq, beq_iff_eq] at hmp
      rcases hmp with rfl | rfl
      · exact mem_cons_of_mem _ mem_cons_self
      · exact mem_cons_self
    · rcases hsrc : lastAttr code source with _ | s
      · -- A type that did not come has an operation.
        refine .inr (.inl ⟨code, ?_, hcode⟩)
        have htouched : opsOf code ops ≠ [] := by
          intro hnil
          rw [emitAttr_of_untouched hnil, hsrc] at hcode
          cases hcode
        rw [newCodes, mem_filter, hsrc]
        exact ⟨mem_touchedCodes.2 htouched, by simpa using hmp⟩
      · obtain ⟨hs, hscode⟩ := mem_of_lastAttr hsrc
        refine .inr (.inr ⟨s, hs, ?_, ?_⟩)
        · rw [hscode]
          exact Bool.not_eq_true _ ▸ hmp
        · rw [hscode]
          exact hcode

end

/-- Two sections have the same attributes with the same values. -/
def SameAttributes (s t : List Attr) : Prop :=
  ∀ code value, (∃ a ∈ s, a.code = code ∧ a.value = value) ↔ ∃ a ∈ t, a.code = code ∧ a.value =
    value

lemma sameAttributes_iff {registered : Octet → Option Handler} {nlri : List Octet}
    {nlriOverride : Option (List Octet)} {source : List Attr} {ops ops' : List AttrOp}
    {s t : List Attr} (hs : rebuild registered nlri nlriOverride source ops = some s)
    (ht : rebuild registered nlri nlriOverride source ops' = some t) :
    SameAttributes s t ↔ ∀ code, (emitAttr registered nlri nlriOverride source ops code).map
      Attr.value =
      (emitAttr registered nlri nlriOverride source ops' code).map Attr.value := by
  have hvalue : ∀ {ops : List AttrOp} {s : List Attr},
      rebuild registered nlri nlriOverride source ops = some s → ∀ code value,
        (∃ a ∈ s, a.code = code ∧ a.value = value) ↔
          (emitAttr registered nlri nlriOverride source ops code).map Attr.value = some value := by
    intro ops s hs code value
    rw [Option.map_eq_some_iff]
    constructor
    · rintro ⟨a, ha, hcode, hval⟩
      obtain ⟨code', hemit⟩ := (mem_rebuild hs).1 ha
      rw [← hcode, code_of_emitAttr hemit]
      exact ⟨a, hemit, hval⟩
    · rintro ⟨a, hemit, hval⟩
      exact ⟨a, (mem_rebuild hs).2 ⟨code, hemit⟩, code_of_emitAttr hemit, hval⟩
  constructor
  · intro hsame code
    apply Option.ext
    intro value
    rw [← hvalue hs, ← hvalue ht]
    exact hsame code value
  · intro hall code value
    rw [hvalue hs, hvalue ht, hall]

end Ze.AsPath
