import Ze.AsPath.Shifted

/-!
# One edit on two rails

The section that the shift of an AS_PATH leads to, against the section that the re-encoding of the
same edit leads to.
-/

namespace Ze.AsPath

open List
open Except (ok)

/-! ## Operations and plans -/

lemma opsOf_append (code : Octet) (ops ops' : List AttrOp) :
    opsOf code (ops ++ ops') = opsOf code ops ++ opsOf code ops' :=
  filter_append _ _

lemma opsOf_generatedOp (code : Octet) (value : List Octet) :
    opsOf code [generatedOp code value] = [generatedOp code value] := by
  rw [opsOf, filter_cons_of_pos (by simp [generatedOp]), filter_nil]

variable {code : Octet} {op : AttrOp}

lemma opsOf_of_ne (h : op.code ≠ code) : opsOf code [op] = [] := by
  rw [opsOf, filter_cons_of_neg (by simpa using h), filter_nil]

lemma opsOf_removeOps_self (code : Octet) (ops : List AttrOp) :
    opsOf code (removeOps code ops) = [] := by
  rw [opsOf, removeOps, filter_filter]
  apply filter_eq_nil_iff.2
  intro op _
  simp

lemma opsOf_removeOps_of_ne {code' : Octet} (h : code ≠ code') (ops : List AttrOp) :
    opsOf code (removeOps code' ops) = opsOf code ops := by
  rw [opsOf, removeOps, filter_filter, opsOf]
  apply filter_congr
  intro op _
  by_cases hcode : op.code = code
  · simp [hcode, h]
  · simp [hcode]

lemma lastSetOrSuppress_concat (ops : List AttrOp) (h : op.action = .set ∨ op.action = .suppress) :
    lastSetOrSuppress (ops ++ [op]) = some (op, ops.length) := by
  rw [lastSetOrSuppress, zipIdx_append, filter_append, zipIdx_cons, zipIdx_nil,
    filter_cons_of_pos (by simpa using h), filter_nil, getLast?_concat, Nat.zero_add]

lemma prependASNCount_eq {ops : List AttrOp} (h : ∀ op ∈ ops, op.action = .prepend → op.buf = []) :
    prependASNCount ops = some (0, 0) := by
  rw [prependASNCount]
  induction ops with
  | nil => rfl
  | cons op ops ih =>
    obtain ⟨hop, hops⟩ := forall_mem_cons.1 h
    have hstep : countPrepend (some (0, 0)) op = some (0, 0) := by
      by_cases hprepend : op.action = .prepend
      · simp only [countPrepend, hprepend, ne_eq, not_true_eq_false, if_false, hop hprepend]
      · simp only [countPrepend, ne_eq, hprepend, not_false_eq_true, if_true]
    rw [foldl_cons, hstep, ih hops]

lemma aspathHandler_concat {src : Option Attr} {l : List AttrOp} (v : List Octet)
    (h : ∀ op ∈ l, op.action = .prepend → op.buf = []) :
    aspathHandler src (l ++ [generatedOp attrASPath v]) =
      if 255 < l.length ∨ attrValueMax < v.length then .fail else .emit flagTransitive v := by
  have hall : ∀ op ∈ l ++ [generatedOp attrASPath v], op.action = .prepend → op.buf = [] := by
    intro op hop
    rcases mem_append.1 hop with hop | hop
    · exact h op hop
    · rw [mem_singleton.1 hop]
      exact fun _ => rfl
  rw [aspathHandler, prependASNCount_eq hall]
  simp only [if_true, genericAttrSetHandler]
  rw [lastSetOrSuppress_concat l (.inl rfl)]
  rfl

section

variable {registered : Octet → Option Handler} {nlri : List Octet} {nlriOverride : Option
  (List Octet)}
  {source : List Attr} {ops ops' : List AttrOp}

lemma planAttr_congr {code : Octet} (h : opsOf code ops = opsOf code ops')
    (hmp : opsOf attrMPReachNLRI ops = opsOf attrMPReachNLRI ops') :
    planAttr registered nlri nlriOverride source ops code =
      planAttr registered nlri nlriOverride source ops' code := by
  have hadv : advertises nlri nlriOverride source ops =
      advertises nlri nlriOverride source ops' := by
    rw [advertises, mpReachWritten, hmp, advertises, mpReachWritten]
  rw [planAttr, h, hadv, planAttr]

lemma rebuild_isSome_iff :
    (∃ s, rebuild registered nlri nlriOverride source ops = some s) ↔
      ∀ code, planAttr registered nlri nlriOverride source ops code ≠ some .fail := by
  simp only [rebuild]
  split_ifs with hfail
  · obtain ⟨op, -, hop⟩ := hfail
    constructor
    · rintro ⟨s, hs⟩
      cases hs
    · exact fun h => absurd hop (h op.code)
  · refine ⟨fun _ code hcode => ?_, fun _ => ⟨_, rfl⟩⟩
    by_cases hnil : opsOf code ops = []
    · rw [planAttr, if_pos hnil] at hcode
      cases hcode
    · obtain ⟨op, hop⟩ := exists_mem_of_ne_nil _ hnil
      obtain ⟨hmem, hopcode⟩ := mem_filter.1 hop
      apply hfail
      refine ⟨op, hmem, ?_⟩
      rw [beq_iff_eq.1 hopcode]
      exact hcode

variable {l : List AttrOp} {v : List Octet}

lemma planAttr_asPath
    (hops : opsOf attrASPath ops = l ++ [generatedOp attrASPath v])
    (h : ∀ op ∈ l, op.action = .prepend → op.buf = []) :
    planAttr registered nlri nlriOverride source ops attrASPath =
      if lastAttr attrASPath source = none ∧ advertises nlri nlriOverride source ops =
        false then none
      else some (if 255 < l.length ∨ attrValueMax < v.length then .fail else .emit flagTransitive
        v) := by
  have hhandler : handlerFor registered attrASPath = some aspathHandler := rfl
  rw [planAttr, hops, if_neg (append_ne_nil_of_right_ne_nil _ (cons_ne_nil _ _)), hhandler]
  simp only [aspathHandler_concat v h]
  split_ifs with hgate hfar hverbatim hverbatim
  · rfl
  · rfl
  · rfl
  · exact absurd hverbatim.1 (by simp)
  · rfl

lemma rebuilt_same_iff {l' : List AttrOp} {s : List Attr}
    (hothers : ∀ code, code ≠ attrASPath → code ≠ attrAS4Path → opsOf code ops = opsOf code ops')
    (hl : opsOf attrASPath ops = l ++ [generatedOp attrASPath v])
    (hl' : opsOf attrASPath ops' = l' ++ [generatedOp attrASPath v]) (hle : l'.length ≤ l.length)
    (h : ∀ op ∈ l, op.action = .prepend → op.buf = [])
    (h' : ∀ op ∈ l', op.action = .prepend → op.buf = [])
    (hs : rebuild registered nlri nlriOverride source ops = some s) :
    (∃ t, rebuild registered nlri nlriOverride source ops' = some t ∧ SameAttributes s t) ↔
      planAttr registered nlri nlriOverride source ops' attrAS4Path ≠ some .fail ∧
        (emitAttr registered nlri nlriOverride source ops attrAS4Path).map Attr.value =
          (emitAttr registered nlri nlriOverride source ops' attrAS4Path).map Attr.value := by
  have hmp := hothers attrMPReachNLRI (by decide) (by decide)
  have hplanned := rebuild_isSome_iff.1 ⟨s, hs⟩
  have hplan : ∀ code, code ≠ attrAS4Path → planAttr registered nlri nlriOverride source ops code =
      planAttr registered nlri nlriOverride source ops' code := by
    intro code has4
    by_cases hasp : code = attrASPath
    · have hfast := hplanned attrASPath
      have hadv : advertises nlri nlriOverride source ops =
          advertises nlri nlriOverride source ops' := by
        rw [advertises, mpReachWritten, hmp, advertises, mpReachWritten]
      rw [planAttr_asPath hl h] at hfast
      rw [hasp, planAttr_asPath hl h, planAttr_asPath hl' h', ← hadv]
      by_cases hgate : lastAttr attrASPath source = none ∧ advertises nlri nlriOverride source ops =
        false
      · rw [if_pos hgate, if_pos hgate]
      · rw [if_neg hgate] at hfast
        have hfar : ¬ (255 < l.length ∨ attrValueMax < v.length) := by
          intro hfar
          rw [if_pos hfar] at hfast
          exact hfast rfl
        rw [if_neg hgate, if_neg hgate, if_neg hfar, if_neg (by omega)]
    · exact planAttr_congr (hothers code hasp has4) hmp
  have hemit : ∀ code, code ≠ attrAS4Path → emitAttr registered nlri nlriOverride source ops code =
      emitAttr registered nlri nlriOverride source ops' code := by
    intro code has4
    rw [emitAttr, hplan code has4, emitAttr]
  constructor
  · rintro ⟨t, ht, hsame⟩
    exact ⟨rebuild_isSome_iff.1 ⟨t, ht⟩ attrAS4Path, (sameAttributes_iff hs ht).1 hsame attrAS4Path⟩
  · rintro ⟨hfail, hvalue⟩
    have hsome : ∃ t, rebuild registered nlri nlriOverride source ops' = some t := by
      apply rebuild_isSome_iff.2
      intro code
      by_cases has4 : code = attrAS4Path
      · rw [has4]
        exact hfail
      · rw [← hplan code has4]
        exact hplanned code
    obtain ⟨t, ht⟩ := hsome
    refine ⟨t, ht, (sameAttributes_iff hs ht).2 fun code => ?_⟩
    by_cases has4 : code = attrAS4Path
    · rw [has4]
      exact hvalue
    · rw [hemit code has4]

end

/-! ## What is recorded -/

lemma opsOf_recordAggregatorDiscard (hagg : code ≠ attrAggregator)
    (htomb : code ≠ attrTombstone) (attrs : List Attr) (ops : List AttrOp) :
    opsOf code (recordAggregatorDiscard attrs ops) = opsOf code ops := by
  unfold recordAggregatorDiscard
  split
  · rfl
  · split_ifs
    · rfl
    · rw [opsOf_append, opsOf, opsOf, filter_cons_of_neg (by simpa [suppressOp] using hagg.symm),
        filter_cons_of_neg (by simpa using htomb.symm), filter_nil, append_nil]

lemma pendingASPathFamily_eq_false {ops : List AttrOp} :
    pendingASPathFamily ops = false ↔ opsOf attrASPath ops = [] ∧ opsOf attrAS4Path ops = [] := by
  rw [pendingASPathFamily, any_eq_false, opsOf, opsOf, filter_eq_nil_iff, filter_eq_nil_iff,
    ← forall₂_and]
  apply forall₂_congr
  intro op _
  rw [Bool.or_eq_true, not_or]

lemma policyPrepends_eq_false {ops : List AttrOp} :
    ops.any AttrOp.policyPrepends = false ↔ ∀ op ∈ opsOf attrASPath ops, op.action = .prepend →
      op.buf = [] := by
  rw [any_eq_false, opsOf]
  constructor
  · intro h op hop hprepend
    obtain ⟨hmem, hcode⟩ := mem_filter.1 hop
    by_contra hbuf
    apply h op hmem
    rw [AttrOp.policyPrepends, hcode, hprepend]
    simpa using hbuf
  · intro h op hmem hpolicy
    rw [AttrOp.policyPrepends, Bool.and_eq_true, Bool.and_eq_true] at hpolicy
    obtain ⟨⟨hcode, hprepend⟩, hbuf⟩ := hpolicy
    have hnil := h op (mem_filter.2 ⟨hmem, hcode⟩) (beq_iff_eq.1 hprepend)
    rw [hnil] at hbuf
    cases hbuf

/-- An edit that the shift takes, and the AS_PATH that it shifts. Source: aspath_slot.go
Record, recordPrepend, tryShift; aspath_compose.go recordComposed. -/
structure Shifts (attrs : List Attr) (nlri : List Octet) (intent : ASPathIntent) (ops : List AttrOp)
    (value : List Octet) : Prop where
  /-- The AS_PATH after the operations so far. -/
  effective : effectiveASPathValue attrs ops attrASPath = .ok (some value)
  /-- The UPDATE advertises a route. -/
  advertises : payloadAdvertisesNLRI attrs nlri = true
  /-- The shift accepts it. -/
  accepted : (tryShift value intent).isSome = true
  /-- An edit that composes with others has no policy AS numbers to prepend, no AS4_PATH, and an AS
  number to put for that of the peer that the width holds. -/
  composed : composes intent ops = true → ops.any AttrOp.policyPrepends = false ∧
    effectiveASPathValue attrs ops attrAS4Path = .ok none ∧
    (intent.dstASN4 = true ∨ intent.overrideLocalAS.toNat ≤ 65535)

section

variable {attrs : List Attr} {nlri : List Octet} {intent : ASPathIntent} {ops : List AttrOp}
  {value : List Octet} {p : Path}

lemma effectiveASPathValue_discard {code : Octet} (hagg : code ≠ attrAggregator)
    (htomb : code ≠ attrTombstone) :
    effectiveASPathValue attrs (recordAggregatorDiscard attrs ops) code =
      effectiveASPathValue attrs ops code := by
  rw [effectiveASPathValue, opsOf_recordAggregatorDiscard hagg htomb, effectiveASPathValue]

lemma composes_discard : composes intent (recordAggregatorDiscard attrs ops) =
    composes intent ops := by
  have hpending : pendingASPathFamily (recordAggregatorDiscard attrs ops) =
      pendingASPathFamily ops := by
    rw [Bool.eq_iff_iff, ← not_iff_not, Bool.not_eq_true, Bool.not_eq_true,
      pendingASPathFamily_eq_false, opsOf_recordAggregatorDiscard (by decide) (by decide),
        opsOf_recordAggregatorDiscard (by decide) (by decide), pendingASPathFamily_eq_false]
  rw [composes, hpending, composes]

lemma policyPrepends_discard :
    (recordAggregatorDiscard attrs ops).any AttrOp.policyPrepends =
      ops.any AttrOp.policyPrepends := by
  rw [Bool.eq_iff_iff, ← not_iff_not, Bool.not_eq_true, Bool.not_eq_true, policyPrepends_eq_false,
    opsOf_recordAggregatorDiscard (by decide) (by decide), policyPrepends_eq_false]

lemma composes_eq_false (h : composes intent ops = false) :
    intent.overridePeerAS = 0#32 ∧ opsOf attrASPath ops = [] ∧ opsOf attrAS4Path ops = [] := by
  rw [composes, Bool.or_eq_false_iff] at h
  exact ⟨by simpa using h.1, pendingASPathFamily_eq_false.1 h.2⟩

lemma Shifts.valueOf (h : Shifts attrs nlri intent ops value) (hnot : composes intent ops = false) :
    valueOf attrASPath attrs = some value := by
  have heff := h.effective
  rw [effectiveASPathValue, (composes_eq_false hnot).2.1] at heff
  exact ok.inj heff

lemma Shifts.prepend_ne_nil (h : Shifts attrs nlri intent ops value) : intent.prepend ≠ [] := by
  intro hnil
  have haccepted := h.accepted
  unfold tryShift at haccepted
  rw [hnil] at haccepted
  cases haccepted

lemma Shifts.width (h : Shifts attrs nlri intent ops value) : intent.srcASN4 = intent.dstASN4 := by
  by_contra hne
  have haccepted := h.accepted
  unfold tryShift at haccepted
  split at haccepted
  · rw [if_pos hne] at haccepted
    cases haccepted
  · cases haccepted

variable {shifted : List Octet} {asn4 : Bool}

lemma recordAttrs_tryShift (h : Shifts attrs nlri intent ops value)
    (hshift : tryShift value intent = some shifted) :
    recordAttrs tryShift attrs nlri intent ops =
      .ok (recordAggregatorDiscard attrs ops ++ [generatedOp attrASPath shifted]) := by
  rw [recordAttrs]
  simp only [composes_discard]
  by_cases hcomposes : composes intent ops
  · obtain ⟨hpolicy, has4, hlocal⟩ := h.composed hcomposes
    have heff := h.effective
    rw [← effectiveASPathValue_discard (by decide) (by decide)] at heff has4
    have hpolicy' := (@policyPrepends_discard attrs ops).trans hpolicy
    rw [if_pos hcomposes, recordComposed, heff, has4]
    simp only [bind, Except.bind, h.advertises, if_true, hpolicy', h.width, hlocal, and_self,
      if_neg h.prepend_ne_nil, hshift, pure, Except.pure]
    rfl
  · rw [Bool.not_eq_true] at hcomposes
    rw [hcomposes, if_neg Bool.false_ne_true, if_neg h.prepend_ne_nil, h.advertises,
      if_neg (by decide), recordPrepend,
      if_neg h.prepend_ne_nil, h.valueOf hcomposes, Option.bind_some, hshift]
    rfl

lemma pathHasNonMappableAS_of_holds {p : Path} (h : PathHolds false p) :
    pathHasNonMappableAS p = false := by
  rw [pathHasNonMappableAS, any_eq_false]
  intro s hs hany
  rw [Bool.and_eq_true, any_eq_true] at hany
  obtain ⟨-, asn, hasn, hmap⟩ := hany
  rcases h s hs asn hasn with hfalse | hfalse
  · cases hfalse
  · rw [hfalse] at hmap
    cases hmap

lemma holds_overridePath {peerAS localAS : Asn} {p : Path} (hlocal : Holds asn4 localAS)
    (h : PathHolds asn4 p) : PathHolds asn4 (overridePath peerAS localAS p) := by
  rw [overridePath]
  split_ifs
  · exact h
  · intro s hs asn hasn
    obtain ⟨s', hs', rfl⟩ := mem_map.1 hs
    obtain ⟨asn', hasn', rfl⟩ := mem_map.1 hasn
    split_ifs
    · exact hlocal
    · exact h s' hs' asn' hasn'

lemma holds_prependAsn {p : Path} {asn : Asn} (h : PathHolds asn4 p) (hasn : Holds asn4 asn) :
    PathHolds asn4 (prependAsn p asn) := by
  have hnew : PathHolds asn4 (⟨.asSequence, [asn]⟩ :: p) :=
    forall_mem_cons.2 ⟨forall_mem_singleton.2 hasn, h⟩
  unfold prependAsn
  split
  · obtain ⟨hfirst, hrest⟩ := forall_mem_cons.1 h
    split_ifs
    · exact hnew
    · exact forall_mem_cons.2 ⟨forall_mem_cons.2 ⟨hasn, hfirst⟩, hrest⟩
  · exact hnew

variable (h : Shifts attrs nlri intent ops value)
include h

lemma Shifts.path (hparse : parseASPath value intent.srcASN4 = .ok p) (hne : ∀ s ∈ p, s.asns ≠ []) :
    ∃ asn asns rest, intent.prepend = [asn] ∧ p = ⟨.asSequence, asns⟩ :: rest ∧
      prependAsn p asn = ⟨.asSequence, asn :: asns⟩ :: rest ∧
      Wire (⟨.asSequence, asn :: asns⟩ :: rest) ∧
      PathHolds intent.dstASN4 (⟨.asSequence, asn :: asns⟩ :: rest) := by
  obtain ⟨shifted, hshift⟩ := Option.isSome_iff_exists.1 h.accepted
  obtain ⟨asn, asns, rest, hprepend, rfl, hroom, hwidth, hholds, -⟩ :=
    tryShift_cases hshift hparse hne
  obtain ⟨-, hwire, hpath⟩ := write_of_parse hparse hne
  rw [hwidth] at hpath
  obtain ⟨hfirst, hrest⟩ := forall_mem_cons.1 hpath
  refine ⟨asn, asns, rest, hprepend, rfl, prependAsn_room hroom asn, ?_, ?_⟩
  · exact Wire.cons (cons_ne_nil _ _) (Nat.succ_le_of_lt hroom) hwire.tail
  · exact forall_mem_cons.2 ⟨forall_mem_cons.2 ⟨hholds, hfirst⟩, hrest⟩

lemma recordAttrs_noShift_prepend (hshift : tryShift value intent = some shifted)
    (hparse : parseASPath value intent.srcASN4 = .ok p) (hne : ∀ s ∈ p, s.asns ≠ [])
    (hnot : composes intent ops = false) :
    recordAttrs noShift attrs nlri intent ops =
      .ok (recordAS4Path attrs (as4PathForRewrite (intent.prepend.foldl prependAsn p)
        ((AsPath.valueOf attrAS4Path attrs).bind fun value => (parseAS4Path value).toOption)
        intent.srcASN4 intent.dstASN4)
        (recordAggregatorDiscard attrs ops ++ [generatedOp attrASPath shifted])) := by
  have hpeer := (composes_eq_false hnot).1
  have hvalue := tryShift_eq hshift hparse hne fun hother => absurd hpeer hother
  rw [overridePath, if_pos hpeer] at hvalue
  rw [recordAttrs]
  simp only [composes_discard]
  rw [hnot, if_neg Bool.false_ne_true, if_neg h.prepend_ne_nil, h.advertises, if_neg (by decide),
    recordPrepend,
    if_neg h.prepend_ne_nil, h.valueOf hnot, Option.bind_some, noShift, Option.elim_some, hparse]
  simp only [recordAggregator, if_pos h.width, hvalue]
  rfl

lemma recordAttrs_noShift_composed (hshift : tryShift value intent = some shifted)
    (hparse : parseASPath value intent.srcASN4 = .ok p) (hne : ∀ s ∈ p, s.asns ≠ [])
    (hcomposes : composes intent ops) :
    recordAttrs noShift attrs nlri intent ops =
      .ok (recordAS4Path attrs none
        (removeOps attrAS4Path (removeOps attrASPath (recordAggregatorDiscard attrs ops)) ++
          [generatedOp attrASPath shifted])) := by
  obtain ⟨hpolicy, has4, hlocal⟩ := h.composed hcomposes
  have heff := h.effective
  rw [← effectiveASPathValue_discard (by decide) (by decide)] at heff has4
  have hpolicy' := (@policyPrepends_discard attrs ops).trans hpolicy
  have hfilter : (recordAggregatorDiscard attrs ops).filter AttrOp.policyPrepends = [] := by
    apply filter_eq_nil_iff.mpr
    exact any_eq_false.mp hpolicy'
  have hholds : Holds intent.dstASN4 intent.overrideLocalAS := by
    rcases hlocal with hdst | hle
    · exact .inl hdst
    · refine .inr ?_
      rw [isNonMappable, decide_eq_false_iff_not]
      omega
  have hvalue := tryShift_eq hshift hparse hne fun _ => hholds
  have hpath : composedPath intent (recordAggregatorDiscard attrs ops) (some value) none
      (true && !intent.prepend.isEmpty) = .ok (some p) := by
    rw [composedPath, hfilter]
    simp only [hparse]
    rfl
  have hnone : as4PathForPath (some (intent.prepend.foldl prependAsn
      (overridePath intent.overridePeerAS intent.overrideLocalAS p))) intent.dstASN4 = none := by
    obtain ⟨asn, asns, rest, hprepend, -, -, -, hpathHolds⟩ := h.path hparse hne
    have hasn := hpathHolds _ mem_cons_self asn mem_cons_self
    obtain ⟨-, -, hp⟩ := write_of_parse hparse hne
    rw [h.width] at hp
    rw [as4PathForPath, hprepend, foldl_cons, foldl_nil]
    split_ifs with hdst
    · rfl
    · rw [Bool.not_eq_true] at hdst
      rw [hdst] at hasn hp hholds
      rw [as4PathFor, Option.filter_some,
        pathHasNonMappableAS_of_holds (holds_prependAsn (holds_overridePath hholds hp) hasn)]
      rfl
  rw [recordAttrs]
  simp only [composes_discard]
  rw [if_pos hcomposes, recordComposed, heff, has4]
  simp only [bind, Except.bind, h.advertises, if_true, hpolicy', h.width, hlocal, and_self,
    if_neg h.prepend_ne_nil, noShift, hpath, Option.map_some, recordPath, hnone, recordAggregator]
  rw [hvalue]
  rfl

end

/-! ## The sections -/

/-- The attributes that a destination gets, if it gets any: those of the payload after the
operations of the policy and the edit of the AS path family. Source: aspath_slot.go Record;
forward_build.go buildModifiedPayload. -/
def edited (shift : List Octet → ASPathIntent → Option (List Octet))
    (registered : Octet → Option Handler)
    (nlriOverride : Option (List Octet)) (payload : List Octet) (intent : ASPathIntent)
    (ops : List AttrOp) :
    Option (List Attr) :=
  match splitUpdate payload with
  | .error _ => none
  | .ok (_, octets, nlri) =>
    match buildSpanIndex octets with
    | none => none
    | some attrs =>
      match recordAttrs shift attrs nlri intent ops with
      | .error _ => none
      | .ok ops => rebuild registered nlri nlriOverride attrs ops

/-- When the AS4_PATH of the payload is no difference: the edit composes with others, there is none,
or both sides are old speakers and the re-encoding leaves it as it is. -/
def SameAS4Path (attrs : List Attr) (intent : ASPathIntent) (ops : List AttrOp) (p : Path) : Prop :=
  composes intent ops = true ∨ valueOf attrAS4Path attrs = none ∨
    intent.dstASN4 = false ∧ ∃ asn v q, intent.prepend = [asn] ∧ valueOf attrAS4Path attrs =
      some v ∧
      parseAS4Path v = .ok q ∧ Unchanged (prependAsn p asn) q

section

variable {registered : Octet → Option Handler} {nlriOverride : Option (List Octet)}
  {attrs : List Attr}
  {nlri : List Octet} {intent : ASPathIntent} {ops : List AttrOp} {value : List Octet} {p : Path}

lemma as4Path_dropped {ops : List AttrOp}
    (h : (∃ e, lastSetOrSuppress (opsOf attrAS4Path ops) = some e ∧ e.1.action = .suppress) ∨
      lastSetOrSuppress (opsOf attrAS4Path ops) = none ∧ lastAttr attrAS4Path attrs = none) :
    planAttr registered nlri nlriOverride attrs ops attrAS4Path ≠ some .fail ∧
      emitAttr registered nlri nlriOverride attrs ops attrAS4Path = none := by
  have hhandler : handlerFor registered attrAS4Path =
      some (genericAttrSetHandler flagOptionalTransitive) := rfl
  have hslot : genericAttrSetHandler flagOptionalTransitive (lastAttr attrAS4Path attrs)
      (opsOf attrAS4Path ops) = .drop := by
    rw [genericAttrSetHandler]
    rcases h with ⟨⟨op, i⟩, hlast, hsuppress⟩ | ⟨hlast, hsrc⟩
    · rw [hlast]
      exact if_pos hsuppress
    · rw [hlast, hsrc]
      rfl
  have hplan : planAttr registered nlri nlriOverride attrs ops attrAS4Path = none ∧
      lastAttr attrAS4Path attrs = none ∨
        planAttr registered nlri nlriOverride attrs ops attrAS4Path = some .drop := by
    rw [planAttr, hhandler]
    simp only [hslot, reduceCtorEq, false_and, if_false]
    split_ifs with hnil hgate
    · refine .inl ⟨rfl, ?_⟩
      rw [hnil] at h
      rcases h with ⟨e, hlast, -⟩ | ⟨-, hsrc⟩
      · cases hlast
      · exact hsrc
    · exact .inl ⟨rfl, hgate.1⟩
    · exact .inr rfl
  rw [emitAttr]
  rcases hplan with ⟨hplan, hsrc⟩ | hplan
  · rw [hplan]
    exact ⟨Option.some_ne_none _ |>.symm, hsrc⟩
  · rw [hplan]
    exact ⟨by decide, rfl⟩

variable {a : Attr} {s : List Attr}

lemma as4Path_generated {ops : List AttrOp} {v : List Octet}
    (hops : opsOf attrAS4Path ops = [generatedOp attrAS4Path v])
    (hsrc : lastAttr attrAS4Path attrs = some a) :
    planAttr registered nlri nlriOverride attrs ops attrAS4Path =
      some (if attrValueMax < v.length then .fail else .emit flagOptionalTransitive v) := by
  have hhandler : handlerFor registered attrAS4Path =
      some (genericAttrSetHandler flagOptionalTransitive) := rfl
  have hslot : genericAttrSetHandler flagOptionalTransitive (some a) [generatedOp attrAS4Path v] =
      if attrValueMax < v.length then .fail else .emit flagOptionalTransitive v := by
    have hlast := lastSetOrSuppress_concat [] (.inl rfl : (generatedOp attrAS4Path v).action =
      .set ∨ _)
    rw [nil_append] at hlast
    rw [genericAttrSetHandler, hlast]
    simp only [generatedOp, length_nil, reduceCtorEq, if_false, Nat.not_lt_zero, false_or]
  rw [planAttr, hops, hsrc, hhandler, if_neg (cons_ne_nil _ _), if_neg fun h => by cases h.1]
  simp only [hslot, reduceCtorEq, and_false, if_false]

lemma composed_same (h : Shifts attrs nlri intent ops value) {shifted : List Octet}
    (hcomposes : composes intent ops) (hs : rebuild registered nlri nlriOverride attrs
      (recordAggregatorDiscard attrs ops ++ [generatedOp attrASPath shifted]) = some s) :
    ∃ t, rebuild registered nlri nlriOverride attrs (recordAS4Path attrs none
      (removeOps attrAS4Path (removeOps attrASPath (recordAggregatorDiscard attrs ops)) ++
        [generatedOp attrASPath shifted])) = some t ∧ SameAttributes s t := by
  obtain ⟨hpolicy, has4, -⟩ := h.composed hcomposes
  generalize hd : recordAggregatorDiscard attrs ops = d at hs
  have hsuppress : ∀ code, code ≠ attrAS4Path → ∀ ops', opsOf code (recordAS4Path attrs none ops') =
      opsOf code ops' := by
    intro code hne ops'
    rw [recordAS4Path]
    split_ifs
    · rw [opsOf_append, opsOf_of_ne (by exact hne.symm), append_nil]
    · rfl
  have hfast : opsOf attrASPath (d ++ [generatedOp attrASPath shifted]) =
      opsOf attrASPath d ++ [generatedOp attrASPath shifted] := by
    rw [opsOf_append, opsOf_generatedOp]
  have hslow : opsOf attrASPath (recordAS4Path attrs none (removeOps attrAS4Path
      (removeOps attrASPath d) ++
      [generatedOp attrASPath shifted])) = [] ++ [generatedOp attrASPath shifted] := by
    rw [hsuppress _ (by decide), opsOf_append, opsOf_removeOps_of_ne (by decide),
      opsOf_removeOps_self, opsOf_generatedOp]
  apply (rebuilt_same_iff ?_ hfast hslow (Nat.zero_le _) ?_ (forall_mem_nil _) hs).2
  · -- Neither section has an AS4_PATH.
    have hgen : opsOf attrAS4Path [generatedOp attrASPath shifted] = [] :=
      opsOf_of_ne (by exact ne_of_beq_false rfl)
    have hone : emitAttr registered nlri nlriOverride attrs (d ++ [generatedOp attrASPath shifted])
        attrAS4Path = none := by
      refine (as4Path_dropped ?_).2
      rw [opsOf_append, hgen, append_nil, ← hd, opsOf_recordAggregatorDiscard (by decide)
        (by decide)]
      rw [effectiveASPathValue] at has4
      split at has4
      · rename_i hlast
        refine .inr ⟨hlast, ?_⟩
        exact Option.map_eq_none_iff.1 (ok.inj has4)
      · rename_i op i hlast
        by_cases hsuppressed : op.action = .suppress
        · exact .inl ⟨(op, i), hlast, hsuppressed⟩
        · rw [if_neg hsuppressed] at has4
          split_ifs at has4
          cases ok.inj has4
    have hnil : opsOf attrAS4Path (removeOps attrAS4Path (removeOps attrASPath d) ++
        [generatedOp attrASPath shifted]) = [] := by
      rw [opsOf_append, opsOf_removeOps_self, hgen, append_nil]
    have htwo := @as4Path_dropped registered nlriOverride attrs nlri (recordAS4Path attrs none
      (removeOps attrAS4Path (removeOps attrASPath d) ++ [generatedOp attrASPath shifted])) (by
        rw [recordAS4Path]
        split_ifs with hsrc
        · rw [opsOf_append, hnil]
          exact .inl ⟨_, lastSetOrSuppress_concat [] (.inr rfl), rfl⟩
        · rw [hnil]
          exact .inr ⟨rfl, by simpa using hsrc⟩)
    exact ⟨htwo.1, by rw [hone, htwo.2]⟩
  · intro code hasp has4
    rw [hsuppress _ has4, opsOf_append, opsOf_append, opsOf_removeOps_of_ne has4,
      opsOf_removeOps_of_ne hasp]
  · rw [← hd, opsOf_recordAggregatorDiscard (by decide) (by decide)]
    exact policyPrepends_eq_false.1 hpolicy

lemma recordAS4Path_kept_iff {d : List AttrOp} {derived : Option Path}
    (hgen : opsOf attrAS4Path d = []) (hsrc : lastAttr attrAS4Path attrs = some a) :
    (planAttr registered nlri nlriOverride attrs
      (recordAS4Path attrs derived d) attrAS4Path ≠ some .fail ∧
      (some a).map Attr.value =
        (emitAttr registered nlri nlriOverride attrs
          (recordAS4Path attrs derived d) attrAS4Path).map Attr.value) ↔
      ∃ q, derived = some q ∧ writeAS4Path q = a.value := by
  rcases derived with _ | q
  · have hdropped := @as4Path_dropped registered nlriOverride attrs nlri
      (recordAS4Path attrs none d) (by
      rw [recordAS4Path, hsrc]
      simp only [Option.isSome_some, if_true]
      rw [opsOf_append, hgen]
      exact .inl ⟨_, lastSetOrSuppress_concat [] (.inr rfl), rfl⟩)
    constructor
    · rintro ⟨-, heq⟩
      rw [hdropped.2] at heq
      cases heq
    · rintro ⟨q, hq, -⟩
      cases hq
  · have hops : opsOf attrAS4Path (recordAS4Path attrs (some q) d) =
        [generatedOp attrAS4Path (writeAS4Path q)] := by
      rw [recordAS4Path, opsOf_append, hgen, opsOf_generatedOp, nil_append]
    have hfits : a.value.length < 65536 := by
      have hfits := a.fits
      split_ifs at hfits <;> omega
    rw [emitAttr, as4Path_generated hops hsrc, attrValueMax]
    split_ifs with hlong
    · constructor
      · exact fun h => absurd rfl h.1
      · rintro ⟨q', hq', hwrite⟩
        cases hq'
        rw [hwrite] at hlong
        omega
    · rw [Option.map_some, Option.map_some, Attr.value_written (by omega)]
      constructor
      · exact fun h => ⟨q, rfl, (Option.some.inj h.2).symm⟩
      · rintro ⟨q', hq', hwrite⟩
        cases hq'
        rw [hwrite]
        exact ⟨by simp, rfl⟩

lemma prepended_same_iff (h : Shifts attrs nlri intent ops value) {shifted : List Octet}
    (hparse : parseASPath value intent.srcASN4 = .ok p) (hne : ∀ s ∈ p, s.asns ≠ [])
    (hnot : composes intent ops = false) (hs : rebuild registered nlri nlriOverride attrs
      (recordAggregatorDiscard attrs ops ++ [generatedOp attrASPath shifted]) = some s) :
    (∃ t, rebuild registered nlri nlriOverride attrs
      (recordAS4Path attrs (as4PathForRewrite (intent.prepend.foldl prependAsn p)
        ((valueOf attrAS4Path attrs).bind fun value => (parseAS4Path value).toOption)
        intent.srcASN4 intent.dstASN4)
        (recordAggregatorDiscard attrs ops ++ [generatedOp attrASPath shifted])) = some t ∧
          SameAttributes s t) ↔ SameAS4Path attrs intent ops p := by
  obtain ⟨-, hasp, has4⟩ := composes_eq_false hnot
  obtain ⟨asn, asns, rest, hprepend, hp, hpath, hwire, hholds⟩ := h.path hparse hne
  generalize hd : recordAggregatorDiscard attrs ops ++ [generatedOp attrASPath shifted] = d at hs
  have hfast : opsOf attrASPath d = [] ++ [generatedOp attrASPath shifted] := by
    rw [← hd, opsOf_append, opsOf_generatedOp, opsOf_recordAggregatorDiscard (by decide)
      (by decide), hasp]
  have hgen : opsOf attrAS4Path d = [] := by
    rw [← hd, opsOf_append, opsOf_of_ne (ne_of_beq_false rfl), append_nil,
      opsOf_recordAggregatorDiscard (by decide) (by decide), has4]
  have hothers : ∀ derived code, code ≠ attrAS4Path → opsOf code (recordAS4Path attrs derived d) =
      opsOf code d := by
    intro derived code hcode
    unfold recordAS4Path
    split
    · rw [opsOf_append, opsOf_of_ne (by exact hcode.symm), append_nil]
    · split_ifs
      · rw [opsOf_append, opsOf_of_ne (by exact hcode.symm), append_nil]
      · rfl
  have hslow : ∀ derived, opsOf attrASPath (recordAS4Path attrs derived d) =
      [] ++ [generatedOp attrASPath shifted] := by
    intro derived
    rw [hothers _ _ (by decide), hfast]
  rw [rebuilt_same_iff (fun code _ hcode => (hothers _ code hcode).symm) hfast (hslow _)
    (Nat.le_refl _)
    (forall_mem_nil _) (forall_mem_nil _) hs, emitAttr_of_untouched hgen, h.width, hprepend,
    foldl_cons, foldl_nil, hpath]
  -- What is derived is none, or the AS4_PATH of an old speaker.
  have hmap : intent.dstASN4 = false → pathHasNonMappableAS (⟨.asSequence, asn :: asns⟩ :: rest) =
      false := by
    intro hdst
    rw [hdst] at hholds
    exact pathHasNonMappableAS_of_holds hholds
  rcases hsrc : lastAttr attrAS4Path attrs with _ | a
  · have hvalue : valueOf attrAS4Path attrs = none := by
      rw [valueOf, hsrc, Option.map_none]
    have hderived : as4PathForRewrite (⟨.asSequence,
        asn :: asns⟩ :: rest) none intent.dstASN4 intent.dstASN4 =
        none := by
      rcases hdst : intent.dstASN4 with _ | _
      · rw [as4PathForRewrite, if_neg Bool.false_ne_true, if_pos (.inr rfl), as4PathForPath,
          if_neg Bool.false_ne_true, as4PathFor, Option.filter_some, hmap hdst]
        rfl
      · rfl
    rw [hvalue, Option.bind_none, hderived, recordAS4Path, hsrc]
    have hdropped := @as4Path_dropped registered nlriOverride attrs nlri d
      (.inr ⟨by rw [hgen]; rfl, hsrc⟩)
    refine iff_of_true ⟨hdropped.1, ?_⟩ (.inr (.inl hvalue))
    exact congrArg (Option.map Attr.value) hdropped.2.symm
  · have hvalue : valueOf attrAS4Path attrs = some a.value := by
      rw [valueOf, hsrc, Option.map_some]
    rw [recordAS4Path_kept_iff hgen hsrc, hvalue, Option.bind_some, SameAS4Path, hnot, hvalue,
      hprepend]
    rcases hdst : intent.dstASN4 with _ | _
    · rw [as4PathForRewrite_eq_iff hwire (hmap hdst)]
      constructor
      · rintro ⟨q, hq, hsame⟩
        rw [← hpath] at hsame
        exact .inr (.inr ⟨rfl, asn, a.value, q, rfl, rfl, hq, hsame⟩)
      · rintro (hfalse | hfalse | ⟨-, asn', v, q, hasn, hv, hq, hsame⟩)
        · cases hfalse
        · cases hfalse
        · cases hasn
          cases hv
          rw [hpath] at hsame
          exact ⟨q, hq, hsame⟩
    · constructor
      · rintro ⟨q, hq, -⟩
        cases hq
      · rintro (hfalse | hfalse | ⟨hfalse, -⟩)
        · cases hfalse
        · cases hfalse
        · cases hfalse

/-- **The shift and the re-encoding.** For every payload, every operation of a policy and every edit
of the AS path family with a single prepend that the shift accepts, with an AS_PATH that can be read
and has no empty segment: if the shift leads to a section, the re-encoding leads to one with the
same attributes and values, if and only if the edit composes with others, the payload has no
AS4_PATH, or both sides are old speakers and the re-encoding leaves the AS4_PATH as it is. -/
theorem shifted_same_iff {payload withdrawn octets : List Octet} {s : List Attr}
    (hsplit : splitUpdate payload = .ok (withdrawn, octets, nlri))
    (hindex : buildSpanIndex octets = some attrs)
    (h : Shifts attrs nlri intent ops value) (hparse : parseASPath value intent.srcASN4 = .ok p)
    (hne : ∀ s ∈ p, s.asns ≠ [])
    (hs : edited tryShift registered nlriOverride payload intent ops = some s) :
    (∃ t, edited noShift registered nlriOverride payload intent ops = some t ∧ SameAttributes s t) ↔
      SameAS4Path attrs intent ops p := by
  obtain ⟨shifted, hshift⟩ := Option.isSome_iff_exists.1 h.accepted
  rw [edited, hsplit] at hs ⊢
  simp only [hindex, recordAttrs_tryShift h hshift] at hs ⊢
  by_cases hcomposes : composes intent ops
  · rw [recordAttrs_noShift_composed h hshift hparse hne hcomposes]
    exact iff_of_true (composed_same h hcomposes hs) (.inl hcomposes)
  · rw [Bool.not_eq_true] at hcomposes
    rw [recordAttrs_noShift_prepend h hshift hparse hne hcomposes]
    exact prepended_same_iff h hparse hne hcomposes hs

end

/-! ## Two payloads -/

/-- The AS_PATH of one AS number, 65001, from a new speaker. -/
def sequenceAttr : Attr := ⟨0x40#8, attrASPath, [2#8, 1#8, 0#8, 0#8, 0xfd#8, 0xe9#8], by decide⟩

def companionAttr : Attr := ⟨0xc0#8, attrAS4Path, [2#8, 1#8, 0#8, 1#8, 0x11#8, 0x70#8], by decide⟩

/-- A body with some attributes, which announces 10.0.0.0/8. -/
def bodyWith (attrs : List Attr) : List Octet :=
  updateOctets [] (attrs.flatMap Attr.octets) [8#8, 10#8]

/-- AS 65000 is prepended between two new speakers. -/
def exampleIntent : ASPathIntent := ⟨[65000#32], true, true, 0#32, 0#32⟩

lemma splitUpdate_bodyWith {attrs : List Attr} (h : (attrs.flatMap Attr.octets).length < 65536) :
    splitUpdate (bodyWith attrs) = .ok ([], attrs.flatMap Attr.octets, [8#8, 10#8]) := by
  rw [bodyWith, splitUpdate_updateOctets _ _ (by decide), Nat.mod_eq_of_lt h, take_length,
    drop_length, nil_append]

lemma buildSpanIndex_octets {attrs : List Attr} (h : (attrs.map Attr.code).Nodup) :
    buildSpanIndex (attrs.flatMap Attr.octets) = some attrs := by
  rw [buildSpanIndex, scanAttrs_octets]
  exact if_pos h

lemma parse_sequenceAttr : parseASPath sequenceAttr.value true = .ok [⟨.asSequence,
    [65001#32]⟩] := by
  have hwire : Wire [⟨.asSequence, [65001#32]⟩] := by decide
  have hwrite : writeToWithASN4 [⟨.asSequence, [65001#32]⟩] true = sequenceAttr.value := by
    rw [writeToWithASN4_cons true hwire]
    rfl
  rw [← hwrite, parseASPath_write true hwire (by decide)]
  rfl

lemma shifts_sequenceAttr {attrs : List Attr}
    (h : valueOf attrASPath attrs = some sequenceAttr.value) :
    Shifts attrs [8#8, 10#8] exampleIntent [] sequenceAttr.value where
  effective := congrArg ok h
  advertises := rfl
  accepted := by decide
  composed := fun hfalse => by cases hfalse

/-- AS 65000 is prepended to AS 65001, with the same section on both rails. -/
theorem sequenceAttr_same : ∃ s t,
    edited tryShift (fun _ => none) none (bodyWith [sequenceAttr]) exampleIntent [] = some s ∧
      edited noShift (fun _ => none) none (bodyWith [sequenceAttr]) exampleIntent [] = some t ∧
      SameAttributes s t := by
  have hsplit := @splitUpdate_bodyWith [sequenceAttr] (by decide)
  have hindex := @buildSpanIndex_octets [sequenceAttr] (by decide)
  have hshifts := @shifts_sequenceAttr [sequenceAttr] rfl
  have hs : ∃ s, edited tryShift (fun _ => none) none (bodyWith [sequenceAttr]) exampleIntent [] =
      some s := by
    rw [edited, hsplit]
    simp only [hindex, recordAttrs_tryShift hshifts rfl]
    exact rebuild_isSome_iff.2 (by decide +kernel)
  obtain ⟨s, hs⟩ := hs
  obtain ⟨t, ht, hsame⟩ :=
    (shifted_same_iff hsplit hindex hshifts parse_sequenceAttr (by decide) hs).2
      (.inr (.inl rfl))
  exact ⟨s, t, hs, ht, hsame⟩

/-- Between two new speakers the shift lets an AS4_PATH through that the re-encoding drops. -/
theorem companionAttr_differs : ∃ s t,
    edited tryShift (fun _ => none) none (bodyWith [sequenceAttr, companionAttr]) exampleIntent [] =
      some s ∧
      edited noShift (fun _ => none) none (bodyWith [sequenceAttr, companionAttr]) exampleIntent
    [] = some t ∧
      (∃ a ∈ s, a.code = attrAS4Path) ∧ ∀ a ∈ t, a.code ≠ attrAS4Path := by
  have hsplit := @splitUpdate_bodyWith [sequenceAttr, companionAttr] (by decide)
  have hindex := @buildSpanIndex_octets [sequenceAttr, companionAttr] (by decide)
  have hshifts := @shifts_sequenceAttr [sequenceAttr, companionAttr] rfl
  rw [edited, edited, hsplit]
  simp only [hindex, recordAttrs_tryShift hshifts rfl,
    recordAttrs_noShift_prepend hshifts rfl parse_sequenceAttr (by decide) rfl]
  refine ⟨_, _, rfl, rfl, ?_, ?_⟩
  · decide +kernel
  · decide +kernel

end Ze.AsPath
