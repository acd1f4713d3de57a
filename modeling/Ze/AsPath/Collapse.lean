import Ze.AsPath.Transcode

/-!
# Collapsing the AS path family of an UPDATE

The receive side of RFC 6793: `ReconcileASPathFamily` of `internal/core/bgp/attribute/as4.go` and
its rewrite of a body, `PrepareAS4Family` and `WriteTo` of
`internal/component/bgp/wireu/aspath_collapse.go`.
-/

namespace Ze.AsPath

open List
open Option (elim_some filter_some map_none map_some)

/-! ## The reconciliation -/

/-- The values of the AS path family as an UPDATE carried them; `none` is an absent attribute, and
an empty value a present one. Source: as4.go. -/
structure ReceivedASPathFamily where
  asPath : Option (List Octet)
  as4Path : Option (List Octet)
  aggregator : Option (List Octet)
  as4Aggregator : Option (List Octet)
  sourceASN4 : Bool

/-- Why an attribute was dropped. Source: as4.go errAS4FromNewSpeaker,
errAS4AggregatorNotChosen, errAS4AggregatorMalformed, and the errors of the two parsers. -/
inductive DiscardReason
  | as4FromNewSpeaker
  | as4AggregatorNotChosen
  | as4AggregatorMalformed
  | path (e : PathError)
  deriving DecidableEq, Repr

/-- Source: as4.go. -/
structure ASPathDiscard where
  code : Octet
  reason : DiscardReason
  deriving DecidableEq, Repr

/-- Source: as4.go. -/
structure CanonicalASPathFamily where
  asPath : Option (List Octet)
  aggregator : Option (List Octet)
  discards : List ASPathDiscard

/-- Source: as4.go. -/
def aggregatorASIsTrans : List Octet → Option Bool
  | [a, b, _, _, _, _] => some (uint16 a b == asTrans.toNat)
  | _ => none

/-- The value taken as the aggregating node, whether it is the AS4_AGGREGATOR's, and whether the
AS4_PATH is used. Source: as4.go. -/
def selectAggregator (aggregator as4Aggregator : Option (List Octet)) :
    Option (List Octet) × Bool × Bool :=
  match aggregator, as4Aggregator with
  | some agg, some as4Agg =>
    match aggregatorASIsTrans agg with
    | none => (none, false, true)
    | some false => (some agg, false, false)
    | some true => (some as4Agg, true, true)
  | _, _ => (aggregator, false, true)

/-- Source: as4.go. -/
def canonicalAggregator : List Octet → List Octet
  | [a, b, c, d, e, f] => putUint32 (BitVec.ofNat 32 (uint16 a b)) ++ [c, d, e, f]
  | value => value

/-- Source: as4.go. -/
def reconstructASPath (asPath widened as4Path : List Octet) : List Octet × List ASPathDiscard :=
  match parseAS4Path as4Path with
  | .error e => (widened, [⟨attrAS4Path, .path e⟩])
  | .ok as4 =>
    match parseASPath asPath false with
    | .error e => (widened, [⟨attrAS4Path, .path e⟩])
    | .ok path =>
      match mergeAS4Path (some path) (some as4) with
      | some merged => (writeToWithASN4 merged true, [])
      | none => (widened, [])

/-- Source: as4.go. -/
def canonicalizeASPath (asPath as4Path : Option (List Octet)) :
    Except UpdateError (Option (List Octet) × List ASPathDiscard) :=
  match asPath with
  | none => .ok (none, [])
  | some value =>
    match expandASPath2to4 value with
    | none => .error (.unreadable value.length)
    | some widened =>
      match as4Path with
      | none => .ok (some widened, [])
      | some [] => .ok (some widened, [])
      | some as4 =>
        let (out, discards) := reconstructASPath value widened as4
        .ok (some out, discards)

/-- Source: as4.go. -/
def reconcileASPathFamily (recv : ReceivedASPathFamily) :
    Except UpdateError CanonicalASPathFamily :=
  if recv.sourceASN4 then
    .ok ⟨recv.asPath, recv.aggregator,
      (if recv.as4Path.isSome then [⟨attrAS4Path, .as4FromNewSpeaker⟩] else []) ++
        (if recv.as4Aggregator.isSome then [⟨attrAS4Aggregator, .as4FromNewSpeaker⟩] else [])⟩
  else
    let as4Aggregator := recv.as4Aggregator.filter fun v => v.length == 8
    let malformed : List ASPathDiscard :=
      if recv.as4Aggregator.isSome && as4Aggregator.isNone then
        [⟨attrAS4Aggregator, .as4AggregatorMalformed⟩]
      else []
    let (aggregator, fromAS4, useAS4Path) := selectAggregator recv.aggregator as4Aggregator
    let node :=
      if aggregator.isNone && recv.aggregator.isSome then recv.aggregator
      else aggregator.map canonicalAggregator
    let notChosen : List ASPathDiscard :=
      if as4Aggregator.isSome && !fromAS4 then [⟨attrAS4Aggregator, .as4AggregatorNotChosen⟩]
      else []
    match canonicalizeASPath recv.asPath (if useAS4Path then recv.as4Path else none) with
    | .error e => .error e
    | .ok (asPath, discards) => .ok ⟨asPath, node, malformed ++ notChosen ++ discards⟩

/-! ## The rewrite -/

def writeAttrValue (flags code : Octet) (value : List Octet) : List Octet :=
  writeHeader flags code (value.length % 65536) ++ value

/-- What becomes of one attribute. Source: aspath_collapse.go WriteTo, the switch. -/
def collapseAttr (canonical : CanonicalASPathFamily) (a : Attr) : List Octet :=
  if a.code = attrASPath then
    match canonical.asPath with
    | some value => writeAttrValue flagTransitive attrASPath value
    | none => []
  else if a.code = attrAggregator then
    match canonical.aggregator with
    | some value => writeAttrValue flagOptionalTransitive attrAggregator value
    | none => []
  else if a.code = attrAS4Path ∨ a.code = attrAS4Aggregator then []
  else a.octets

/-- A received body with its AS path family at four octets, and what was dropped for it; the empty
body stands for zero octets written, a payload that is four-octet already. Source:
aspath_collapse.go PrepareAS4Family and WriteTo on the payload it prepared, into a buffer of
CollapseAS4FamilySize. -/
def collapseAS4Family (payload : List Octet) (srcASN4 : Bool) :
    Except UpdateError (List Octet × List ASPathDiscard) :=
  match splitUpdate payload with
  | .error e => .error e
  | .ok (withdrawn, attrOctets, nlri) =>
    match scanAttrs (4 + withdrawn.length) attrOctets with
    | .error e => .error e
    | .ok attrs =>
      let value := fun code => (lastAttr code attrs).map Attr.value
      if srcASN4 ∧ value attrAS4Path = none ∧ value attrAS4Aggregator = none then .ok ([], [])
      else
        match reconcileASPathFamily ⟨value attrASPath, value attrAS4Path, value attrAggregator,
            value attrAS4Aggregator, srcASN4⟩ with
        | .error e => .error e
        | .ok canonical =>
          let out := attrs.flatMap (collapseAttr canonical)
          .ok (payload.take (2 + withdrawn.length) ++ putUint16 out.length ++ out ++ nlri,
            canonical.discards)

/-! ## What a narrowed body carries -/

lemma code_narrowedAttr (path : Option Path) (node : Option (Asn × List Octet)) (a : Attr) :
    (narrowedAttr path node a).code = a.code := by
  unfold narrowedAttr
  split_ifs with hpath hagg
  · rcases path with _ | p
    · rfl
    · exact hpath.symm
  · rcases node with _ | ⟨asn, ip⟩
    · rfl
    · exact hagg.symm
  · rfl

namespace Body

variable (b : Body)

lemma lastAttr_map_narrowedAttr (code : Octet) :
    lastAttr code (b.attrs.map (narrowedAttr b.path b.node)) =
      (lastAttr code b.attrs).map (narrowedAttr b.path b.node) := by
  rw [lastAttr, filter_map, getLast?_map, lastAttr]
  congr 2
  apply filter_congr
  intro a _
  rw [Function.comp_apply, code_narrowedAttr]

lemma code_of_mem_owedPath {path : Option Path} {a : Attr} (ha : a ∈ owedPath path) :
    a.code = attrAS4Path := by
  unfold owedPath at ha
  split at ha
  · rw [mem_singleton.1 ha]
    rfl
  · cases ha

lemma code_of_mem_owedNode {node : Option (Asn × List Octet)} {a : Attr}
    (ha : a ∈ owedNode node) : a.code = attrAS4Aggregator := by
  unfold owedNode at ha
  rcases node with _ | ⟨asn, ip⟩
  · cases ha
  · simp only at ha
    split_ifs at ha
    · rw [mem_singleton.1 ha]
      rfl
    · cases ha

lemma filter_narrowed (code : Octet) :
    b.narrowed.filter (fun a => a.code == code) =
      (b.attrs.map (narrowedAttr b.path b.node)).filter (fun a => a.code == code) ++
        (if attrAS4Path = code then owedPath b.path else []) ++
        (if attrAS4Aggregator = code then owedNode b.node else []) := by
  have hfilter : ∀ (l : List Attr) (c : Octet), (∀ a ∈ l, a.code = c) →
      l.filter (fun a => a.code == code) = if c = code then l else [] := by
    intro l c hl
    split_ifs with hc
    · apply filter_eq_self.2
      intro a ha
      simp [hl a ha, hc]
    · apply filter_eq_nil_iff.2
      intro a ha
      simp [hl a ha, hc]
  rw [narrowed, filter_append, filter_append, hfilter _ _ (fun a ha => code_of_mem_owedPath ha),
    hfilter _ _ (fun a ha => code_of_mem_owedNode ha)]

lemma value_asPath :
    (lastAttr attrASPath b.narrowed).map Attr.value =
      b.path.map fun p => writeToWithASN4 p false := by
  have hlast : lastAttr attrASPath b.narrowed =
      (lastAttr attrASPath b.attrs).map (narrowedAttr b.path b.node) := by
    rw [lastAttr, filter_narrowed, if_neg (by decide), if_neg (by decide), append_nil,
      append_nil, ← lastAttr, lastAttr_map_narrowedAttr]
  rw [hlast]
  rcases ha : lastAttr attrASPath b.attrs with _ | a
  · have hp : b.path = none := by rw [path, ha]; rfl
    rw [hp]
    rfl
  · obtain ⟨hmem, hcode⟩ := mem_of_lastAttr ha
    obtain ⟨p, hp, -, -, hwire, htotal, -⟩ := path_of_mem hmem hcode
    have hlen := length_writeToWithASN4 false hwire
    have hle := lenWithASN4_le false hwire
    rw [maxASPathTotalLength] at htotal
    unfold narrowedAttr
    simp only [hp, map_some, hcode, if_true]
    rw [Attr.value_written (by omega)]

lemma value_aggregator :
    (lastAttr attrAggregator b.narrowed).map Attr.value =
      b.node.map fun n => putUint16 (narrowAsn n.1).toNat ++ n.2 := by
  have hlast : lastAttr attrAggregator b.narrowed =
      (lastAttr attrAggregator b.attrs).map (narrowedAttr b.path b.node) := by
    rw [lastAttr, filter_narrowed, if_neg (by decide), if_neg (by decide), append_nil,
      append_nil, ← lastAttr, lastAttr_map_narrowedAttr]
  rw [hlast]
  rcases ha : lastAttr attrAggregator b.attrs with _ | a
  · have hn : b.node = none := by rw [node, ha]; rfl
    rw [hn]
    rfl
  · obtain ⟨hmem, hcode⟩ := mem_of_lastAttr ha
    obtain ⟨asn, ip, hn, -, hip, -⟩ := node_of_mem hmem hcode
    have hlen := length_narrowed_node asn hip
    have hne : ¬ attrAggregator = attrASPath := by decide
    unfold narrowedAttr
    simp only [hn, map_some, hcode, hne, if_false, if_true]
    rw [Attr.value_written (by omega)]

lemma value_as4Path :
    (lastAttr attrAS4Path b.narrowed).map Attr.value = (as4PathFor b.path).map writeAS4Path := by
  have hnone : (b.attrs.map (narrowedAttr b.path b.node)).filter
      (fun a => a.code == attrAS4Path) = [] := by
    apply getLast?_eq_none_iff.1
    rw [← lastAttr, lastAttr_map_narrowedAttr, lastAttr_eq_none.2 fun a ha => (b.noAS4 a ha).1]
    rfl
  rw [lastAttr, filter_narrowed, hnone, if_pos rfl, if_neg (by decide), append_nil, nil_append]
  unfold owedPath
  rcases hpath : as4PathFor b.path with _ | p
  · rfl
  · obtain ⟨hp, -⟩ := Option.filter_eq_some_iff.mp hpath
    obtain ⟨a, -, -, -, hplain, hwire, htotal, -⟩ := path_eq_some hp
    have hlen : (writeAS4Path p).length = lenWithASN4 p true := by
      rw [writeAS4Path_eq hplain hwire, length_writeToWithASN4 true hwire]
    have hle := lenWithASN4_le true hwire
    rw [maxASPathTotalLength] at htotal
    simp only [getLast?_singleton, map_some]
    rw [Attr.value_written (by omega)]

lemma value_as4Aggregator :
    (lastAttr attrAS4Aggregator b.narrowed).map Attr.value =
      (b.node.filter fun n => isNonMappable n.1).map fun n => putUint32 n.1 ++ n.2 := by
  have hnone : (b.attrs.map (narrowedAttr b.path b.node)).filter
      (fun a => a.code == attrAS4Aggregator) = [] := by
    apply getLast?_eq_none_iff.1
    rw [← lastAttr, lastAttr_map_narrowedAttr, lastAttr_eq_none.2 fun a ha => (b.noAS4 a ha).2]
    rfl
  rw [lastAttr, filter_narrowed, hnone, if_neg (by decide), if_pos rfl, append_nil, nil_append]
  unfold owedNode
  rcases hnode : b.node with _ | ⟨asn, ip⟩
  · rfl
  · obtain ⟨a, -, -, -, hip, -⟩ := node_eq_some hnode
    have hlen : (putUint32 asn ++ ip).length = 8 := by
      rw [length_append, hip]
      rfl
    by_cases hasn : isNonMappable asn
    · simp only [hasn, if_true, getLast?_singleton, map_some, filter_some]
      rw [Attr.value_written (by omega)]
    · simp [hasn, filter_some]

end Body

/-! ## The reconciliation of a narrowed body -/

lemma appendLeadingSegments_zero {p : Path} (hp : Plain p) : appendLeadingSegments p 0 = [] := by
  rcases p with _ | ⟨s, p⟩
  · rfl
  · have hconfed : s.type.isConfedSegment = false := by
      rcases hp s mem_cons_self with hs | hs <;> rw [hs] <;> rfl
    rw [appendLeadingSegments, if_neg (by simp [hconfed]), if_pos (by decide)]

lemma mergeAS4Path_narrow {p : Path} (hp : Plain p) (hne : p ≠ []) :
    mergeAS4Path (some (narrow p)) (some p) = some p := by
  have hlen := length_hops_narrow p
  rw [hops_mergeAS4Path hp (by omega) hne, hlen, Nat.sub_self,
    appendLeadingSegments_zero (plain_narrow hp), nil_append]

lemma canonicalizeASPath_narrowed {p : Path} (hp : Plain p) (hw : Wire p)
    (ht : totalASNs p ≤ maxASPathTotalLength) :
    canonicalizeASPath (some (writeToWithASN4 p false)) ((as4PathFor (some p)).map writeAS4Path) =
      .ok (some (writeToWithASN4 p true), []) := by
  rw [canonicalizeASPath, expandASPath2to4_write hw, as4PathFor, filter_some]
  split_ifs with hmap
  · have hne : p ≠ [] := by
      rintro rfl
      cases hmap
    have hparse : parseAS4Path (writeAS4Path p) = .ok p := parseAS4Path_write hp hw
    have hparse2 : parseASPath (writeToWithASN4 p false) false = .ok (narrow p) :=
      parseASPath_write false hw ht
    have hcons : writeAS4Path p ≠ [] := by
      rcases p with _ | ⟨s, p⟩
      · exact absurd rfl hne
      · rw [writeAS4Path_eq hp hw, writeToWithASN4_cons true hw]
        exact cons_ne_nil _ _
    rcases hv : writeAS4Path p with _ | ⟨x, xs⟩
    · exact absurd hv hcons
    · simp only [map_some, reconstructASPath]
      rw [hparse, hparse2]
      simp only [mergeAS4Path_narrow hp hne]
  · simp only [map_none]
    rw [narrow_of_mappable hp (by simpa using hmap)]

lemma selectAggregator_narrowed (asn : Asn) {ip : List Octet} (hip : ip.length = 4) :
    ∃ value fromAS4, selectAggregator (some (putUint16 (narrowAsn asn).toNat ++ ip))
        (if isNonMappable asn then some (putUint32 asn ++ ip) else none) =
          (some value, fromAS4, true) ∧
      canonicalAggregator value = putUint32 asn ++ ip ∧ fromAS4 = isNonMappable asn := by
  match ip, hip with
  | [e, f, g, h], _ =>
    by_cases hasn : isNonMappable asn
    · refine ⟨putUint32 asn ++ [e, f, g, h], true, ?_, rfl, hasn.symm⟩
      have htrans : asTrans.toNat % 65536 = asTrans.toNat := by decide
      rw [if_pos hasn, narrowAsn, if_pos hasn]
      simp only [putUint16, cons_append, nil_append, selectAggregator,
        aggregatorASIsTrans, uint16_ofNat, htrans, beq_self_eq_true]
    · refine ⟨putUint16 (narrowAsn asn).toNat ++ [e, f, g, h], false, ?_, ?_, by simpa using hasn⟩
      · rw [if_neg hasn]
        rfl
      · have hnarrow : narrowAsn asn = asn := by rw [narrowAsn, if_neg hasn]
        have hlt := narrowAsn_lt asn
        rw [hnarrow] at hlt ⊢
        simp only [putUint16, cons_append, nil_append, canonicalAggregator, uint16_ofNat,
          Nat.mod_eq_of_lt hlt]
        rw [BitVec.ofNat_toNat, BitVec.setWidth_eq]

/-- From what a narrowed body carries, the reconciliation makes the path and the aggregator of the
body it was narrowed from, and drops nothing. -/
lemma reconcile_narrowed (b : Body) :
    reconcileASPathFamily
        ⟨(lastAttr attrASPath b.narrowed).map Attr.value,
          (lastAttr attrAS4Path b.narrowed).map Attr.value,
          (lastAttr attrAggregator b.narrowed).map Attr.value,
          (lastAttr attrAS4Aggregator b.narrowed).map Attr.value, false⟩ =
      .ok ⟨b.path.map fun p => writeToWithASN4 p true,
        b.node.map fun n => putUint32 n.1 ++ n.2, []⟩ := by
  rw [b.value_asPath, b.value_as4Path, b.value_aggregator, b.value_as4Aggregator]
  have hcanon : canonicalizeASPath (b.path.map fun p => writeToWithASN4 p false)
      ((as4PathFor b.path).map writeAS4Path) =
        .ok (b.path.map fun p => writeToWithASN4 p true, []) := by
    rcases hpath : b.path with _ | p
    · rfl
    · obtain ⟨a, -, -, -, hplain, hwire, htotal, -⟩ := Body.path_eq_some hpath
      exact canonicalizeASPath_narrowed hplain hwire htotal
  rw [reconcileASPathFamily, if_neg Bool.false_ne_true]
  rcases hnode : b.node with _ | ⟨asn, ip⟩
  · simp only [map_none, Option.filter_none, selectAggregator]
    simp [hcanon]
  · obtain ⟨a, -, -, -, hip, -⟩ := Body.node_eq_some hnode
    have hfilter : (((some (asn, ip)).filter fun n : Asn × List Octet =>
        isNonMappable n.1).map fun n => putUint32 n.1 ++ n.2).filter (fun v => v.length == 8) =
          if isNonMappable asn then some (putUint32 asn ++ ip) else none := by
      rw [filter_some]
      split_ifs
      · simp [filter_some, hip, putUint32]
      · rfl
    obtain ⟨value, fromAS4, hselect, hvalue, hfrom⟩ := selectAggregator_narrowed asn hip
    simp only [map_some, hfilter, hselect, hvalue, if_true, hcanon]
    subst hfrom
    by_cases hasn : isNonMappable asn
    · simp [hasn]
    · simp [hasn, filter_some]

/-! ## The round trip -/

def values (code : Octet) (attrs : List Attr) : List (List Octet) :=
  (attrs.filter fun a => a.code == code).map Attr.value

/-- The attributes of other types than AS_PATH and AGGREGATOR. -/
def others (attrs : List Attr) : List Attr :=
  attrs.filter fun a => a.code != attrASPath && a.code != attrAggregator

/-- Narrowing a body for an old speaker and collapsing what the old speaker sends on gives the body
back: its withdrawn routes and its NLRI, the values of its AS_PATH and of its AGGREGATOR, and every
other attribute octet for octet. -/
structure RoundTrips (b : Body) where
  narrowed : List Octet
  restored : List Octet
  discards : List ASPathDiscard
  attrOctets : List Octet
  attrs : List Attr
  transcoded : transcodeASPath b.octets true false = .ok narrowed
  collapsed : collapseAS4Family narrowed false = .ok (restored, discards)
  sections : splitUpdate restored = .ok (b.withdrawn, attrOctets, b.nlri)
  scanned : scanAttrs (4 + b.withdrawn.length) attrOctets = .ok attrs
  asPath : values attrASPath attrs = values attrASPath b.attrs
  aggregator : values attrAggregator attrs = values attrAggregator b.attrs
  rest : others attrs = others b.attrs

/-- An attribute of a body after both rewrites. Source: aspath_collapse.go WriteTo. -/
def restoredAttr (a : Attr) : Attr :=
  if a.code = attrASPath then .written flagTransitive attrASPath a.value
  else if a.code = attrAggregator then .written flagOptionalTransitive attrAggregator a.value
  else a

lemma Attr.length_lt (a : Attr) : a.value.length < 65536 := by
  have h := a.fits
  split_ifs at h <;> omega

lemma code_restoredAttr (a : Attr) : (restoredAttr a).code = a.code := by
  unfold restoredAttr
  split_ifs with hpath hagg
  · exact hpath.symm
  · exact hagg.symm
  · rfl

lemma value_restoredAttr (a : Attr) : (restoredAttr a).value = a.value := by
  unfold restoredAttr
  split_ifs
  · exact Attr.value_written a.length_lt
  · exact Attr.value_written a.length_lt
  · rfl

lemma length_restoredAttr_le (a : Attr) : (restoredAttr a).octets.length ≤ a.octets.length := by
  have hfits := a.fits
  have hhdr : (if 255 < a.value.length then 4 else 3) ≤ a.hdrLen := by
    rw [Attr.hdrLen]
    split_ifs at hfits ⊢ <;> omega
  unfold restoredAttr
  split_ifs
  · rw [Attr.length_octets_written (by decide) a.length_lt, Attr.length_octets]
    omega
  · rw [Attr.length_octets_written (by decide) a.length_lt, Attr.length_octets]
    omega
  · exact Nat.le_refl _

namespace Body

variable (b : Body)

/-- The values that the reconciliation makes of a narrowed body. Source: as4.go
ReconcileASPathFamily. -/
def canonical : CanonicalASPathFamily :=
  ⟨b.path.map fun p => writeToWithASN4 p true, b.node.map fun n => putUint32 n.1 ++ n.2, []⟩

lemma collapseAttr_eq {a : Attr} (ha : a ∈ b.attrs) :
    collapseAttr b.canonical (narrowedAttr b.path b.node a) = (restoredAttr a).octets := by
  unfold collapseAttr
  rw [code_narrowedAttr]
  unfold restoredAttr
  by_cases hpath : a.code = attrASPath
  · obtain ⟨p, hp, -, -, -, -, hvalue⟩ := path_of_mem ha hpath
    rw [if_pos hpath, if_pos hpath, canonical, hp]
    simp only [map_some]
    rw [← hvalue, Attr.octets_written a.length_lt, writeAttrValue, Nat.mod_eq_of_lt a.length_lt]
  · rw [if_neg hpath, if_neg hpath]
    by_cases hagg : a.code = attrAggregator
    · obtain ⟨asn, ip, hn, -, -, hvalue⟩ := node_of_mem ha hagg
      rw [if_pos hagg, if_pos hagg, canonical, hn]
      simp only [map_some]
      rw [← hvalue, Attr.octets_written a.length_lt, writeAttrValue, Nat.mod_eq_of_lt a.length_lt]
    · have hno : ¬ (a.code = attrAS4Path ∨ a.code = attrAS4Aggregator) := by
        rintro (h | h)
        · exact (b.noAS4 a ha).1 h
        · exact (b.noAS4 a ha).2 h
      rw [if_neg hagg, if_neg hagg, if_neg hno]
      unfold narrowedAttr
      rw [if_neg hpath, if_neg hagg]

lemma flatMap_collapseAttr :
    b.narrowed.flatMap (collapseAttr b.canonical) =
    (b.attrs.map restoredAttr).flatMap Attr.octets := by
  have howed : ∀ l : List Attr, (∀ a ∈ l, a.code = attrAS4Path ∨ a.code = attrAS4Aggregator) →
      l.flatMap (collapseAttr b.canonical) = [] := by
    intro l hl
    apply flatMap_eq_nil_iff.2
    intro a ha
    unfold collapseAttr
    rcases hl a ha with h | h <;> rw [h] <;> rfl
  rw [narrowed, flatMap_append, flatMap_append,
    howed _ (fun a ha => .inl (code_of_mem_owedPath ha)),
    howed _ (fun a ha => .inr (code_of_mem_owedNode ha)), append_nil, append_nil,
    flatMap_map, flatMap_map]
  exact flatMap_congr fun a ha => b.collapseAttr_eq ha

/-- The octets of an attribute with a value of that length. Source: attribute.go WriteHeaderTo.
-/
def attrSize (n : ℕ) : ℕ := (if 255 < n then 4 else 3) + n

lemma take_updateOctets (withdrawn attrs nlri : List Octet) :
    (updateOctets withdrawn attrs nlri).take (2 + withdrawn.length) =
      putUint16 withdrawn.length ++ withdrawn := by
  rw [updateOctets, append_assoc, append_assoc]
  exact take_left' (by rw [length_append]; rfl)

/-- The length of the attribute section for an old speaker: the AS_PATH at two octets a number, the
AGGREGATOR at six octets, the other attributes as they are, and an AS4_PATH and an AS4_AGGREGATOR
where a number does not fit two octets. -/
def narrowedLength : ℕ :=
  (b.attrs.map fun a =>
      if a.code = attrASPath then attrSize (b.path.elim 0 fun p => lenWithASN4 p false)
      else if a.code = attrAggregator then attrSize 6
      else a.octets.length).sum +
    (b.path.elim 0 fun p => if pathHasNonMappableAS p then attrSize (lenWithASN4 p true) else 0) +
    (b.node.elim 0 fun n => if isNonMappable n.1 then attrSize 8 else 0)

lemma length_narrowed : (b.narrowed.flatMap Attr.octets).length = b.narrowedLength := by
  rw [narrowed, flatMap_append, flatMap_append, length_append, length_append,
    narrowedLength, flatMap_map, length_flatMap]
  congr 1
  · congr 1
    · congr 1
      apply map_congr_left
      intro a ha
      unfold narrowedAttr
      by_cases hpath : a.code = attrASPath
      · obtain ⟨p, hp, -, -, hwire, htotal, -⟩ := path_of_mem ha hpath
        have hlen := length_writeToWithASN4 false hwire
        have hle := lenWithASN4_le false hwire
        rw [maxASPathTotalLength] at htotal
        simp only [hpath, hp, if_true, elim_some]
        rw [Attr.length_octets_written (by decide) (by omega), hlen, attrSize]
      · by_cases hagg : a.code = attrAggregator
        · obtain ⟨asn, ip, hn, -, hip, -⟩ := node_of_mem ha hagg
          have hlen := length_narrowed_node asn hip
          rw [if_neg hpath, if_pos hagg, if_neg hpath, if_pos hagg, hn]
          simp only
          rw [Attr.length_octets_written (by decide) (by omega), hlen, attrSize]
        · simp only [hpath, hagg, if_false]
    · rw [← b.writeAS4PathAttr_eq.2]
      rcases hpath : b.path with _ | p
      · rfl
      · obtain ⟨a, -, -, -, hplain, hwire, -, -⟩ := path_eq_some hpath
        have hsame : lenAS4Path p = lenWithASN4 p true := by
          rw [← length_writeAS4Path, writeAS4Path_eq hplain hwire,
            length_writeToWithASN4 true hwire]
        rw [as4PathFor, filter_some, elim_some]
        by_cases hmap : pathHasNonMappableAS p
        · rw [if_pos hmap, if_pos hmap, as4PathWireSize, hsame, attrSize]
          split_ifs <;> rfl
        · rw [if_neg hmap, if_neg hmap]
          rfl
  · rw [b.writeAS4AggregatorAttr_eq.2]
    rcases b.node with _ | ⟨asn, ip⟩ <;> rfl

end Body

lemma roundTrips_of_lt (b : Body) (h : b.narrowedLength < 65536) : Nonempty (RoundTrips b) := by
  have hsplit : splitUpdate (updateOctets b.withdrawn (b.narrowed.flatMap Attr.octets) b.nlri) =
      .ok (b.withdrawn, b.narrowed.flatMap Attr.octets, b.nlri) := by
    rw [splitUpdate_updateOctets _ _ b.withdrawn_lt, b.length_narrowed, Nat.mod_eq_of_lt h,
      ← b.length_narrowed, take_length, drop_length, nil_append]
  have hcollapse : collapseAS4Family
      (updateOctets b.withdrawn (b.narrowed.flatMap Attr.octets) b.nlri) false =
        .ok (updateOctets b.withdrawn ((b.attrs.map restoredAttr).flatMap Attr.octets) b.nlri,
          []) := by
    rw [collapseAS4Family, hsplit]
    simp only [scanAttrs_octets]
    rw [if_neg (by simp), reconcile_narrowed, ← Body.canonical]
    simp only
    rw [b.flatMap_collapseAttr, Body.take_updateOctets, updateOctets]
    rfl
  have hle : ((b.attrs.map restoredAttr).flatMap Attr.octets).length ≤
      (b.attrs.flatMap Attr.octets).length := by
    rw [flatMap_map]
    generalize b.attrs = attrs
    induction attrs with
    | nil => exact Nat.le_refl _
    | cons a attrs ih =>
      have ha := length_restoredAttr_le a
      rw [flatMap_cons, flatMap_cons, length_append, length_append]
      omega
  have hlt := b.attrs_lt
  have hvalues : ∀ code, values code (b.attrs.map restoredAttr) = values code b.attrs := by
    intro code
    rw [values, values, filter_map, map_map]
    have hfilter : (b.attrs.filter ((fun a => a.code == code) ∘ restoredAttr)) =
        b.attrs.filter fun a => a.code == code :=
      filter_congr fun a _ => by rw [Function.comp_apply, code_restoredAttr]
    rw [hfilter]
    exact map_congr_left fun a _ => value_restoredAttr a
  have hothers : others (b.attrs.map restoredAttr) = others b.attrs := by
    rw [others, others, filter_map]
    have hfilter : (b.attrs.filter
        ((fun a => a.code != attrASPath && a.code != attrAggregator) ∘ restoredAttr)) =
          b.attrs.filter fun a => a.code != attrASPath && a.code != attrAggregator :=
      filter_congr fun a _ => by rw [Function.comp_apply, code_restoredAttr]
    rw [hfilter]
    refine (map_congr_left fun a ha => ?_).trans (map_id _)
    have hcode := (mem_filter.1 ha).2
    unfold restoredAttr
    rw [if_neg (by rintro h; simp [h] at hcode), if_neg (by rintro h; simp [h] at hcode)]
    rfl
  refine ⟨⟨_, _, _, _, _, b.transcodeASPath_octets, hcollapse, ?_, scanAttrs_octets _ _,
    hvalues attrASPath, hvalues attrAggregator, hothers⟩⟩
  rw [splitUpdate_updateOctets _ _ b.withdrawn_lt, Nat.mod_eq_of_lt (by omega), take_length,
    drop_length, nil_append]

lemma not_roundTrips_of_le (b : Body) (h : 65536 ≤ b.narrowedLength) : IsEmpty (RoundTrips b) := by
  refine ⟨?_⟩
  rintro ⟨narrowed, restored, discards, attrOctets, attrs, htrans, hcollapse, hsections, -⟩
  rw [b.transcodeASPath_octets] at htrans
  cases htrans
  rw [collapseAS4Family, splitUpdate_updateOctets _ _ b.withdrawn_lt] at hcollapse
  simp only at hcollapse
  split at hcollapse
  · cases hcollapse
  · rw [if_neg (by simp)] at hcollapse
    split at hcollapse
    · cases hcollapse
    · rename_i canonical _
      have hle := Nat.mod_le (b.narrowed.flatMap Attr.octets).length 65536
      have hmod := Nat.mod_lt (b.narrowed.flatMap Attr.octets).length (show 0 < 65536 by decide)
      have hfold : ∀ out nlri, (updateOctets b.withdrawn (b.narrowed.flatMap Attr.octets)
          b.nlri).take (2 + b.withdrawn.length) ++ putUint16 out.length ++ out ++ nlri =
            updateOctets b.withdrawn out nlri := by
        intro out nlri
        rw [Body.take_updateOctets]
        rfl
      cases hcollapse
      rw [hfold, splitUpdate_updateOctets _ _ b.withdrawn_lt] at hsections
      have hnlri := congrArg (fun r => match r with
        | Except.ok (_, _, nlri) => length nlri
        | Except.error (_ : UpdateError) => 0) hsections
      simp only [length_append, length_drop, b.length_narrowed] at hnlri hle hmod
      omega

/-- **Narrowing and collapsing.** An UPDATE body comes back from an old speaker with the AS_PATH and
the AGGREGATOR it had, and with its withdrawn routes, its other attributes and its NLRI untouched,
if and only if the attributes that narrowing writes fit their length field. -/
theorem narrowed_collapses_iff (b : Body) : Nonempty (RoundTrips b) ↔ b.narrowedLength < 65536 := by
  constructor
  · rintro ⟨hb⟩
    by_contra hlt
    exact (not_roundTrips_of_le b (by omega)).false hb
  · exact roundTrips_of_lt b

def longPath : Path := [⟨.asSequence, replicate 255 70000#32⟩]

/-- An AS_PATH of 1022 octets, with the extended length that they need. -/
def longPathAttr : Attr := .written flagTransitive attrASPath (writeToWithASN4 longPath true)

/-- An attribute of a type that neither rewrite knows, with 64470 octets. -/
def fillerAttr : Attr := .written flagOptionalTransitive 99#8 (replicate 64470 0#8)

lemma plain_longPath : Plain longPath := by
  intro s hs
  rw [mem_singleton.1 hs]
  exact .inl rfl

lemma wire_longPath : Wire longPath := by
  intro s hs
  rw [mem_singleton.1 hs]
  exact ⟨cons_ne_nil _ _, Nat.le_of_eq length_replicate⟩

lemma lenWithASN4_longPath (asn4 : Bool) : lenWithASN4 longPath asn4 = 2 + 255 * asnSize asn4 := by
  have hlen : (replicate 255 (70000#32 : Asn)).length = 255 := length_replicate
  rw [lenWithASN4, longPath, map_singleton, sum_singleton, hlen, if_neg (by decide)]
  rfl

lemma totalASNs_longPath : totalASNs longPath ≤ maxASPathTotalLength := by
  have hlen : (replicate 255 (70000#32 : Asn)).length = 255 := length_replicate
  rw [totalASNs, longPath, map_singleton, sum_singleton, hlen]
  decide

lemma length_longPath : (writeToWithASN4 longPath true).length = 1022 := by
  rw [length_writeToWithASN4 true wire_longPath, lenWithASN4_longPath]
  rfl

lemma value_longPathAttr : longPathAttr.value = writeToWithASN4 longPath true :=
  Attr.value_written (by rw [length_longPath]; decide)

lemma length_longPathAttr : longPathAttr.octets.length = 1026 := by
  rw [longPathAttr, Attr.length_octets_written (by decide) (by rw [length_longPath]; decide),
    length_longPath]
  rfl

lemma length_fillerAttr : fillerAttr.octets.length = 64474 := by
  rw [fillerAttr, Attr.length_octets_written (by decide) (by rw [length_replicate]; decide),
    length_replicate]
  rfl

/-- A body with 65500 octets of attributes, as an UPDATE of 65523 octets has them. -/
def longBody : Body where
  withdrawn := []
  attrs := [longPathAttr, fillerAttr]
  nlri := []
  withdrawn_lt := by decide
  attrs_lt := by
    rw [flatMap_cons, flatMap_cons, flatMap_nil, append_nil, length_append,
      length_longPathAttr, length_fillerAttr]
    decide
  once := by
    show [attrASPath, 99#8].Nodup
    decide
  asPath := by
    intro a ha hcode
    rcases mem_cons.1 ha with rfl | ha
    · exact ⟨longPath, plain_longPath, wire_longPath, totalASNs_longPath, value_longPathAttr⟩
    · rw [mem_singleton.1 ha] at hcode
      exact absurd hcode (by decide : ¬ (99#8 = attrASPath))
  aggregator := by
    intro a ha hcode
    rcases mem_cons.1 ha with rfl | ha
    · exact absurd hcode (by decide : ¬ (attrASPath = attrAggregator))
    · rw [mem_singleton.1 ha] at hcode
      exact absurd hcode (by decide : ¬ (99#8 = attrAggregator))
  noAS4 := by
    intro a ha
    rcases mem_cons.1 ha with rfl | ha
    · exact (by decide : attrASPath ≠ attrAS4Path ∧ attrASPath ≠ attrAS4Aggregator)
    · rw [mem_singleton.1 ha]
      exact (by decide : (99#8 : Octet) ≠ attrAS4Path ∧ (99#8 : Octet) ≠ attrAS4Aggregator)

/-- Beside its AS4_PATH the narrowed path does not fit the length field, and the body is lost. -/
theorem longBody_not_restored : ¬ Nonempty (RoundTrips longBody) := by
  have hpath : longBody.path = some longPath := by
    have hlast : lastAttr attrASPath longBody.attrs = some longPathAttr :=
      lastAttr_eq_some longBody.once mem_cons_self
    rw [Body.path, hlast, Option.bind_some, value_longPathAttr,
      parseASPath_write true wire_longPath totalASNs_longPath]
    rfl
  have hlen : 65536 ≤ longBody.narrowedLength := by
    have hmap : pathHasNonMappableAS longPath := by decide
    have hfiller : ¬ fillerAttr.code = attrASPath := by decide
    have hfiller' : ¬ fillerAttr.code = attrAggregator := by decide
    have hcode : longPathAttr.code = attrASPath := rfl
    have hattrs : longBody.attrs = [longPathAttr, fillerAttr] := rfl
    rw [Body.narrowedLength, hpath, hattrs, map_cons, map_singleton, sum_cons,
      sum_singleton, if_pos hcode, if_neg hfiller, if_neg hfiller', length_fillerAttr,
      elim_some, elim_some, if_pos hmap, lenWithASN4_longPath, lenWithASN4_longPath]
    exact Nat.le_add_right_of_le (by decide)
  rintro ⟨h⟩
  exact (not_roundTrips_of_le longBody hlen).false h

end Ze.AsPath
