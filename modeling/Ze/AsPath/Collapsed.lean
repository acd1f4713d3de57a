import Ze.AsPath.Lengths

/-!
# The size and the form of a collapsed UPDATE

A receiver gives the collapse a buffer of twice the body and eight octets, `CollapseAS4FamilySize`,
and goes on with what is written there, or with the body where nothing is written.
-/

namespace Ze.AsPath

open List
open Option (elim_some map_eq_some_iff map_some)

/-! ## The values -/

lemma length_widenAsns (n : ℕ) (data : List Octet) (h : n * 2 ≤ data.length) :
    (widenAsns n data).length = n * 4 := by
  induction n generalizing data with
  | zero => rfl
  | succ n ih =>
    match data, h with
    | a :: b :: rest, h =>
      simp only [length_cons] at h
      rw [widenAsns, length_append, ih rest (by omega)]
      simp only [length_cons, length_nil]
      omega
    | [_], h =>
      simp only [length_cons, length_nil] at h
      omega
    | [], h =>
      simp only [length_nil] at h
      omega

variable {value payload withdrawn attrOctets nlri : List Octet} {p : Path}

lemma length_expandASPath2to4_le {widened : List Octet}
    (h : expandASPath2to4 value = some widened) :
    widened.length ≤ 2 * value.length := by
  fun_induction expandASPath2to4 value generalizing widened with
  | case1 =>
    cases h
    exact Nat.le_refl _
  | case2 | case3 => cases h
  | case4 t count rest hlen ih =>
    obtain ⟨out, hout, heq⟩ := Option.bind_eq_some_iff.mp h
    cases heq
    have hle := ih hout
    have hwide := length_widenAsns count.toNat rest (by omega)
    simp only [length_append, length_cons, length_nil, length_drop, hwide] at hle ⊢
    omega

lemma length_of_parseAS4Segments {data : List Octet} (h : parseAS4Segments data = .ok p) :
    (p.map fun s => 2 + s.asns.length * 4).sum = data.length ∧ ∀ s ∈ p, s.asns.length ≤ 255 := by
  fun_induction parseAS4Segments data generalizing p with
  | case1 =>
    cases h
    exact ⟨rfl, fun s hs => by cases hs⟩
  | case2 | case3 | case4 | case5 => cases h
  | case6 t count rest hzero type htype hlen ih =>
    rcases hrest : parseAS4Segments (rest.drop (count.toNat * 4)) with e | p'
    · rw [hrest] at h
      cases h
    · rw [hrest] at h
      cases h
      obtain ⟨hsum, hshort⟩ := ih hrest
      have hread := length_readAsns true count.toNat rest (by simp only [asnSize, if_true]; omega)
      refine ⟨?_, ?_⟩
      · rw [map_cons, sum_cons, hsum, hread, length_drop, length_cons, length_cons]
        omega
      · rw [forall_mem_cons, hread]
        exact ⟨by omega, hshort⟩

lemma lenWithASN4_true_le (h : ∀ s ∈ p, s.asns.length ≤ 255) :
    lenWithASN4 p true ≤ (p.map fun s => 2 + s.asns.length * 4).sum := by
  induction p with
  | nil => exact Nat.le_refl _
  | cons s p ih =>
    have hp := ih fun s' hs' => h s' (mem_cons_of_mem _ hs')
    have hs := h s mem_cons_self
    simp only [lenWithASN4, asnSize, if_true, maxASPathSegmentLength, map_cons, sum_cons] at hp ⊢
    split_ifs <;> omega

lemma lenWithASN4_append (p q : Path) (asn4 : Bool) :
    lenWithASN4 (p ++ q) asn4 = lenWithASN4 p asn4 + lenWithASN4 q asn4 := by
  simp only [lenWithASN4, map_append, sum_append]

lemma length_leadingPart_le (s : Segment) (wanted : ℕ) :
    (leadingPart s wanted).1.asns.length ≤ s.asns.length := by
  unfold leadingPart
  split_ifs
  · exact Nat.le_refl _
  · exact Nat.le_refl _
  · exact Nat.le_refl _
  · exact (length_take_le' _ _)

lemma lenWithASN4_leading_le (h : ∀ s ∈ p, s.asns.length ≤ 255) (wanted : ℕ) :
    lenWithASN4 (appendLeadingSegments p wanted) true ≤ (p.map fun s =>
      2 + s.asns.length * 4).sum := by
  induction p generalizing wanted with
  | nil => exact Nat.le_refl _
  | cons s p ih =>
    have hp := ih fun s' hs' => h s' (mem_cons_of_mem _ hs')
    have hs := h s mem_cons_self
    have hcons : ∀ s' : Segment, s'.asns.length ≤ s.asns.length → ∀ wanted,
        lenWithASN4 (s' :: appendLeadingSegments p wanted) true ≤
          2 + s.asns.length * 4 + (p.map fun s => 2 + s.asns.length * 4).sum := by
      intro s' hs' wanted
      have htail := hp wanted
      have hone : (s'.asns.length + 255 - 1) / 255 ≤ 1 := by omega
      simp only [lenWithASN4, asnSize, if_true, maxASPathSegmentLength, map_cons,
        sum_cons] at htail ⊢
      split_ifs <;> omega
    rw [appendLeadingSegments, map_cons, sum_cons]
    split_ifs
    · exact hcons s (Nat.le_refl _) _
    · exact Nat.zero_le _
    · exact hcons _ (length_leadingPart_le s wanted) _

variable {q : Path} {asPath as4Path : Option (List Octet)} {discards : List ASPathDiscard}
  {out : List Octet}

lemma lenWithASN4_as4Segments_le (h : ∀ s ∈ q, s.asns.length ≤ 255) :
    lenWithASN4 (appendAS4Segments q) true ≤ (q.map fun s => 2 + s.asns.length * 4).sum := by
  have hfilter : ∀ s ∈ appendAS4Segments q, s.asns.length ≤ 255 :=
    fun s hs => h s (mem_filter.1 hs).1
  refine Nat.le_trans (lenWithASN4_true_le hfilter) ?_
  exact List.Sublist.sum_le_sum ((filter_sublist).map _) fun _ _ => Nat.zero_le _

lemma lenWithASN4_merge_le {as4 : List Octet} {merged : Path}
    (hp : parseASPath value false = .ok p) (hq : parseAS4Path as4 = .ok q)
    (h : mergeAS4Path (some p) (some q) = some merged) :
    lenWithASN4 merged true ≤ 2 * value.length + as4.length := by
  obtain ⟨hpsum, hpshort⟩ := length_of_parseSegments hp
  have hqspec : (q.map fun s => 2 + s.asns.length * 4).sum = as4.length ∧ ∀ s ∈ q,
      s.asns.length ≤ 255 := by
    unfold parseAS4Path at hq
    split_ifs at hq with hnil heven
    · cases hq
      exact ⟨hnil.symm, fun s hs => by cases hs⟩
    · exact length_of_parseAS4Segments hq
  have hwide : (p.map fun s => 2 + s.asns.length * 4).sum ≤ 2 * value.length := by
    rw [← hpsum]
    clear hpsum hp h hpshort
    induction p with
    | nil => exact Nat.le_refl _
    | cons s p ih =>
      simp only [asnSize, Bool.false_eq_true, if_false, map_cons, sum_cons] at ih ⊢
      omega
  have hown : lenWithASN4 p true ≤ 2 * value.length :=
    Nat.le_trans (lenWithASN4_true_le hpshort) hwide
  unfold mergeAS4Path at h
  split at h
  · rename_i heq
    cases heq
  · cases h
    omega
  · rename_i heq _
    cases heq
  · rename_i heq heq'
    cases heq
    cases heq'
    split_ifs at h
    · cases h
      omega
    · cases h
      have hlead := lenWithASN4_leading_le hpshort (countASNs p - countASNs q)
      have hrest := lenWithASN4_as4Segments_le hqspec.2
      rw [lenWithASN4_append]
      omega

/-! ## The sizes -/

/-- The AS4_PATH that counts: none beside an AS4_AGGREGATOR of eight octets and an AGGREGATOR of six
that names another AS than AS_TRANS. -/
def as4PathUsed (aggregator as4Aggregator as4Path : Option (List Octet)) : Option (List Octet) :=
  if (∃ v ∈ as4Aggregator, v.length = 8) ∧ (∃ v ∈ aggregator, aggregatorASIsTrans v =
    some false) then none
  else as4Path

/-- The octets of an AS_PATH at four octets a number: of the path that a readable AS4_PATH
completes, else of the path as it is. -/
def fourOctetPathLen (value : List Octet) (as4Path : Option (List Octet)) : ℕ :=
  match as4Path with
  | none | some [] => (expandASPath2to4 value).elim 0 List.length
  | some as4 =>
    match parseAS4Path as4, parseASPath value false with
    | .ok q, .ok p =>
      ((mergeAS4Path (some p) (some q)).elim 0 fun merged => lenWithASN4 merged true)
    | _, _ => (expandASPath2to4 value).elim 0 List.length

/-- The octets of an AGGREGATOR at four octets for its AS number. -/
def fourOctetAggregatorLen (value : List Octet) : ℕ := if value.length = 6 then 8 else value.length

lemma length_canonicalizeASPath {canonical : Option (List Octet)}
    (h : canonicalizeASPath asPath as4Path = .ok (canonical, discards)) :
    canonical.map List.length = asPath.map fun v => fourOctetPathLen v as4Path := by
  unfold canonicalizeASPath at h
  rcases asPath with _ | value
  · cases h
    rfl
  · simp only at h
    rcases hwide : expandASPath2to4 value with _ | widened
    · rw [hwide] at h
      cases h
    · rw [hwide] at h
      simp only at h
      rcases as4Path with _ | _ | ⟨o, as4⟩
      · cases h
        simp only [map_some, fourOctetPathLen, hwide, elim_some]
      · cases h
        simp only [map_some, fourOctetPathLen, hwide, elim_some]
      · cases h
        unfold reconstructASPath fourOctetPathLen
        rcases hq : parseAS4Path (o :: as4) with e | q
        · simp only [map_some, hq, hwide, elim_some]
        · rcases hp : parseASPath value false with e | p
          · simp only [map_some, hq, hp, hwide, elim_some]
          · rcases hmerge : mergeAS4Path (some p) (some q) with _ | merged
            · unfold mergeAS4Path at hmerge
              rcases q with _ | ⟨s, q⟩
              · cases hmerge
              · simp only at hmerge
                split_ifs at hmerge
            · simp only [map_some, hq, hp, hmerge, elim_some, length_writeToWithASN4_any]

lemma fourOctetPathLen_le (value : List Octet) (as4Path : Option (List Octet)) :
    fourOctetPathLen value as4Path ≤ 2 * value.length + as4Path.elim 0 List.length := by
  have hwide : (expandASPath2to4 value).elim 0 List.length ≤ 2 * value.length := by
    rcases h : expandASPath2to4 value with _ | widened
    · exact Nat.zero_le _
    · exact length_expandASPath2to4_le h
  unfold fourOctetPathLen
  rcases as4Path with _ | _ | ⟨o, as4⟩
  · exact hwide
  · exact hwide
  · simp only
    rcases hq : parseAS4Path (o :: as4) with e | q
    · exact Nat.le_trans hwide (Nat.le_add_right _ _)
    · rcases hp : parseASPath value false with e | p
      · exact Nat.le_trans hwide (Nat.le_add_right _ _)
      · rcases hmerge : mergeAS4Path (some p) (some q) with _ | merged
        · simp only [hmerge]
          exact Nat.zero_le _
        · simp only [hmerge]
          exact lenWithASN4_merge_le hp hq hmerge

lemma length_canonicalAggregator (value : List Octet) :
    (canonicalAggregator value).length = fourOctetAggregatorLen value := by
  unfold canonicalAggregator fourOctetAggregatorLen
  split
  · rfl
  · rename_i hne
    rw [if_neg]
    intro hlen
    match value, hlen with
    | [a, b, c, d, e, f], _ => exact hne a b c d e f rfl

lemma length_of_aggregatorASIsTrans {b : Bool}
    (h : aggregatorASIsTrans value = some b) : value.length = 6 := by
  unfold aggregatorASIsTrans at h
  split at h
  · rfl
  · cases h

lemma length_ne_of_aggregatorASIsTrans
    (h : aggregatorASIsTrans value = none) :
    value.length ≠ 6 := by
  intro hlen
  match value, hlen with
  | [a, b, c, d, e, f], _ => cases h

lemma selectAggregator_lengths (aggregator as4Aggregator as4Path : Option (List Octet)) :
    let chosen := selectAggregator aggregator (as4Aggregator.filter fun v => v.length == 8)
    (if chosen.2.2 then as4Path else none) = as4PathUsed aggregator as4Aggregator as4Path ∧
      (if chosen.1.isNone && aggregator.isSome then aggregator
        else chosen.1.map canonicalAggregator).map List.length =
          aggregator.map fourOctetAggregatorLen := by
  simp only
  unfold as4PathUsed
  rcases aggregator with _ | agg
  · simp [selectAggregator]
  · rcases hfilter : as4Aggregator.filter fun v => v.length == 8 with _ | as4
    · have hno : ¬ ∃ v ∈ as4Aggregator, v.length = 8 := by
        rintro ⟨v, hv, hlen⟩
        rw [Option.mem_def.mp hv, Option.filter_some, if_pos (by simp [hlen])] at hfilter
        cases hfilter
      have hchosen : selectAggregator (some agg) (as4Aggregator.filter fun v => v.length == 8) =
          (some agg, false, true) := by
        rw [hfilter]
        rfl
      have hused : ¬ ((∃ v ∈ as4Aggregator, v.length = 8) ∧
          ∃ v ∈ some agg, aggregatorASIsTrans v = some false) := fun h => hno h.1
      rw [hchosen, if_neg hused]
      simp [length_canonicalAggregator]
    · obtain ⟨hsome, hlen⟩ := Option.filter_eq_some_iff.mp hfilter
      have hlen8 : as4.length = 8 := by simpa using hlen
      have hyes : ∃ v ∈ as4Aggregator, v.length = 8 := ⟨as4, hsome, hlen8⟩
      rw [hfilter]
      rcases htrans : aggregatorASIsTrans agg with _ | _ | _
      · have hne := length_ne_of_aggregatorASIsTrans htrans
        simp [selectAggregator, htrans, fourOctetAggregatorLen, hne]
      · have hused : (∃ v ∈ as4Aggregator, v.length = 8) ∧
            ∃ v ∈ some agg, aggregatorASIsTrans v = some false := ⟨hyes, agg, rfl, htrans⟩
        rw [if_pos hused]
        simp [selectAggregator, htrans, length_canonicalAggregator]
      · have hsix := length_of_aggregatorASIsTrans htrans
        simp [selectAggregator, htrans, length_canonicalAggregator, fourOctetAggregatorLen, hsix,
          hlen8]

lemma length_reconcile {aggregator as4Aggregator : Option (List Octet)}
    {canonical : CanonicalASPathFamily}
    (h : reconcileASPathFamily ⟨asPath, as4Path, aggregator, as4Aggregator, false⟩ =
      .ok canonical) :
    canonical.asPath.map List.length =
        asPath.map (fun v => fourOctetPathLen v (as4PathUsed aggregator as4Aggregator as4Path)) ∧
      canonical.aggregator.map List.length = aggregator.map fourOctetAggregatorLen := by
  obtain ⟨hused, hnode⟩ := selectAggregator_lengths aggregator as4Aggregator as4Path
  unfold reconcileASPathFamily at h
  simp only [Bool.false_eq_true, if_false] at h
  rw [hused] at h
  split at h
  · cases h
  · rename_i hcanonical
    cases h
    exact ⟨length_canonicalizeASPath hcanonical, hnode⟩

/-- The value of the one attribute of a type. Source: aspath_collapse.go attrSpan.value. -/
def valueOf (code : Octet) (attrs : List Attr) : Option (List Octet) :=
  (lastAttr code attrs).map Attr.value

/-- The octets of the value of an AS_PATH after a collapse. -/
def collapsedPathLen (srcASN4 : Bool) (attrs : List Attr) (value : List Octet) : ℕ :=
  if srcASN4 then value.length
  else fourOctetPathLen value
    (as4PathUsed (valueOf attrAggregator attrs) (valueOf attrAS4Aggregator attrs)
      (valueOf attrAS4Path attrs))

/-- The octets of the value of an AGGREGATOR after a collapse. -/
def collapsedAggregatorLen (srcASN4 : Bool) (value : List Octet) : ℕ :=
  if srcASN4 then value.length else fourOctetAggregatorLen value

def collapsedSize (srcASN4 : Bool) (attrs : List Attr) (a : Attr) : ℕ :=
  if a.code = attrASPath then Body.attrSize (collapsedPathLen srcASN4 attrs a.value)
  else if a.code = attrAggregator then Body.attrSize (collapsedAggregatorLen srcASN4 a.value)
  else if a.code = attrAS4Path ∨ a.code = attrAS4Aggregator then 0
  else a.octets.length

/-- The octets of the attributes of a body after a collapse: the AS_PATH and the AGGREGATOR at four
octets an AS number, no AS4 attributes, and the others as they are. -/
def collapsedLength (srcASN4 : Bool) (attrs : List Attr) : ℕ :=
  (attrs.map (collapsedSize srcASN4 attrs)).sum

section

variable {attrs : List Attr} {srcASN4 : Bool} {canonical : CanonicalASPathFamily}
  (honce : (attrs.map Attr.code).Nodup)
  (hcanonical : reconcileASPathFamily ⟨valueOf attrASPath attrs, valueOf attrAS4Path attrs,
    valueOf attrAggregator attrs, valueOf attrAS4Aggregator attrs, srcASN4⟩ = .ok canonical)

include hcanonical

lemma length_canonical :
    canonical.asPath.map List.length =
        (valueOf attrASPath attrs).map (collapsedPathLen srcASN4 attrs) ∧
      canonical.aggregator.map List.length =
        (valueOf attrAggregator attrs).map (collapsedAggregatorLen srcASN4) := by
  rcases srcASN4 with _ | _
  · exact length_reconcile hcanonical
  · cases hcanonical
    exact ⟨rfl, rfl⟩

include honce

variable {a : Attr}

lemma asPath_canonical (ha : a ∈ attrs) (hcode : a.code = attrASPath) :
    ∃ v, canonical.asPath = some v ∧ v.length = collapsedPathLen srcASN4 attrs a.value := by
  have hlen := (length_canonical hcanonical).1
  rw [valueOf, lastAttr_of_code honce ha hcode, map_some, map_some] at hlen
  exact map_eq_some_iff.1 hlen

lemma aggregator_canonical (ha : a ∈ attrs) (hcode : a.code = attrAggregator) :
    ∃ v, canonical.aggregator = some v ∧ v.length = collapsedAggregatorLen srcASN4 a.value := by
  have hlen := (length_canonical hcanonical).2
  rw [valueOf, lastAttr_of_code honce ha hcode, map_some, map_some] at hlen
  exact map_eq_some_iff.1 hlen

omit honce hcanonical in
lemma length_writeAttrValue {flags code : Octet} (hflags : isExtLength flags = false)
    (value : List Octet) :
    (writeAttrValue flags code value).length ≤ 4 + value.length ∧
      value.length ≤ (writeAttrValue flags code value).length ∧
      (value.length < 65536 → (writeAttrValue flags code value).length =
        Body.attrSize value.length) := by
  rw [writeAttrValue, length_append, length_writeHeader, hflags, Body.attrSize]
  refine ⟨?_, ?_, fun hlt => ?_⟩
  · split_ifs <;> omega
  · omega
  · rw [Nat.mod_eq_of_lt hlt]
    simp

lemma length_collapseAttr (ha : a ∈ attrs) :
    (collapseAttr canonical a).length = collapsedSize srcASN4 attrs a ∨
      65536 ≤ (collapseAttr canonical a).length ∧ 65536 ≤ collapsedSize srcASN4 attrs a := by
  have hwritten : ∀ (flags code : Octet) (v : List Octet), isExtLength flags = false →
      (writeAttrValue flags code v).length = Body.attrSize v.length ∨
        65536 ≤ (writeAttrValue flags code v).length ∧ 65536 ≤ Body.attrSize v.length := by
    intro flags code v hflags
    obtain ⟨-, hge, heq⟩ := @length_writeAttrValue flags code hflags v
    by_cases hlt : v.length < 65536
    · exact .inl (heq hlt)
    · rw [Body.attrSize]
      exact .inr ⟨by omega, by omega⟩
  unfold collapseAttr collapsedSize
  by_cases hasp : a.code = attrASPath
  · obtain ⟨v, hv, hlen⟩ := asPath_canonical honce hcanonical ha hasp
    rw [if_pos hasp, if_pos hasp, hv, ← hlen]
    exact hwritten _ _ v (by decide)
  rw [if_neg hasp, if_neg hasp]
  by_cases hagg : a.code = attrAggregator
  · obtain ⟨v, hv, hlen⟩ := aggregator_canonical honce hcanonical ha hagg
    rw [if_pos hagg, if_pos hagg, hv, ← hlen]
    exact hwritten _ _ v (by decide)
  rw [if_neg hagg, if_neg hagg]
  split_ifs
  · exact .inl rfl
  · exact .inl rfl

lemma length_collapsed_lt_iff :
    (attrs.flatMap (collapseAttr canonical)).length < 65536 ↔
      collapsedLength srcASN4 attrs < 65536 := by
  have hsums : ∀ l : List Attr, (∀ a ∈ l, a ∈ attrs) →
      (l.map fun a => (collapseAttr canonical a).length).sum =
        (l.map (collapsedSize srcASN4 attrs)).sum ∨
        65536 ≤ (l.map fun a => (collapseAttr canonical a).length).sum ∧
          65536 ≤ (l.map (collapsedSize srcASN4 attrs)).sum := by
    intro l hl
    induction l with
    | nil => exact .inl rfl
    | cons a l ih =>
      have ha := length_collapseAttr honce hcanonical (hl a mem_cons_self)
      have hrest := ih fun a' ha' => hl a' (mem_cons_of_mem _ ha')
      simp only [map_cons, sum_cons]
      omega
  have hall := hsums attrs fun _ h => h
  rw [length_flatMap, collapsedLength]
  omega

lemma length_collapsed_le :
    (attrs.flatMap (collapseAttr canonical)).length ≤ 2 * (attrs.flatMap Attr.octets).length := by
  -- The AS4_PATH pays for what it adds to the AS_PATH.
  have hone : ∀ a ∈ attrs, ((collapseAttr canonical a).length : ℤ) ≤
      (a.octets.length : ℤ) + (a.octets.length : ℤ) +
      (if a.code = attrASPath then (((valueOf attrAS4Path attrs).elim 0 List.length : ℕ) : ℤ)
        else 0) +
      (if a.code = attrAS4Path then - 2 * (a.octets.length : ℤ) else 0) := by
    intro a ha
    have hhdr : 3 ≤ a.hdrLen := by
      unfold Attr.hdrLen
      split_ifs <;> omega
    have hoctets := Attr.length_octets a
    unfold collapseAttr
    by_cases hasp : a.code = attrASPath
    · obtain ⟨v, hv, hlen⟩ := asPath_canonical honce hcanonical ha hasp
      have hle : v.length ≤ 2 * a.value.length +
          (valueOf attrAS4Path attrs).elim 0 List.length := by
        rw [hlen, collapsedPathLen]
        split_ifs
        · omega
        · refine Nat.le_trans (fourOctetPathLen_le _ _) ?_
          unfold as4PathUsed
          split_ifs
          · exact Nat.le_add_right _ _
          · exact Nat.le_refl _
      have hwrite := (@length_writeAttrValue flagTransitive attrASPath (by decide) v).1
      rw [if_pos hasp, if_pos hasp, if_neg (by rw [hasp]; decide), hv]
      simp only
      omega
    rw [if_neg hasp, if_neg hasp]
    by_cases hagg : a.code = attrAggregator
    · obtain ⟨v, hv, hlen⟩ := aggregator_canonical honce hcanonical ha hagg
      have hle : v.length ≤ a.value.length + 2 := by
        rw [hlen, collapsedAggregatorLen, fourOctetAggregatorLen]
        split_ifs <;> omega
      have hwrite := (@length_writeAttrValue flagOptionalTransitive attrAggregator (by decide) v).1
      rw [if_pos hagg, if_neg (by rw [hagg]; decide), hv]
      simp only
      omega
    rw [if_neg hagg]
    by_cases has4 : a.code = attrAS4Path
    · rw [if_pos (.inl has4), if_pos has4]
      simp only [length_nil]
      omega
    · rw [if_neg has4]
      split_ifs
      · simp only [length_nil]
        omega
      · omega
  have hsum := sum_le_sum hone
  rw [sum_map_add, sum_map_add, sum_map_add, sum_of_once_elim honce, sum_of_once_elim honce] at hsum
  have hout : ((attrs.flatMap (collapseAttr canonical)).length : ℤ) =
      (attrs.map fun a => ((collapseAttr canonical a).length : ℤ)).sum := by
    rw [length_flatMap, ← Nat.coe_castAddMonoidHom, map_list_sum, map_map]
    rfl
  have hin : ((attrs.flatMap Attr.octets).length : ℤ) = (attrs.map fun a =>
      (a.octets.length : ℤ)).sum :=
    Body.length_flatMap_octets attrs id
  have hpays : (((valueOf attrAS4Path attrs).elim 0 List.length : ℕ) : ℤ) +
      ((lastAttr attrAS4Path attrs).elim 0 fun a => - 2 * (a.octets.length : ℤ)) ≤ 0 := by
    unfold valueOf
    rcases lastAttr attrAS4Path attrs with _ | a
    · exact Int.le_refl _
    · have hoctets := Attr.length_octets a
      simp only [map_some, elim_some]
      omega
  have hadds : ((lastAttr attrASPath attrs).elim 0 fun _ =>
      (((valueOf attrAS4Path attrs).elim 0 List.length : ℕ) : ℤ)) ≤
        (((valueOf attrAS4Path attrs).elim 0 List.length : ℕ) : ℤ) := by
    rcases lastAttr attrASPath attrs with _ | a
    · exact Int.natCast_nonneg _
    · exact Int.le_refl _
  rw [← hout, ← hin] at hsum
  omega

end

/-! ## Collapsed bodies -/

/-- The attribute that is left of one. Source: aspath_collapse.go WriteTo. -/
def collapsedAttr (canonical : CanonicalASPathFamily) (a : Attr) : Option Attr :=
  if a.code = attrASPath then canonical.asPath.map (.written flagTransitive attrASPath)
  else if a.code = attrAggregator then
    canonical.aggregator.map (.written flagOptionalTransitive attrAggregator)
  else if a.code = attrAS4Path ∨ a.code = attrAS4Aggregator then none
  else some a

lemma code_of_collapsedAttr {canonical : CanonicalASPathFamily} {a a' : Attr}
    (h : collapsedAttr canonical a = some a') :
      a'.code ≠ attrAS4Path ∧ a'.code ≠ attrAS4Aggregator := by
  unfold collapsedAttr at h
  split_ifs at h with hasp hagg has4
  · obtain ⟨v, -, rfl⟩ := map_eq_some_iff.1 h
    rw [Attr.code_written]
    decide
  · obtain ⟨v, -, rfl⟩ := map_eq_some_iff.1 h
    rw [Attr.code_written]
    decide
  · cases h
    exact not_or.1 has4

lemma collapseAttr_eq_octets {canonical : CanonicalASPathFamily} {a : Attr}
    (h : (collapseAttr canonical a).length < 65536) :
    collapseAttr canonical a = (collapsedAttr canonical a).elim [] Attr.octets := by
  have hwritten : ∀ (flags code : Octet) (v : List Octet), isExtLength flags = false →
      (writeAttrValue flags code v).length < 65536 →
        writeAttrValue flags code v = (Attr.written flags code v).octets := by
    intro flags code v hflags hlt
    have hge := (@length_writeAttrValue flags code hflags v).2.1
    rw [Attr.octets_written (by omega), writeAttrValue, Nat.mod_eq_of_lt (by omega)]
  unfold collapseAttr at h ⊢
  unfold collapsedAttr
  split_ifs at h ⊢ with hasp hagg has4
  · rcases hv : canonical.asPath with _ | v
    · rfl
    · rw [hv] at h
      exact hwritten _ _ v (by decide) h
  · rcases hv : canonical.aggregator with _ | v
    · rfl
    · rw [hv] at h
      exact hwritten _ _ v (by decide) h
  · rfl
  · rfl

lemma flatMap_collapseAttr_eq {canonical : CanonicalASPathFamily} {attrs : List Attr}
    (h : (attrs.flatMap (collapseAttr canonical)).length < 65536) :
    attrs.flatMap (collapseAttr canonical) =
      (attrs.filterMap (collapsedAttr canonical)).flatMap Attr.octets := by
  induction attrs with
  | nil => rfl
  | cons a attrs ih =>
    rw [flatMap_cons, length_append] at h
    rw [flatMap_cons, ih (by omega), collapseAttr_eq_octets (by omega)]
    rcases hattr : collapsedAttr canonical a with _ | a'
    · rw [filterMap_cons_none hattr]
      rfl
    · rw [filterMap_cons_some hattr, flatMap_cons]
      rfl

def collapseAS4FamilySize (payload : List Octet) : ℕ := payload.length + payload.length + 8

/-- The body that a receiver goes on with: what was written, or the body itself if nothing was.
Source: aspath_collapse.go CollapseAS4Family. -/
def goesOn (payload out : List Octet) : List Octet := if out = [] then payload else out

structure CollapsedWell (payload out : List Octet) : Prop where
  /-- What is written fits the buffer. -/
  fits : out.length ≤ collapseAS4FamilySize payload
  /-- The sections and the attributes can be read, the routes are those of the body, and there is no
  AS4 attribute. -/
  reads : ∀ withdrawn attrOctets nlri, splitUpdate payload = .ok (withdrawn, attrOctets, nlri) →
    ∃ attrOctets' attrs, splitUpdate (goesOn payload out) = .ok (withdrawn, attrOctets', nlri) ∧
      scanAttrs (4 + withdrawn.length) attrOctets' = .ok attrs ∧
      ∀ a ∈ attrs, a.code ≠ attrAS4Path ∧ a.code ≠ attrAS4Aggregator
  /-- A collapse of it as a four-octet body leaves it as it is. -/
  again : collapseAS4Family (goesOn payload out) true = .ok ([], [])

/-- The attributes of a body fit their length field after the collapse. -/
def Collapsible (payload : List Octet) (srcASN4 : Bool) : Prop :=
  ∀ withdrawn attrOctets nlri attrs, splitUpdate payload = .ok (withdrawn, attrOctets, nlri) →
    scanAttrs (4 + withdrawn.length) attrOctets = .ok attrs → collapsedLength srcASN4 attrs < 65536

lemma collapseAS4Family_of_noAS4
    {attrs : List Attr} (hsplit : splitUpdate payload = .ok (withdrawn, attrOctets, nlri))
    (hscan : scanAttrs (4 + withdrawn.length) attrOctets = .ok attrs)
    (hno : ∀ a ∈ attrs, a.code ≠ attrAS4Path ∧ a.code ≠ attrAS4Aggregator) :
    collapseAS4Family payload true = .ok ([], []) := by
  rw [collapseAS4Family, hsplit]
  simp only [hscan, lastAttr_eq_none.2 fun a ha => (hno a ha).1, lastAttr_eq_none.2 fun a ha =>
    (hno a ha).2]
  rfl

lemma collapsedLength_true_le (attrs : List Attr) :
    collapsedLength true attrs ≤ (attrs.flatMap Attr.octets).length := by
  have hone : ∀ a ∈ attrs, collapsedSize true attrs a ≤ a.octets.length := by
    intro a _
    have hsize : Body.attrSize a.value.length ≤ a.octets.length := by
      have hfits := a.fits
      rw [Attr.length_octets, Attr.hdrLen, Body.attrSize]
      split_ifs at hfits ⊢ <;> omega
    unfold collapsedSize
    split_ifs
    · exact hsize
    · exact hsize
    · exact Nat.zero_le _
    · exact Nat.le_refl _
  rw [length_flatMap]
  exact sum_le_sum hone

lemma collapseAS4Family_cases {attrs : List Attr} {srcASN4 : Bool}
    (hsplit : splitUpdate payload = .ok (withdrawn, attrOctets, nlri))
    (hscan : scanAttrs (4 + withdrawn.length) attrOctets = .ok attrs)
    (h : collapseAS4Family payload srcASN4 = .ok (out, discards)) :
    (srcASN4 ∧ (∀ a ∈ attrs, a.code ≠ attrAS4Path ∧ a.code ≠ attrAS4Aggregator) ∧ out = []) ∨
      ∃ canonical, reconcileASPathFamily ⟨valueOf attrASPath attrs, valueOf attrAS4Path attrs,
          valueOf attrAggregator attrs, valueOf attrAS4Aggregator attrs, srcASN4⟩ = .ok canonical ∧
        out = putUint16 withdrawn.length ++ withdrawn ++
          putUint16 ((attrs.flatMap (collapseAttr canonical)).length % 65536) ++
          (attrs.flatMap (collapseAttr canonical) ++ nlri) := by
  obtain ⟨hpayload, -, -⟩ := splitUpdate_eq hsplit
  have hhead : payload.take (2 + withdrawn.length) = putUint16 withdrawn.length ++ withdrawn := by
    rw [hpayload]
    exact Body.take_updateOctets _ _ _
  have hmod : ∀ n : ℕ, putUint16 n = putUint16 (n % 65536) := by
    intro n
    have hn : ((n : ℤ) % 65536).toNat = n % 65536 := by omega
    rw [← hn, Body.putUint16_mod]
  rw [collapseAS4Family, hsplit] at h
  simp only [hscan] at h
  split_ifs at h with hcanonical
  · obtain ⟨hsrc, has4, hagg⟩ := hcanonical
    cases h
    refine .inl ⟨hsrc, fun a ha => ⟨?_, ?_⟩, rfl⟩
    · exact lastAttr_eq_none.mp (Option.map_eq_none_iff.mp has4) a ha
    · exact lastAttr_eq_none.mp (Option.map_eq_none_iff.mp hagg) a ha
  · split at h
    · cases h
    · rename_i canonical hreconcile
      cases h
      refine .inr ⟨canonical, hreconcile, ?_⟩
      rw [hhead, ← hmod]
      simp only [append_assoc]

lemma collapsedWell_written {attrs : List Attr} {srcASN4 : Bool} {canonical : CanonicalASPathFamily}
    (hsplit : splitUpdate payload = .ok (withdrawn, attrOctets, nlri))
    (hscan : scanAttrs (4 + withdrawn.length) attrOctets = .ok attrs)
    (honce : (attrs.map Attr.code).Nodup)
    (hcanonical : reconcileASPathFamily ⟨valueOf attrASPath attrs, valueOf attrAS4Path attrs,
      valueOf attrAggregator attrs, valueOf attrAS4Aggregator attrs, srcASN4⟩ = .ok canonical)
    (hout : out = putUint16 withdrawn.length ++ withdrawn ++
      putUint16 ((attrs.flatMap (collapseAttr canonical)).length % 65536) ++
      (attrs.flatMap (collapseAttr canonical) ++ nlri)) :
    CollapsedWell payload out ↔ (attrs.flatMap (collapseAttr canonical)).length < 65536 := by
  obtain ⟨hpayload, hw, -⟩ := splitUpdate_eq hsplit
  have hlen : out.length = 4 + withdrawn.length + (attrs.flatMap (collapseAttr canonical)).length +
      nlri.length := by
    rw [hout]
    simp only [putUint16, length_append, length_cons, length_nil]
    omega
  have hgoes : goesOn payload out = out := by
    rw [goesOn, if_neg]
    rintro rfl
    rw [length_nil] at hlen
    omega
  have hsame := sameRoutes_iff (attrs.flatMap (collapseAttr canonical)) hsplit
    (Nat.mod_lt (attrs.flatMap (collapseAttr canonical)).length (by decide : 0 < 65536))
  rw [← hout] at hsame
  constructor
  · intro hwell
    obtain ⟨attrOctets', -, hread, -⟩ := hwell.reads _ _ _ hsplit
    rw [hgoes] at hread
    have hmod : (attrs.flatMap (collapseAttr canonical)).length % 65536 =
        (attrs.flatMap (collapseAttr canonical)).length := by
      apply hsame.1
      intro withdrawn' attrOctets'' nlri' hsplit'
      rw [hsplit] at hsplit'
      cases hsplit'
      refine ⟨attrOctets', hread, ?_⟩
      have hcount := congrArg List.length (splitUpdate_eq hread).1
      rw [hcount, updateOctets]
      simp only [putUint16, length_append, length_cons, length_nil]
      omega
    omega
  · intro hlt
    have hread : splitUpdate out =
        .ok (withdrawn, attrs.flatMap (collapseAttr canonical), nlri) := by
      rw [hout, Nat.mod_eq_of_lt hlt, splitUpdate_field _ hw hlt,
        if_neg (by rw [length_append]; omega), take_left, drop_left]
    have hscan' : scanAttrs (4 + withdrawn.length) (attrs.flatMap (collapseAttr canonical)) =
        .ok (attrs.filterMap (collapsedAttr canonical)) := by
      rw [flatMap_collapseAttr_eq hlt, scanAttrs_octets]
    have hno : ∀ a ∈ attrs.filterMap (collapsedAttr canonical),
        a.code ≠ attrAS4Path ∧ a.code ≠ attrAS4Aggregator := by
      intro a ha
      obtain ⟨a', -, ha'⟩ := mem_filterMap.1 ha
      exact code_of_collapsedAttr ha'
    have hfits : out.length ≤ collapseAS4FamilySize payload := by
      have hle := length_collapsed_le honce hcanonical
      have hattr := scanAttrs_eq hscan
      have hin := congrArg List.length hpayload
      rw [updateOctets, ← hattr] at hin
      simp only [putUint16, length_append, length_cons, length_nil] at hin
      rw [hlen, collapseAS4FamilySize]
      omega
    refine ⟨hfits, ?_, ?_⟩
    · intro withdrawn' attrOctets' nlri' hsplit'
      rw [hsplit] at hsplit'
      cases hsplit'
      rw [hgoes]
      exact ⟨_, _, hread, hscan', hno⟩
    · rw [hgoes]
      exact collapseAS4Family_of_noAS4 hread hscan' hno

/-- **Collapsed bodies.** For every body that is collapsed, of either AS number width and with no
attribute type twice: what is written fits the buffer of the receiver, has neither AS4 attribute,
its length fields agree with its contents, its routes are those of the body, and a second collapse
leaves it as it is, if and only if the attributes fit their length field after the collapse. -/
theorem collapsed_well_iff {payload out : List Octet} {srcASN4 : Bool}
    {discards : List ASPathDiscard}
    (h : collapseAS4Family payload srcASN4 = .ok (out, discards)) (honce : Once payload) :
    CollapsedWell payload out ↔ Collapsible payload srcASN4 := by
  rcases hsplit : splitUpdate payload with e | ⟨withdrawn, attrOctets, nlri⟩
  · rw [collapseAS4Family, hsplit] at h
    cases h
  rcases hscan : scanAttrs (4 + withdrawn.length) attrOctets with e | attrs
  · rw [collapseAS4Family, hsplit] at h
    simp only [hscan] at h
    cases h
  have hnodup := honce _ _ _ _ hsplit hscan
  have hcollapsible : Collapsible payload srcASN4 ↔ collapsedLength srcASN4 attrs < 65536 := by
    constructor
    · exact fun hall => hall _ _ _ _ hsplit hscan
    · intro hlt withdrawn' attrOctets' nlri' attrs' hsplit' hscan'
      rw [hsplit] at hsplit'
      cases hsplit'
      rw [hscan] at hscan'
      cases hscan'
      exact hlt
  rw [hcollapsible]
  rcases collapseAS4Family_cases hsplit hscan h with ⟨rfl, hno, rfl⟩ | ⟨canonical, hcanonical, hout⟩
  · -- Nothing is written, and the body is as it should be.
    have hle := collapsedLength_true_le attrs
    rw [scanAttrs_eq hscan] at hle
    have hattr := (splitUpdate_eq hsplit).2.2
    refine ⟨fun _ => by omega, fun _ =>
      ⟨Nat.zero_le _, ?_, collapseAS4Family_of_noAS4 hsplit hscan hno⟩⟩
    intro withdrawn' attrOctets' nlri' hsplit'
    rw [hsplit] at hsplit'
    cases hsplit'
    exact ⟨attrOctets, attrs, hsplit, hscan, hno⟩
  · rw [← length_collapsed_lt_iff hnodup hcanonical]
    exact collapsedWell_written hsplit hscan hnodup hcanonical hout

/-- AS_PATH and AS4_PATH as an old speaker sends them: AS 70000 is behind AS 64501. -/
def oldSpeaker : List Attr :=
  [.written flagTransitive attrASPath (writeToWithASN4 [⟨.asSequence, [64501#32, 23456#32]⟩] false),
    .written flagOptionalTransitive attrAS4Path (writeToWithASN4 [⟨.asSequence, [70000#32]⟩] true)]

def oldBody : List Octet := updateOctets [] (oldSpeaker.flatMap Attr.octets) [8#8, 10#8]

/-- The body with its one AS_PATH of four octets. -/
def collapsedBody : List Octet :=
  updateOctets [] (Attr.written flagTransitive attrASPath
    (writeToWithASN4 [⟨.asSequence, [64501#32]⟩, ⟨.asSequence, [70000#32]⟩] true)).octets
    [8#8, 10#8]

/-- The two paths of the old speaker become one. -/
theorem oldSpeaker_collapses :
    collapseAS4Family oldBody false = .ok (collapsedBody, []) ∧
      CollapsedWell oldBody collapsedBody := by
  have hout : collapseAS4Family oldBody false = .ok (collapsedBody, []) := by decide +kernel
  have hattrs : ∀ {withdrawn attrOctets nlri attrs}, splitUpdate oldBody =
      .ok (withdrawn, attrOctets, nlri) →
      scanAttrs (4 + withdrawn.length) attrOctets = .ok attrs → attrs = oldSpeaker := by
    intro withdrawn attrOctets nlri attrs hsplit hscan
    rw [show splitUpdate oldBody = .ok ([], oldSpeaker.flatMap Attr.octets, [8#8, 10#8]) by
      decide +kernel] at hsplit
    cases hsplit
    rw [scanAttrs_octets] at hscan
    exact (Except.ok.inj hscan).symm
  refine ⟨hout, (collapsed_well_iff hout ?_).2 ?_⟩
  · intro withdrawn attrOctets nlri attrs hsplit hscan
    rw [hattrs hsplit hscan]
    decide
  · intro withdrawn attrOctets nlri attrs hsplit hscan
    rw [hattrs hsplit hscan]
    decide +kernel

def sequences (n : ℕ) : Path := replicate n ⟨.asSequence, replicate 255 100#32⟩

lemma wire_sequences (n : ℕ) : Wire (sequences n) := by
  intro s hs
  rw [eq_of_mem_replicate hs]
  exact ⟨cons_ne_nil _ _, Nat.le_of_eq length_replicate⟩

lemma length_sequences (n : ℕ) (asn4 : Bool) :
    (writeToWithASN4 (sequences n) asn4).length = n * (2 + 255 * asnSize asn4) := by
  have hlen : (replicate 255 (100#32 : Asn)).length = 255 := length_replicate
  rw [length_writeToWithASN4_any, lenWithASN4, sequences, map_replicate, sum_replicate]
  simp only [hlen, Nat.nsmul_eq_mul]
  rfl

lemma length_narrow_sequences (n : ℕ) :
    (writeToWithASN4 (narrow (sequences n)) true).length = n * 1022 := by
  have hlen : ((⟨.asSequence, replicate 255 100#32⟩ : Segment).narrow).asns.length = 255 := by
    rw [Segment.narrow, length_map, length_replicate]
  rw [length_writeToWithASN4_any, lenWithASN4, narrow, sequences, map_replicate, map_replicate,
    sum_replicate]
  simp only [hlen, Nat.nsmul_eq_mul]
  rfl

/-- The AS_PATH of an old speaker, of so many sequences of 255 AS numbers. -/
def sequencesAttr (n : ℕ) : Attr :=
  .written flagTransitive attrASPath (writeToWithASN4 (sequences n) false)

lemma collapse_sequences {n : ℕ} (hlow : 65 ≤ n) (hhigh : n ≤ 127) : ∃ out discards,
    collapseAS4Family (bodyOf (sequencesAttr n)) false = .ok (out, discards) ∧
      ¬ CollapsedWell (bodyOf (sequencesAttr n)) out := by
  have hvalue : (writeToWithASN4 (sequences n) false).length < 65536 := by
    rw [length_sequences]
    exact Nat.lt_of_le_of_lt (Nat.mul_le_mul_right _ hhigh) (by decide)
  have hattr : (sequencesAttr n).value = writeToWithASN4 (sequences n) false :=
    Attr.value_written hvalue
  have ha : (sequencesAttr n).octets.length < 65536 := by
    rw [sequencesAttr, Attr.length_octets_written (by decide) hvalue, length_sequences]
    have hle : n * (2 + 255 * asnSize false) ≤ 127 * 512 := Nat.mul_le_mul_right _ hhigh
    split_ifs <;> omega
  have hcode : (sequencesAttr n).code = attrASPath := rfl
  have hnone : ∀ code, code ≠ attrASPath → valueOf code [sequencesAttr n] = none := by
    intro code hne
    rw [valueOf, lastAttr_eq_none.mpr, Option.map_none]
    intro a hmem
    rw [mem_singleton.1 hmem, hcode]
    exact hne.symm
  have honce : ([sequencesAttr n].map Attr.code).Nodup := nodup_singleton _
  have hpath : valueOf attrASPath [sequencesAttr n] =
      some (writeToWithASN4 (sequences n) false) := by
    rw [valueOf, lastAttr_of_code honce mem_cons_self hcode, map_some, hattr]
  have hcanonical : reconcileASPathFamily ⟨valueOf attrASPath [sequencesAttr n],
      valueOf attrAS4Path [sequencesAttr n], valueOf attrAggregator [sequencesAttr n],
      valueOf attrAS4Aggregator [sequencesAttr n], false⟩ =
        .ok ⟨some (writeToWithASN4 (narrow (sequences n)) true), none, []⟩ := by
    rw [hpath, hnone _ (by decide), hnone _ (by decide), hnone _ (by decide), reconcileASPathFamily,
      if_neg Bool.false_ne_true]
    simp only [selectAggregator, canonicalizeASPath, expandASPath2to4_write (wire_sequences n)]
    rfl
  have hsplit := splitUpdate_bodyOf _ ha
  have hscan := scanAttrs_bodyOf (4 + ([] : List Octet).length) (sequencesAttr n)
  have hout : ∃ out discards,
      collapseAS4Family (bodyOf (sequencesAttr n)) false = .ok (out, discards) := by
    rw [collapseAS4Family, hsplit]
    simp only [hscan]
    rw [if_neg (fun h => Bool.false_ne_true h.1)]
    unfold valueOf at hcanonical
    rw [hcanonical]
    exact ⟨_, _, rfl⟩
  obtain ⟨out, discards, hout⟩ := hout
  refine ⟨out, discards, hout, fun hwell => ?_⟩
  rcases collapseAS4Family_cases hsplit hscan hout with ⟨hfalse, -⟩ | ⟨canonical, hcanonical', heq⟩
  · cases hfalse
  · rw [hcanonical] at hcanonical'
    cases hcanonical'
    have hlt := (collapsedWell_written hsplit hscan honce hcanonical heq).1 hwell
    rw [flatMap_singleton, collapseAttr, if_pos hcode] at hlt
    simp only at hlt
    have hflags : isExtLength flagTransitive = false := by decide
    have hge : (writeToWithASN4 (narrow (sequences n)) true).length ≤
        (writeAttrValue flagTransitive attrASPath (writeToWithASN4
          (narrow (sequences n)) true)).length :=
      (length_writeAttrValue hflags _).2.1
    rw [length_narrow_sequences] at hge
    omega

/-- A path of 65 full sequences takes 33280 octets from an old speaker and 66430 after the collapse:
its length field wraps. -/
theorem sequences_not_collapsed : ∃ out discards,
    collapseAS4Family (bodyOf (sequencesAttr 65)) false = .ok (out, discards) ∧
      Once (bodyOf (sequencesAttr 65)) ∧ ¬ CollapsedWell (bodyOf (sequencesAttr 65)) out := by
  have hvalue : (writeToWithASN4 (sequences 65) false).length < 65536 := by
    rw [length_sequences]
    decide
  have ha : (sequencesAttr 65).octets.length < 65536 := by
    rw [sequencesAttr, Attr.length_octets_written (by decide) hvalue, length_sequences]
    decide
  obtain ⟨out, discards, hout, hnot⟩ := collapse_sequences (Nat.le_refl 65) (by decide)
  exact ⟨out, discards, hout, once_bodyOf ha, hnot⟩

end Ze.AsPath
