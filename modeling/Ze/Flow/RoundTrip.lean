import Ze.Flow.Components

/-!
# Rules there and back

What `ParseFlowSpec` makes of the octets that `WriteTo` writes of a rule. The length field has
twelve bits, and the writer does not ask whether the length fits, so that the parser sees the first
`n % 4096` octets of `n` (`flowSpecValue_writeTo`).
-/

namespace Ze.Flow

open Ze.Net List
open FlowComponent (normal)
open BitVec (ofNat toNat_ofNat)

/-! ## Building a rule -/

def mergeMatches (list : List FlowMatch) : List FlowMatch → List FlowMatch
  | [] => list
  | m :: other => list ++ { m with and := false } :: other

/-- Source: types.go AddComponent, the merge. -/
def FlowComponent.merge (source : NumericComponent) : FlowComponent → FlowComponent
  | pfx c => pfx c
  | numeric c =>
    if c.compType = source.compType then numeric { c with list := mergeMatches c.list source.list }
    else numeric c

@[simp]
lemma FlowComponent.type_merge (source : NumericComponent) (c : FlowComponent) :
    (c.merge source).type = c.type := by
  cases c with
  | pfx c => rfl
  | numeric c =>
    simp only [FlowComponent.merge]
    split_ifs <;> rfl

variable {c : FlowComponent}

lemma FlowComponent.eq_of_merge_eq_pfx {source : NumericComponent}
    {p : PrefixComponent} (h : c.merge source = pfx p) : c = pfx p := by
  cases c with
  | pfx c => exact h
  | numeric c =>
    simp only [FlowComponent.merge] at h
    split_ifs at h

/-- Source: types.go AddComponent, the merge. -/
def FlowSpec.merge (f : FlowSpec) (source : NumericComponent) : FlowSpec where
  afi := f.afi
  components := f.components.map (FlowComponent.merge source)
  nodup := by
    have : FlowComponent.type ∘ FlowComponent.merge source = FlowComponent.type :=
      funext fun c => c.type_merge source
    rw [map_map, this]
    exact f.nodup
  label := by
    intro c hc
    obtain ⟨d, hd, rfl⟩ := mem_map.1 hc
    rw [FlowComponent.type_merge]
    exact f.label d hd
  prefixes := by
    intro p hp
    obtain ⟨d, hd, heq⟩ := mem_map.1 hp
    rw [FlowComponent.eq_of_merge_eq_pfx heq] at hd
    exact f.prefixes p hd

/-- A rule with a component of a new type. Source: types.go AddComponent, the append. -/
def FlowSpec.push (f : FlowSpec) (c : FlowComponent) (hlabel : c.type = .flowLabel → f.afi = .ipv6)
    (hpattern : ∀ p, c = .pfx p → p.validate f.afi = .ok ())
    (hnew : f.componentOfType c.type = none) : FlowSpec where
  afi := f.afi
  components := f.components ++ [c]
  nodup := by
    rw [map_append, map_singleton, nodup_append]
    refine ⟨f.nodup, nodup_singleton _, ?_⟩
    intro t ht s hs heq
    obtain ⟨d, hd, rfl⟩ := mem_map.1 ht
    rw [mem_singleton] at hs
    rw [FlowSpec.componentOfType_eq_some.2 ⟨hd, heq.trans hs⟩] at hnew
    cases hnew
  label := by
    intro d hd
    rcases mem_append.1 hd with hd | hd
    · exact f.label d hd
    · rw [mem_singleton.1 hd]
      exact hlabel
  prefixes := by
    intro p hp
    rcases mem_append.1 hp with hp | hp
    · exact f.prefixes p hp
    · exact hpattern p (mem_singleton.1 hp).symm

/-- Source: types.go AddComponent, the check of a prefix. -/
def FlowComponent.validate (afi : Afi) : FlowComponent → Except FlowError Unit
  | pfx c => c.validate afi
  | numeric _ => .ok ()

lemma FlowComponent.validate_pfx {afi : Afi} (h : c.validate afi = .ok ())
    (p : PrefixComponent) (hp : c = pfx p) : p.validate afi = .ok () := by
  subst hp
  exact h

/-- A component, or none where the source is handed nil. Source: types.go. -/
def FlowSpec.addComponent (f : FlowSpec) : Option FlowComponent → Except FlowError FlowSpec
  | none => .error .invalidType
  | some c =>
    if hlabel : c.type = .flowLabel ∧ f.afi ≠ .ipv6 then .error .invalidType
    else
      match hval : c.validate f.afi with
      | .error e => .error e
      | .ok () =>
        match hnew : f.componentOfType c.type with
        | none =>
          .ok (f.push c (fun h => not_not.1 fun h6 => hlabel ⟨h, h6⟩)
            (FlowComponent.validate_pfx hval) hnew)
        | some present =>
          match present, c with
          | .numeric _, .numeric source => .ok (f.merge source)
          | _, _ => .error (.duplicateType c.type)

lemma FlowSpec.addComponent_cases {f f' : FlowSpec} (h : f.addComponent (some c) = .ok f') :
    f'.afi = f.afi ∧ (f'.components = f.components ++ [c] ∨
      ∃ source, c = .numeric source ∧
        f'.components = f.components.map (FlowComponent.merge source)) := by
  simp only [FlowSpec.addComponent] at h
  split_ifs at h
  split at h
  · cases h
  · split at h
    · cases h
      exact ⟨rfl, .inl rfl⟩
    · split at h
      · cases h
        exact ⟨rfl, .inr ⟨_, rfl, rfl⟩⟩
      · cases h

/-- The rules that come in: what the parser accepts. Source: types.go ParseFlowSpec. -/
def FromWire (f : FlowSpec) : Prop := ∃ data, parseFlowSpec f.afi data = .ok f

/-- The rules that are put together from valid components. Source: types.go NewFlowSpec,
AddComponent. -/
inductive Built : FlowSpec → Prop
  | new (afi : Afi) : Built (newFlowSpec afi)
  | add {f f' : FlowSpec} {c : FlowComponent} (h : Built f) (hc : c.Valid f.afi)
      (hadd : f.addComponent (some c) = .ok f') : Built f'

/-! ## Validity of whole rules -/

section

variable {f : FlowSpec} {afi : Afi}

variable {list : List FlowMatch} {data : List Octet}

lemma mem_mergeMatches {other : List FlowMatch} {m : FlowMatch} (h : m ∈ mergeMatches list other) :
    m ∈ list ∨ ∃ m' ∈ other, m.op = m'.op ∧ m.value = m'.value := by
  rcases other with _ | ⟨m', other⟩
  · exact .inl h
  · rcases mem_append.1 h with h | h
    · exact .inl h
    · rcases mem_cons.1 h with rfl | h
      · exact .inr ⟨m', mem_cons_self, rfl, rfl⟩
      · exact .inr ⟨m, mem_cons_of_mem _ h, rfl, rfl⟩

lemma head?_mergeMatches (hne : list ≠ []) (other : List FlowMatch) :
    (mergeMatches list other).head? = list.head? := by
  rcases other with _ | ⟨m', other⟩
  · rfl
  · rcases list with _ | ⟨m, list⟩
    · exact absurd rfl hne
    · rfl

lemma FlowComponent.valid_merge {source : NumericComponent} {c : FlowComponent}
    (hs : source.Valid afi) (hc : c.Valid afi) : (c.merge source).Valid afi := by
  cases c with
  | pfx c => exact hc
  | numeric c =>
    simp only [FlowComponent.merge]
    split_ifs with htype
    · obtain ⟨hv, hlabel⟩ := hc
      refine ⟨⟨?_, ⟨?_, ?_, ?_⟩, ?_⟩, hlabel⟩
      · intro hnil
        have := head?_mergeMatches hv.nonempty source.list
        rw [show mergeMatches c.list source.list = [] from hnil] at this
        exact hv.nonempty (head?_eq_none_iff.1 this.symm)
      · intro m hm
        rcases mem_mergeMatches hm with h | ⟨m', h, hop, -⟩
        · exact hv.clean.op m h
        · show m.op &&& c.compType.opMask = m.op
          rw [htype, hop]
          exact hs.clean.op m' h
      · intro m hm
        rcases mem_mergeMatches hm with h | ⟨m', h, -, hval⟩
        · exact hv.clean.value m h
        · show c.compType.keep afi m.value = m.value
          rw [htype, hval]
          exact hs.clean.value m' h
      · intro m hm
        rw [head?_mergeMatches hv.nonempty] at hm
        exact hv.clean.head m hm
      · intro m hm
        rcases mem_mergeMatches hm with h | ⟨m', h, -, hval⟩
        · exact hv.narrow m h
        · show Narrow c.compType m.value
          rw [htype, hval]
          exact hs.narrow m' h
    · exact hc

lemma Built.valid (h : Built f) : ∀ c ∈ f.components, c.Valid f.afi := by
  induction h with
  | new afi => simp [newFlowSpec]
  | add h hc hadd ih =>
    obtain ⟨hafi, hcases⟩ := FlowSpec.addComponent_cases hadd
    rw [hafi]
    intro d hd
    rcases hcases with heq | ⟨source, rfl, heq⟩
    · rw [heq] at hd
      rcases mem_append.1 hd with hd | hd
      · exact ih d hd
      · rw [mem_singleton.1 hd]
        exact hc
    · rw [heq] at hd
      obtain ⟨e, he, rfl⟩ := mem_map.1 hd
      exact FlowComponent.valid_merge hc.1 (ih e he)

lemma parseFlowSpec_eq_ok :
    parseFlowSpec afi data = .ok f ↔
      ∃ value, flowSpecValue data = .ok value ∧ parseComponents afi none value = .ok f.components ∧
        f.afi = afi := by
  unfold parseFlowSpec
  rcases hv : flowSpecValue data with e | value
  · simp
  · simp only [Except.ok.injEq, exists_eq_left']
    split
    · rename_i e he
      simp [he]
    · rename_i cs hcs
      constructor
      · intro h
        cases h
        exact ⟨hcs, rfl⟩
      · rintro ⟨h, rfl⟩
        obtain rfl := Except.ok.inj (hcs.symm.trans h)
        rfl

lemma valid_of_parseComponents {previous : Option ComponentType}
    {cs : List FlowComponent} (h : parseComponents afi previous data = .ok cs) :
    ∀ c ∈ cs, c.Valid afi ∧ c.normal = c := by
  induction cs generalizing previous data with
  | nil => simp
  | cons c cs ih =>
    rcases parseComponents_eq_ok.1 h with ⟨-, hnil⟩ | ⟨c', rest, cs', hc, -, hrest, heq⟩
    · cases hnil
    · obtain ⟨rfl, rfl⟩ := cons.inj heq
      intro d hd
      rcases mem_cons.1 hd with rfl | hd
      · exact valid_of_parse hc
      · exact ih hrest d hd

/-- A rule that was parsed has valid components, in the order of their types, each its own normal
form. -/
lemma FromWire.spec (h : FromWire f) :
    (∀ c ∈ f.components, c.Valid f.afi ∧ c.normal = c) ∧
      f.components.Pairwise fun a b => a.type.code < b.type.code := by
  obtain ⟨data, hdata⟩ := h
  obtain ⟨value, -, hcs, -⟩ := parseFlowSpec_eq_ok.1 hdata
  exact ⟨valid_of_parseComponents hcs, (parseComponents_spec hcs).1⟩

end

/-! ## The order of the components -/

section

variable {f : FlowSpec}

lemma FlowSpec.mem_sorted {c : FlowComponent} : c ∈ f.sorted ↔ c ∈ f.components := by
  unfold FlowSpec.sorted
  rw [mem_filterMap]
  constructor
  · rintro ⟨t, -, ht⟩
    exact (FlowSpec.componentOfType_eq_some.1 ht).1
  · intro hc
    refine ⟨c.type, ?_, FlowSpec.componentOfType_eq_some.2 ⟨hc, rfl⟩⟩
    cases c.type <;> decide

lemma FlowSpec.pairwise_sorted : f.sorted.Pairwise fun a b => a.type.code < b.type.code := by
  have hall : ComponentType.all.Pairwise fun a b => a.code < b.code := by decide
  refine hall.filterMap _ ?_
  intro a b hab c hc d hd
  rw [(FlowSpec.componentOfType_eq_some.1 hc).2, (FlowSpec.componentOfType_eq_some.1 hd).2]
  exact hab

lemma FlowSpec.perm_sorted : f.sorted.Perm f.components := by
  refine (perm_ext_iff_of_nodup ?_ (List.Nodup.of_map _ f.nodup)).2 fun c =>
    FlowSpec.mem_sorted
  exact f.pairwise_sorted.imp fun hab heq =>
    hab.ne (congrArg (ComponentType.code ∘ FlowComponent.type) heq)

lemma FlowSpec.sorted_eq (h : f.components.Pairwise fun a b => a.type.code < b.type.code) :
    f.sorted = f.components :=
  f.perm_sorted.eq_of_pairwise (fun _ _ _ _ hab hba => absurd hba hab.asymm) f.pairwise_sorted h

lemma FlowSpec.length_writeComponentsSorted (h : ∀ c ∈ f.components, c.Valid f.afi) :
    f.writeComponentsSorted.length = f.componentLen := by
  unfold FlowSpec.writeComponentsSorted FlowSpec.componentLen
  rw [length_flatMap, ← (f.perm_sorted.map _).sum_nat]
  congr 1
  apply map_congr_left
  intro c hc
  exact FlowComponent.length_writeTo (h c (FlowSpec.mem_sorted.1 hc))

lemma FlowSpec.length_writeTo (h : ∀ c ∈ f.components, c.Valid f.afi) :
    f.writeTo.length = f.len := by
  unfold FlowSpec.writeTo FlowSpec.len
  simp only
  split_ifs
  · rw [length_cons, f.length_writeComponentsSorted h, Nat.add_comm]
  · rw [length_cons, length_cons, f.length_writeComponentsSorted h]
    omega

end

/-! ## The length field -/

lemma longLength (n : ℕ) :
    240 ≤ (0xF0#8 ||| ofNat 8 (n >>> 8)).toNat ∧
      (((0xF0#8 ||| ofNat 8 (n >>> 8)) &&& 0x0F#8).toNat <<< 8 ||| (ofNat 8 n).toNat)
        = n % 4096 := by
  constructor
  · rw [BitVec.toNat_or]
    exact Nat.left_le_or
  · have hlow : (0xF0#8 ||| ofNat 8 (n >>> 8)) &&& 0x0F#8 = ofNat 8 (n >>> 8) &&&
        0x0F#8 := by
      rw [BitVec.and_comm, BitVec.and_or_distrib_left, show (0x0F#8 &&& 0xF0#8) = 0#8 from rfl,
        BitVec.zero_or, BitVec.and_comm]
    rw [hlow, BitVec.toNat_and, toNat_ofNat n, toNat_ofNat (n >>> 8),
      show (0x0F#8).toNat = 2 ^ 4 - 1 from rfl, Nat.and_two_pow_sub_one_eq_mod,
      ← Nat.shiftLeft_add_eq_or_of_lt (Nat.mod_lt n (by decide)), Nat.shiftLeft_eq,
      Nat.shiftRight_eq_div_pow]
    omega

section

variable {f : FlowSpec}

lemma flowSpecValue_writeTo (h : ∀ c ∈ f.components, c.Valid f.afi) :
    flowSpecValue f.writeTo = .ok (f.writeComponentsSorted.take (f.componentLen % 4096)) := by
  have hlen := f.length_writeComponentsSorted h
  unfold FlowSpec.writeTo
  simp only
  split_ifs with hshort
  · have htoNat : (ofNat 8 f.componentLen).toNat = f.componentLen := by
      rw [toNat_ofNat, Nat.mod_eq_of_lt (by omega)]
    unfold flowSpecValue
    simp only [htoNat]
    rw [if_pos hshort, if_neg (by omega), Nat.mod_eq_of_lt (by omega)]
  · obtain ⟨hlong, hvalue⟩ := longLength f.componentLen
    unfold flowSpecValue
    simp only [hvalue]
    rw [if_neg (by omega), if_neg]
    rw [hlen]
    omega

/-- Whether a rule comes back when it is written and parsed again: as many octets as the rule says,
and the same components, a prefix as its pattern; a rule that was itself parsed comes back as it
was. Source: types.go ParseFlowSpec, WriteTo, Len. -/
def RoundTrips (f : FlowSpec) : Prop :=
  f.writeTo.length = f.len ∧
    ∃ f', parseFlowSpec f.afi f.writeTo = .ok f' ∧
      (∀ t, f'.componentOfType t = (f.componentOfType t).map normal) ∧
      (FromWire f → f' = f)

lemma exists_parse_writeTo (h : ∀ c ∈ f.components, c.Valid f.afi) (hlt : f.componentLen < 4096) :
    ∃ f', parseFlowSpec f.afi f.writeTo = .ok f' ∧
      f'.components = f.sorted.map normal := by
  have hcs : parseComponents f.afi none f.writeComponentsSorted
      = .ok (f.sorted.map normal) :=
    parseComponents_writeTo (fun c hc => h c (FlowSpec.mem_sorted.1 hc)) (fun _ _ _ h =>
      by cases h)
      f.pairwise_sorted
  have hval := flowSpecValue_writeTo h
  rw [Nat.mod_eq_of_lt hlt, ← f.length_writeComponentsSorted h, take_length] at hval
  obtain ⟨hord, -, hlabel, hprefixes⟩ := parseComponents_spec hcs
  refine ⟨⟨f.afi, f.sorted.map normal, ?_, hlabel, hprefixes⟩, ?_, rfl⟩
  · exact hord.map _ fun a b hab heq => hab.ne (congrArg ComponentType.code heq)
  · exact parseFlowSpec_eq_ok.2 ⟨_, hval, hcs, rfl⟩

variable {f' : FlowSpec}

lemma componentOfType_normal
    (h : f'.components = f.sorted.map normal) (t : ComponentType) :
    f'.componentOfType t = (f.componentOfType t).map normal := by
  apply Option.ext
  intro c
  rw [FlowSpec.componentOfType_eq_some, h, Option.map_eq_some_iff, mem_map]
  constructor
  · rintro ⟨⟨d, hd, rfl⟩, ht⟩
    rw [FlowComponent.type_normal] at ht
    exact ⟨d, FlowSpec.componentOfType_eq_some.2 ⟨FlowSpec.mem_sorted.1 hd, ht⟩, rfl⟩
  · rintro ⟨d, hd, rfl⟩
    obtain ⟨hmem, ht⟩ := FlowSpec.componentOfType_eq_some.1 hd
    exact ⟨⟨d, FlowSpec.mem_sorted.2 hmem, rfl⟩, by rw [FlowComponent.type_normal, ht]⟩

lemma FromWire.sorted_normal (h : FromWire f) :
    f.sorted.map normal = f.components := by
  obtain ⟨hall, hord⟩ := h.spec
  rw [f.sorted_eq hord]
  calc f.components.map normal = f.components.map id :=
        map_congr_left fun c hc => (hall c hc).2
    _ = f.components := map_id _

lemma exists_missing (h : ∀ c ∈ f.components, c.Valid f.afi)
    (hge : 4096 ≤ f.componentLen) (hparse : parseFlowSpec f.afi f.writeTo = .ok f') :
    ∃ c ∈ f.components, f'.componentOfType c.type = none := by
  obtain ⟨value, hval, hcs, -⟩ := parseFlowSpec_eq_ok.1 hparse
  rw [flowSpecValue_writeTo h] at hval
  cases hval
  have hall : parseComponents f.afi none (f.writeComponentsSorted.take (f.componentLen % 4096) ++
      f.writeComponentsSorted.drop (f.componentLen % 4096)) =
        .ok (f.sorted.map normal) := by
    rw [take_append_drop]
    exact parseComponents_writeTo (fun c hc => h c (FlowSpec.mem_sorted.1 hc))
      (fun _ _ _ h => by cases h) f.pairwise_sorted
  obtain ⟨es, heq, hes⟩ := parseComponents_append hcs hall
  have hdrop : f.writeComponentsSorted.drop (f.componentLen % 4096) ≠ [] := by
    rw [Ne, drop_eq_nil_iff, f.length_writeComponentsSorted h, Nat.not_le]
    have := Nat.mod_lt f.componentLen (by decide : 4096 > 0)
    omega
  obtain ⟨e, he⟩ := exists_mem_of_ne_nil es (hes hdrop)
  have hmem : e ∈ f.sorted.map normal := by
    rw [heq]
    exact mem_append_right _ he
  obtain ⟨c, hc, rfl⟩ := mem_map.1 hmem
  refine ⟨c, FlowSpec.mem_sorted.1 hc, ?_⟩
  rw [Option.eq_none_iff_forall_ne_some]
  intro d hd
  obtain ⟨hd, htype⟩ := FlowSpec.componentOfType_eq_some.1 hd
  -- the types of what is there come before those of what is missing
  have hord := (parseComponents_spec hall).1
  rw [heq] at hord
  have := (pairwise_append.1 hord).2.2 d hd c.normal he
  rw [FlowComponent.type_normal, htype] at this
  exact lt_irrefl _ this

/-- A rule comes back exactly if its components take fewer than 4096 octets. -/
theorem roundTrips_iff (h : FromWire f ∨ Built f) : RoundTrips f ↔ f.componentLen < 4096 := by
  have hvalid : ∀ c ∈ f.components, c.Valid f.afi := by
    rcases h with h | h
    · exact fun c hc => (h.spec.1 c hc).1
    · exact h.valid
  constructor
  · rintro ⟨-, f', hparse, hsame, -⟩
    by_contra hge
    obtain ⟨c, hc, hnone⟩ := exists_missing hvalid (by omega) hparse
    rw [hsame, FlowSpec.componentOfType_eq_some.2 ⟨hc, rfl⟩] at hnone
    cases hnone
  · intro hlt
    obtain ⟨f', hparse, hcs⟩ := exists_parse_writeTo hvalid hlt
    refine ⟨f.length_writeTo hvalid, f', hparse, componentOfType_normal hcs, fun hwire => ?_⟩
    have hafi := (parseFlowSpec_eq_ok.1 hparse).choose_spec.2.2
    rw [hwire.sorted_normal] at hcs
    cases f
    cases f'
    simp only at hafi hcs
    subst hafi hcs
    rfl

end

def hostRule : FlowSpec where
  afi := .ipv4
  components :=
    [.pfx ⟨.destPrefix, rfl, ⟨.v4 0x0A000001#32, 24⟩, 0⟩, .numeric ⟨.destPort, rfl,
      [⟨1#8, false, 80#64⟩]⟩]
  nodup := by decide
  label := by decide
  prefixes := by
    intro c hc
    simp only [mem_cons, not_mem_nil, or_false, FlowComponent.pfx.injEq, reduceCtorEq] at hc
    subst hc
    decide

lemma hostRule_built : Built hostRule := by
  refine .add (c := .numeric ⟨.destPort, rfl, [⟨1#8, false, 80#64⟩]⟩)
    (.add (.new .ipv4) (c := .pfx ⟨.destPrefix, rfl, ⟨.v4 0x0A000001#32, 24⟩, 0⟩) ?_ rfl) ?_ rfl
  · show PrefixComponent.validate _ _ = _
    decide
  · refine ⟨⟨cons_ne_nil _ _, ⟨?_, ?_, ?_⟩, ?_⟩, fun h => by cases h⟩
    · simp [ComponentType.opMask, ComponentType.isBitmask]
    · simp [ComponentType.keep]
    · simp
    · simp [Narrow]

theorem roundTrips_hostRule :
    (FromWire hostRule ∨ Built hostRule) ∧ (RoundTrips hostRule ↔ hostRule.componentLen < 4096) :=
  ⟨.inr hostRule_built, roundTrips_iff (.inr hostRule_built)⟩

def labelList : List FlowMatch := replicate 820 ⟨1#8, false, 1#64⟩

def labelRule : FlowSpec where
  afi := .ipv6
  components := [.numeric ⟨.flowLabel, rfl, labelList⟩]
  nodup := nodup_singleton _
  label := fun _ _ _ => rfl
  prefixes := by simp

/-- The rule as a peer may send it, with one octet for each label. -/
def labelOctets : List Octet :=
  0xF6#8 :: 0x69#8 :: 13#8 :: encodeMatches .flowLabel .ipv6 (fun _ => 0#8) true labelList

lemma length_encodeMatches_single {t : ComponentType} {afi : Afi} (first : Bool)
    (list : List FlowMatch) :
    (encodeMatches t afi (fun _ => 0#8) first list).length = 2 * list.length := by
  induction list generalizing first with
  | nil => rfl
  | cons m list ih =>
    rw [encodeMatches, length_append, length_encodePair, ih, length_cons]
    show 1 + 2 ^ 0 + _ = _
    omega

lemma parse_labelOctets : parseFlowSpec .ipv6 labelOctets = .ok labelRule := by
  have hm : ∀ m ∈ labelList, m = ⟨1#8, false, 1#64⟩ := fun m hm => eq_of_mem_replicate hm
  have hclean : Clean .flowLabel .ipv6 labelList := by
    refine ⟨fun m h => ?_, fun m h => ?_, fun m h => ?_⟩
    · rw [hm m h]
      rfl
    · rw [hm m h]
      rfl
    · rw [hm m (mem_of_mem_head? h)]
  have hparse : parseNumericComponent .flowLabel rfl
      (encodeMatches .flowLabel .ipv6 (fun _ => 0#8) true labelList ++ []) .ipv6
        = .ok (.numeric ⟨.flowLabel, rfl, labelList⟩, []) := by
    refine parse_encodeMatches (cons_ne_nil _ _) hclean (fun m h => ?_) []
    rw [hm m h]
    exact ⟨by decide, fun h => (by cases h), fun _ => rfl, by decide⟩
  have hone : parseFlowComponent
      (13#8 :: encodeMatches .flowLabel .ipv6 (fun _ => 0#8) true labelList) .ipv6
        = .ok (.numeric ⟨.flowLabel, rfl, labelList⟩, []) := by
    rw [append_nil] at hparse
    exact hparse
  refine parseFlowSpec_eq_ok.2
    ⟨13#8 :: encodeMatches .flowLabel .ipv6 (fun _ => 0#8) true labelList, ?_, ?_, rfl⟩
  · unfold labelOctets flowSpecValue
    have hlen : (13#8 :: encodeMatches .flowLabel .ipv6 (fun _ => 0#8) true labelList).length =
        1641 := by
      rw [length_cons, length_encodeMatches_single, labelList, length_replicate]
    generalize 13#8 :: encodeMatches .flowLabel .ipv6 (fun _ => 0#8) true labelList = body at hlen ⊢
    simp only
    rw [if_neg (by decide), if_neg (by rw [hlen]; decide), take_of_length_le (by rw [hlen]; decide)]
  · have hnil : parseComponents .ipv6 (some .flowLabel) [] = .ok [] :=
      parseComponents_eq_ok.2 (.inl ⟨rfl, rfl⟩)
    refine parseComponents_eq_ok.2 (.inr ⟨_, [], [], hone, ?_, hnil, rfl⟩)
    intro p hp
    cases hp

lemma componentLen_labelRule : labelRule.componentLen = 4101 := by
  have hlen : NumericComponent.len ⟨.flowLabel, rfl, labelList⟩ = 4101 := by
    unfold NumericComponent.len labelList
    rw [if_neg (by decide), map_replicate, sum_replicate_nat]
    rfl
  unfold FlowSpec.componentLen labelRule
  rw [map_singleton, sum_singleton]
  exact hlen

/-- The labels are written with four octets each, and the length no longer fits. -/
theorem roundTrips_labelRule :
    parseFlowSpec .ipv6 labelOctets = .ok labelRule ∧ ¬ RoundTrips labelRule := by
  have hwire : FromWire labelRule := ⟨labelOctets, parse_labelOctets⟩
  refine ⟨parse_labelOctets, ?_⟩
  rintro ⟨-, f', hparse, hsame, -⟩
  obtain ⟨c, hc, hnone⟩ := exists_missing (fun c hc => (hwire.spec.1 c hc).1)
    (by rw [componentLen_labelRule]; decide) hparse
  rw [hsame, FlowSpec.componentOfType_eq_some.2 ⟨hc, rfl⟩] at hnone
  cases hnone

end Ze.Flow
