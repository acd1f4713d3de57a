import Ze.RibStorage.Emission

/-!
# A section through the store and back

What the section written for a stored route has in common with the section that was received:
`toWireBytes_reparses`. What is written is a list of attributes, `emitted`, and a section of
distinct types is parsed as its attributes; the order of the types is `toWireBytes_ascending_iff`.
-/

namespace Ze.RibStorage

open Ze.AsPath Ze.Attribute Ze.Lib List

/-! ## The types that are written -/

section

variable {attrs : List Attr} {e : RouteEntry}

lemma map_code_pooledAttrs (fields : List Field) :
    (pooledAttrs e fields).map Attr.code =
      (fields.filter fun f => (e.pooled f).isSome).map Field.code := by
  induction fields with
  | nil => rfl
  | cons f fields ih =>
    rw [pooledAttrs] at ih ⊢
    rcases h : e.pooled f with _ | value
    · rw [filterMap_cons, h, filter_cons_of_neg (by rw [h]; simp)]
      exact ih
    · rw [filterMap_cons, h, filter_cons_of_pos (by rw [h]; rfl), map_cons, ← ih]
      rfl

lemma emitted_perm (attrs : List Attr) :
    (emitted attrs).Perm
      (pooledAttrs (entryOf attrs) Field.all ++ (others attrs).map restored) := by
  have hall : pooledAttrs (entryOf attrs) Field.all = pooledAttrs (entryOf attrs) Field.leading ++
        pooledAttrs (entryOf attrs) [.largeCommunities] := filterMap_append
  have hcut := filter_append_filter 32 (pairwise_sortedOthers attrs)
  have hsorted := sortedOthers_perm attrs
  rw [← hcut] at hsorted
  rw [emitted, hall]
  simp only [append_assoc]
  refine List.Perm.append_left _ ?_
  rw [← append_assoc]
  refine (perm_append_comm.append_right _).trans ?_
  rw [append_assoc]
  exact hsorted.append_left _

lemma mem_others {a : Attr} : a ∈ others attrs ↔ a ∈ attrs ∧ Field.ofCode a.code = none := by
  rw [others, mem_filter, Option.isNone_iff_eq_none]

lemma nodup_emitted (honce : (attrs.map Attr.code).Nodup) :
    ((emitted attrs).map Attr.code).Nodup := by
  rw [((emitted_perm attrs).map Attr.code).nodup_iff, map_append, map_code_pooledAttrs, map_map]
  refine List.Nodup.append ?_ (honce.sublist (filter_sublist.map Attr.code)) ?_
  · exact (by decide : (Field.all.map Field.code).Nodup).sublist (filter_sublist.map _)
  · rw [disjoint_left]
    intro code hf ho
    obtain ⟨f, -, rfl⟩ := mem_map.1 hf
    obtain ⟨a, ha, hcode⟩ := mem_map.1 ho
    have hnone := (mem_others.1 ha).2
    rw [show a.code = f.code from hcode, Field.ofCode_code] at hnone
    cases hnone

/-! ## The types and values that are written -/

def typeValue (a : Attr) : Octet × List Octet := (a.code, a.value)

lemma map_value_lastAttr {code : Octet} {value : List Octet} (honce : (attrs.map Attr.code).Nodup) :
    (lastAttr code attrs).map Attr.value = some value ↔ (code, value) ∈ attrs.map typeValue := by
  rw [Option.map_eq_some_iff, mem_map]
  constructor
  · rintro ⟨a, ha, rfl⟩
    obtain ⟨hmem, rfl⟩ := mem_of_lastAttr ha
    exact ⟨a, hmem, rfl⟩
  · rintro ⟨a, ha, hpair⟩
    rw [typeValue, Prod.mk.injEq] at hpair
    obtain ⟨rfl, rfl⟩ := hpair
    exact ⟨a, lastAttr_eq_some honce ha, rfl⟩

lemma typeValue_restored (a : Attr) : typeValue (restored a) = typeValue a := by
  rw [typeValue, restored, Attr.value_written (length_value_lt a)]
  rfl

lemma mem_pooledAttrs {p : Octet × List Octet} (honce : (attrs.map Attr.code).Nodup)
    (fields : List Field) :
    p ∈ (pooledAttrs (entryOf attrs) fields).map typeValue ↔
      p ∈ attrs.map typeValue ∧ ∃ f ∈ fields, f.code = p.1 := by
  rw [mem_map]
  constructor
  · rintro ⟨b, hb, rfl⟩
    obtain ⟨f, hf, hmap⟩ := mem_filterMap.1 hb
    obtain ⟨value, hvalue, rfl⟩ := Option.map_eq_some_iff.1 hmap
    refine ⟨?_, f, hf, rfl⟩
    rw [typeValue, pooledAttr, Attr.value_written (length_pooled_lt hvalue)]
    exact (map_value_lastAttr honce).1 hvalue
  · rintro ⟨hp, f, hf, hcode⟩
    obtain ⟨code, value⟩ := p
    dsimp only at hcode
    subst hcode
    have hvalue : (entryOf attrs).pooled f = some value := (map_value_lastAttr honce).2 hp
    refine ⟨pooledAttr f value, mem_filterMap.2 ⟨f, hf, by rw [hvalue]; rfl⟩, ?_⟩
    rw [typeValue, pooledAttr, Attr.value_written (length_pooled_lt hvalue)]
    rfl

/-- Every type is written with its value, and no other. -/
lemma typeValue_emitted (honce : (attrs.map Attr.code).Nodup) :
    ((emitted attrs).map typeValue).Perm (attrs.map typeValue) := by
  have hnodup : ∀ {l : List Attr}, (l.map Attr.code).Nodup → (l.map typeValue).Nodup := by
    intro l hl
    apply List.Nodup.of_map Prod.fst
    rwa [map_map]
  refine (perm_ext_iff_of_nodup (hnodup (nodup_emitted honce)) (hnodup honce)).2 fun p => ?_
  rw [((emitted_perm attrs).map typeValue).mem_iff, map_append, mem_append,
    mem_pooledAttrs honce, map_map]
  constructor
  · rintro (⟨hp, -⟩ | hp)
    · exact hp
    · obtain ⟨a, ha, rfl⟩ := mem_map.1 hp
      rw [Function.comp_apply, typeValue_restored]
      exact mem_map_of_mem (mem_others.1 ha).1
  · intro hp
    obtain ⟨a, ha, rfl⟩ := mem_map.1 hp
    rcases hfield : Field.ofCode a.code with _ | f
    · exact .inr (mem_map.2 ⟨a, mem_others.2 ⟨ha, hfield⟩, typeValue_restored a⟩)
    · exact .inl ⟨hp, f, Field.mem_all f, Field.code_of_ofCode hfield⟩

/-! ## The second parse -/

lemma others_emitted (attrs : List Attr) : others (emitted attrs) = sortedOthers attrs := by
  have hpooled : ∀ fields, others (pooledAttrs (entryOf attrs) fields) = [] := by
    intro fields
    apply filter_eq_nil_iff.2
    intro b hb
    obtain ⟨f, -, hmap⟩ := mem_filterMap.1 hb
    obtain ⟨value, -, rfl⟩ := Option.map_eq_some_iff.1 hmap
    rw [show (pooledAttr f value).code = f.code from rfl, Field.ofCode_code]
    simp
  have hsorted : ∀ p : Attr → Bool, others ((sortedOthers attrs).filter p) =
      (sortedOthers attrs).filter p := by
    intro p
    apply filter_eq_self.2
    intro b hb
    have hmem := (sortedOthers_perm attrs).mem_iff.1 (mem_filter.1 hb).1
    obtain ⟨a, ha, rfl⟩ := mem_map.1 hmem
    rw [show (restored a).code = a.code from rfl, (mem_others.1 ha).2]
    rfl
  have happend : ∀ s t, others (s ++ t) = others s ++ others t := fun s t => filter_append ..
  rw [emitted, happend, happend, happend, hpooled, hpooled, hsorted, hsorted, nil_append,
    append_nil, filter_append_filter 32 (pairwise_sortedOthers attrs)]

lemma length_packed (l : List Attr) :
    (packed l).length = (l.map fun a => 4 + a.value.length).sum := by
  rw [packed, length_flatMap]
  congr 1
  apply map_congr_left
  intro a _
  simp [putUint16]
  omega

lemma length_packed_sortedOthers (attrs : List Attr) :
    (packed (sortedOthers attrs)).length = (packed (others attrs)).length := by
  rw [length_packed, length_packed, ((sortedOthers_perm attrs).map _).sum_eq, map_map]
  congr 1
  apply map_congr_left
  intro a _
  rw [Function.comp_apply, restored, Attr.value_written (length_value_lt a)]

/-- The other attributes as an entry holds them. Source: plugins/rib/storage/attrparse.go
ParseAttributes, after the loop. -/
def stored (l : List Attr) : Option (List Octet) := if l = [] then none else some (packed l)

lemma entryOf_emitted (honce : (attrs.map Attr.code).Nodup) :
    entryOf (emitted attrs) = ⟨(entryOf attrs).pooled, stored (sortedOthers attrs)⟩ := by
  apply RouteEntry.ext
  · funext f
    apply Option.ext
    intro value
    change (lastAttr f.code (emitted attrs)).map Attr.value = some value ↔
      (lastAttr f.code attrs).map Attr.value = some value
    rw [map_value_lastAttr (nodup_emitted honce), map_value_lastAttr honce,
      (typeValue_emitted honce).mem_iff]
  · rw [entryOf, others_emitted]
    rfl

lemma packed_injective {s t : List Attr} (h : packed s = packed t) : s = t := by
  induction s generalizing t with
  | nil =>
    by_contra hne
    have hpos := length_packed_pos.2 (Ne.symm hne)
    rw [← h] at hpos
    exact absurd hpos (Nat.lt_irrefl 0)
  | cons a s ih =>
    rcases t with _ | ⟨b, t⟩
    · have hpos := length_packed_pos.2 (cons_ne_nil a s)
      rw [h] at hpos
      exact absurd hpos (Nat.lt_irrefl 0)
    · have hcons : ∀ (a : Attr) l, packed (a :: l) = a.code :: a.flags ::
          BitVec.ofNat 8 (a.value.length / 256) :: BitVec.ofNat 8 a.value.length ::
          (a.value ++ packed l) := by
        intro a l
        simp [packed, putUint16]
      rw [hcons, hcons] at h
      simp only [cons.injEq] at h
      obtain ⟨hcode, hflags, hhi, hlo, hrest⟩ := h
      have hlen : a.value.length = b.value.length := by
        have ha := uint16_ofNat a.value.length
        rw [hhi, hlo, uint16_ofNat, Nat.mod_eq_of_lt (length_value_lt a),
          Nat.mod_eq_of_lt (length_value_lt b)] at ha
        exact ha.symm
      obtain ⟨hvalue, htail⟩ := append_inj hrest hlen
      rw [ih htail]
      congr 1
      obtain ⟨flags, code, value, hfits⟩ := a
      dsimp only at hcode hflags hvalue
      subst hcode hflags hvalue
      rfl

lemma flags_restored (a : Attr) : (restored a).flags &&& ~~~0x10#8 = a.flags &&& ~~~0x10#8 := by
  have hand : ∀ flags : Octet, flags &&& ~~~0x10#8 &&& ~~~0x10#8 = flags &&& ~~~0x10#8 := by
    decide
  have hor : ∀ flags : Octet, (flags &&& ~~~0x10#8 ||| 0x10#8) &&& ~~~0x10#8 =
      flags &&& ~~~0x10#8 := by
    decide
  rw [restored, Attr.written]
  dsimp only
  split_ifs
  · exact hor _
  · exact hand _

lemma restored_eq_self_iff (a : Attr) :
    restored a = a ↔ isExtLength a.flags = decide (255 < a.value.length) := by
  have hset : ∀ flags : Octet, flags &&& ~~~0x10#8 ||| 0x10#8 = flags ↔ isExtLength flags := by
    decide
  have hclear : ∀ flags : Octet, flags &&& ~~~0x10#8 = flags ↔ isExtLength flags = false := by
    decide
  have hvalue : (restored a).value = a.value := Attr.value_written (length_value_lt a)
  have hflags : restored a = a ↔ (restored a).flags = a.flags := by
    constructor
    · exact congrArg Attr.flags
    · intro h
      have hcode : (restored a).code = a.code := rfl
      generalize restored a = b at h hvalue hcode
      obtain ⟨flags, code, value, hfits⟩ := a
      dsimp only at h hvalue hcode
      subst h hvalue hcode
      rfl
  rw [hflags, restored, Attr.written]
  dsimp only
  split_ifs with hlong
  · rw [hset, decide_eq_true hlong]
  · rw [hclear, decide_eq_false hlong]

lemma isExtLength_restored (a : Attr) :
    isExtLength (restored a).flags = decide (255 < (restored a).value.length) := by
  rw [show (restored a).value = a.value from Attr.value_written (length_value_lt a), restored,
    Attr.written]
  dsimp only
  split_ifs with hlong
  · rw [isExtLength_or, decide_eq_true hlong]
  · rw [isExtLength_and_not, decide_eq_false hlong]

lemma ascending_of_pairwise {l : List Attr} (honce : (l.map Attr.code).Nodup)
    (h : l.Pairwise fun a b => a.code.toNat ≤ b.code.toNat) : Ascending l := by
  refine (h.and (pairwise_map.1 honce)).imp ?_
  rintro a b ⟨hle, hne⟩
  refine Nat.lt_of_le_of_ne hle fun heq => hne ?_
  exact BitVec.eq_of_toNat_eq heq

lemma ascending_sortedOthers (honce : (attrs.map Attr.code).Nodup) :
    Ascending (sortedOthers attrs) := by
  apply ascending_of_pairwise _ (pairwise_sortedOthers attrs)
  rw [((sortedOthers_perm attrs).map Attr.code).nodup_iff, map_map]
  exact honce.sublist (filter_sublist.map Attr.code)

lemma sortedOthers_eq_iff (honce : (attrs.map Attr.code).Nodup) :
    sortedOthers attrs = others attrs ↔ Ascending (others attrs) ∧
      ∀ a ∈ others attrs, isExtLength a.flags = decide (255 < a.value.length) := by
  constructor
  · intro h
    have hasc := ascending_sortedOthers honce
    rw [h] at hasc
    refine ⟨hasc, fun a ha => ?_⟩
    rw [← h] at ha
    obtain ⟨b, -, rfl⟩ := mem_map.1 ((sortedOthers_perm attrs).mem_iff.1 ha)
    exact isExtLength_restored b
  · rintro ⟨hasc, hext⟩
    have hmap : (others attrs).map restored = others attrs := by
      conv_rhs => rw [← map_id (others attrs)]
      exact map_congr_left fun a ha => (restored_eq_self_iff a).2 (hext a ha)
    rw [sortedOthers, hmap]
    exact List.Pairwise.insertionSort_eq (hasc.imp fun h => Nat.le_of_lt h)

lemma entryOf_emitted_eq_iff (honce : (attrs.map Attr.code).Nodup) :
    entryOf (emitted attrs) = entryOf attrs ↔ Ascending (others attrs) ∧
      ∀ a ∈ others attrs, isExtLength a.flags = decide (255 < a.value.length) := by
  rw [← sortedOthers_eq_iff honce, entryOf_emitted honce, RouteEntry.ext_iff]
  change (_ ∧ stored (sortedOthers attrs) = stored (others attrs)) ↔ _
  constructor
  · rintro ⟨-, h⟩
    have hlen := length_packed_sortedOthers attrs
    have hnil : sortedOthers attrs = [] ↔ others attrs = [] := by
      rw [← not_iff_not, ← ne_eq, ← ne_eq, ← length_packed_pos, ← length_packed_pos, hlen]
    rw [stored, stored] at h
    by_cases hnone : others attrs = []
    · rw [hnone, hnil.2 hnone]
    · rw [if_neg hnone, if_neg fun h => hnone (hnil.mp h), Option.some.injEq] at h
      exact packed_injective h
  · intro h
    rw [h]
    exact ⟨rfl, rfl⟩

end

/-- **The round trip.** The section written for a parsed section has the same types and values, and
its other attributes have the flags that they came with up to the Extended Length bit. It is
accepted again; the second entry has the same pooled attributes, and its other attributes are the
restored ones in the order of their types. It is an equal entry exactly when the other attributes
came in that order and used the Extended Length bit for the values over 255 octets alone. -/
theorem toWireBytes_reparses (ord : RangeOrder Octet) {raw : List Octet} {e : RouteEntry}
    (h : parseAttributes raw = .ok e) :
    ∃ attrs sent : List Attr, raw = attrs.flatMap Attr.octets ∧
      toWireBytes ord e = sent.flatMap Attr.octets ∧
      (sent.map typeValue).Perm (attrs.map typeValue) ∧
      (∀ a ∈ others attrs, ∃ b ∈ sent, typeValue b = typeValue a ∧
        b.flags &&& ~~~0x10#8 = a.flags &&& ~~~0x10#8) ∧
      ∃ e', parseAttributes (toWireBytes ord e) = .ok e' ∧ e'.pooled = e.pooled ∧
        e.otherAttrs = stored (others attrs) ∧ e'.otherAttrs = stored (others sent) ∧
        (others sent).Perm ((others attrs).map restored) ∧ Ascending (others sent) ∧
        (e' = e ↔ Ascending (others attrs) ∧
          ∀ a ∈ others attrs, isExtLength a.flags = decide (255 < a.value.length)) := by
  obtain ⟨attrs, hraw, honce, hlen, rfl⟩ := parseAttributes_eq_ok_iff.1 h
  have hwire := toWireBytes_entryOf ord honce
  have hentry := entryOf_emitted honce
  refine ⟨attrs, emitted attrs, hraw, hwire, typeValue_emitted honce, ?_, entryOf (emitted attrs),
    ?_, ?_, rfl, ?_, ?_, ?_, entryOf_emitted_eq_iff honce⟩
  · intro a ha
    have hmem : restored a ∈ emitted attrs := by
      rw [(emitted_perm attrs).mem_iff, mem_append]
      exact .inr (mem_map_of_mem ha)
    exact ⟨restored a, hmem, typeValue_restored a, flags_restored a⟩
  · refine parseAttributes_eq_ok_iff.2 ⟨emitted attrs, hwire, nodup_emitted honce, ?_, rfl⟩
    rwa [others_emitted, length_packed_sortedOthers]
  · rw [hentry]
  · rw [hentry, others_emitted]
  · rw [others_emitted]
    exact sortedOthers_perm attrs
  · rw [others_emitted]
    exact ascending_sortedOthers honce

lemma origin_fits : [0#8].length < if isExtLength 0x40#8 then 65536 else 256 := by
  decide

/-- An ORIGIN and two other attributes, the second of a smaller type. -/
def descendingOthers : List Attr :=
  [⟨0x40#8, 1#8, [0#8], origin_fits⟩, ⟨0xC0#8, 20#8, [7#8], by decide⟩,
    ⟨0xC0#8, 19#8, [9#8], by decide⟩]

lemma parseAttributes_descendingOthers :
    parseAttributes [0x40, 1, 1, 0, 0xC0, 20, 1, 7, 0xC0, 19, 1, 9] =
      .ok (entryOf descendingOthers) :=
  parseAttributes_eq_ok_iff.2 ⟨descendingOthers, by decide, by decide, by decide, rfl⟩

/-- A section whose other attributes are reordered. -/
theorem toWireBytes_reparses_reordered :
    ∃ e, parseAttributes [0x40, 1, 1, 0, 0xC0, 20, 1, 7, 0xC0, 19, 1, 9] = .ok e ∧
      ∃ e', parseAttributes (toWireBytes default e) = .ok e' ∧ e'.pooled = e.pooled := by
  refine ⟨_, parseAttributes_descendingOthers, ?_⟩
  obtain ⟨attrs, sent, -, -, -, -, e', hparse, hpooled, -⟩ :=
    toWireBytes_reparses default parseAttributes_descendingOthers
  exact ⟨e', hparse, hpooled⟩

/-- A section whose second parse does not leave an equal entry: its other attributes are stored in
the order in which they come. -/
theorem toWireBytes_not_reparsed_equal :
    ¬ ∀ (ord : RangeOrder Octet) (raw : List Octet) (e : RouteEntry), parseAttributes raw = .ok e →
      parseAttributes (toWireBytes ord e) = .ok e := by
  intro hclaim
  have honce : (descendingOthers.map Attr.code).Nodup := by decide
  have h := hclaim default _ _ parseAttributes_descendingOthers
  obtain ⟨attrs, hwire, -, -, hentry⟩ := parseAttributes_eq_ok_iff.1 h
  rw [toWireBytes_entryOf default honce] at hwire
  rw [← flatMap_octets_injective hwire] at hentry
  have hother := congrArg RouteEntry.otherAttrs hentry
  revert hother
  decide

/-! ## The order of the types -/

section

variable {attrs : List Attr}

lemma ascending_leading (e : RouteEntry) : Ascending (pooledAttrs e Field.leading) := by
  have hcodes : (Field.leading.map Field.code).Pairwise fun x y => x.toNat < y.toNat := by decide
  rw [Ascending, ← pairwise_map (f := Attr.code) (R := fun x y => x.toNat < y.toNat),
    map_code_pooledAttrs]
  exact hcodes.sublist (filter_sublist.map Field.code)

lemma code_of_mem_pooledAttrs {e : RouteEntry} {fields : List Field} {b : Attr}
    (h : b ∈ pooledAttrs e fields) : ∃ f ∈ fields, b.code = f.code := by
  have hmem := mem_map_of_mem (f := Attr.code) h
  rw [map_code_pooledAttrs] at hmem
  obtain ⟨f, hf, hcode⟩ := mem_map.1 hmem
  exact ⟨f, (mem_filter.1 hf).1, hcode.symm⟩

lemma code_ne_of_mem_sortedOthers {b : Attr} (h : b ∈ sortedOthers attrs) (f : Field) :
    b.code ≠ f.code := by
  obtain ⟨a, ha, rfl⟩ := mem_map.1 ((sortedOthers_perm attrs).mem_iff.1 h)
  intro hcode
  have hnone := (mem_others.1 ha).2
  rw [show a.code = f.code from hcode, Field.ofCode_code] at hnone
  cases hnone

lemma ascending_emitted_iff (honce : (attrs.map Attr.code).Nodup) :
    Ascending (emitted attrs) ↔ ∀ p ∈ pooledAttrs (entryOf attrs) Field.leading,
      ∀ o ∈ sortedOthers attrs, p.code.toNat < o.code.toNat := by
  have hsorted := ascending_sortedOthers honce
  have hlarge : ∀ b ∈ pooledAttrs (entryOf attrs) [.largeCommunities], b.code.toNat = 32 := by
    intro b hb
    obtain ⟨f, hf, hcode⟩ := code_of_mem_pooledAttrs hb
    rw [hcode, mem_singleton.1 hf]
    rfl
  have hleading : ∀ b ∈ pooledAttrs (entryOf attrs) Field.leading, b.code.toNat ≤ 16 := by
    intro b hb
    obtain ⟨f, hf, hcode⟩ := code_of_mem_pooledAttrs hb
    have hsmall : ∀ f ∈ Field.leading, f.code.toNat ≤ 16 := by decide
    rw [hcode]
    exact hsmall f hf
  have hne : ∀ b ∈ sortedOthers attrs, b.code.toNat ≠ 32 := by
    intro b hb heq
    exact code_ne_of_mem_sortedOthers hb .largeCommunities (BitVec.eq_of_toNat_eq heq)
  have hone : Ascending (pooledAttrs (entryOf attrs) [.largeCommunities]) := by
    rw [pooledAttrs, filterMap_cons, filterMap_nil]
    split
    · exact List.Pairwise.nil
    · exact pairwise_singleton _ _
  rw [Ascending, emitted, append_assoc, append_assoc, pairwise_append]
  constructor
  · rintro ⟨-, -, hcross⟩ p hp o ho
    apply hcross p hp
    rw [mem_append, mem_append, mem_filter, mem_filter]
    by_cases hlow : o.code.toNat ≤ 32
    · exact .inl ⟨ho, by simpa using hlow⟩
    · exact .inr (.inr ⟨ho, by simpa using hlow⟩)
  · intro hbefore
    refine ⟨ascending_leading _, ?_, ?_⟩
    · rw [pairwise_append, pairwise_append]
      refine ⟨hsorted.filter _, ⟨hone, hsorted.filter _, ?_⟩, ?_⟩
      · intro b hb o ho
        have ho := (mem_filter.1 ho).2
        rw [decide_eq_true_eq] at ho
        rw [hlarge b hb]
        omega
      · intro o ho b hb
        have hmem := mem_filter.1 ho
        have hlow : o.code.toNat ≤ 32 := by simpa using hmem.2
        have hone := hne o hmem.1
        rcases mem_append.1 hb with hb | hb
        · rw [hlarge b hb]
          omega
        · have hhigh := (mem_filter.1 hb).2
          rw [decide_eq_true_eq] at hhigh
          omega
    · intro p hp b hb
      rcases mem_append.1 hb with hb | hb
      · exact hbefore p hp b (mem_filter.1 hb).1
      · rcases mem_append.1 hb with hb | hb
        · have hle := hleading p hp
          rw [hlarge b hb]
          omega
        · exact hbefore p hp b (mem_filter.1 hb).1

end

/-- **The order of the types.** The section written for a parsed section has its attributes in
strictly ascending type order exactly when every attribute without a pool has a greater type than
every pooled attribute other than the large communities, which alone are merged among the others. -/
theorem toWireBytes_ascending_iff (ord : RangeOrder Octet) {raw : List Octet} {e : RouteEntry}
    (h : parseAttributes raw = .ok e) :
    ∃ attrs : List Attr, raw = attrs.flatMap Attr.octets ∧
      ((∃ sent : List Attr, toWireBytes ord e = sent.flatMap Attr.octets ∧ Ascending sent) ↔
        ∀ a ∈ attrs, ∀ b ∈ attrs, Field.ofCode a.code = none →
          (∃ f, Field.ofCode b.code = some f ∧ f ≠ .largeCommunities) →
          b.code.toNat < a.code.toNat) := by
  obtain ⟨attrs, hraw, honce, -, rfl⟩ := parseAttributes_eq_ok_iff.1 h
  refine ⟨attrs, hraw, ?_⟩
  rw [toWireBytes_entryOf ord honce]
  have hsent : (∃ sent : List Attr, (emitted attrs).flatMap Attr.octets =
      sent.flatMap Attr.octets ∧ Ascending sent) ↔ Ascending (emitted attrs) := by
    constructor
    · rintro ⟨sent, heq, hasc⟩
      rwa [flatMap_octets_injective heq]
    · exact fun hasc => ⟨_, rfl, hasc⟩
  rw [hsent, ascending_emitted_iff honce]
  constructor
  · rintro hbefore a ha b hb hnone ⟨f, hf, hne⟩
    have hleading : f ∈ Field.leading := by
      rcases f <;> first | decide | exact absurd rfl hne
    have hpair : typeValue b ∈ (pooledAttrs (entryOf attrs) Field.leading).map typeValue :=
      (mem_pooledAttrs honce _).2
        ⟨mem_map_of_mem hb, f, hleading, Field.code_of_ofCode hf⟩
    obtain ⟨p, hp, hpb⟩ := mem_map.1 hpair
    have hmem : restored a ∈ sortedOthers attrs :=
      (sortedOthers_perm attrs).mem_iff.2 (mem_map_of_mem (mem_others.2 ⟨ha, hnone⟩))
    have hlt := hbefore p hp _ hmem
    rwa [show p.code = b.code from congrArg Prod.fst hpb] at hlt
  · intro hcond p hp o ho
    obtain ⟨a, ha, rfl⟩ := mem_map.1 ((sortedOthers_perm attrs).mem_iff.1 ho)
    obtain ⟨hmem, f, hf, hcode⟩ := (mem_pooledAttrs honce _).1 (mem_map_of_mem hp)
    obtain ⟨b, hb, hbp⟩ := mem_map.1 hmem
    have hcodeb : b.code = p.code := congrArg Prod.fst hbp
    rw [mem_others] at ha
    have hlt := hcond a ha.1 b hb ha.2 ⟨f, ?_, ?_⟩
    · rwa [hcodeb] at hlt
    · rw [hcodeb, ← show f.code = p.code from hcode, Field.ofCode_code]
    · rintro rfl
      revert hf
      decide

/-- A section whose other attributes are all of greater types. -/
theorem toWireBytes_ascending_others :
    ∃ e, parseAttributes [0x40, 1, 1, 0, 0xC0, 20, 1, 7, 0xC0, 19, 1, 9] = .ok e ∧
      ∃ sent : List Attr, toWireBytes default e = sent.flatMap Attr.octets ∧ Ascending sent := by
  refine ⟨_, parseAttributes_descendingOthers, ?_⟩
  obtain ⟨attrs, hraw, hiff⟩ := toWireBytes_ascending_iff default parseAttributes_descendingOthers
  have hattrs : attrs = descendingOthers := by
    apply flatMap_octets_injective
    rw [← hraw]
    decide
  subst hattrs
  rw [hiff]
  intro a ha b hb hnone hfield
  simp only [descendingOthers, mem_cons, not_mem_nil, or_false] at ha hb
  rcases ha with rfl | rfl | rfl <;> rcases hb with rfl | rfl | rfl <;>
    first | decide | (exfalso; revert hnone; decide) | (exfalso; revert hfield; decide)

/-- The attributes of a received IPv6 route with an extended community. MP_REACH_NLRI, which has no
pool and the smaller type, is written after it. -/
def ipv6WithExtCommunity : List Attr :=
  [⟨0x40#8, 1#8, [0#8], origin_fits⟩, ⟨0x40#8, 2#8, [], by decide⟩,
    ⟨0x80#8, 14#8, [0, 2, 1, 16, 0x20, 1, 0xD, 0xB8, 0, 0, 0, 0, 0, 0, 0, 0, 0, 0, 0, 1, 0, 32,
      0x20, 1, 0xD, 0xB8], by decide⟩, ⟨0xC0#8, 16#8, [0, 2, 0xFD, 0xE8, 0, 0, 0, 1], by decide⟩]

/-- A section that is not written in the order of its types. -/
theorem toWireBytes_not_ascending :
    ¬ ∀ (ord : RangeOrder Octet) (raw : List Octet) (e : RouteEntry), parseAttributes raw = .ok e →
      ∃ sent : List Attr, toWireBytes ord e = sent.flatMap Attr.octets ∧ Ascending sent := by
  intro hclaim
  have honce : (ipv6WithExtCommunity.map Attr.code).Nodup := by decide
  have hparse : parseAttributes (ipv6WithExtCommunity.flatMap Attr.octets) =
      .ok (entryOf ipv6WithExtCommunity) :=
    parseAttributes_eq_ok_iff.2 ⟨_, rfl, honce, by decide, rfl⟩
  obtain ⟨sent, hwire, hasc⟩ := hclaim default _ _ hparse
  rw [toWireBytes_entryOf default honce] at hwire
  rw [← flatMap_octets_injective hwire, Ascending] at hasc
  revert hasc
  decide

end Ze.RibStorage
