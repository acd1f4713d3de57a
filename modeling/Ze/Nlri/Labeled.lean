import Ze.Nlri.Split

/-!
# Labeled NLRI

A labeled NLRI is a length octet, a label stack and a prefix; the length counts the bits of both.
Four functions of `core/bgp/nlri/nlrisplit` walk the stack, each in its own way: `SplitLabeled` and
`ExtractLabels` read entries until the bottom-of-stack bit, `labelFieldEnd` does so while the length
has bits left, and `splitByBitLength` reads the length octet alone.
-/

namespace Ze.Nlri

open List

open Ze.AsPath (Octet)
open Option (bind_some map_eq_some_iff map_some some.inj)
open BitVec (ofNat toNat_inj toNat_ofNat)

/-! ## The prefix and its key -/

/-- Clear the bits of the last octet behind the prefix of so many bits.
Source: nlrisplit/prefix_key.go keyLabeled, keyCIDR, writeWithdrawalNLRI -/
def clearTail (bits : ℕ) (octets : List Octet) : List Octet :=
  if bits % 8 = 0 then octets
  else octets.modify (octets.length - 1) (· &&& (0xff#8 <<< (8 - bits % 8)))

/-- The loop of `labelFieldEnd`. Source: prefix_key.go labelFieldEnd. -/
def labelFieldLoop (raw : List Octet) (withdraw : Bool) : ℕ → ℕ → ℕ → Option (ℕ × ℕ)
  | 0, _, _ => none
  | turns + 1, off, bits =>
    if bits < 24 ∨ raw.length < off + 3 then none
    else if withdraw = true ∨ raw.getD (off + 2) 0#8 &&& 1#8 ≠ 0#8 then some (off + 3, bits - 24)
    else labelFieldLoop raw withdraw turns (off + 3) (bits - 24)

/-- Where the label field ends, and the bits the length counts behind it.
Source: prefix_key.go. -/
def labelFieldEnd (raw : List Octet) (withdraw : Bool) : Option (ℕ × ℕ) :=
  labelFieldLoop raw withdraw (raw.length + 1) 1 (raw.getD 0 0#8).toNat

def labeledPrefix (raw : List Octet) (withdraw : Bool) : Option (ℕ × List Octet) :=
  if raw = [] then none
  else (labelFieldEnd raw withdraw).map fun field => (field.2, raw.drop field.1)

def prefixKeyScratchSize : ℕ := 64

/-- The key of a labeled NLRI, built in a scratch of so many octets; `none` is `errPrefixKey`.
Source: prefix_key.go. -/
def keyLabeled (raw : List Octet) (scratch : ℕ) (withdraw : Bool) : Option (List Octet) :=
  if raw.length < 4 ∨ raw.length ≠ 1 + ((raw.getD 0 0#8).toNat + 7) / 8 ∨ scratch < raw.length then
    none
  else
    (labeledPrefix raw withdraw).map fun p => clearTail p.1 (ofNat 8 p.1 :: p.2)

def vpnKeyBitsMin : ℕ := 64

def keyVPN (raw : List Octet) (scratch : ℕ) (withdraw : Bool) : Option (List Octet) :=
  match keyLabeled raw scratch withdraw with
  | none => none
  | some key => if (key.getD 0 0#8).toNat < vpnKeyBitsMin then none else some key

/-! ## Labels and CIDR -/

/-- Source: nlrisplit/labeled.go ExtractLabels, the errors. -/
inductive ExtractError
  | truncatedLabeledNlri
  | truncatedLabelStack
  | invalidTotalBits (totalBits labels : ℕ)
  | truncatedPrefix
  deriving DecidableEq, Repr

/-- The label of an entry. Source: labeled.go ExtractLabels. -/
def labelAt (entry : List Octet) (pos : ℕ) : BitVec 32 :=
  (entry.getD pos 0#8).setWidth 32 <<< 12 ||| (entry.getD (pos + 1) 0#8).setWidth 32 <<< 4 |||
    (entry.getD (pos + 2) 0#8).setWidth 32 >>> 4

/-- The loop of `ExtractLabels`: the labels, and the position behind the last.
Source: labeled.go ExtractLabels -/
def extractLoop (entry : List Octet) : ℕ → ℕ → List (BitVec 32) → Option (List (BitVec 32) × ℕ)
  | 0, _, _ => none
  | turns + 1, pos, labels =>
    if entry.length < pos + 3 then none
    else if entry.getD (pos + 2) 0#8 &&& 1#8 = 1#8 then
      some (labels ++ [labelAt entry pos], pos + 3)
    else extractLoop entry turns (pos + 3) (labels ++ [labelAt entry pos])

/-- The labels of an entry and its CIDR, with the Path Identifier kept. Source: labeled.go. -/
def extractLabels (entry : List Octet) (addPath : Bool) :
    Except ExtractError (List (BitVec 32) × List Octet) :=
  if entry.length < head addPath + 4 then .error .truncatedLabeledNlri
  else
    let totalBits := (entry.getD (head addPath) 0#8).toNat
    match extractLoop entry (entry.length + 1) (head addPath + 1) [] with
    | none => .error .truncatedLabelStack
    | some (labels, pos) =>
      if totalBits < labels.length * 24 then .error (.invalidTotalBits totalBits labels.length)
      else
        let prefixBits := totalBits - labels.length * 24
        let prefixBytes := (prefixBits + 7) / 8
        if entry.length < pos + prefixBytes then .error .truncatedPrefix
        else .ok (labels, entry.take (head addPath) ++
          (ofNat 8 prefixBits :: (entry.drop pos).take prefixBytes))

/-! ## One depth for three walks -/

/-- The entries of a stack up to the bottom-of-stack bit, that one included. -/
def depth : List Octet → Option ℕ
  | _ :: _ :: c :: rest => if c &&& 1#8 = 1#8 then some 1 else (depth rest).map (· + 1)
  | [] | [_] | [_, _] => none

lemma depth_drop (data : List Octet) (p : ℕ) :
    depth (data.drop p) =
      if data.length < p + 3 then none
      else if data.getD (p + 2) 0#8 &&& 1#8 = 1#8 then some 1
      else (depth (data.drop (p + 3))).map (· + 1) := by
  have hget : data.getD (p + 2) 0#8 = (data.drop p).getD 2 0#8 := by
    rw [getD_eq_getElem?_getD, getD_eq_getElem?_getD, getElem?_drop]
  have hlen : (data.drop p).length = data.length - p := List.length_drop
  rw [hget, ← drop_drop]
  rcases hdrop : data.drop p with _ | ⟨a, _ | ⟨b, _ | ⟨c, rest⟩⟩⟩
  · rw [hdrop, length_nil] at hlen
    rw [if_pos (by omega), depth]
  · rw [hdrop, length_singleton] at hlen
    rw [if_pos (by omega), depth]
  · rw [hdrop] at hlen
    simp only [length_cons, length_nil] at hlen
    rw [if_pos (by omega), depth]
  · rw [hdrop] at hlen
    simp only [length_cons] at hlen
    rw [if_neg (by omega), depth]
    rfl

lemma length_of_depth : (l : List Octet) → ∀ {k : ℕ}, depth l = some k → 0 < k ∧ 3 * k ≤ l.length
  | _ :: _ :: c :: rest, k, h => by
    rw [depth] at h
    simp only [length_cons]
    by_cases hbottom : c &&& 1#8 = 1#8
    · rw [if_pos hbottom] at h
      cases h
      omega
    · rw [if_neg hbottom] at h
      obtain ⟨j, hj, rfl⟩ := map_eq_some_iff.1 h
      have hrest := length_of_depth rest hj
      omega
  | [], _, h => by cases h
  | [_], _, h => by cases h
  | [_, _], _, h => by cases h

lemma depth_take : (l : List Octet) → ∀ {k m : ℕ}, depth l = some k → 3 * k ≤ m →
    depth (l.take m) = some k
  | a :: b :: c :: rest, k, m, h, hm => by
    have hk := (length_of_depth _ h).1
    obtain ⟨m, rfl⟩ : ∃ j, m = j + 3 := ⟨m - 3, by omega⟩
    rw [take_succ_cons, take_succ_cons, take_succ_cons]
    rw [depth] at h ⊢
    by_cases hbottom : c &&& 1#8 = 1#8
    · rw [if_pos hbottom] at h ⊢
      exact h
    · rw [if_neg hbottom] at h ⊢
      obtain ⟨j, hj, rfl⟩ := map_eq_some_iff.1 h
      rw [depth_take rest hj (by omega)]
      rfl
  | [], _, _, h, _ => by cases h
  | [_], _, _, h, _ => by cases h
  | [_, _], _, _, h, _ => by cases h

lemma depth_append : (l : List Octet) → ∀ {k : ℕ} (rest : List Octet), depth l = some k →
    depth (l ++ rest) = some k
  | a :: b :: c :: l, k, rest, h => by
    rw [cons_append, cons_append, cons_append]
    rw [depth] at h ⊢
    by_cases hbottom : c &&& 1#8 = 1#8
    · rw [if_pos hbottom] at h ⊢
      exact h
    · rw [if_neg hbottom] at h ⊢
      obtain ⟨j, hj, rfl⟩ := map_eq_some_iff.1 h
      rw [depth_append l rest hj]
      rfl
  | [], _, _, h => by cases h
  | [_], _, _, h => by cases h
  | [_, _], _, _, h => by cases h

lemma labelStack_eq (data : List Octet) (labelStart : ℕ) :
    (turns : ℕ) → ∀ labelBytes, data.length < labelStart + labelBytes + turns →
      labelStack data labelStart turns labelBytes =
        (depth (data.drop (labelStart + labelBytes))).map (labelBytes + 3 * ·)
  | 0, labelBytes, h => by
    rw [depth_drop, if_pos (by omega)]
    rfl
  | turns + 1, labelBytes, h => by
    rw [labelStack, depth_drop]
    by_cases hshort : data.length < labelStart + labelBytes + 3
    · rw [if_pos hshort, if_pos hshort]
      rfl
    rw [if_neg hshort, if_neg hshort]
    by_cases hbottom : data.getD (labelStart + labelBytes + 2) 0#8 &&& 1#8 = 1#8
    · rw [if_pos hbottom, if_pos hbottom]
      rfl
    · rw [if_neg hbottom, if_neg hbottom, labelStack_eq data labelStart turns _ (by omega),
        Option.map_map, Nat.add_assoc]
      congr 1
      funext k
      simp only [Function.comp_apply]
      omega

lemma extractLoop_eq (entry : List Octet) :
    (turns : ℕ) → ∀ (pos k : ℕ) (labels : List (BitVec 32)), entry.length < pos + turns →
      depth (entry.drop pos) = some k →
      ∃ more : List (BitVec 32), more.length = k ∧
        extractLoop entry turns pos labels = some (labels ++ more, pos + 3 * k)
  | 0, pos, k, labels, h, hdepth => by
    rw [depth_drop, if_pos (by omega)] at hdepth
    cases hdepth
  | turns + 1, pos, k, labels, h, hdepth => by
    rw [depth_drop] at hdepth
    rw [extractLoop]
    by_cases hshort : entry.length < pos + 3
    · rw [if_pos hshort] at hdepth
      cases hdepth
    rw [if_neg hshort] at hdepth ⊢
    by_cases hbottom : entry.getD (pos + 2) 0#8 &&& 1#8 = 1#8
    · rw [if_pos hbottom] at hdepth ⊢
      cases hdepth
      exact ⟨[labelAt entry pos], rfl, rfl⟩
    · rw [if_neg hbottom] at hdepth ⊢
      obtain ⟨j, hj, rfl⟩ := map_eq_some_iff.1 hdepth
      obtain ⟨more, hmore, hloop⟩ := extractLoop_eq entry turns (pos + 3) j
        (labels ++ [labelAt entry pos]) (by omega) hj
      refine ⟨labelAt entry pos :: more, by rw [length_cons, hmore], ?_⟩
      rw [hloop, append_assoc, singleton_append, Nat.add_assoc]
      congr 2
      omega

lemma and_one_ne_zero_iff (x : Octet) : x &&& 1#8 ≠ 0#8 ↔ x &&& 1#8 = 1#8 := by
  have hmod : (x &&& 1#8).toNat = x.toNat % 2 := by
    rw [BitVec.toNat_and]
    exact Nat.and_two_pow_sub_one_eq_mod x.toNat 1
  rw [Ne, ← toNat_inj, ← toNat_inj, hmod]
  simp only [toNat_ofNat]
  omega

lemma labelFieldLoop_eq (raw : List Octet) :
    (turns : ℕ) → ∀ off bits, raw.length < off + turns →
      labelFieldLoop raw false turns off bits =
        (depth (raw.drop off)).bind fun k =>
          if bits < 24 * k then none else some (off + 3 * k, bits - 24 * k)
  | 0, off, bits, h => by
    rw [depth_drop, if_pos (by omega)]
    rfl
  | turns + 1, off, bits, h => by
    rw [labelFieldLoop, depth_drop]
    by_cases hshort : raw.length < off + 3
    · rw [if_pos (.inr hshort), if_pos hshort]
      rfl
    rw [if_neg hshort]
    by_cases hbottom : raw.getD (off + 2) 0#8 &&& 1#8 = 1#8
    · rw [if_pos hbottom, bind_some]
      by_cases hbits : bits < 24
      · rw [if_pos (.inl hbits), if_pos hbits]
      · rw [if_neg (by rintro (h | h) <;> omega), if_neg hbits,
          if_pos (.inr ((and_one_ne_zero_iff _).2 hbottom))]
    · rw [if_neg hbottom, Option.bind_map]
      by_cases hbits : bits < 24
      · rw [if_pos (.inl hbits)]
        rcases depth (raw.drop (off + 3)) with _ | k
        · rfl
        · rw [bind_some, Function.comp_apply, if_pos (by omega)]
      · have hmore : ¬ (false ∨ raw.getD (off + 2) 0#8 &&& 1#8 ≠ 0#8) := by
          rintro (h | h)
          · cases h
          · exact hbottom ((and_one_ne_zero_iff _).1 h)
        rw [if_neg (by rintro (h | h) <;> omega), if_neg hmore,
          labelFieldLoop_eq raw turns _ _ (by omega)]
        congr 1
        funext k
        simp only [Function.comp_apply]
        by_cases hk : bits - 24 < 24 * k
        · rw [if_pos hk, if_pos (by omega)]
        · rw [if_neg hk, if_neg (by omega)]
          congr 2 <;> omega

lemma labelFieldEnd_spec {raw : List Octet} {withdraw : Bool} {off bits : ℕ}
    (h : labelFieldEnd raw withdraw = some (off, bits)) :
    ∃ k, 0 < k ∧ off = 1 + 3 * k ∧ bits + 24 * k = (raw.getD 0 0#8).toNat ∧ off ≤ raw.length := by
  rcases withdraw with _ | _
  · rw [labelFieldEnd, labelFieldLoop_eq raw _ 1 _ (by omega)] at h
    obtain ⟨k, hk, hfield⟩ := Option.bind_eq_some_iff.mp h
    have hdepth := length_of_depth _ hk
    rw [List.length_drop] at hdepth
    split_ifs at hfield with hbits
    obtain ⟨rfl, rfl⟩ := Prod.mk.inj (some.inj hfield)
    exact ⟨k, hdepth.1, rfl, by omega, by omega⟩
  · rw [labelFieldEnd, labelFieldLoop] at h
    split_ifs at h with hshort
    · obtain ⟨rfl, rfl⟩ := Prod.mk.inj (some.inj h)
      exact ⟨1, by omega, rfl, by omega, by omega⟩
    · exact absurd (Or.inl rfl) ‹_›

lemma keyLabeled_of_labels {raw : List Octet} {withdraw : Bool} {off bits : ℕ}
    (hlength : raw.length = 1 + ((raw.getD 0 0#8).toNat + 7) / 8)
    (hlabels : labelFieldEnd raw withdraw = some (off, bits)) :
    keyLabeled raw prefixKeyScratchSize withdraw =
      some (clearTail bits (ofNat 8 bits :: raw.drop off)) := by
  obtain ⟨k, hpos, hoff, hcounted, hle⟩ := labelFieldEnd_spec hlabels
  have htotal := (raw.getD 0 0#8).isLt
  have hscratch : prefixKeyScratchSize = 64 := rfl
  have hne : raw ≠ [] := by
    intro hnil
    rw [hnil, length_nil] at hle
    omega
  rw [keyLabeled, if_neg (by omega), labeledPrefix, if_neg hne, hlabels]
  rfl

/-! ## One NLRI of the field -/

section

variable {data raw : List Octet} {start stop k : ℕ}

lemma length_slice (h : stop ≤ data.length) : (slice data (start, stop)).length = stop - start := by
  rw [slice, length_take, List.length_drop]
  omega

lemma drop_slice (data : List Octet) (start stop n : ℕ) :
    (slice data (start, stop)).drop n = (data.drop (start + n)).take (stop - start - n) := by
  rw [slice, drop_take, drop_drop]

lemma getD_drop (l : List Octet) (n i : ℕ) : (l.drop n).getD i 0#8 = l.getD (n + i) 0#8 := by
  rw [getD_eq_getElem?_getD, getD_eq_getElem?_getD, getElem?_drop]

/-- An announced labeled NLRI from its length octet on: the octets that the length counts, and a
stack of `k` entries inside them. Source: labeled.go SplitLabeled. -/
structure Announced (raw : List Octet) (k : ℕ) : Prop where
  length : raw.length = 1 + ((raw.getD 0 0#8).toNat + 7) / 8
  stack : depth (raw.drop 1) = some k
  counted : 24 * k ≤ (raw.getD 0 0#8).toNat

lemma labeledEntry_ok {head : ℕ} (h : labeledEntry data head start = .ok stop) :
    bitLengthEntry data head maxLengthOctetBits start = .ok stop ∧
      stop ≤ data.length ∧ start + head < stop ∧
      ∃ k, Announced ((slice data (start, stop)).drop head) k := by
  unfold labeledEntry at h
  by_cases hshort : data.length < start + head + 1
  · rw [if_pos hshort] at h
    cases h
  rw [if_neg hshort, labelStack_eq data (start + head + 1) _ 0 (by omega), Nat.add_zero] at h
  rcases hdepth : depth (data.drop (start + head + 1)) with _ | k
  · rw [hdepth] at h
    cases h
  rw [hdepth, map_some] at h
  dsimp only at h
  by_cases hbits : (data.getD (start + head) 0#8).toNat < (0 + 3 * k) / 3 * 24
  · rw [if_pos hbits] at h
    cases h
  rw [if_neg hbits] at h
  split_ifs at h with hpast
  have hstop := Except.ok.inj h
  have hcount : 24 * k ≤ (data.getD (start + head) 0#8).toNat := by omega
  have hend : stop = start + head + 1 + ((data.getD (start + head) 0#8).toNat + 7) / 8 := by omega
  have hle : stop ≤ data.length := by omega
  have hlength : bitLengthEntryEnd data start head maxLengthOctetBits = stop := by
    have hmax : ¬ maxLengthOctetBits < (data.getD (start + head) 0#8).toNat := by
      rw [maxLengthOctetBits]
      omega
    rw [bitLengthEntryEnd, if_neg (by omega)]
    dsimp only
    rw [if_neg hmax, hend]
  have hget : ((slice data (start, stop)).drop head).getD 0 0#8 = data.getD (start + head) 0#8 := by
    rw [drop_slice, getD_eq_getElem?_getD, getElem?_take, if_pos (by omega),
      getElem?_drop, Nat.add_zero, ← getD_eq_getElem?_getD]
  refine ⟨?_, hle, by omega, k, ?_, ?_, ?_⟩
  · rw [bitLengthEntry, hlength, if_neg (by omega)]
  · rw [hget, List.length_drop, length_slice hle]
    omega
  · rw [drop_drop, drop_slice, ← Nat.add_assoc]
    exact depth_take _ hdepth (by omega)
  · rw [hget]
    exact hcount

lemma labeledEntry_of_announced {head : ℕ} (hle : stop ≤ data.length)
    (hlong : start + head < stop) (h : Announced ((slice data (start, stop)).drop head) k) :
    labeledEntry data head start = .ok stop := by
  have hlength := h.length
  have hcounted := h.counted
  have hstack := h.stack
  have hget : ((slice data (start, stop)).drop head).getD 0 0#8 = data.getD (start + head) 0#8 := by
    rw [drop_slice, getD_eq_getElem?_getD, getElem?_take, if_pos (by omega),
      getElem?_drop, Nat.add_zero, ← getD_eq_getElem?_getD]
  rw [hget] at hlength hcounted
  rw [List.length_drop, length_slice hle] at hlength
  rw [drop_drop, drop_slice, ← Nat.add_assoc] at hstack
  have hdepth : depth (data.drop (start + head + 1)) = some k := by
    have happend := depth_append _ ((data.drop (start + head + 1)).drop (stop - start - (head + 1)))
      hstack
    rwa [take_append_drop] at happend
  have hbits : (0 + 3 * k) / 3 * 24 = 24 * k := by omega
  rw [labeledEntry, if_neg (by omega), labelStack_eq data (start + head + 1) _ 0 (by omega),
    Nat.add_zero, hdepth, map_some]
  dsimp only
  rw [hbits, if_neg (by omega), if_neg (by omega)]
  congr 1
  omega

lemma announced_of_labels {off bits : ℕ}
    (hlength : raw.length = 1 + ((raw.getD 0 0#8).toNat + 7) / 8)
    (hlabels : labelFieldEnd raw false = some (off, bits)) : ∃ k, Announced raw k := by
  rw [labelFieldEnd, labelFieldLoop_eq raw _ 1 _ (by omega)] at hlabels
  obtain ⟨k, hk, hfield⟩ := Option.bind_eq_some_iff.mp hlabels
  split_ifs at hfield with hbits
  exact ⟨k, hlength, hk, by omega⟩

lemma Announced.labelFieldEnd (h : Announced raw k) :
    labelFieldEnd raw false = some (1 + 3 * k, (raw.getD 0 0#8).toNat - 24 * k) := by
  have hcounted := h.counted
  rw [Nlri.labelFieldEnd, labelFieldLoop_eq raw _ 1 _ (by omega), h.stack, bind_some,
    if_neg (by omega)]

lemma Announced.length_drop (h : Announced raw k) :
    (raw.drop (1 + 3 * k)).length = ((raw.getD 0 0#8).toNat - 24 * k + 7) / 8 := by
  have hlength := h.length
  rw [List.length_drop]
  omega

lemma Announced.extractLabels {entry : List Octet} {addPath : Bool}
    (h : Announced (entry.drop (head addPath)) k) :
    ∃ labels, extractLabels entry addPath = .ok (labels, entry.take (head addPath) ++
      (ofNat 8 ((entry.getD (head addPath) 0#8).toNat - 24 * k) ::
        entry.drop (head addPath + 1 + 3 * k))) := by
  have hlength := h.length
  have hcounted := h.counted
  have hdepth := (length_of_depth _ h.stack).1
  have hstack := h.stack
  have hprefix := h.length_drop
  simp only [getD_drop, Nat.add_zero] at hlength hcounted hprefix
  rw [List.length_drop] at hlength
  rw [drop_drop] at hstack hprefix
  rw [← Nat.add_assoc] at hprefix
  obtain ⟨labels, hlabels, hloop⟩ :=
    extractLoop_eq entry (entry.length + 1) (head addPath + 1) k [] (by omega) hstack
  rw [nil_append] at hloop
  refine ⟨labels, ?_⟩
  rw [Nlri.extractLabels, if_neg (by omega), hloop]
  dsimp only
  have htake := take_of_length_le (Nat.le_of_eq hprefix)
  rw [hlabels, if_neg (by omega), Nat.mul_comm k 24, if_neg (by omega), htake]

end

/-! ## The four walks -/

/-- Where `SplitLabeled` accepts a field, whatever the visitor, the length octets alone cut it at
the same boundaries. Of every entry that is visited, `ExtractLabels` returns a CIDR behind the Path
Identifier of the entry, and it is the key that `keyLabeled` returns for the announcement once the
bits behind the prefix are cleared. -/
theorem splitLabeled_agrees (data : List Octet) (addPath : Bool) (fn : Visitor)
    (h : (splitLabeled data addPath fn).err = none) :
    splitByBitLength maxLengthOctetBits data addPath fn = splitLabeled data addPath fn ∧
    ∀ r ∈ (splitLabeled data addPath fn).visited, ∃ labels cidr key,
      extractLabels (slice data r) addPath = .ok (labels, cidr) ∧
      keyLabeled ((slice data r).drop (head addPath)) prefixKeyScratchSize false = some key ∧
      cidr.take (head addPath) = (slice data r).take (head addPath) ∧
      clearTail ((cidr.drop (head addPath)).getD 0 0#8).toNat (cidr.drop (head addPath)) = key := by
  refine ⟨walk_of_refines (fun start stop _ hok => (labeledEntry_ok hok).1) _ _ _ h, ?_⟩
  rintro ⟨start, stop⟩ hr
  have hentry : labeledEntry data (head addPath) start = .ok stop :=
    (forall_visited_of_walk _ _ _ (by simp) _ hr).2
  obtain ⟨-, hle, hlong, k, hraw⟩ := labeledEntry_ok hentry
  obtain ⟨labels, hextract⟩ := hraw.extractLabels
  have hlen := @length_slice data start stop hle
  have htake : ((slice data (start, stop)).take (head addPath)).length = head addPath := by
    rw [length_take, hlen]
    omega
  have hkey := keyLabeled_of_labels hraw.length hraw.labelFieldEnd
  rw [getD_drop, Nat.add_zero, drop_drop, ← Nat.add_assoc] at hkey
  refine ⟨labels, _, _, hextract, hkey, ?_, ?_⟩
  · rw [take_append_of_le_length (by omega), take_take, Nat.min_self]
  · have hdrop : ∀ l, ((slice data (start, stop)).take (head addPath) ++ l).drop
        (head addPath) = l := by
      intro l
      rw [drop_append_of_le_length (by omega), drop_of_length_le (by omega), nil_append]
    rw [hdrop]
    have hoctet : ∀ (bits : ℕ) (l : List Octet), bits < 256 →
        ((ofNat 8 bits :: l).getD 0 0#8).toNat = bits := by
      intro bits l hbits
      rw [getD_cons_zero, toNat_ofNat, Nat.mod_eq_of_lt hbits]
    rw [hoctet _ _ (by omega)]

/-- A stack of two labels before ten bits of prefix, behind a Path Identifier. Source:
labeled.go SplitLabeled. -/
def twoLabels : List Octet :=
  [0#8, 0#8, 0#8, 7#8, 58#8, 0#8, 1#8, 0x10#8, 0#8, 2#8, 0x11#8, 0xC0#8, 0xFF#8]

/-- Source: labeled.go SplitLabeled. -/
theorem splitLabeled_agrees_twoLabels :
    (splitLabeled twoLabels true Visitor.goOn).err = none ∧
      splitByBitLength maxLengthOctetBits twoLabels true Visitor.goOn =
        splitLabeled twoLabels true Visitor.goOn :=
  ⟨by decide +kernel, (splitLabeled_agrees _ _ _ (by decide +kernel)).1⟩

end Ze.Nlri
