import Ze.Nlri.Labeled
import Ze.LocRib.Path

/-!
# The splitters and the keys of the families

`core/bgp/nlri/nlrisplit/register.go` gives each family its splitter, one for the withdrawals of the
labeled families, and the function that makes the key of a route of one of its NLRI. The SR Policy
plugin registers one more splitter.
-/

namespace Ze.Nlri

open List

open Ze.AsPath (Octet uint16)
open Ze.LocRib (Family)

/-! ## The other framings -/

/-- One turn of `splitTypeLength`: a header of `hdrLen` octets that holds the length at `lenOff`.
Source: nlrisplit/typelen.go splitTypeLength. -/
def typeLengthEntry (label : SplitLabel) (hdrLen lenOff : ℕ) (data : List Octet) (head start : ℕ) :
    Except SplitError ℕ :=
  if data.length < start + head + hdrLen then .error (.truncated label start)
  else
    let length := (data.getD (start + head + lenOff) 0#8).toNat
    let nlriLen := head + hdrLen + length
    if data.length < start + nlriLen then .error (.extendsPast label start length)
    else .ok (start + nlriLen)

def splitTypeLength (label : SplitLabel) (hdrLen lenOff : ℕ) : Splitter := fun data addPath fn =>
  walkAll data (typeLengthEntry label hdrLen lenOff data (head addPath)) fn

def splitEVPN : Splitter := splitTypeLength .evpn 2 1

def splitMVPN : Splitter := splitTypeLength .mvpn 2 1

def splitMUP : Splitter := splitTypeLength .mup 4 3

/-- The octets of the length of a flow specification, and the length.
Source: nlrisplit/flowspec.go SplitFlowSpec. -/
def flowSpecLength (data : List Octet) (at_ : ℕ) : ℕ × ℕ :=
  let length := (data.getD at_ 0#8).toNat
  if length < 0xf0 then (1, length)
  else (2, (data.getD at_ 0#8 &&& 0x0f#8).toNat * 256 + (data.getD (at_ + 1) 0#8).toNat)

/-- One turn of `SplitFlowSpec`. Source: flowspec.go SplitFlowSpec. -/
def flowSpecEntry (data : List Octet) (head start : ℕ) : Except SplitError ℕ :=
  if data.length < start + head + 1 then .error (.truncated .flowspec start)
  else
    let (lengthOctets, length) := flowSpecLength data (start + head)
    if data.length < start + head + lengthOctets then .error (.truncated .flowspecExtended start)
    else if length = 0 then .error (.zeroLength .flowspec start)
    else if data.length < start + (head + lengthOctets + length) then
      .error (.extendsPast .flowspec start length)
    else .ok (start + (head + lengthOctets + length))

/-- Source: flowspec.go. -/
def splitFlowSpec : Splitter := fun data addPath fn =>
  walkAll data (flowSpecEntry data (head addPath)) fn

/-- One turn of `SplitVPLS` and of `SplitBGPLS`: a header of `hdrLen` octets whose last two are the
length. Source: nlrisplit/vpls.go SplitVPLS, bgpls.go SplitBGPLS. -/
def wordLengthEntry (label : SplitLabel) (hdrLen : ℕ) (data : List Octet) (head start : ℕ) :
    Except SplitError ℕ :=
  if data.length < start + head + hdrLen then .error (.truncated label start)
  else
    let lengthAt := start + head + (hdrLen - 2)
    let length := uint16 (data.getD lengthAt 0#8) (data.getD (lengthAt + 1) 0#8)
    if length = 0 then .error (.zeroLength label start)
    else if data.length < start + (head + hdrLen + length) then
      .error (.extendsPast label start length)
    else .ok (start + (head + hdrLen + length))

/-- Source: vpls.go. -/
def splitVPLS : Splitter := fun data addPath fn =>
  walkAll data (wordLengthEntry .vpls 2 data (head addPath)) fn

/-- Source: bgpls.go. -/
def splitBGPLS : Splitter := fun data addPath fn =>
  walkAll data (wordLengthEntry .bgpls 4 data (head addPath)) fn

/-- Where an SR Policy NLRI ends. Source: plugins/nlri/srpolicy/split.go srPolicyNLRIBounds. -/
def srPolicyEntry (data : List Octet) (head start : ℕ) : Except SplitError ℕ :=
  if data.length ≤ start + head then .error (.truncated .srpolicy start)
  else
    let lenBits := (data.getD (start + head) 0#8).toNat
    if lenBits = 0 then .error (.zeroLength .srpolicy start)
    else if lenBits % 8 ≠ 0 then .error (.notByteAligned lenBits start)
    else
      let stop := start + head + 1 + lenBits / 8
      if data.length < stop then .error (.extendsPast .srpolicy start (stop - start))
      else .ok stop

/-- Source: split.go. -/
def splitSRPolicy : Splitter := fun data addPath fn =>
  walkAll data (srPolicyEntry data (head addPath)) fn

/-! ## The keys -/

/-- The key of a route, built in a scratch of so many octets; `none` is `errPrefixKey`.
Source: nlrisplit/prefix_key.go. -/
abbrev PrefixKeyFunc := List Octet → ℕ → Bool → Option (List Octet)

def keyOpaque : PrefixKeyFunc := fun raw _ _ => some raw

def keyCIDR : PrefixKeyFunc := fun raw scratch _ =>
  let bits := (raw.getD 0 0#8).toNat
  if raw = [] ∨ raw.length ≠ 1 + (bits + 7) / 8 ∨ scratch < raw.length then none
  else some (clearTail bits raw)

def keyFlowSpec : PrefixKeyFunc := fun raw _ _ =>
  let (off, length) := flowSpecLength raw 0
  if raw = [] ∨ raw.length < off ∨ raw.length ≠ off + length then none
  else some (raw.drop off)

def keyVPLS : PrefixKeyFunc := fun raw _ _ =>
  if raw.length < 19 ∨ uint16 (raw.getD 0 0#8) (raw.getD 1 0#8) ≠ raw.length - 2 then none
  else some (slice raw (2, 14))

def keyEVPN : PrefixKeyFunc := fun raw scratch _ =>
  if raw.length < 2 ∨ (raw.getD 1 0#8).toNat ≠ raw.length - 2 then none
  else
    let body := raw.drop 2
    let routeType := raw.getD 0 0#8
    let octet := fun i => (body.getD i 0#8).toNat
    if routeType = 1#8 then
      if body.length ≠ 25 ∨ scratch < 23 then none else some (routeType :: body.take 22)
    else if routeType = 2#8 then
      let stop := 30 + octet 29 / 8
      if body.length < 33 ∨ octet 22 ≠ 48 then none
      else if octet 29 ≠ 0 ∧ octet 29 ≠ 32 ∧ octet 29 ≠ 128 then none
      else if body.length ≠ stop + 3 ∧ body.length ≠ stop + 6 then none
      else if scratch < 9 + stop - 18 then none
      else some (routeType :: body.take 8 ++ slice body (18, stop))
    else if routeType = 3#8 ∨ routeType = 4#8 then
      let ipOffset := if routeType = 4#8 then 18 else 12
      if body.length ≤ ipOffset then none
      else if octet ipOffset ≠ 32 ∧ octet ipOffset ≠ 128 ∨
          body.length ≠ ipOffset + 1 + octet ipOffset / 8 then none
      else if scratch < 1 + body.length then none
      else some (routeType :: body)
    else if routeType = 5#8 then
      let addressLen := if body.length = 58 then 16 else 4
      let prefixBits := octet 22
      let prefixBytes := (prefixBits + 7) / 8
      if body.length ≠ 58 ∧ body.length ≠ 34 then none
      else if addressLen * 8 < prefixBits ∨ scratch < 14 + addressLen then none
      else
        some (routeType :: body.take 8 ++ slice body (18, 23) ++
          clearTail prefixBits (slice body (23, 23 + prefixBytes)) ++
          replicate (addressLen - prefixBytes) 0#8)
    else some raw

def keyMUP : PrefixKeyFunc := fun raw scratch _ =>
  let body := raw.drop 4
  let routeType := raw.getD 2 0#8
  let octet := (body.getD 8 0#8).toNat
  let build := fun keyLen prefixBits =>
    if scratch < 3 + keyLen then none
    else some (clearTail prefixBits (raw.take 3 ++ body.take keyLen))
  if raw.length < 4 ∨ (raw.getD 3 0#8).toNat ≠ raw.length - 4 then none
  else if raw.getD 0 0#8 ≠ 1#8 ∨ raw.getD 1 0#8 ≠ 0#8 ∨ routeType < 1#8 ∨ 4#8 < routeType then
    some raw
  else if routeType = 1#8 ∨ routeType = 3#8 then
    let keyLen := 9 + (octet + 7) / 8
    if body.length < 9 ∨ 128 < octet then none
    else if body.length < keyLen ∨ routeType = 1#8 ∧ body.length ≠ keyLen then none
    else build keyLen octet
  else if routeType = 2#8 then
    if body.length ≠ 12 ∧ body.length ≠ 24 then none else build body.length 0
  else
    let keyLen := 9 + (octet + 7) / 8
    if body.length < 9 ∨ 160 < octet then none
    else if body.length < keyLen then none
    else build keyLen 0

/-! ## The tables -/

/-- The splitter of a family. Source: nlrisplit/register.go; srpolicy/register.go; nlrisplit.go
Get. -/
def getSplitter (fam : Family) : Option Splitter :=
  let ip := fam.afi = 1 ∨ fam.afi = 2
  if ip ∧ (fam.safi = 1 ∨ fam.safi = 2) then some splitCIDR
  else if ip ∧ fam.safi = 4 then some splitLabeled
  else if ip ∧ fam.safi = 5 then some splitMVPN
  else if ip ∧ fam.safi = 73 then some splitSRPolicy
  else if ip ∧ fam.safi = 85 then some splitMUP
  else if ip ∧ fam.safi = 128 then some splitVPN
  else if fam.afi = 1 ∧ fam.safi = 132 then some splitCIDR
  else if ip ∧ (fam.safi = 133 ∨ fam.safi = 134) then some splitFlowSpec
  else if fam.afi = 25 ∧ fam.safi = 65 then some splitVPLS
  else if fam.afi = 25 ∧ fam.safi = 70 then some splitEVPN
  else if fam.afi = 16388 ∧ (fam.safi = 71 ∨ fam.safi = 72) then some splitBGPLS
  else none

/-- Source: prefix_key.go GetWithdraw; register.go, withdrawalSplitters. -/
def getWithdraw (fam : Family) : Option Splitter :=
  if (fam.afi = 1 ∨ fam.afi = 2) ∧ fam.safi = 4 then some splitVPN else getSplitter fam

/-- Source: prefix_key.go GetPrefixKey; register.go, prefixKeys. -/
def getPrefixKey (fam : Family) : PrefixKeyFunc :=
  let ip := fam.afi = 1 ∨ fam.afi = 2
  if ip ∧ (fam.safi = 1 ∨ fam.safi = 2) ∨ fam.afi = 1 ∧ fam.safi = 132 then keyCIDR
  else if ip ∧ fam.safi = 4 then keyLabeled
  else if ip ∧ fam.safi = 85 then keyMUP
  else if ip ∧ fam.safi = 128 then keyVPN
  else if ip ∧ (fam.safi = 133 ∨ fam.safi = 134) then keyFlowSpec
  else if fam.afi = 25 ∧ fam.safi = 65 then keyVPLS
  else if fam.afi = 25 ∧ fam.safi = 70 then keyEVPN
  else keyOpaque

/-- The splitter of the announcements or of the withdrawals of a family.
Source: reactor/forward_body.go fwdReencodeNLRIs. -/
def splitterFor (fam : Family) (withdraw : Bool) : Option Splitter :=
  if withdraw then getWithdraw fam else getSplitter fam

/-! ## What a splitter visits -/

/-- Slices that make up a field, each of more than `head` octets. -/
structure Tiles (data : List Octet) (head : ℕ) (slices : List (List Octet)) : Prop where
  flatten : slices.flatten = data
  long : ∀ s ∈ slices, head < s.length

lemma Tiles.length_le {data : List Octet} {head : ℕ} {slices : List (List Octet)}
    (h : Tiles data head slices) : slices.length ≤ data.length := by
  obtain ⟨rfl, hlong⟩ := h
  induction slices with
  | nil => exact Nat.zero_le _
  | cons s rest ih =>
    have hs := hlong s mem_cons_self
    have hrest := ih fun t ht => hlong t (mem_cons_of_mem _ ht)
    rw [flatten_cons, length_append, length_cons]
    omega

/-- An NLRI has more than the `head` octets before it and ends inside the field. -/
def Advances (data : List Octet) (head : ℕ) (entryEnd : ℕ → Except SplitError ℕ) : Prop :=
  ∀ start stop, entryEnd start = .ok stop → start + head < stop ∧ stop ≤ data.length

section

variable {data : List Octet} {head : ℕ} {entryEnd : ℕ → Except SplitError ℕ}

lemma exists_tiles_of_walk (hadv : Advances data head entryEnd) (turns : ℕ) {offset : ℕ}
    (hoff : offset ≤ data.length) (hturns : data.length - offset < turns) (visited : List (ℕ × ℕ))
    (herr : (walk data.length entryEnd Visitor.goOn turns offset visited).err = none) :
    ∃ rs, (walk data.length entryEnd Visitor.goOn turns offset visited).visited = visited ++ rs ∧
      Tiles (data.drop offset) head (rs.map (slice data)) := by
  induction turns generalizing offset visited with
  | zero => omega
  | succ turns ih =>
    by_cases hend : data.length ≤ offset
    · rw [walk_done hend]
      refine ⟨[], (append_nil _).symm, ?_, ?_⟩
      · rw [drop_eq_nil_of_le hend]
        rfl
      · intro s hs
        cases hs
    rcases hstop : entryEnd offset with err | stop
    · rw [walk, if_neg hend, hstop] at herr
      cases herr
    · obtain ⟨hlt, hle⟩ := hadv offset stop hstop
      rw [walk_goOn (Nat.lt_of_not_le hend) hstop] at herr ⊢
      obtain ⟨rs, hrs, htiles⟩ := ih hle (by omega) _ herr
      refine ⟨(offset, stop) :: rs, ?_, ?_, ?_⟩
      · rw [hrs, append_assoc]
        rfl
      · have hdrop : data.drop stop = (data.drop offset).drop (stop - offset) := by
          rw [drop_drop]
          congr 1
          omega
        rw [map_cons, flatten_cons, htiles.flatten, slice, hdrop, take_append_drop]
      · intro s hs
        rcases mem_cons.1 hs with rfl | hs
        · rw [slice, length_take, length_drop]
          omega
        · exact htiles.long s hs

lemma tiles_walkAll (hadv : Advances data head entryEnd)
    (herr : (walkAll data entryEnd Visitor.goOn).err = none) :
    Tiles data head ((walkAll data entryEnd Visitor.goOn).visited.map (slice data)) := by
  obtain ⟨rs, hrs, htiles⟩ :=
    exists_tiles_of_walk hadv (data.length + 1) (Nat.zero_le _) (Nat.lt_succ_self _) [] herr
  unfold walkAll
  rw [hrs]
  exact htiles

end

section

variable (data : List Octet) (head : ℕ)

lemma advances_bitLengthEntry (maxBits : ℕ) :
    Advances data head (bitLengthEntry data head maxBits) := by
  intro start stop h
  unfold bitLengthEntry at h
  split_ifs at h with hpast
  cases h
  refine ⟨?_, Nat.le_of_not_lt hpast⟩
  unfold bitLengthEntryEnd at hpast ⊢
  dsimp only at hpast ⊢
  split_ifs at hpast ⊢ <;> omega

lemma advances_labeledEntry : Advances data head (labeledEntry data head) := by
  intro start stop h
  unfold labeledEntry at h
  split_ifs at h
  split at h
  · cases h
  · dsimp only at h
    split_ifs at h
    cases h
    omega

lemma advances_typeLengthEntry (label : SplitLabel) {hdrLen : ℕ} (hpos : 0 < hdrLen)
    (lenOff : ℕ) : Advances data head (typeLengthEntry label hdrLen lenOff data head) := by
  intro start stop h
  unfold typeLengthEntry at h
  dsimp only at h
  split_ifs at h
  cases h
  omega

lemma advances_flowSpecEntry : Advances data head (flowSpecEntry data head) := by
  intro start stop h
  unfold flowSpecEntry at h
  dsimp only at h
  split_ifs at h
  cases h
  omega

lemma advances_wordLengthEntry (label : SplitLabel) (hdrLen : ℕ) :
    Advances data head (wordLengthEntry label hdrLen data head) := by
  intro start stop h
  unfold wordLengthEntry at h
  dsimp only at h
  split_ifs at h
  cases h
  omega

lemma advances_srPolicyEntry : Advances data head (srPolicyEntry data head) := by
  intro start stop h
  unfold srPolicyEntry at h
  dsimp only at h
  split_ifs at h
  cases h
  omega

end

/-- A splitter whose slices make up any field that it accepts. -/
def Splitter.Tiling (split : Splitter) : Prop :=
  ∀ data addPath, (split data addPath Visitor.goOn).err = none →
    Tiles data (head addPath) ((split data addPath Visitor.goOn).visited.map (slice data))

lemma tiling_of_advances {entryEnd : List Octet → ℕ → ℕ → Except SplitError ℕ}
    (h : ∀ data head, Advances data head (entryEnd data head)) :
    Splitter.Tiling fun data addPath fn => walkAll data (entryEnd data (head addPath)) fn :=
  fun data addPath herr => tiles_walkAll (h data (head addPath)) herr

lemma tiling_splitByBitLength (maxBits : ℕ) : (splitByBitLength maxBits).Tiling :=
  tiling_of_advances fun data head => advances_bitLengthEntry data head maxBits

lemma tiling_splitTypeLength (label : SplitLabel) {hdrLen : ℕ} (hpos : 0 < hdrLen)
    (lenOff : ℕ) : (splitTypeLength label hdrLen lenOff).Tiling :=
  tiling_of_advances fun data head => advances_typeLengthEntry data head label hpos lenOff

lemma forall_of_ite {P : Splitter → Prop} {c : Prop} [Decidable c] {first : Splitter}
    {others : Option Splitter} (hfirst : P first)
    (hothers : ∀ split, others = some split → P split) :
    ∀ split, (if c then some first else others) = some split → P split := by
  intro split h
  by_cases hc : c
  · rw [if_pos hc] at h
    exact Option.some.inj h ▸ hfirst
  · rw [if_neg hc] at h
    exact hothers split h

lemma tiling_of_getSplitter (fam : Family) :
    ∀ split, getSplitter fam = some split → split.Tiling := by
  unfold getSplitter
  apply forall_of_ite (tiling_splitByBitLength _)
  apply forall_of_ite (tiling_of_advances advances_labeledEntry)
  apply forall_of_ite (tiling_splitTypeLength _ (by decide) _)
  apply forall_of_ite (tiling_of_advances advances_srPolicyEntry)
  apply forall_of_ite (tiling_splitTypeLength _ (by decide) _)
  apply forall_of_ite (tiling_splitByBitLength _)
  apply forall_of_ite (tiling_splitByBitLength _)
  apply forall_of_ite (tiling_of_advances advances_flowSpecEntry)
  apply forall_of_ite
    (tiling_of_advances fun data head => advances_wordLengthEntry data head .vpls 2)
  apply forall_of_ite (tiling_splitTypeLength _ (by decide) _)
  apply forall_of_ite
    (tiling_of_advances fun data head => advances_wordLengthEntry data head .bgpls 4)
  intro split h
  cases h

lemma tiling_of_splitterFor {fam : Family} {withdraw : Bool} {split : Splitter}
    (h : splitterFor fam withdraw = some split) : split.Tiling := by
  unfold splitterFor at h
  by_cases hw : withdraw
  · rw [if_pos hw] at h
    exact forall_of_ite (tiling_splitByBitLength _) (tiling_of_getSplitter fam) split h
  · rw [if_neg hw] at h
    exact tiling_of_getSplitter fam split h

end Ze.Nlri
