import Ze.Nlri.Labeled
import Ze.Lib.Splice

/-!
# Writing the withdrawal framing

`writeWithdrawalField` of `core/bgp/nlri/nlrisplit/prefix_key.go` turns a field of labeled NLRI into
their withdrawals: each label stack becomes the one Compatibility field. It may write over the field
that it reads.
-/

namespace Ze.Nlri

open Ze.AsPath (Octet)
open Ze.Lib List
open Prod (fst)

/-! ## The writer -/

/-- A slice of the memory. Source: Go, []byte. -/
structure Area where
  base : ℕ
  len : ℕ
  deriving DecidableEq, Repr

/-- Source: errWithdrawalField, errWithdrawalDestination. -/
inductive WithdrawalError
  | field
  | destination
  deriving DecidableEq, Repr

/-- One withdrawn NLRI into `dst`: the length octet, the Compatibility field, and then `rest` with
the bits behind the prefix cleared. The octets written and the memory after it; `none` when the
length octet cannot hold the bits or `dst` is too short. -/
def writeWithdrawalNLRI (mem : List Octet) (dst : Area) (bits : ℕ) (rest : Area) :
    Option (ℕ × List Octet) :=
  let n := 4 + rest.len
  if maxLengthOctetBits < bits + 24 then none
  else if dst.len < n then none
  else
    let mem := splice mem dst.base [BitVec.ofNat 8 (bits + 24)]
    let mem := splice mem (dst.base + 1) [0x80#8, 0#8, 0#8]
    let mem := splice mem (dst.base + 4) (window mem rest.base rest.len)
    if bits % 8 = 0 then some (n, mem)
    else
      let last := mem.getD (dst.base + (n - 1)) 0#8
      some (n, splice mem (dst.base + (n - 1)) [last &&& (0xff#8 <<< (8 - bits % 8))])

/-- The loop of `writeWithdrawalField`: what it returns, and the memory after it.
Source: writeWithdrawalField -/
def withdrawalLoop (dst field : Area) (addPath withdraw : Bool) (keyBitsMin : ℕ) :
    ℕ → ℕ → ℕ → List Octet → Except WithdrawalError ℕ × List Octet
  | 0, _, written, mem => (.ok written, mem)
  | turns + 1, read, written, mem =>
    if field.len ≤ read then (.ok written, mem)
    else
      let data := window mem field.base field.len
      let stop := bitLengthEntryEnd data read (head addPath) maxLengthOctetBits
      if field.len < stop then (.error .field, mem)
      else
        match labelFieldEnd (slice data (read + head addPath, stop)) withdraw with
        | none => (.error .field, mem)
        | some (off, bits) =>
          if bits < keyBitsMin then (.error .field, mem)
          else if dst.len < written + head addPath then (.error .destination, mem)
          else
            let mem := splice mem (dst.base + written) (slice data (read, read + head addPath))
            let written := written + head addPath
            let rest := read + head addPath + off
            match writeWithdrawalNLRI mem ⟨dst.base + written, dst.len - written⟩ bits
                ⟨field.base + rest, stop - rest⟩ with
            | none => (.error .destination, mem)
            | some (n, mem) =>
              withdrawalLoop dst field addPath withdraw keyBitsMin turns stop (written + n) mem

def writeWithdrawalField (mem : List Octet) (dst field : Area) (addPath withdraw : Bool)
    (keyBitsMin : ℕ) : Except WithdrawalError ℕ × List Octet :=
  withdrawalLoop dst field addPath withdraw keyBitsMin (field.len + 1) 0 0 mem

/-- The families whose withdrawals carry the Compatibility field: labeled unicast and VPN.
Source: nlrisplit/register.go compatibilityFamilies -/
inductive CompatibilityFamily
  | labeled
  | vpn
  deriving DecidableEq, Repr

namespace CompatibilityFamily

/-- Source: writeLabeledWithdrawal, writeVPNWithdrawal. -/
def keyBitsMin : CompatibilityFamily → ℕ
  | labeled => 0
  | vpn => vpnKeyBitsMin

/-- Source: register.go prefixKeys. -/
def key : CompatibilityFamily → List Octet → ℕ → Bool → Option (List Octet)
  | labeled => keyLabeled
  | vpn => keyVPN

/-- How announcements and withdrawals are framed. Source: register.go; prefix_key.go
GetWithdraw. -/
def split : CompatibilityFamily → Bool → Splitter
  | labeled, false => splitLabeled
  | labeled, true | vpn, _ => splitVPN

end CompatibilityFamily

/-! ## One NLRI -/

/-- The octets of a withdrawn NLRI. Source: writeWithdrawalNLRI. -/
def withdrawalNLRI (bits : ℕ) (rest : List Octet) : List Octet :=
  clearTail bits (BitVec.ofNat 8 (bits + 24) :: 0x80#8 :: 0#8 :: 0#8 :: rest)

lemma length_clearTail (bits : ℕ) (l : List Octet) : (clearTail bits l).length = l.length := by
  rw [clearTail]
  split_ifs
  · rfl
  · exact length_modify ..

lemma clearTail_of_whole {bits : ℕ} (h : bits % 8 = 0) (l : List Octet) :
    clearTail bits l = l := if_pos h

lemma clearTail_concat {bits : ℕ} (h : ¬ bits % 8 = 0) (front : List Octet) (x : Octet) :
    clearTail bits (front ++ [x]) = front ++ [x &&& (0xff#8 <<< (8 - bits % 8))] := by
  rw [clearTail, if_neg h, length_append, length_singleton, Nat.add_sub_cancel]
  exact modify_append_cons front [] x _

lemma clearTail_append {bits : ℕ} {l : List Octet} (hl : l = [] → bits % 8 = 0)
    (front : List Octet) : clearTail bits (front ++ l) = front ++ clearTail bits l := by
  by_cases hbits : bits % 8 = 0
  · rw [clearTail_of_whole hbits, clearTail_of_whole hbits]
  · rcases eq_nil_or_concat' l with hnil | ⟨mid, x, rfl⟩
    · exact absurd (hl hnil) hbits
    · rw [← append_assoc, clearTail_concat hbits, clearTail_concat hbits, append_assoc]

lemma clearTail_clearTail (bits : ℕ) (l : List Octet) :
    clearTail bits (clearTail bits l) = clearTail bits l := by
  by_cases hbits : bits % 8 = 0
  · rw [clearTail_of_whole hbits, clearTail_of_whole hbits]
  · rcases eq_nil_or_concat' l with rfl | ⟨mid, x, rfl⟩
    · have hnil : clearTail bits [] = [] := by
        rw [clearTail, if_neg hbits]
        rfl
      rw [hnil, hnil]
    · rw [clearTail_concat hbits, clearTail_concat hbits, BitVec.and_assoc, BitVec.and_self]

lemma writeWithdrawalNLRI_eq {mem : List Octet} {dst rest : Area} {bits : ℕ}
    (hbits : bits + 24 ≤ 255) (hroom : 4 + rest.len ≤ dst.len)
    (hdst : dst.base + dst.len ≤ mem.length) (hrest : rest.base + rest.len ≤ mem.length)
    (hapart : dst.base + 4 ≤ rest.base ∨ rest.base + rest.len ≤ dst.base) :
    writeWithdrawalNLRI mem dst bits rest =
      some (4 + rest.len,
        splice mem dst.base (withdrawalNLRI bits (window mem rest.base rest.len))) := by
  have hmax : ¬ maxLengthOctetBits < bits + 24 := by
    rw [maxLengthOctetBits]
    omega
  have hwindow : (window mem rest.base rest.len).length = rest.len := length_window hrest
  have hhead : splice (splice mem dst.base [BitVec.ofNat 8 (bits + 24)]) (dst.base + 1)
      [0x80#8, 0#8, 0#8] =
        splice mem dst.base [BitVec.ofNat 8 (bits + 24), 0x80#8, 0#8, 0#8] := by
    apply splice_splice
    simp only [length_cons, length_nil]
    omega
  have hread : window (splice mem dst.base [BitVec.ofNat 8 (bits + 24), 0x80#8, 0#8, 0#8])
      rest.base rest.len = window mem rest.base rest.len := by
    apply window_splice_of_apart
    · simp only [length_cons, length_nil]
      omega
    · simp only [length_cons, length_nil]
      omega
  have hbody : splice (splice mem dst.base [BitVec.ofNat 8 (bits + 24), 0x80#8, 0#8, 0#8])
      (dst.base + 4) (window mem rest.base rest.len) =
        splice mem dst.base ([BitVec.ofNat 8 (bits + 24), 0x80#8, 0#8, 0#8] ++
          window mem rest.base rest.len) := by
    apply splice_splice
    rw [hwindow]
    simp only [length_cons, length_nil]
    omega
  rw [writeWithdrawalNLRI]
  dsimp only
  rw [if_neg hmax, if_neg (by omega), hhead, hread, hbody, withdrawalNLRI]
  by_cases hwhole : bits % 8 = 0
  · rw [if_pos hwhole, clearTail_of_whole hwhole]
    rfl
  · rw [if_neg hwhole]
    obtain ⟨front, x, hconcat⟩ : ∃ front x,
        [BitVec.ofNat 8 (bits + 24), 0x80#8, 0#8, 0#8] ++ window mem rest.base rest.len =
          front ++ [x] := by
      rcases eq_nil_or_concat' ([BitVec.ofNat 8 (bits + 24), 0x80#8, 0#8, 0#8] ++
        window mem rest.base rest.len) with hnil | ⟨front, x, hconcat⟩
      · cases hnil
      · exact ⟨front, x, hconcat⟩
    have hlen := congrArg length hconcat
    rw [length_append, hwindow, length_append, length_singleton] at hlen
    simp only [length_cons, length_nil] at hlen
    have hlast : 4 + rest.len - 1 = front.length := by omega
    have hfits : dst.base + front.length + 1 ≤ mem.length := by omega
    have hcons : BitVec.ofNat 8 (bits + 24) :: 0x80#8 :: 0#8 :: 0#8 ::
        window mem rest.base rest.len = front ++ [x] := hconcat
    obtain ⟨hget, hagain⟩ := @splice_last _ mem dst.base front x
      (x &&& (0xff#8 <<< (8 - bits % 8))) 0#8 hfits
    rw [hcons, clearTail_concat hwhole, hconcat, hlast, hget, hagain]

/-! ## The octets written, without a memory -/

/-- Where the NLRI at `read` ends, and what is written for it. Source: writeWithdrawalField -/
def withdrawalEntry (field : List Octet) (addPath withdraw : Bool) (keyBitsMin read : ℕ) :
    Option (ℕ × List Octet) :=
  let stop := bitLengthEntryEnd field read (head addPath) maxLengthOctetBits
  if field.length < stop then none
  else
    match labelFieldEnd (slice field (read + head addPath, stop)) withdraw with
    | none => none
    | some (off, bits) =>
      if bits < keyBitsMin then none
      else some (stop, slice field (read, read + head addPath) ++
        withdrawalNLRI bits ((slice field (read + head addPath, stop)).drop off))

/-- What stands at `read` when an NLRI is written for it. Source: writeWithdrawalField. -/
structure Rewritten (field : List Octet) (addPath withdraw : Bool) (keyBitsMin read stop : ℕ)
    (octets : List Octet) (off bits k : ℕ) : Prop where
  ends : bitLengthEntryEnd field read (head addPath) maxLengthOctetBits = stop
  stop_eq : stop = read + head addPath + 1 + ((field.getD (read + head addPath) 0#8).toNat + 7) / 8
  stop_le : stop ≤ field.length
  first : (slice field (read + head addPath, stop)).getD 0 0#8 =
    field.getD (read + head addPath) 0#8
  labels : labelFieldEnd (slice field (read + head addPath, stop)) withdraw = some (off, bits)
  pos : 0 < k
  off_eq : off = 1 + 3 * k
  counted : bits + 24 * k = (field.getD (read + head addPath) 0#8).toNat
  floor : keyBitsMin ≤ bits
  octets_eq : octets = slice field (read, read + head addPath) ++
    withdrawalNLRI bits ((slice field (read + head addPath, stop)).drop off)

lemma rewritten_of_entry {field octets : List Octet} {addPath withdraw : Bool}
    {keyBitsMin read stop : ℕ}
    (h : withdrawalEntry field addPath withdraw keyBitsMin read = some (stop, octets)) :
    ∃ off bits k, Rewritten field addPath withdraw keyBitsMin read stop octets off bits k := by
  unfold withdrawalEntry at h
  dsimp only at h
  split_ifs at h with hpast
  rcases hlabels : labelFieldEnd (slice field (read + head addPath,
    bitLengthEntryEnd field read (head addPath) maxLengthOctetBits)) withdraw with _ | ⟨off, bits⟩
  · rw [hlabels] at h
    cases h
  rw [hlabels] at h
  dsimp only at h
  split_ifs at h with hfloor
  obtain ⟨hstop, hoctets⟩ := Prod.mk.inj (Option.some.inj h)
  rw [hstop] at hpast hlabels hoctets
  have hends := hstop
  rw [bitLengthEntryEnd] at hstop
  dsimp only at hstop
  split_ifs at hstop with hshort hmax
  · omega
  · omega
  have hfirst : (slice field (read + head addPath, stop)).getD 0 0#8 =
      field.getD (read + head addPath) 0#8 := by
    rw [slice, getD_eq_getElem?_getD, getElem?_take, if_pos (by dsimp only; omega),
      getElem?_drop, Nat.add_zero, ← getD_eq_getElem?_getD]
  obtain ⟨k, hpos, hoff, hcounted, -⟩ := labelFieldEnd_spec hlabels
  rw [hfirst] at hcounted
  exact ⟨off, bits, k, hends, hstop.symm, by omega, hfirst, hlabels, hpos, hoff, hcounted, by omega,
    hoctets.symm⟩

namespace Rewritten

variable {field octets : List Octet} {addPath withdraw : Bool} {keyBitsMin read stop off bits k : ℕ}

section

variable (h : Rewritten field addPath withdraw keyBitsMin read stop octets off bits k)
include h

lemma length_nlri :
    (slice field (read + head addPath, stop)).length =
      1 + ((field.getD (read + head addPath) 0#8).toNat + 7) / 8 := by
  have hstop := h.stop_eq
  rw [length_slice h.stop_le]
  omega

lemma length_rest :
    ((slice field (read + head addPath, stop)).drop off).length = (bits + 7) / 8 := by
  have hoff := h.off_eq
  have hcounted := h.counted
  rw [length_drop, h.length_nlri]
  omega

lemma length_pathID : (slice field (read, read + head addPath)).length = head addPath := by
  have hstop := h.stop_eq
  have hle := h.stop_le
  rw [length_slice (by omega)]
  omega

lemma length_octets : octets.length = head addPath + (4 + (bits + 7) / 8) := by
  rw [h.octets_eq, length_append, h.length_pathID, withdrawalNLRI, length_clearTail]
  simp only [length_cons]
  rw [h.length_rest]
  omega

lemma length_octets_le : read + octets.length ≤ stop := by
  have hstop := h.stop_eq
  have hcounted := h.counted
  have hpos := h.pos
  have hlen := h.length_octets
  omega

end

end Rewritten

/-- What is written for the NLRI of a field from `read` on: for each its range in the field and the
octets.
Source: writeWithdrawalField. -/
inductive Converted (field : List Octet) (addPath withdraw : Bool) (keyBitsMin : ℕ) :
    ℕ → List ((ℕ × ℕ) × List Octet) → Prop
  /-- The field is read. -/
  | done {read : ℕ} (ended : field.length ≤ read) :
      Converted field addPath withdraw keyBitsMin read []
  /-- One NLRI more. -/
  | next {read stop : ℕ} {octets : List Octet} {pieces : List ((ℕ × ℕ) × List Octet)}
      (more : read < field.length)
      (entry : withdrawalEntry field addPath withdraw keyBitsMin read = some (stop, octets))
      (rest : Converted field addPath withdraw keyBitsMin stop pieces) :
      Converted field addPath withdraw keyBitsMin read (((read, stop), octets) :: pieces)

/-- All octets that are written. Source: writeWithdrawalField. -/
def written (pieces : List ((ℕ × ℕ) × List Octet)) : List Octet := pieces.flatMap (·.2)

/-! ## The loop over the memory -/

/-- The destination begins where the field does, or is away from it. Source: WithdrawalWriter. -/
def Placed (dst field : Area) : Prop :=
  field.base = dst.base ∨ dst.base + dst.len ≤ field.base ∨ field.base + field.len ≤ dst.base

section

variable {mem out octets : List Octet} {dst field : Area} {addPath withdraw : Bool}
  {keyBitsMin read stop turns : ℕ}

variable {data data' : List Octet}

lemma bitLengthEntryEnd_congr (hlen : data.length = data'.length)
    (hdrop : data.drop read = data'.drop read) (head maxBits : ℕ) :
    bitLengthEntryEnd data read head maxBits = bitLengthEntryEnd data' read head maxBits := by
  have hget : data.getD (read + head) 0#8 = data'.getD (read + head) 0#8 := by
    rw [← getD_drop, ← getD_drop, hdrop]
  rw [bitLengthEntryEnd, bitLengthEntryEnd, hlen, hget]

lemma slice_congr (hdrop : data.drop read = data'.drop read)
    (n stop : ℕ) : slice data (read + n, stop) = slice data' (read + n, stop) := by
  rw [slice, slice, ← drop_drop, hdrop, drop_drop]

lemma drop_slice_window {base n start off : ℕ} (hstop : stop ≤ n) :
    (slice (window mem base n) (start, stop)).drop off =
      window mem (base + (start + off)) (stop - (start + off)) := by
  rw [drop_slice, drop_window, window, take_take, window, Nat.sub_sub, Nat.min_eq_left (by omega)]

lemma drop_field (hplaced : Placed dst field) (hdst : dst.base + dst.len ≤ mem.length)
    (hout : out.length ≤ read) (hroom : out.length ≤ dst.len) :
    (window (splice mem dst.base out) field.base field.len).drop read =
      (window mem field.base field.len).drop read := by
  rw [drop_window, drop_window]
  by_cases hread : field.len ≤ read
  · have hnone : field.len - read = 0 := by omega
    rw [hnone, window, window, take_zero, take_zero]
  · apply window_splice_of_apart (by omega)
    rcases hplaced with hsame | hbefore | hbehind
    · omega
    · omega
    · omega

lemma withdrawalLoop_succ (hplaced : Placed dst field)
    (hdst : dst.base + dst.len ≤ mem.length) (hfield : field.base + field.len ≤ mem.length)
    (hread : read < field.len) (hout : out.length ≤ read) (hroom : out.length ≤ dst.len)
    (hstop : bitLengthEntryEnd (window mem field.base field.len) read (head addPath)
      maxLengthOctetBits = stop) :
    withdrawalLoop dst field addPath withdraw keyBitsMin (turns + 1) read out.length
        (splice mem dst.base out) =
      if field.len < stop then (.error .field, splice mem dst.base out)
      else
        match labelFieldEnd (slice (window mem field.base field.len) (read + head addPath, stop))
            withdraw with
        | none => (.error .field, splice mem dst.base out)
        | some (off, bits) =>
          if bits < keyBitsMin then (.error .field, splice mem dst.base out)
          else if dst.len < out.length + head addPath then
            (.error .destination, splice mem dst.base out)
          else
            let mem' := splice (splice mem dst.base out) (dst.base + out.length)
              (slice (window mem field.base field.len) (read, read + head addPath))
            match writeWithdrawalNLRI mem'
                ⟨dst.base + (out.length + head addPath), dst.len - (out.length + head addPath)⟩ bits
                ⟨field.base + (read + head addPath + off), stop - (read + head addPath + off)⟩ with
            | none => (.error .destination, mem')
            | some (n, mem'') =>
              withdrawalLoop dst field addPath withdraw keyBitsMin turns stop
                (out.length + head addPath + n) mem'' := by
  have hM : (splice mem dst.base out).length = mem.length := length_splice (by omega)
  have hdata : (window (splice mem dst.base out) field.base field.len).length =
      (window mem field.base field.len).length := by
    rw [length_window hfield, length_window (by omega)]
  have hdrop := drop_field hplaced hdst hout hroom
  have hpathID := slice_congr hdrop 0 (read + head addPath)
  rw [Nat.add_zero] at hpathID
  rw [withdrawalLoop, if_neg (by omega)]
  dsimp only
  rw [bitLengthEntryEnd_congr hdata hdrop, hstop, slice_congr hdrop, hpathID]

lemma Rewritten.write {off bits k : ℕ} (hplaced : Placed dst field)
    (hdst : dst.base + dst.len ≤ mem.length) (hfield : field.base + field.len ≤ mem.length)
    (hout : out.length ≤ read)
    (h : Rewritten (window mem field.base field.len) addPath withdraw keyBitsMin read stop octets
      off bits k) (hroom : out.length + octets.length ≤ dst.len) :
    writeWithdrawalNLRI (splice (splice mem dst.base out) (dst.base + out.length)
        (slice (window mem field.base field.len) (read, read + head addPath)))
      ⟨dst.base + (out.length + head addPath), dst.len - (out.length + head addPath)⟩ bits
      ⟨field.base + (read + head addPath + off), stop - (read + head addPath + off)⟩ =
    some (4 + (bits + 7) / 8, splice mem dst.base (out ++ octets)) := by
  have hlenID := h.length_pathID
  have hlenRest := h.length_rest
  have hlenOctets := h.length_octets
  have hstop := h.stop_eq
  have hle := h.stop_le
  have hoff := h.off_eq
  have hpos := h.pos
  have hcounted := h.counted
  have htotal := ((window mem field.base field.len).getD (read + head addPath) 0#8).isLt
  rw [length_window hfield] at hle
  have hlen : stop - (read + head addPath + off) = (bits + 7) / 8 := by omega
  have hfirst : splice (splice mem dst.base out) (dst.base + out.length)
      (slice (window mem field.base field.len) (read, read + head addPath)) =
        splice mem dst.base
          (out ++ slice (window mem field.base field.len) (read, read + head addPath)) := by
    apply splice_splice
    omega
  have hfits : dst.base + (out ++ slice (window mem field.base field.len)
      (read, read + head addPath)).length ≤ mem.length := by
    rw [length_append]
    omega
  have hspliced := length_splice hfits
  have hend : dst.base + (out.length + head addPath) = dst.base +
      (out ++ slice (window mem field.base field.len) (read, read + head addPath)).length := by
    rw [length_append, hlenID]
  have hrest : window (splice mem dst.base
      (out ++ slice (window mem field.base field.len) (read, read + head addPath)))
        (field.base + (read + head addPath + off)) (stop - (read + head addPath + off)) =
      (slice (window mem field.base field.len) (read + head addPath, stop)).drop off := by
    rw [drop_slice_window hle]
    apply window_splice_of_apart hfits
    rcases hplaced with hsame | hbefore | hbehind <;> omega
  rw [hfirst, writeWithdrawalNLRI_eq (by omega) (by dsimp only; omega) (by dsimp only; omega)
    (by dsimp only; omega)]
  · dsimp only
    rw [hrest, hlen, hend, splice_splice, h.octets_eq, append_assoc]
    rw [withdrawalNLRI, length_clearTail]
    simp only [length_append, length_cons]
    omega
  · dsimp only
    rcases hplaced with hsame | hbefore | hbehind <;> omega

lemma withdrawalLoop_write (hplaced : Placed dst field)
    (hdst : dst.base + dst.len ≤ mem.length) (hfield : field.base + field.len ≤ mem.length)
    (hread : read < field.len) (hout : out.length ≤ read)
    (hentry : withdrawalEntry (window mem field.base field.len) addPath withdraw keyBitsMin read =
      some (stop, octets)) (hroom : out.length + octets.length ≤ dst.len) :
    withdrawalLoop dst field addPath withdraw keyBitsMin (turns + 1) read out.length
        (splice mem dst.base out) =
      withdrawalLoop dst field addPath withdraw keyBitsMin turns stop (out ++ octets).length
        (splice mem dst.base (out ++ octets)) := by
  obtain ⟨off, bits, k, hrewritten⟩ := rewritten_of_entry hentry
  have hle := hrewritten.stop_le
  have hfloor := hrewritten.floor
  have hlen := hrewritten.length_octets
  rw [length_window hfield] at hle
  rw [withdrawalLoop_succ hplaced hdst hfield hread hout (by omega) hrewritten.ends,
    if_neg (by omega), hrewritten.labels]
  dsimp only
  rw [if_neg (by omega), if_neg (by omega), hrewritten.write hplaced hdst hfield hout hroom]
  dsimp only
  rw [length_append, hlen, Nat.add_assoc]

lemma withdrawalLoop_refuse (hplaced : Placed dst field)
    (hdst : dst.base + dst.len ≤ mem.length) (hfield : field.base + field.len ≤ mem.length)
    (hread : read < field.len) (hout : out.length ≤ read) (hroom : out.length ≤ dst.len)
    (hentry : withdrawalEntry (window mem field.base field.len) addPath withdraw keyBitsMin read =
      none) :
    withdrawalLoop dst field addPath withdraw keyBitsMin (turns + 1) read out.length
      (splice mem dst.base out) = (.error .field, splice mem dst.base out) := by
  rw [withdrawalLoop_succ hplaced hdst hfield hread hout hroom rfl]
  unfold withdrawalEntry at hentry
  dsimp only at hentry
  rw [length_window hfield] at hentry
  by_cases hpast : field.len < bitLengthEntryEnd (window mem field.base field.len) read
      (head addPath) maxLengthOctetBits
  · rw [if_pos hpast]
  rw [if_neg hpast] at hentry ⊢
  rcases hlabels : labelFieldEnd (slice (window mem field.base field.len) (read + head addPath,
    bitLengthEntryEnd (window mem field.base field.len) read (head addPath)
      maxLengthOctetBits)) withdraw with _ | ⟨off, bits⟩
  · rfl
  · rw [hlabels] at hentry
    dsimp only at hentry ⊢
    by_cases hfloor : bits < keyBitsMin
    · rw [if_pos hfloor]
    · rw [if_neg hfloor] at hentry
      cases hentry

lemma withdrawalLoop_full (hplaced : Placed dst field)
    (hdst : dst.base + dst.len ≤ mem.length) (hfield : field.base + field.len ≤ mem.length)
    (hread : read < field.len) (hout : out.length ≤ read) (hroom : out.length ≤ dst.len)
    (hentry : withdrawalEntry (window mem field.base field.len) addPath withdraw keyBitsMin read =
      some (stop, octets)) (hfull : dst.len < out.length + octets.length) :
    (withdrawalLoop dst field addPath withdraw keyBitsMin (turns + 1) read out.length
      (splice mem dst.base out)).1 = .error .destination := by
  obtain ⟨off, bits, k, hrewritten⟩ := rewritten_of_entry hentry
  have hle := hrewritten.stop_le
  have hstop := hrewritten.stop_eq
  have hcounted := hrewritten.counted
  have hoff := hrewritten.off_eq
  have hfloor := hrewritten.floor
  have hlen := hrewritten.length_octets
  rw [length_window hfield] at hle
  rw [withdrawalLoop_succ hplaced hdst hfield hread hout hroom hrewritten.ends,
    if_neg (by omega), hrewritten.labels]
  dsimp only
  rw [if_neg (by omega)]
  by_cases hhead : dst.len < out.length + head addPath
  · rw [if_pos hhead]
  · have hnone : ∀ m, writeWithdrawalNLRI m
        ⟨dst.base + (out.length + head addPath), dst.len - (out.length + head addPath)⟩ bits
        ⟨field.base + (read + head addPath + off), stop - (read + head addPath + off)⟩ = none := by
      intro m
      rw [writeWithdrawalNLRI]
      dsimp only
      by_cases hmax : maxLengthOctetBits < bits + 24
      · rw [if_pos hmax]
      · rw [if_neg hmax, if_pos (by omega)]
    rw [if_neg hhead, hnone]

lemma withdrawalLoop_ok (hplaced : Placed dst field)
    (hdst : dst.base + dst.len ≤ mem.length) (hfield : field.base + field.len ≤ mem.length) :
    (turns : ℕ) → ∀ (read n : ℕ) (out mem' : List Octet), field.len < read + turns →
      out.length ≤ read → out.length ≤ dst.len →
      withdrawalLoop dst field addPath withdraw keyBitsMin turns read out.length
        (splice mem dst.base out) = (.ok n, mem') →
      ∃ pieces,
        Converted (window mem field.base field.len) addPath withdraw keyBitsMin read pieces ∧
        n = (out ++ written pieces).length ∧ n ≤ dst.len ∧
        mem' = splice mem dst.base (out ++ written pieces)
  | 0, read, n, out, mem', hturns, hout, hroom, h => by
    obtain ⟨hn, rfl⟩ := Prod.mk.inj h
    cases hn
    refine ⟨[], .done (by rw [length_window hfield]; omega), ?_, hroom, ?_⟩
    · rw [written, flatMap_nil, append_nil]
    · rw [written, flatMap_nil, append_nil]
  | turns + 1, read, n, out, mem', hturns, hout, hroom, h => by
    by_cases hend : field.len ≤ read
    · rw [withdrawalLoop, if_pos hend] at h
      obtain ⟨hn, rfl⟩ := Prod.mk.inj h
      cases hn
      refine ⟨[], .done (by rw [length_window hfield]; omega), ?_, hroom, ?_⟩
      · rw [written, flatMap_nil, append_nil]
      · rw [written, flatMap_nil, append_nil]
    have hread := Nat.lt_of_not_le hend
    rcases hentry : withdrawalEntry (window mem field.base field.len) addPath withdraw keyBitsMin
      read with _ | ⟨stop, octets⟩
    · rw [withdrawalLoop_refuse hplaced hdst hfield hread hout hroom hentry] at h
      cases h
    obtain ⟨off, bits, k, hrewritten⟩ := rewritten_of_entry hentry
    have hle := hrewritten.length_octets_le
    have hstop := hrewritten.stop_eq
    by_cases hfull : dst.len < out.length + octets.length
    · have herr : (withdrawalLoop dst field addPath withdraw keyBitsMin (turns + 1) read out.length
          (splice mem dst.base out)).1 = .error .destination :=
        withdrawalLoop_full hplaced hdst hfield hread hout hroom hentry hfull
      rw [h] at herr
      cases herr
    · rw [withdrawalLoop_write hplaced hdst hfield hread hout hentry (by omega)] at h
      obtain ⟨pieces, hpieces, hn, hfits, hmem⟩ :=
        withdrawalLoop_ok hplaced hdst hfield turns stop n (out ++ octets) mem' (by omega)
          (by rw [length_append]; omega) (by rw [length_append]; omega) h
      have hwritten : out ++ written (((read, stop), octets) :: pieces) =
          out ++ octets ++ written pieces := by
        rw [written, flatMap_cons, ← append_assoc]
        rfl
      refine ⟨((read, stop), octets) :: pieces,
        .next (by rw [length_window hfield]; omega) hentry hpieces, ?_, hfits, ?_⟩
      · rw [hwritten, hn]
      · rw [hwritten, hmem]

/-- A field that can be converted is converted, into any destination that is long enough. -/
lemma withdrawalLoop_of_converted (hplaced : Placed dst field)
    (hdst : dst.base + dst.len ≤ mem.length) (hfield : field.base + field.len ≤ mem.length)
    {pieces : List ((ℕ × ℕ) × List Octet)}
    (h : Converted (window mem field.base field.len) addPath withdraw keyBitsMin read pieces) :
    ∀ (turns : ℕ) (out : List Octet), field.len < read + turns → out.length ≤ read →
      (out ++ written pieces).length ≤ dst.len →
      withdrawalLoop dst field addPath withdraw keyBitsMin turns read out.length
        (splice mem dst.base out) =
      (.ok (out ++ written pieces).length, splice mem dst.base (out ++ written pieces)) := by
  induction h with
  | @done read hended =>
    intro turns out hturns hout hfits
    rw [length_window hfield] at hended
    rw [written, flatMap_nil, append_nil]
    rcases turns with _ | turns
    · rfl
    · rw [withdrawalLoop, if_pos hended]
  | @next read stop octets pieces hmore hentry _ ih =>
    intro turns out hturns hout hfits
    rw [length_window hfield] at hmore
    obtain ⟨off, bits, k, hrewritten⟩ := rewritten_of_entry hentry
    have hle := hrewritten.length_octets_le
    have hstop := hrewritten.stop_eq
    have hwritten : out ++ written (((read, stop), octets) :: pieces) =
        out ++ octets ++ written pieces := by
      rw [written, flatMap_cons, ← append_assoc]
      rfl
    rw [hwritten] at hfits ⊢
    have hroom : out.length + octets.length ≤ dst.len := by
      rw [length_append, length_append] at hfits
      omega
    obtain ⟨turns, rfl⟩ : ∃ j, turns = j + 1 := ⟨turns - 1, by omega⟩
    rw [withdrawalLoop_write hplaced hdst hfield hmore hout hentry hroom]
    exact ih turns (out ++ octets) (by omega) (by rw [length_append]; omega) hfits

end

/-! ## The routes written -/

variable {rest : List Octet}

lemma withdrawalNLRI_eq {bits : ℕ} (hrest : rest.length = (bits + 7) / 8) :
    withdrawalNLRI bits rest =
      BitVec.ofNat 8 (bits + 24) :: 0x80#8 :: 0#8 :: 0#8 :: clearTail bits rest := by
  refine clearTail_append ?_ [BitVec.ofNat 8 (bits + 24), 0x80#8, 0#8, 0#8]
  intro hnil
  rw [hnil, length_nil] at hrest
  omega

lemma key_eq {bits : ℕ} (hrest : rest.length = (bits + 7) / 8) :
    clearTail bits (BitVec.ofNat 8 bits :: rest) = BitVec.ofNat 8 bits :: clearTail bits rest := by
  refine clearTail_append ?_ [BitVec.ofNat 8 bits]
  intro hnil
  rw [hnil, length_nil] at hrest
  omega

lemma keyLabeled_withdrawalNLRI {bits : ℕ} (hbits : bits + 24 ≤ 255)
    (hrest : rest.length = (bits + 7) / 8) :
    keyLabeled (withdrawalNLRI bits rest) prefixKeyScratchSize true =
      some (clearTail bits (BitVec.ofNat 8 bits :: rest)) := by
  have hfirst : ((withdrawalNLRI bits rest).getD 0 0#8).toNat = bits + 24 := by
    rw [withdrawalNLRI_eq hrest, getD_cons_zero, BitVec.toNat_ofNat, Nat.mod_eq_of_lt (by omega)]
  have hlen : (withdrawalNLRI bits rest).length = 4 + (bits + 7) / 8 := by
    rw [withdrawalNLRI, length_clearTail]
    simp only [length_cons, hrest]
    omega
  have hlabels : labelFieldEnd (withdrawalNLRI bits rest) true = some (4, bits) := by
    rw [labelFieldEnd, labelFieldLoop, hfirst, if_neg (by omega), if_pos (.inl rfl),
      Nat.add_sub_cancel]
  rw [keyLabeled_of_labels (by omega) hlabels, withdrawalNLRI_eq hrest, key_eq hrest]
  have hdrop : (BitVec.ofNat 8 (bits + 24) :: 0x80#8 :: 0#8 :: 0#8 :: clearTail bits rest).drop 4 =
      clearTail bits rest := rfl
  have hcleared : (clearTail bits rest).length = (bits + 7) / 8 := by
    rw [length_clearTail, hrest]
  rw [hdrop, key_eq hcleared, clearTail_clearTail]

lemma CompatibilityFamily.key_of_keyLabeled (fam : CompatibilityFamily) {raw : List Octet}
    {withdraw : Bool} {bits : ℕ} (hfloor : fam.keyBitsMin ≤ bits) (hbits : bits < 256)
    (hrest : rest.length = (bits + 7) / 8) (h : keyLabeled raw prefixKeyScratchSize withdraw =
      some (clearTail bits (BitVec.ofNat 8 bits :: rest))) :
    fam.key raw prefixKeyScratchSize withdraw =
      some (clearTail bits (BitVec.ofNat 8 bits :: rest)) := by
  rcases fam with _ | _
  · exact h
  · have hmin : vpnKeyBitsMin ≤ bits := hfloor
    show keyVPN raw prefixKeyScratchSize withdraw = _
    rw [keyVPN, h]
    dsimp only
    rw [key_eq hrest, getD_cons_zero, BitVec.toNat_ofNat, Nat.mod_eq_of_lt (by omega),
      if_neg (by omega)]

lemma drop_head_slice (data : List Octet) (read stop n : ℕ) :
    (slice data (read, stop)).drop n = slice data (read + n, stop) := by
  rw [drop_slice, slice, Nat.sub_sub]

section

variable {field : List Octet} {addPath withdraw : Bool} {keyBitsMin read : ℕ}
  {pieces : List ((ℕ × ℕ) × List Octet)}

lemma Rewritten.bitLengthEntry {stop off bits k : ℕ} {octets : List Octet}
    (h : Rewritten field addPath withdraw keyBitsMin read stop octets off bits k) :
    bitLengthEntry field (head addPath) maxLengthOctetBits read = .ok stop := by
  rw [Nlri.bitLengthEntry, h.ends, if_neg (Nat.not_lt.2 h.stop_le)]

lemma Rewritten.labeledEntry {stop off bits k : ℕ} {octets : List Octet}
    (h : Rewritten field addPath false keyBitsMin read stop octets off bits k) :
    labeledEntry field (head addPath) read = .ok stop := by
  have hlength := h.length_nlri
  have hstop := h.stop_eq
  rw [← h.first] at hlength
  obtain ⟨j, hj⟩ := announced_of_labels hlength h.labels
  rw [← drop_head_slice] at hj
  exact labeledEntry_of_announced h.stop_le (by omega) hj

lemma walk_of_converted {entryEnd : ℕ → Except SplitError ℕ} (hentry : ∀ {read stop octets},
      withdrawalEntry field addPath withdraw keyBitsMin read = some (stop, octets) →
        entryEnd read = .ok stop) (h : Converted field addPath withdraw keyBitsMin read pieces) :
    ∀ (turns : ℕ) (visited : List (ℕ × ℕ)), field.length < read + turns →
      walk field.length entryEnd Visitor.goOn turns read visited =
        ⟨visited ++ pieces.map fst, none⟩ := by
  induction h with
  | done hended =>
    intro turns visited hturns
    rw [map_nil, append_nil, walk_done hended]
  | @next read stop octets pieces hmore hnext _ ih =>
    intro turns visited hturns
    obtain ⟨off, bits, k, hrewritten⟩ := rewritten_of_entry hnext
    have hstop := hrewritten.stop_eq
    obtain ⟨turns, rfl⟩ : ∃ j, turns = j + 1 := ⟨turns - 1, by omega⟩
    rw [walk_goOn hmore (hentry hnext), ih turns _ (by omega), append_assoc]
    rfl

lemma split_of_converted (fam : CompatibilityFamily)
    (h : Converted field addPath withdraw keyBitsMin 0 pieces) :
    fam.split withdraw field addPath Visitor.goOn = ⟨pieces.map fst, none⟩ := by
  have hlength : splitVPN field addPath Visitor.goOn = ⟨pieces.map fst, none⟩ := by
    refine walk_of_converted ?_ h _ [] (by omega)
    intro read stop octets hentry
    obtain ⟨off, bits, k, hrewritten⟩ := rewritten_of_entry hentry
    exact hrewritten.bitLengthEntry
  rcases fam with _ | _
  · rcases withdraw with _ | _
    · refine walk_of_converted ?_ h _ [] (by omega)
      intro read stop octets hentry
      obtain ⟨off, bits, k, hrewritten⟩ := rewritten_of_entry hentry
      exact hrewritten.labeledEntry
    · exact hlength
  · exact hlength

/-- Where the NLRI stand that were written. Source: writeWithdrawalField. -/
def outRanges : ℕ → List ((ℕ × ℕ) × List Octet) → List (ℕ × ℕ)
  | _, [] => []
  | offset, piece :: pieces =>
    (offset, offset + piece.2.length) :: outRanges (offset + piece.2.length) pieces

lemma Rewritten.bitLengthEntry_written {stop off bits k : ℕ} {octets : List Octet}
    (h : Rewritten field addPath withdraw keyBitsMin read stop octets off bits k)
    (before after : List Octet) :
    Nlri.bitLengthEntry (before ++ (octets ++ after)) (head addPath) maxLengthOctetBits
      before.length = .ok (before.length + octets.length) := by
  have hlen := h.length_octets
  have hcounted := h.counted
  have hpos := h.pos
  have hget : ((before ++ (octets ++ after)).getD (before.length + head addPath) 0#8).toNat =
      bits + 24 := by
    have hbehind : (octets ++ after).getD (head addPath) 0#8 =
        ((octets ++ after).drop (head addPath)).getD 0 0#8 := by
      rw [getD_drop, Nat.add_zero]
    rw [← getD_drop, drop_left, hbehind, h.octets_eq, append_assoc,
      drop_left' h.length_pathID, withdrawalNLRI_eq h.length_rest]
    show (BitVec.ofNat 8 (bits + 24)).toNat = bits + 24
    rw [BitVec.toNat_ofNat, Nat.mod_eq_of_lt (by omega)]
  have hall : (before ++ (octets ++ after)).length =
      before.length + (octets.length + after.length) := by
    rw [length_append, length_append]
  have hmax : ¬ maxLengthOctetBits < bits + 24 := by
    rw [maxLengthOctetBits]
    omega
  have hend : bitLengthEntryEnd (before ++ (octets ++ after)) before.length (head addPath)
      maxLengthOctetBits = before.length + octets.length := by
    rw [bitLengthEntryEnd, hget, if_neg (by omega)]
    dsimp only
    rw [if_neg hmax]
    omega
  rw [Nlri.bitLengthEntry, hend, if_neg (by omega)]

lemma walk_written (h : Converted field addPath withdraw keyBitsMin read pieces) :
    ∀ (turns : ℕ) (before : List Octet) (visited : List (ℕ × ℕ)),
      (before ++ written pieces).length < before.length + turns →
      walk (before ++ written pieces).length
          (bitLengthEntry (before ++ written pieces) (head addPath) maxLengthOctetBits)
          Visitor.goOn turns before.length visited =
        ⟨visited ++ outRanges before.length pieces, none⟩ := by
  induction h with
  | done _ =>
    intro turns before visited hturns
    rw [written, flatMap_nil, append_nil, outRanges, append_nil, walk_done (Nat.le_refl _)]
  | @next read stop octets pieces _ hnext _ ih =>
    intro turns before visited hturns
    obtain ⟨off, bits, k, hrewritten⟩ := rewritten_of_entry hnext
    have hlen := hrewritten.length_octets
    have hwritten : written (((read, stop), octets) :: pieces) = octets ++ written pieces := rfl
    rw [hwritten, length_append, length_append] at hturns
    obtain ⟨turns, rfl⟩ : ∃ j, turns = j + 1 := ⟨turns - 1, by omega⟩
    have hmore : before.length < (before ++ (octets ++ written pieces)).length := by
      rw [length_append, length_append]
      omega
    have hrest := ih turns (before ++ octets) (visited ++ [(before.length,
      before.length + octets.length)]) (by simp only [length_append]; omega)
    rw [append_assoc before, @length_append _ before octets] at hrest
    rw [hwritten, walk_goOn hmore (hrewritten.bitLengthEntry_written before _), hrest, append_assoc]
    rfl

/-- Two ranges of two fields name one route: the Path Identifiers are the same, and the key of the
one in the framing it has is the key of the other as a withdrawal.
Source: WithdrawalWriter. -/
def SameRoute (fam : CompatibilityFamily) (addPath withdraw : Bool) (input output : List Octet)
    (r r' : ℕ × ℕ) : Prop :=
  (slice output r').take (head addPath) = (slice input r).take (head addPath) ∧
  ∃ key, fam.key ((slice input r).drop (head addPath)) prefixKeyScratchSize withdraw = some key ∧
    fam.key ((slice output r').drop (head addPath)) prefixKeyScratchSize true = some key

variable {fam : CompatibilityFamily}

lemma Rewritten.sameRoute {stop off bits k : ℕ} {octets : List Octet}
    (h : Rewritten field addPath withdraw fam.keyBitsMin read stop octets off bits k)
    (before after : List Octet) :
    SameRoute fam addPath withdraw field (before ++ (octets ++ after)) (read, stop)
      (before.length, before.length + octets.length) := by
  have hcounted := h.counted
  have hpos := h.pos
  have hstop := h.stop_eq
  have hslice : slice (before ++ (octets ++ after))
      (before.length, before.length + octets.length) = octets := by
    rw [slice]
    dsimp only
    rw [drop_left, Nat.add_sub_cancel_left, take_left]
  have hlength := h.length_nlri
  rw [← h.first] at hlength
  refine ⟨?_, clearTail bits (BitVec.ofNat 8 bits ::
    (slice field (read + head addPath, stop)).drop off), ?_, ?_⟩
  · rw [hslice, h.octets_eq, take_left' h.length_pathID, slice, slice, take_take]
    dsimp only
    rw [Nat.add_sub_cancel_left, Nat.min_eq_left (by omega)]
  · rw [drop_head_slice]
    exact fam.key_of_keyLabeled h.floor (by omega) h.length_rest
      (keyLabeled_of_labels hlength h.labels)
  · rw [hslice, h.octets_eq, drop_left' h.length_pathID]
    exact fam.key_of_keyLabeled h.floor (by omega) h.length_rest
      (keyLabeled_withdrawalNLRI (by omega) h.length_rest)

lemma forall₂_sameRoute
    (h : Converted field addPath withdraw fam.keyBitsMin read pieces) :
    ∀ before : List Octet,
      List.Forall₂ (SameRoute fam addPath withdraw field (before ++ written pieces))
        (pieces.map fst) (outRanges before.length pieces) := by
  induction h with
  | done _ =>
    intro before
    exact .nil
  | @next read stop octets pieces _ hnext _ ih =>
    intro before
    obtain ⟨off, bits, k, hrewritten⟩ := rewritten_of_entry hnext
    have hrest := ih (before ++ octets)
    rw [append_assoc, length_append] at hrest
    exact .cons (hrewritten.sameRoute before (written pieces)) hrest

lemma length_written_le (h : Converted field addPath withdraw keyBitsMin read pieces) :
    (written pieces).length ≤ field.length - read := by
  induction h with
  | done _ => exact Nat.zero_le _
  | @next read stop octets pieces _ hnext _ ih =>
    obtain ⟨off, bits, k, hrewritten⟩ := rewritten_of_entry hnext
    have hle := hrewritten.length_octets_le
    have hstop := hrewritten.stop_le
    have hwritten : written (((read, stop), octets) :: pieces) = octets ++ written pieces := rfl
    rw [hwritten, length_append]
    omega

end

lemma splice_nil (mem : List Octet) (pos : ℕ) : splice mem pos [] = mem := by
  rw [splice, take_nil, nil_append, length_nil, Nat.add_zero, take_append_drop]

/-- A field of labeled or VPN NLRI, announced or withdrawn, with or without ADD-PATH, that the
writer accepts. The output is not longer than the field; field and output are cut into as many NLRI,
each in its framing; and NLRI for NLRI the Path Identifier is kept and the key is the same. Written
to any other place for the same field, over the field itself or away from it, wherever there is room
for it, the output is the same octets. -/
theorem withdrawal_keeps_routes (fam : CompatibilityFamily) {mem mem' : List Octet}
    {dst field : Area} {addPath withdraw : Bool} {n : ℕ} (hplaced : Placed dst field)
    (hdst : dst.base + dst.len ≤ mem.length) (hfield : field.base + field.len ≤ mem.length)
    (h : writeWithdrawalField mem dst field addPath withdraw fam.keyBitsMin = (.ok n, mem')) :
    n ≤ field.len ∧
    (∃ cuts cuts', fam.split withdraw (window mem field.base field.len) addPath Visitor.goOn =
        ⟨cuts, none⟩ ∧
      fam.split true (window mem' dst.base n) addPath Visitor.goOn = ⟨cuts', none⟩ ∧
      List.Forall₂ (SameRoute fam addPath withdraw (window mem field.base field.len)
        (window mem' dst.base n)) cuts cuts') ∧
    ∀ (mem₁ : List Octet) (dst₁ field₁ : Area), Placed dst₁ field₁ →
      dst₁.base + dst₁.len ≤ mem₁.length → field₁.base + field₁.len ≤ mem₁.length →
      field₁.len = field.len →
      window mem₁ field₁.base field₁.len = window mem field.base field.len → n ≤ dst₁.len →
      ∃ mem₁', writeWithdrawalField mem₁ dst₁ field₁ addPath withdraw fam.keyBitsMin =
          (.ok n, mem₁') ∧
        window mem₁' dst₁.base n = window mem' dst.base n := by
  have hloop : withdrawalLoop dst field addPath withdraw fam.keyBitsMin (field.len + 1) 0
      ([] : List Octet).length (splice mem dst.base []) = (.ok n, mem') := by
    rw [splice_nil]
    exact h
  obtain ⟨pieces, hpieces, hn, hfits, hmem⟩ := withdrawalLoop_ok hplaced hdst hfield (field.len + 1)
    0 n [] mem' (by omega) (Nat.zero_le _) (Nat.zero_le _) hloop
  rw [nil_append] at hn hmem
  have hoctets : window mem' dst.base n = written pieces := by
    rw [hmem, hn]
    apply window_splice
    omega
  refine ⟨?_, ⟨pieces.map fst, outRanges 0 pieces, split_of_converted fam hpieces, ?_, ?_⟩, ?_⟩
  · have hle := length_written_le hpieces
    rw [length_window hfield] at hle
    omega
  · have hwalk := walk_written hpieces ((written pieces).length + 1) [] [] (by simp)
    rw [nil_append, nil_append] at hwalk
    rw [hoctets]
    rcases fam with _ | _ <;> exact hwalk
  · rw [hoctets]
    exact forall₂_sameRoute hpieces []
  · intro mem₁ dst₁ field₁ hplaced₁ hdst₁ hfield₁ hlen hsame hroom
    rw [← hsame] at hpieces
    have hrun := withdrawalLoop_of_converted hplaced₁ hdst₁ hfield₁ hpieces (field₁.len + 1) []
      (by omega) (Nat.zero_le _) (by rw [nil_append]; omega)
    rw [splice_nil, nil_append, ← hn] at hrun
    refine ⟨_, hrun, ?_⟩
    rw [hoctets, hn]
    apply window_splice
    omega

/-- Two labels become one field, written over the NLRI and into a buffer behind it. -/
theorem withdrawal_keeps_routes_twoLabels :
    Placed ⟨0, 13⟩ ⟨0, 13⟩ ∧
    ∃ mem', writeWithdrawalField (twoLabels ++ replicate 16 0#8) ⟨13, 16⟩ ⟨0, 13⟩ true false
        CompatibilityFamily.labeled.keyBitsMin = (.ok 10, mem') ∧
      window mem' 13 10 =
        [0#8, 0#8, 0#8, 7#8, 34#8, 0x80#8, 0#8, 0#8, 0xC0#8, 0xC0#8] := by
  have hrun : writeWithdrawalField twoLabels ⟨0, 13⟩ ⟨0, 13⟩ true false
      CompatibilityFamily.labeled.keyBitsMin =
        (.ok 10, [0#8, 0#8, 0#8, 7#8, 34#8, 0x80#8, 0#8, 0#8, 0xC0#8, 0xC0#8, 0x11#8, 0xC0#8,
          0xFF#8]) := rfl
  refine ⟨.inl rfl, ?_⟩
  exact (withdrawal_keeps_routes .labeled (.inl rfl) (by decide) (by decide) hrun).2.2
    (twoLabels ++ replicate 16 0#8) ⟨13, 16⟩ ⟨0, 13⟩ (.inr (.inr (by decide))) (by decide)
    (by decide) rfl (by decide) (by decide)

end Ze.Nlri
