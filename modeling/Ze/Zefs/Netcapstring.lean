import Ze.Lib.Numeral

/-!
# Netcapstrings

The frames of a ZeFS file (`pkg/zefs/netcapstring.go`): a header with the capacity, the used length
and a CRC32c, the data, padding up to the capacity, and a newline.

Sizes are natural numbers; the decoder refuses a number above the largest `int`.
-/

namespace Ze.Zefs

open Ze.Lib Numeral List
open BitVec (lt_def ofNat toNat toNat_ofNat)

/-- An octet of a file. Source: byte. -/
abbrev Octet := BitVec 8

/-- The largest `int`. Source: int(^uint(0)>>1). -/
def maxInt : ℕ := 2 ^ 63 - 1

/-- Source: ':'. -/
def colon : Octet := 58#8

/-- Source: '\n'. -/
def newline : Octet := 10#8

/-- Source: ' '. -/
def space : Octet := 32#8

/-! ## Checksum -/

/-- One bit of the reflected division by the Castagnoli polynomial. Source: hash/crc32:
Castagnoli. -/
def crcBit (crc : BitVec 32) : BitVec 32 :=
  if crc.getLsbD 0 then (crc >>> 1) ^^^ 0x82f63b78#32 else crc >>> 1

/-- One octet. Source: hash/crc32: MakeTable. -/
def crcOctet (crc : BitVec 32) (c : Octet) : BitVec 32 :=
  crcBit (crcBit (crcBit (crcBit (crcBit (crcBit (crcBit (crcBit (crc ^^^ c.setWidth 32))))))))

/-- The CRC32c of octets. Source: crc32.Checksum(data, CRC32cTable). -/
def checksum (data : List Octet) : BitVec 32 := ~~~(data.foldl crcOctet 0xffffffff#32)

example : checksum [97#8, 98#8, 99#8, 100#8] = 0x92c80a31#32 := by decide +kernel

/-! ## Numbers -/

/-- The places a number is divided by ten before it is zero; `fuel` bounds the loop.
Source: digitCount, the loop. -/
def divisions : ℕ → ℕ → ℕ
  | 0, _ => 0
  | fuel + 1, v => if v = 0 then 0 else divisions fuel (v / 10) + 1

def digitCount (n : ℕ) : ℕ := if n = 0 then 1 else divisions n n

/-- A decimal digit in ASCII. Source: strconv.Itoa. -/
def digitChar (d : ℕ) : Octet := ofNat 8 (48 + d)

/-- A number of at most `width` digits, zero-padded to the width.
Source: writeZeroPadded; at the number's own width: strconv.Itoa. -/
def zeroPadded (width n : ℕ) : List Octet := (digits 10 width n).map digitChar

/-- Why a number is refused. Source: netcapstringDecimal. -/
inductive DecimalError
  | empty
  | digit
  | overflow
  deriving DecidableEq, Repr

/-- One digit. Source: netcapstringDecimal, the loop body. -/
def decimalDigit (value : ℕ) (c : Octet) : Except DecimalError ℕ :=
  if c < 48#8 then .error .digit
  else if 57#8 < c then .error .digit
  else if (maxInt - (c.toNat - 48)) / 10 < value then .error .overflow
  else .ok (value * 10 + (c.toNat - 48))

def netcapstringDecimal (buf : List Octet) : Except DecimalError ℕ :=
  if buf = [] then .error .empty else buf.foldlM decimalDigit 0

/-- A hexadecimal digit in ASCII, in lower case. Source: encoding/hex: Encode. -/
def hexChar (d : ℕ) : Octet := if d < 10 then ofNat 8 (48 + d) else ofNat 8 (87 + d)

/-- The value of a hexadecimal digit, in either case. Source: encoding/hex: Decode. -/
def hexDigit (c : Octet) : Option ℕ :=
  if 48#8 ≤ c ∧ c ≤ 57#8 then some (c.toNat - 48)
  else if 97#8 ≤ c ∧ c ≤ 102#8 then some (c.toNat - 87)
  else if 65#8 ≤ c ∧ c ≤ 70#8 then some (c.toNat - 55)
  else none

def writeCRC (crc : BitVec 32) : List Octet := (digits 16 8 crc.toNat).map hexChar

/-- Source: netcapstringHeader, the checksum field. -/
def decodeCRC (buf : List Octet) : Option (BitVec 32) :=
  (buf.mapM hexDigit).map fun ds => ofNat 32 (value 16 ds)

/-! ## Frames -/

/-- The header of a frame. Source: writeNetcapstringHeader. -/
def netcapstringHeaderOf (capacity dataLen : ℕ) (crc : BitVec 32) : List Octet :=
  let number := digitCount capacity
  zeroPadded (digitCount number) number ++ colon :: (zeroPadded number capacity ++
    colon :: (zeroPadded number dataLen ++ colon :: (writeCRC crc ++ [newline])))

/-- A whole frame, for data within the capacity. Source: writeNetcapstring. -/
def netcapstring (data : List Octet) (capacity : ℕ) : List Octet :=
  netcapstringHeaderOf capacity data.length (checksum data) ++
    (data ++ (replicate (capacity - data.length) space ++ [newline]))

def netcapstringHeaderLen (capacity : ℕ) : ℕ :=
  3 + digitCount (digitCount capacity) + 2 * digitCount capacity + 1 + 8

def netcapstringTotalLen (capacity : ℕ) : ℕ := netcapstringHeaderLen capacity + capacity + 1

/-- Why a frame is refused. Source: netcapstringHeader, DecodeNetcapstringRef. -/
inductive FrameError
  | endOfBuffer
  | number
  | unterminatedNumber
  | numberDecimal (e : DecimalError)
  | truncatedHeader
  | capacity (e : DecimalError)
  | colonAfterCapacity
  | used (e : DecimalError)
  | usedExceedsCapacity
  | colonAfterUsed
  | crcHex
  | newlineAfterCRC
  | truncatedData
  | terminator
  | crcMismatch
  deriving DecidableEq, Repr

/-- What a header says: where the data starts, the capacity, the used length and the checksum.
Source: the results of netcapstringHeader. -/
structure Header where
  dataOff : ℕ
  capacity : ℕ
  used : ℕ
  checksum : BitVec 32
  deriving DecidableEq, Repr

def maxNumberWidth : ℕ := 19

/-- The header behind its width field of `lead` octets.
Source: netcapstringHeader, from the capacity on. -/
def headerFields (lead width : ℕ) (rest : List Octet) : Except FrameError Header :=
  match netcapstringDecimal (rest.take width) with
  | .error e => .error (.capacity e)
  | .ok capacity =>
    if rest[width]? ≠ some colon then .error .colonAfterCapacity
    else
      match netcapstringDecimal ((rest.drop (width + 1)).take width) with
      | .error e => .error (.used e)
      | .ok used =>
        if capacity < used then .error .usedExceedsCapacity
        else if rest[2 * width + 1]? ≠ some colon then .error .colonAfterUsed
        else
          match decodeCRC ((rest.drop (2 * width + 2)).take 8) with
          | none => .error .crcHex
          | some checksum =>
            if rest[2 * width + 10]? ≠ some newline then .error .newlineAfterCRC
            else .ok ⟨lead + (2 * width + 11), capacity, used, checksum⟩

/-- Source: netcapstringHeader, with the checksum required. -/
def netcapstringHeader (buf : List Octet) : Except FrameError Header :=
  let field := buf.takeWhile (· != colon)
  if buf = [] then .error .endOfBuffer
  else if 2 < field.length then .error .number
  else if field.length = buf.length then .error .unterminatedNumber
  else
    match netcapstringDecimal field with
    | .error e => .error (.numberDecimal e)
    | .ok width =>
      if width < 1 ∨ maxNumberWidth < width then .error .number
      else
        let rest := buf.drop (field.length + 1)
        if rest.length < 2 * width + 11 then .error .truncatedHeader
        else headerFields (field.length + 1) width rest

/-- A decoded frame: its data, its capacity, and where the next frame starts.
Source: the results of DecodeNetcapstringRef. -/
structure Frame where
  data : List Octet
  capacity : ℕ
  next : ℕ
  deriving DecidableEq, Repr

/-- Source: DecodeNetcapstringRef; an offset into a buffer is the buffer behind it. -/
def decodeNetcapstringRef (buf : List Octet) : Except FrameError Frame :=
  match netcapstringHeader buf with
  | .error e => .error e
  | .ok h =>
    if buf.length - h.dataOff ≤ h.capacity then .error .truncatedData
    else if buf[h.dataOff + h.capacity]? ≠ some newline then .error .terminator
    else
      let data := (buf.drop h.dataOff).take h.used
      if Zefs.checksum data ≠ h.checksum then .error .crcMismatch
      else .ok ⟨data, h.capacity, h.dataOff + h.capacity + 1⟩

/-! ## Numbers are read back -/

variable {v d lead : ℕ} {crc : BitVec 32} {h : Header}

lemma divisions_le_iff {fuel : ℕ} (h : v ≤ fuel) (w : ℕ) : divisions fuel v ≤ w ↔ v < 10 ^ w := by
  induction fuel generalizing v w with
  | zero =>
    obtain rfl := Nat.le_zero.1 h
    exact ⟨fun _ => Nat.pow_pos (by decide), fun _ => Nat.zero_le w⟩
  | succ fuel ih =>
    rw [divisions]
    split_ifs with hv
    · rw [hv]
      exact ⟨fun _ => Nat.pow_pos (by decide), fun _ => Nat.zero_le w⟩
    · rcases w with _ | w
      · rw [Nat.pow_zero]
        omega
      · rw [Nat.add_le_add_iff_right, ih (by omega), Nat.pow_succ,
          Nat.div_lt_iff_lt_mul (by decide)]

lemma digitCount_pos (n : ℕ) : 0 < digitCount n := by
  unfold digitCount
  split_ifs with hn
  · exact Nat.one_pos
  · rcases n with _ | n
    · exact absurd rfl hn
    · rw [divisions, if_neg hn]
      exact Nat.succ_pos _

lemma digitCount_le_iff {w : ℕ} (hw : 0 < w) (n : ℕ) : digitCount n ≤ w ↔ n < 10 ^ w := by
  unfold digitCount
  split_ifs with hn
  · rw [hn]
    exact ⟨fun _ => Nat.pow_pos (by decide), fun _ => hw⟩
  · exact divisions_le_iff (Nat.le_refl n) w

lemma lt_pow_digitCount (n : ℕ) : n < 10 ^ digitCount n :=
  (digitCount_le_iff (digitCount_pos n) n).mp (Nat.le_refl _)

variable {n width capacity used : ℕ} {α : Type*} {buf data : List Octet}

lemma digitCount_le_of_int (h : n ≤ maxInt) : digitCount n ≤ maxNumberWidth := by
  rw [digitCount_le_iff (by decide)]
  exact Nat.lt_of_le_of_lt h (by decide)

@[simp] lemma length_zeroPadded (width n : ℕ) : (zeroPadded width n).length = width := by
  rw [zeroPadded, length_map, length_digits]

@[simp] lemma length_writeCRC (crc : BitVec 32) : (writeCRC crc).length = 8 := by
  rw [writeCRC, length_map, length_digits]

lemma decimalDigit_digitChar (hd : d < 10) (hv : shift 10 v d ≤ maxInt) :
    decimalDigit v (digitChar d) = .ok (shift 10 v d) := by
  have hnat : (digitChar d).toNat = 48 + d := by
    rw [digitChar, toNat_ofNat, Nat.mod_eq_of_lt (by omega)]
  have hlow : ¬ digitChar d < 48#8 := by
    rw [lt_def, hnat]
    simp
  have hhigh : ¬ 57#8 < digitChar d := by
    rw [lt_def, hnat]
    simp only [toNat_ofNat]
    omega
  rw [shift] at hv ⊢
  have hroom : ¬ (maxInt - d) / 10 < v := by
    rw [Nat.not_lt, Nat.le_div_iff_mul_le (by decide)]
    omega
  rw [decimalDigit, if_neg hlow, if_neg hhigh, hnat, Nat.add_sub_cancel_left, if_neg hroom]

lemma foldlM_decimalDigit {ds : List ℕ} (hds : ∀ d ∈ ds, d < 10) (v : ℕ)
    (hv : ds.foldl (shift 10) v ≤ maxInt) :
    (ds.map digitChar).foldlM decimalDigit v = .ok (ds.foldl (shift 10) v) := by
  induction ds generalizing v with
  | nil => rfl
  | cons d ds ih =>
    have hstep := decimalDigit_digitChar (hds d mem_cons_self)
      (Nat.le_trans (le_foldl_shift (by decide) ds _) hv)
    rw [map_cons, foldlM_cons, hstep]
    exact ih (fun x hx => hds x (mem_cons_of_mem _ hx)) _ hv

lemma netcapstringDecimal_zeroPadded (hwidth : 0 < width) (hn : n < 10 ^ width)
    (hint : n ≤ maxInt) : netcapstringDecimal (zeroPadded width n) = .ok n := by
  have hvalue := value_digits hn
  have hne : zeroPadded width n ≠ [] := by
    intro h
    have := length_zeroPadded width n
    rw [h] at this
    exact absurd this (Nat.ne_of_lt hwidth)
  rw [netcapstringDecimal, if_neg hne, zeroPadded, foldlM_decimalDigit]
  · exact congrArg Except.ok hvalue
  · intro d hd
    exact lt_of_mem_digits (by decide) hd
  · exact Nat.le_trans (Nat.le_of_eq hvalue) hint

lemma ne_colon_of_mem_zeroPadded {c : Octet} (h : c ∈ zeroPadded width n) : c ≠ colon := by
  obtain ⟨d, hd, rfl⟩ := mem_map.1 h
  have hlt := lt_of_mem_digits (by decide) hd
  intro heq
  have hnat := congrArg toNat heq
  rw [digitChar, colon, toNat_ofNat, toNat_ofNat, Nat.mod_eq_of_lt (by omega)] at hnat
  omega

lemma hexDigit_hexChar (hd : d < 16) : hexDigit (hexChar d) = some d := by
  have hall : ∀ k : Fin 16, hexDigit (hexChar k.val) = some k.val := by decide
  exact hall ⟨d, hd⟩

lemma decodeCRC_writeCRC (crc : BitVec 32) : decodeCRC (writeCRC crc) = some crc := by
  have hmap : ∀ ds : List ℕ, (∀ d ∈ ds, d < 16) → (ds.map hexChar).mapM hexDigit = some ds := by
    intro ds hds
    induction ds with
    | nil => rfl
    | cons d ds ih =>
      rw [map_cons, mapM_cons, hexDigit_hexChar (hds d mem_cons_self),
        ih fun x hx => hds x (mem_cons_of_mem _ hx)]
      rfl
  rw [decodeCRC, writeCRC, hmap _ fun d hd => lt_of_mem_digits (by decide) hd, Option.map_some,
    value_digits (Nat.lt_of_lt_of_eq crc.isLt (by decide)), BitVec.ofNat_toNat, BitVec.setWidth_eq]

/-! ## Which octets are a header -/

/-- The octets of a header: a width of at most two octets, two numbers of that width and a checksum.
Source: netcapstringHeader. -/
structure IsHeader (hdr : List Octet) (capacity used : ℕ) (crc : BitVec 32) : Prop where
  intro ::
  parts : ∃ (field cd ud kd : List Octet) (width : ℕ),
    hdr = field ++ colon :: (cd ++ colon :: (ud ++ colon :: (kd ++ [newline]))) ∧
    (∀ c ∈ field, c ≠ colon) ∧ field.length ≤ 2 ∧ netcapstringDecimal field = .ok width ∧
    (0 < width ∧ width ≤ maxNumberWidth) ∧ cd.length = width ∧ ud.length = width ∧ kd.length = 8 ∧
    netcapstringDecimal cd = .ok capacity ∧ netcapstringDecimal ud = .ok used ∧ used ≤ capacity ∧
    decodeCRC kd = some crc

lemma drop_past (xs ys : List α) (c : α) (k : ℕ) :
    (xs ++ c :: ys).drop (xs.length + 1 + k) = ys.drop k := by
  rw [Nat.add_assoc, ← drop_drop, drop_left, Nat.add_comm 1 k, drop_succ_cons]

lemma headerFields_of_parts {cd ud kd post : List Octet} (hcd : cd.length = width)
    (hud : ud.length = width) (hkd : kd.length = 8) (hcap : netcapstringDecimal cd = .ok capacity)
    (hused : netcapstringDecimal ud = .ok used) (hle : used ≤ capacity)
    (hcrc : decodeCRC kd = some crc) :
    headerFields lead width (cd ++ colon :: (ud ++ colon :: (kd ++ newline :: post))) =
      .ok ⟨lead + (2 * width + 11), capacity, used, crc⟩ := by
  have hrest : ∀ k, (cd ++ colon :: (ud ++ colon :: (kd ++ newline :: post))).drop (width + 1 + k) =
      (ud ++ colon :: (kd ++ newline :: post)).drop k := by
    intro k
    rw [← hcd, drop_past]
  have hrest' : ∀ k, (ud ++ colon :: (kd ++ newline :: post)).drop (width + 1 + k) =
      (kd ++ newline :: post).drop k := by
    intro k
    rw [← hud, drop_past]
  have hud' : ((cd ++ colon :: (ud ++ colon :: (kd ++ newline :: post))).drop
      (width + 1)).take width =
      ud := by
    have := hrest 0
    rw [Nat.add_zero, drop_zero] at this
    rw [this, ← hud, take_left]
  have hkd' : ((cd ++ colon :: (ud ++ colon :: (kd ++ newline :: post))).drop
      (2 * width + 2)).take 8 =
      kd := by
    have hsplit : 2 * width + 2 = width + 1 + (width + 1) := by omega
    have := hrest' 0
    rw [Nat.add_zero, drop_zero] at this
    rw [hsplit, hrest, this, ← hkd, take_left]
  have hcolon₁ : (cd ++ colon :: (ud ++ colon :: (kd ++ newline :: post)))[width]? =
      some colon := by
    rw [← hcd, getElem?_append_right (Nat.le_refl _), Nat.sub_self]
    rfl
  have hcolon₂ : (cd ++ colon :: (ud ++ colon :: (kd ++ newline :: post)))[2 * width + 1]? =
      some colon := by
    have hsplit : 2 * width + 1 = width + 1 + width := by omega
    rw [hsplit, ← getElem?_drop, ← Nat.add_zero (width + 1), hrest, drop_zero, ← hud,
      getElem?_append_right (Nat.le_refl _), Nat.sub_self]
    rfl
  have hnewline : (cd ++ colon :: (ud ++ colon :: (kd ++ newline :: post)))[2 * width + 10]? =
      some newline := by
    have hsplit : 2 * width + 10 = width + 1 + (width + 1) + 8 := by omega
    rw [hsplit, ← getElem?_drop, hrest, ← Nat.add_zero (width + 1), hrest', drop_zero, ← hkd,
      getElem?_append_right (Nat.le_refl _), Nat.sub_self]
    rfl
  rw [headerFields, ← hcd, take_left, hcd, hcap]
  simp only
  rw [if_neg (not_not.mpr hcolon₁), hud', hused]
  simp only
  rw [if_neg (Nat.not_lt.mpr hle), if_neg (not_not.mpr hcolon₂), hkd', hcrc]
  simp only
  rw [if_neg (not_not.mpr hnewline)]

lemma IsHeader.netcapstringHeader {hdr : List Octet}
    (h : IsHeader hdr capacity used crc) (post : List Octet) :
    netcapstringHeader (hdr ++ post) = .ok ⟨hdr.length, capacity, used, crc⟩ := by
  obtain ⟨field, cd, ud, kd, width, rfl, hfield, hlen, hwidth, ⟨hpos, hmax⟩, hcd, hud, hkd, hcap,
    hused, hle, hcrc⟩ := h
  have hbuf : (field ++ colon :: (cd ++ colon :: (ud ++ colon :: (kd ++ [newline])))) ++ post =
      field ++ colon :: (cd ++ colon :: (ud ++ colon :: (kd ++ newline :: post))) := by
    simp only [append_assoc, cons_append, nil_append]
  have htake : (field ++ colon :: (cd ++ colon :: (ud ++ colon :: (kd ++
      newline :: post)))).takeWhile
      (· != colon) = field := by
    rw [takeWhile_append_of_pos fun c hc => bne_iff_ne.2 (hfield c hc)]
    simp
  have hlength : (cd ++ colon :: (ud ++ colon :: (kd ++ newline :: post))).length =
      2 * width + 11 + post.length := by
    simp only [length_append, length_cons, hcd, hud, hkd]
    omega
  rw [hbuf, Zefs.netcapstringHeader]
  simp only [htake]
  rw [if_neg (by simp), if_neg (by omega), if_neg (by simp), hwidth]
  simp only
  rw [if_neg (by omega), drop_append, Nat.add_sub_cancel_left, drop_eq_nil_of_le (by omega),
    nil_append, drop_succ_cons, drop_zero, if_neg (by omega),
    headerFields_of_parts hcd hud hkd hcap hused hle hcrc]
  simp only [length_append, length_cons, hcd, hud, hkd, length_nil]
  congr 2
  omega

lemma drop_eq_cons {xs : List α} {k : ℕ} {c : α} (h : xs[k]? = some c) :
    xs.drop k = c :: xs.drop (k + 1) := by
  obtain ⟨hk, rfl⟩ := List.getElem?_eq_some_iff.mp h
  exact drop_eq_getElem_cons hk

lemma ite_error_eq_ok {ε : Type*} {c : Prop} [Decidable c] {e : ε} {x : Except ε α} {a : α} :
    (if c then .error e else x) = .ok a ↔ ¬ c ∧ x = .ok a := by
  by_cases hc : c
  · rw [if_pos hc]
    exact ⟨fun h => (by cases h), fun h => absurd hc h.1⟩
  · rw [if_neg hc]
    exact ⟨fun h => ⟨hc, h⟩, fun h => h.2⟩

lemma parts_of_headerFields {rest : List Octet}
    (hlen : 2 * width + 11 ≤ rest.length) (hok : headerFields lead width rest = .ok h) :
    h.dataOff = lead + (2 * width + 11) ∧ ∃ cd ud kd post : List Octet,
      rest = cd ++ colon :: (ud ++ colon :: (kd ++ newline :: post)) ∧
      cd.length = width ∧ ud.length = width ∧ kd.length = 8 ∧
      netcapstringDecimal cd = .ok h.capacity ∧ netcapstringDecimal ud = .ok h.used ∧
      h.used ≤ h.capacity ∧ decodeCRC kd = some h.checksum := by
  unfold headerFields at hok
  rcases hcap : netcapstringDecimal (rest.take width) with e | capacity <;> rw [hcap] at hok
  · cases hok
  obtain ⟨hcolon₁, hok⟩ := ite_error_eq_ok.1 hok
  rcases hused : netcapstringDecimal ((rest.drop (width + 1)).take width) with e | used <;>
    rw [hused] at hok
  · cases hok
  obtain ⟨hle, hok⟩ := ite_error_eq_ok.1 hok
  obtain ⟨hcolon₂, hok⟩ := ite_error_eq_ok.1 hok
  rcases hcrc : decodeCRC ((rest.drop (2 * width + 2)).take 8) with _ | crc <;> rw [hcrc] at hok
  · cases hok
  obtain ⟨hnewline, hok⟩ := ite_error_eq_ok.1 hok
  cases hok
  refine ⟨rfl, rest.take width, (rest.drop (width + 1)).take width,
    (rest.drop (2 * width + 2)).take 8,
    rest.drop (2 * width + 11), ?_, ?_, ?_, ?_, hcap, hused, Nat.not_lt.mp hle, hcrc⟩
  · have hud : rest.drop (width + 1) = (rest.drop (width + 1)).take width ++
        rest.drop (2 * width + 1) := by
      have hsplit : rest.drop (2 * width + 1) = (rest.drop (width + 1)).drop width := by
        rw [drop_drop]
        congr 1
        omega
      rw [hsplit, take_append_drop]
    have hkd : rest.drop (2 * width + 2) =
        (rest.drop (2 * width + 2)).take 8 ++ rest.drop (2 * width + 10) := by
      have hsplit : rest.drop (2 * width + 10) = (rest.drop (2 * width + 2)).drop 8 := by
        rw [drop_drop]
      rw [hsplit, take_append_drop]
    rw [← drop_eq_cons (not_not.1 hnewline), ← hkd, ← drop_eq_cons (not_not.1 hcolon₂), ← hud,
      ← drop_eq_cons (not_not.1 hcolon₁), take_append_drop]
  · rw [length_take]
    omega
  · rw [length_take, length_drop]
    omega
  · rw [length_take, length_drop]
    omega

lemma eq_takeWhile_append_cons
    (h : (buf.takeWhile (· != colon)).length ≠ buf.length) :
    buf = buf.takeWhile (· != colon) ++ colon :: buf.drop ((buf.takeWhile (· !=
      colon)).length + 1) := by
  induction buf with
  | nil => exact absurd rfl h
  | cons c buf ih =>
    rcases hc : c != colon with _ | _
    · have hcolon : c = colon := by simpa using hc
      simp [hcolon]
    · rw [takeWhile_cons, hc] at h ⊢
      simp only [if_true, length_cons, drop_succ_cons, cons_append, cons.injEq, true_and] at h ⊢
      exact ih (by omega)

/-- What is accepted as a header: the octets of one, and nothing behind them matters. -/
lemma netcapstringHeader_eq_ok :
    netcapstringHeader buf = .ok h ↔ ∃ hdr post, buf = hdr ++ post ∧ h.dataOff = hdr.length ∧
      IsHeader hdr h.capacity h.used h.checksum := by
  constructor
  · intro hok
    obtain ⟨-, hok⟩ := ite_error_eq_ok.1 hok
    obtain ⟨hlong, hok⟩ := ite_error_eq_ok.1 hok
    obtain ⟨hterm, hok⟩ := ite_error_eq_ok.1 hok
    rcases hwidth : netcapstringDecimal (buf.takeWhile (· != colon)) with e | width <;>
      rw [hwidth] at hok
    · cases hok
    obtain ⟨hrange, hok⟩ := ite_error_eq_ok.1 hok
    obtain ⟨hshort, hok⟩ := ite_error_eq_ok.1 hok
    obtain ⟨hoff, cd, ud, kd, post, hrest, hcd, hud, hkd, hparts⟩ :=
      parts_of_headerFields (Nat.not_lt.mp hshort) hok
    have hbuf := eq_takeWhile_append_cons hterm
    rw [hrest] at hbuf
    refine ⟨buf.takeWhile (· != colon) ++ colon :: (cd ++ colon :: (ud ++ colon :: (kd ++
      [newline]))), post,
      ?_, ?_, _, cd, ud, kd, width, rfl, ?_, by omega, hwidth, by omega, hcd, hud, hkd, hparts⟩
    · simpa only [append_assoc, cons_append, nil_append] using hbuf
    · rw [hoff]
      simp only [length_append, length_cons, length_nil, hcd, hud, hkd]
      omega
    · intro c hc
      exact bne_iff_ne.1 (all_eq_true.1 all_takeWhile c hc)
  · rintro ⟨hdr, post, rfl, hoff, hhdr⟩
    rw [hhdr.netcapstringHeader post, ← hoff]

lemma isHeader_netcapstringHeaderOf (hused : used ≤ capacity)
    (hint : capacity ≤ maxInt) (crc : BitVec 32) :
    IsHeader (netcapstringHeaderOf capacity used crc) capacity used crc := by
  have hwidth := digitCount_le_of_int hint
  have hpos := digitCount_pos capacity
  have htwo : digitCount (digitCount capacity) ≤ 2 := by
    rw [digitCount_le_iff (by decide)]
    exact Nat.lt_of_le_of_lt hwidth (by decide)
  refine ⟨zeroPadded (digitCount (digitCount capacity)) (digitCount capacity),
    zeroPadded (digitCount capacity) capacity, zeroPadded (digitCount capacity) used, writeCRC crc,
    digitCount capacity, rfl, fun c hc => ne_colon_of_mem_zeroPadded hc, ?_, ?_, ⟨hpos, hwidth⟩,
    length_zeroPadded _ _, length_zeroPadded _ _, length_writeCRC crc, ?_, ?_, hused,
    decodeCRC_writeCRC crc⟩
  · rwa [length_zeroPadded]
  · exact netcapstringDecimal_zeroPadded (digitCount_pos _) (lt_pow_digitCount _)
      (Nat.le_trans hwidth (by decide))
  · exact netcapstringDecimal_zeroPadded hpos (lt_pow_digitCount _) hint
  · exact netcapstringDecimal_zeroPadded hpos (Nat.lt_of_le_of_lt hused (lt_pow_digitCount _))
      (Nat.le_trans hused hint)

lemma length_netcapstringHeaderOf (capacity used : ℕ) (crc : BitVec 32) :
    (netcapstringHeaderOf capacity used crc).length = netcapstringHeaderLen capacity := by
  simp only [netcapstringHeaderOf, netcapstringHeaderLen, length_append, length_cons,
    length_nil, length_zeroPadded, length_writeCRC]
  omega

/-! ## Which octets are a frame -/

/-- The octets of a frame: a header with the checksum of the data, the data, any padding up to the
capacity, and a newline.
Source: DecodeNetcapstringRef. -/
structure IsFrame (raw data : List Octet) (capacity : ℕ) : Prop where
  intro ::
  parts : ∃ hdr pad : List Octet, raw = hdr ++ (data ++ (pad ++ [newline])) ∧
    data.length + pad.length = capacity ∧ IsHeader hdr capacity data.length (checksum data)

lemma IsFrame.decodeNetcapstringRef {raw : List Octet}
    (h : IsFrame raw data capacity) (post : List Octet) :
    decodeNetcapstringRef (raw ++ post) = .ok ⟨data, capacity, raw.length⟩ := by
  obtain ⟨hdr, pad, rfl, hcap, hhdr⟩ := h
  have hbuf : hdr ++ (data ++ (pad ++ [newline])) ++ post = hdr ++
      (data ++ (pad ++ newline :: post)) := by
    simp only [append_assoc, cons_append, nil_append]
  have hterm : (hdr ++ (data ++ (pad ++ newline :: post)))[hdr.length + capacity]? =
      some newline := by
    rw [← getElem?_drop, drop_left, ← hcap, ← getElem?_drop, drop_left,
      getElem?_append_right (Nat.le_refl _), Nat.sub_self]
    rfl
  rw [hbuf, Zefs.decodeNetcapstringRef, hhdr.netcapstringHeader]
  simp only
  rw [if_neg, if_neg (not_not.2 hterm), drop_left, take_left, if_neg (not_not.2 rfl)]
  · simp only [length_append, length_cons, length_nil, ← hcap]
    rw [Nat.add_assoc, Nat.add_assoc]
  · simp only [length_append, length_cons, ← hcap]
    omega

/-- What is accepted as a frame: the octets of one, and nothing behind them matters. -/
lemma decodeNetcapstringRef_eq_ok {f : Frame} :
    decodeNetcapstringRef buf = .ok f ↔
      ∃ raw post, buf = raw ++ post ∧ f.next = raw.length ∧ IsFrame raw f.data f.capacity := by
  constructor
  · intro hok
    unfold decodeNetcapstringRef at hok
    rcases hhdr : netcapstringHeader buf with e | h <;> rw [hhdr] at hok
    · cases hok
    obtain ⟨hdr, post, rfl, hoff, hheader⟩ := netcapstringHeader_eq_ok.1 hhdr
    obtain ⟨hroom, hok⟩ := ite_error_eq_ok.1 hok
    obtain ⟨hterm, hok⟩ := ite_error_eq_ok.1 hok
    obtain ⟨hcrc, hok⟩ := ite_error_eq_ok.1 hok
    cases hok
    have hused : h.used ≤ h.capacity := by
      obtain ⟨_, _, _, _, _, -, -, -, -, -, -, -, -, -, -, hle, -⟩ := hheader
      exact hle
    rw [hoff, length_append] at hroom
    have hlen : h.capacity < post.length := by omega
    rw [hoff, not_not, ← getElem?_drop, drop_left] at hterm
    rw [hoff, drop_left, not_not] at hcrc
    have htake : (post.take h.used).length = h.used := by
      rw [length_take]
      omega
    refine ⟨hdr ++ (post.take h.used ++ ((post.drop h.used).take (h.capacity - h.used) ++
      [newline])), post.drop (h.capacity + 1), ?_, ?_, ?_⟩
    · have hpad : post.drop h.used =
          (post.drop h.used).take (h.capacity - h.used) ++ post.drop h.capacity := by
        have hsplit : post.drop h.capacity = (post.drop h.used).drop (h.capacity - h.used) := by
          rw [drop_drop]
          congr 1
          omega
        rw [hsplit, take_append_drop]
      simp only [append_assoc, cons_append, nil_append]
      rw [← drop_eq_cons hterm, ← hpad, take_append_drop]
    · simp only [hoff, length_append, length_cons, length_nil, length_take, length_drop]
      omega
    · rw [hoff, drop_left]
      refine ⟨hdr, (post.drop h.used).take (h.capacity - h.used), rfl, ?_, ?_⟩
      · simp only [length_take, length_drop]
        omega
      · rw [htake, hcrc]
        exact hheader
  · rintro ⟨raw, post, rfl, hnext, hframe⟩
    rw [hframe.decodeNetcapstringRef post, ← hnext]

/-- What the writer writes is a frame. -/
lemma isFrame_netcapstring (hfits : data.length ≤ capacity)
    (hint : capacity ≤ maxInt) : IsFrame (netcapstring data capacity) data capacity := by
  refine ⟨netcapstringHeaderOf capacity data.length (checksum data),
    replicate (capacity - data.length) space, rfl, ?_,
      isHeader_netcapstringHeaderOf hfits hint _⟩
  rw [length_replicate]
  omega

lemma length_netcapstring (hfits : data.length ≤ capacity) :
    (netcapstring data capacity).length = netcapstringTotalLen capacity := by
  rw [netcapstring, netcapstringTotalLen, length_append, length_netcapstringHeaderOf,
    length_append, length_append, length_replicate, length_singleton]
  omega

end Ze.Zefs
