import Mathlib.Data.List.Basic

/-!
# Networks of the `net` package

`IP` is `net.IP` with 4 or 16 bytes, and `IPNet` is `net.IPNet` with a mask that `net.CIDRMask` made
for as many bytes. Unlike `netip.Addr`, an `IP` of 16 bytes in `::ffff:0:0/96` is at once an IPv4
address: `IP.to4` is not nil for it, and `IPNet.string` prints the network as an IPv4 one. The text
of a network is read as what it prints, `NetText`: an address and a length.
-/

namespace Ze.Net

/-- Source: net IP -/
inductive IP
  | four (bits : BitVec 32)
  | sixteen (bits : BitVec 128)
deriving DecidableEq, Repr

namespace IP

/-- Number of bits. Source: net IP, 8*len(ip). -/
def bitLen : IP → ℕ
  | four _ => 32
  | sixteen _ => 128

/-- The address in 4 bytes: that of an address of 4 bytes, or of one in `::ffff:0:0/96`.
Source: net IP.To4 -/
def to4 : IP → Option (BitVec 32)
  | four bits => some bits
  | sixteen bits => if bits >>> 32 = 0xFFFF#128 then some (bits.truncate 32) else none

/-- The address with only its first `n` bits, by a mask of as many bytes.
Source: net IP.Mask, CIDRMask -/
def mask (n : ℕ) : IP → IP
  | four bits => four ((bits >>> (32 - n)) <<< (32 - n))
  | sixteen bits => sixteen ((bits >>> (128 - n)) <<< (128 - n))

/-- An address of 16 bytes that is also an IPv4 address. Source: net IP.To4. -/
def mapped : IP → Bool
  | four _ => false
  | sixteen bits => bits >>> 32 == 0xFFFF#128

@[simp]
lemma bitLen_mask (n : ℕ) (ip : IP) : (ip.mask n).bitLen = ip.bitLen := by
  cases ip <;> rfl

lemma mask_mask (n : ℕ) (ip : IP) : (ip.mask n).mask n = ip.mask n := by
  have hshift : ∀ (w k : ℕ) (x : BitVec w), (((x >>> k) <<< k) >>> k) <<< k = (x >>> k) <<< k := by
    intro w k x
    ext i hi
    rw [BitVec.getElem_shiftLeft]
    grind
  cases ip with
  | four bits | sixteen bits => simp only [mask, hshift]

lemma isSome_to4 (ip : IP) : ip.to4.isSome = (decide (ip.bitLen = 32) || ip.mapped) := by
  cases ip with
  | four bits => rfl
  | sixteen bits =>
    by_cases h : bits >>> 32 = 0xFFFF#128
    · simp [to4, mapped, h]
    · simp [to4, mapped, bitLen, h]

lemma eq_of_to4_eq {b c : BitVec 128} (hb : b >>> 32 = 0xFFFF#128) (hc : c >>> 32 = 0xFFFF#128)
    (h : b.truncate 32 = c.truncate 32) : b = c := by
  apply BitVec.eq_of_getLsbD_eq
  intro i hi
  by_cases hlow : i < 32
  · have := congrArg (fun x : BitVec 32 => x.getLsbD i) h
    simpa [BitVec.truncate_eq_setWidth, BitVec.getLsbD_setWidth, hlow] using this
  · have := congrArg (fun x : BitVec 128 => x.getLsbD (i - 32)) (hb.trans hc.symm)
    simpa [BitVec.getLsbD_ushiftRight, show 32 + (i - 32) = i by omega] using this

lemma ones_le_of_mapped {n : ℕ} {b : BitVec 128}
    (h : (sixteen ((b >>> (128 - n)) <<< (128 - n))).mapped) : 96 ≤ n := by
  by_contra hn
  rw [mapped, beq_iff_eq] at h
  have := congrArg (fun x : BitVec 128 => x.getLsbD 0) h
  simp only [BitVec.getLsbD_ushiftRight, BitVec.getLsbD_shiftLeft, Nat.add_zero] at this
  rw [decide_eq_true (show 32 < 128 - n by omega)] at this
  simp at this

end IP

/-- A network: an address and a mask that sets the first `ones` bits of it.
Source: net IPNet, CIDRMask -/
structure IPNet where
  ip : IP
  ones : ℕ
deriving DecidableEq, Repr

/-- What the text of a network says: an address and a length. Source: net IPNet.String. -/
structure NetText where
  addr : IP
  len : ℕ
deriving DecidableEq, Repr

namespace IPNet

/-- The text of a network. A mapped address is printed as the IPv4 address it is, and only the last
four bytes of its mask are counted.
Source: net IPNet.String, networkNumberAndMask -/
def string (n : IPNet) : NetText :=
  match n.ip, n.ip.to4 with
  | .sixteen _, some bits => ⟨.four bits, n.ones - 96⟩
  | ip, _ => ⟨ip, n.ones⟩

/-- The host bits are cleared, and the mask is not longer than the address. -/
def Masked (n : IPNet) : Prop := n.ip.mask n.ones = n.ip ∧ n.ones ≤ n.ip.bitLen

instance (n : IPNet) : Decidable n.Masked := inferInstanceAs (Decidable (_ ∧ _))

/-- The network a CIDR text with address `ip` and length `n` stands for; no network when the length
is too long.
Source: net ParseCIDR -/
def parseCIDR (ip : IP) (n : ℕ) : Option IPNet :=
  if n ≤ ip.bitLen then some ⟨ip.mask n, n⟩ else none

lemma string_four (bits : BitVec 32) (n : ℕ) :
    (⟨.four bits, n⟩ : IPNet).string = ⟨.four bits, n⟩ := rfl

lemma string_mapped {bits : BitVec 128} (h : (IP.sixteen bits).mapped) (n : ℕ) :
    (⟨.sixteen bits, n⟩ : IPNet).string = ⟨.four (bits.truncate 32), n - 96⟩ := by
  rw [IP.mapped, beq_iff_eq] at h
  simp only [string, IP.to4, if_pos h]

lemma string_sixteen {bits : BitVec 128} (h : (IP.sixteen bits).mapped = false) (n : ℕ) :
    (⟨.sixteen bits, n⟩ : IPNet).string = ⟨.sixteen bits, n⟩ := by
  rw [IP.mapped, beq_eq_false_iff_ne] at h
  simp only [string, IP.to4, if_neg h]

lemma Masked.ones_le {n : IPNet} (hn : n.Masked) (h : n.ip.mapped) : 96 ≤ n.ones := by
  obtain ⟨ip, ones⟩ := n
  obtain ⟨hmask, -⟩ := hn
  cases ip with
  | four bits => cases h
  | sixteen bits =>
    simp only [IP.mask] at hmask
    rw [← hmask] at h
    exact IP.ones_le_of_mapped h

lemma eq_of_string_eq {m n : IPNet} (hm : m.Masked) (hn : n.Masked)
    (hlen : m.ip.bitLen = n.ip.bitLen) (h : m.string = n.string) : m = n := by
  obtain ⟨ip, k⟩ := m
  obtain ⟨ip', k'⟩ := n
  cases ip with
  | four b =>
    cases ip' with
    | four b' =>
      rw [string_four, string_four, NetText.mk.injEq] at h
      rw [h.1, h.2]
    | sixteen b' => cases hlen
  | sixteen b =>
    cases ip' with
    | four b' => cases hlen
    | sixteen b' =>
      cases hb : (IP.sixteen b).mapped <;> cases hb' : (IP.sixteen b').mapped
      · rw [string_sixteen hb, string_sixteen hb', NetText.mk.injEq] at h
        rw [h.1, h.2]
      · rw [string_sixteen hb, string_mapped hb', NetText.mk.injEq] at h
        exact absurd h.1 (by simp)
      · rw [string_mapped hb, string_sixteen hb', NetText.mk.injEq] at h
        exact absurd h.1 (by simp)
      · have h₁ : 96 ≤ k := hm.ones_le hb
        have h₂ : 96 ≤ k' := hn.ones_le hb'
        rw [string_mapped hb, string_mapped hb', NetText.mk.injEq, IP.four.injEq] at h
        rw [IP.mapped, beq_iff_eq] at hb hb'
        rw [IP.eq_of_to4_eq hb hb' h.1, show k = k' by omega]

end IPNet

end Ze.Net
