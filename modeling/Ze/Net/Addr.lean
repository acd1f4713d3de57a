import Mathlib.Order.Basic

/-!
# Network addresses

`Addr` is the value of Go's `netip.Addr`: the zero value, an IPv4 address, or an IPv6 address with
an optional zone. `Addr.cmp` is `Addr.Compare`: bit length, then value, then zone. It is a linear
order whose equality is equality of addresses (`Addr.cmp_eq_iff`).
-/

namespace Ze.Net

/-- An address: `netip.Addr`.
Source: net/netip Addr -/
inductive Addr where
  /-- The zero `Addr`, which is not a valid address. -/
  | zero
  /-- An IPv4 address. -/
  | v4 (bits : BitVec 32)
  /-- An IPv6 address with its zone, empty when it has none. -/
  | v6 (bits : BitVec 128) (zone : List UInt8)
  deriving DecidableEq, Repr

namespace Addr

/-- Source: net/netip Addr.BitLen. -/
def bitLen : Addr → ℕ
  | zero => 0
  | v4 _ => 32
  | v6 _ _ => 128

/-- The address as a number. Source: net/netip Addr.addr. -/
def value : Addr → ℕ
  | zero => 0
  | v4 bits => bits.toNat
  | v6 bits _ => bits.toNat

/-- The zone; only an IPv6 address has one. Source: net/netip Addr.Zone. -/
def zone : Addr → List UInt8
  | zero => []
  | v4 _ => []
  | v6 _ zone => zone

/-- Source: net/netip Addr.IsValid. -/
def isValid (a : Addr) : Bool :=
  a != zero

/-- Source: net/netip Addr.Is6. -/
def is6 : Addr → Bool
  | v6 _ _ => true
  | _ => false

/-- Source: net/netip Addr.Is4In6, Addr.Unmap -/
def unmap : Addr → Addr
  | v6 bits zone =>
    if bits >>> 32 = 0xffff#128 then v4 (bits.setWidth 32) else v6 bits zone
  | a => a

/-- The order of addresses: bit length, value, and for IPv6 the zone.
Source: net/netip Addr.Compare -/
def cmp (a b : Addr) : Ordering :=
  (compare a.bitLen b.bitLen).then
    ((compare a.value b.value).then (if a.is6 then compare a.zone b.zone else .eq))

lemma cmp_eq_compareLex :
    cmp = compareLex (compareOn bitLen) (compareLex (compareOn value) (compareOn zone)) := by
  funext a b
  unfold cmp compareLex compareOn
  rcases a with _ | x | ⟨x, z⟩ <;> rcases b with _ | y | ⟨y, z'⟩ <;> rfl

/-- The order of addresses is transitive. -/
instance : Std.TransCmp cmp := by
  rw [cmp_eq_compareLex]
  infer_instance

lemma cmp_eq_iff {a b : Addr} : cmp a b = .eq ↔ a = b := by
  constructor
  · intro h
    rw [cmp_eq_compareLex, compareLex_eq_eq, compareLex_eq_eq] at h
    obtain ⟨hlen, hvalue, hzone⟩ := h
    have hlen : a.bitLen = b.bitLen := Std.LawfulEqOrd.eq_of_compare hlen
    have hvalue : a.value = b.value := Std.LawfulEqOrd.eq_of_compare hvalue
    have hzone : a.zone = b.zone := Std.LawfulEqOrd.eq_of_compare hzone
    rcases a with _ | x | ⟨x, z⟩ <;> rcases b with _ | y | ⟨y, z'⟩ <;>
      simp_all [bitLen, value, zone, BitVec.toNat_inj]
  · rintro rfl
    exact Std.ReflCmp.compare_self

end Addr

end Ze.Net
