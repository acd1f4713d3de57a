import Mathlib.Data.List.Range
import Ze.Net.Addr

/-!
# Network prefixes

`Prefix` is `netip.Prefix`: an address and a number of bits, with the host bits as they were given;
`Prefix.masked` clears them. The prefixes that cover an address, from the longest to the shortest,
are a list of `bitLen + 1` masked prefixes (`covering`), so a longest-prefix match is a search along
that list (`findSome?_covering_iff`).
-/

namespace Ze.Net

open List

namespace Addr

/-- The address without its zone. Source: net/netip Addr.WithZone, PrefixFrom. -/
def withoutZone : Addr → Addr
  | v6 bits _ => v6 bits []
  | a => a

/-- The address with only its first `b` bits. Source: net/netip Addr.Prefix. -/
def mask (b : ℕ) : Addr → Addr
  | zero => zero
  | v4 bits => v4 ((bits >>> (32 - b)) <<< (32 - b))
  | v6 bits zone => v6 ((bits >>> (128 - b)) <<< (128 - b)) zone

@[simp]
lemma bitLen_mask (b : ℕ) (a : Addr) : (a.mask b).bitLen = a.bitLen := by
  cases a <;> rfl

@[simp]
lemma bitLen_withoutZone (a : Addr) : a.withoutZone.bitLen = a.bitLen := by
  cases a <;> rfl

@[simp]
lemma mask_mask (b : ℕ) (a : Addr) : (a.mask b).mask b = a.mask b := by
  have hshift : ∀ (w k : ℕ) (x : BitVec w), (((x >>> k) <<< k) >>> k) <<< k = (x >>> k) <<< k := by
    intro w k x
    ext i hi
    rw [BitVec.getElem_shiftLeft]
    grind
  cases a with
  | zero => rfl
  | v4 bits | v6 bits zone => simp only [mask, hshift]

end Addr

/-- An address block: `netip.Prefix`.
Source: net/netip Prefix -/
structure Prefix where
  addr : Addr
  bits : ℕ
  deriving DecidableEq, Repr

namespace Prefix

/-- Source: net/netip Prefix.IsValid. -/
def isValid (p : Prefix) : Bool :=
  p.addr.isValid && p.addr.zone.isEmpty && decide (p.bits ≤ p.addr.bitLen)

/-- Source: net/netip Prefix.Masked. -/
def masked (p : Prefix) : Prefix :=
  ⟨p.addr.mask p.bits, p.bits⟩

/-- The prefix covers the address; the zone of the address is ignored.
Source: core/rib/store/store_bart.go LookupLPM (PrefixFrom drops the zone) -/
def covers (p : Prefix) (a : Addr) : Bool :=
  decide (p.addr.bitLen = a.bitLen) && decide (p.bits ≤ a.bitLen) &&
    (p.addr.mask p.bits == a.withoutZone.mask p.bits)

@[simp]
lemma masked_masked (p : Prefix) : p.masked.masked = p.masked := by
  simp [masked]

@[simp]
lemma isValid_masked (p : Prefix) : p.masked.isValid = p.isValid := by
  obtain ⟨addr, bits⟩ := p
  cases addr <;> rfl

end Prefix

lemma Prefix.isValid_of_covers {p : Prefix} {a : Addr} (hp : p.isValid)
    (h : p.covers a) : a.isValid := by
  obtain ⟨addr, bits⟩ := p
  cases addr <;> cases a <;> simp_all [Prefix.isValid, Prefix.covers, Addr.isValid, Addr.bitLen]

/-- The masked prefixes that cover an address, longest first. -/
def covering (a : Addr) : List Prefix :=
  (range (a.bitLen + 1)).reverse.map fun b => ⟨a.withoutZone.mask b, b⟩

variable {a : Addr} {p q : Prefix}

lemma mem_covering : p ∈ covering a ↔ p.bits ≤ a.bitLen ∧ p.addr = a.withoutZone.mask p.bits := by
  unfold covering
  rw [mem_map]
  constructor
  · rintro ⟨b, hb, rfl⟩
    rw [mem_reverse, mem_range] at hb
    exact ⟨Nat.lt_succ_iff.1 hb, rfl⟩
  · rintro ⟨hle, haddr⟩
    refine ⟨p.bits, ?_, ?_⟩
    · rw [mem_reverse, mem_range]
      exact Nat.lt_succ_of_le hle
    · rw [← haddr]

lemma masked_of_mem_covering (h : p ∈ covering a) : p.masked = p := by
  obtain ⟨-, haddr⟩ := mem_covering.1 h
  unfold Prefix.masked
  rw [haddr, Addr.mask_mask, ← haddr]

lemma mem_covering_iff (hp : p.masked = p) : p ∈ covering a ↔ p.covers a := by
  have haddr : p.addr.mask p.bits = p.addr := congrArg Prefix.addr hp
  rw [mem_covering]
  unfold Prefix.covers
  rw [haddr, Bool.and_eq_true, Bool.and_eq_true, beq_iff_eq, decide_eq_true_iff, decide_eq_true_iff]
  constructor
  · rintro ⟨hle, heq⟩
    refine ⟨⟨?_, hle⟩, heq⟩
    rw [heq, Addr.bitLen_mask, Addr.bitLen_withoutZone]
  · rintro ⟨⟨-, hle⟩, heq⟩
    exact ⟨hle, heq⟩

lemma eq_of_mem_covering (hp : p ∈ covering a) (hq : q ∈ covering a) (h : p.bits = q.bits) :
    p = q := by
  obtain ⟨-, hp⟩ := mem_covering.1 hp
  obtain ⟨-, hq⟩ := mem_covering.1 hq
  cases p with
  | mk paddr pbits =>
    cases q with
    | mk qaddr qbits =>
      simp only at h hp hq
      subst h
      rw [hp, hq]

lemma pairwise_covering (a : Addr) : (covering a).Pairwise fun p q => q.bits < p.bits := by
  unfold covering
  rw [pairwise_map, pairwise_reverse]
  exact pairwise_lt_range

/-- A search along the list finds the longest covering prefix with an answer. -/
lemma findSome?_covering_iff {β : Type} {f : Prefix → Option β} {v : β} :
    (covering a).findSome? f = some v ↔
      ∃ p ∈ covering a, f p = some v ∧ ∀ q ∈ covering a, p.bits < q.bits → f q = none := by
  rw [findSome?_eq_some_iff]
  have hsorted := pairwise_covering a
  constructor
  · rintro ⟨pre, p, post, heq, hp, hpre⟩
    refine ⟨p, by rw [heq]; simp, hp, fun q hq hlt => ?_⟩
    rw [heq, pairwise_append, pairwise_cons] at hsorted
    rw [heq, mem_append, mem_cons] at hq
    rcases hq with hq | rfl | hq
    · exact hpre q hq
    · exact absurd hlt (Nat.lt_irrefl _)
    · exact absurd hlt (Nat.lt_asymm (hsorted.2.1.1 q hq))
  · rintro ⟨p, hp, hfp, hlonger⟩
    obtain ⟨pre, post, heq⟩ := append_of_mem hp
    refine ⟨pre, p, post, heq, hfp, fun q hq => ?_⟩
    rw [heq, pairwise_append] at hsorted
    exact hlonger q (by rw [heq]; simp [hq]) (hsorted.2.2 q hq p mem_cons_self)

end Ze.Net
