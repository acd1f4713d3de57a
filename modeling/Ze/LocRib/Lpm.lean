import Ze.LocRib.Rib
import Ze.LocRib.Ties

/-!
# Longest-prefix match over shards

`Rib.lpm` asks every shard for its longest covering prefix and keeps the longest of those that have
a best path. What it should answer is said over the table (`IsAnswer`): the best path of the
longest covering prefix that holds a selectable path.
-/

namespace Ze.LocRib

open List

open Ze.Net (Addr Prefix covering mem_covering_iff eq_of_mem_covering findSome?_covering_iff)
open Option (bind_eq_some_iff bind_some map_eq_some_iff)

/-- Source: core/rib/store/store_bart.go. -/
def Store.lookupLPM {T : Type} (s : Store T) (a : Addr) : Option (T × Prefix) :=
  if !a.isValid then none
  else (covering a).findSome? fun pfx => (s pfx).map fun v => (v, pfx)

/-- One shard's turn: its longest match replaces a shorter one when it has a best path.
Source: core/rib/locrib/manager.go LPM (loop body) -/
def lpmShard (a : Addr) (found : Option (Path × Prefix)) (sh : Store PathGroup) :
    Option (Path × Prefix) :=
  match sh.lookupLPM a with
  | none => found
  | some (g, pfx) =>
    if found.all fun b => decide (b.2.bits < pfx.bits) then
      match g.best with
      | some p => some (p, pfx)
      | none => found
    else found

/-- Source: manager.go. -/
def Rib.lpm (r : Rib) (fam : Family) (a : Addr) : Option (Path × Prefix) :=
  if !a.isValid then none
  else
    match r.families fam with
    | none => none
    | some shards => shards.foldl (lpmShard a) none

/-! ## What it should answer -/

def PathGroup.Selectable (g : PathGroup) : Prop :=
  ∃ p ∈ g.paths, p.selectable = true

/-- The prefix is stored, covers the address, and has a selectable path. -/
def Store.SelectableAt (s : Store PathGroup) (a : Addr) (pfx : Prefix) : Prop :=
  ∃ g, s pfx = some g ∧ pfx.covers a = true ∧ g.Selectable

/-- The longest covering prefix with a selectable path. -/
def Store.LongestSelectable (s : Store PathGroup) (a : Addr) (pfx : Prefix) : Prop :=
  s.SelectableAt a pfx ∧ ∀ q, s.SelectableAt a q → q.bits ≤ pfx.bits

/-- The answer to a lookup: the best path of the longest covering prefix with a selectable path, and
no answer only when no covering prefix has one. -/
def IsAnswer (s : Store PathGroup) (a : Addr) : Option (Path × Prefix) → Prop
  | none => ∀ pfx, ¬ s.SelectableAt a pfx
  | some (p, pfx) => s.LongestSelectable a pfx ∧ (s pfx).bind PathGroup.best = some p

/-! ## The pass over the shards -/

/-- What a shard has to offer: its longest match, when it has a best path. -/
def offer (a : Addr) (sh : Store PathGroup) : Option (Path × Prefix) :=
  (sh.lookupLPM a).bind fun m => m.1.best.map fun p => (p, m.2)

lemma lpmShard_eq (a : Addr) (found : Option (Path × Prefix)) (sh : Store PathGroup) :
    lpmShard a found sh =
      match offer a sh with
      | none => found
      | some m => if found.all fun b => decide (b.2.bits < m.2.bits) then some m else found := by
  unfold lpmShard offer
  cases hlpm : sh.lookupLPM a with
  | none => rfl
  | some m =>
    cases hbest : m.1.best with
    | none =>
      simp only [hbest, bind_some, Option.map_none]
      split_ifs <;> rfl
    | some p => simp only [hbest, bind_some, Option.map_some]

lemma foldl_lpmShard (a : Addr) (shards : List (Store PathGroup)) (found : Option (Path × Prefix)) :
    (shards.foldl (lpmShard a) found = none → found = none ∧ ∀ sh ∈ shards, offer a sh = none) ∧
      ∀ m, shards.foldl (lpmShard a) found = some m →
        (found = some m ∨ ∃ sh ∈ shards, offer a sh = some m) ∧
        (∀ b, found = some b → b.2.bits ≤ m.2.bits) ∧
        ∀ sh ∈ shards, ∀ b, offer a sh = some b → b.2.bits ≤ m.2.bits := by
  induction shards generalizing found with
  | nil =>
    refine ⟨fun h => ⟨h, by simp⟩, fun m hm => ⟨.inl hm, fun b hb => ?_, by simp⟩⟩
    rw [foldl_nil, hb, Option.some.injEq] at hm
    rw [hm]
  | cons sh shards ih =>
    rw [foldl_cons]
    obtain ⟨hnone, hsome⟩ := ih (lpmShard a found sh)
    rw [lpmShard_eq] at hnone hsome ⊢
    cases hoff : offer a sh with
    | none =>
      rw [hoff] at hnone hsome
      refine ⟨fun h => ?_, fun m hm => ?_⟩
      · obtain ⟨hfound, hall⟩ := hnone h
        exact ⟨hfound, forall_mem_cons.2 ⟨hoff, hall⟩⟩
      · obtain ⟨hfrom, hfound, hall⟩ := hsome m hm
        refine ⟨hfrom.imp_right fun ⟨sh', hsh', h⟩ => ⟨sh', mem_cons_of_mem _ hsh', h⟩,
          hfound, forall_mem_cons.2 ⟨fun b hb => ?_, hall⟩⟩
        rw [hoff] at hb
        cases hb
    | some c =>
      rw [hoff] at hnone hsome
      by_cases hlonger : found.all (fun b => decide (b.2.bits < c.2.bits))
      · -- the shard's offer takes over
        simp only [hlonger, if_true] at hnone hsome ⊢
        refine ⟨fun h => absurd (hnone h).1 (Option.some_ne_none c), fun m hm => ?_⟩
        obtain ⟨hfrom, hle, hall⟩ := hsome m hm
        have hc := hle c rfl
        refine ⟨.inr ?_, fun b hb => ?_, forall_mem_cons.2 ⟨fun b hb => ?_, hall⟩⟩
        · rcases hfrom with hfrom | ⟨sh', hsh', h⟩
          · exact ⟨sh, mem_cons_self, hoff.trans hfrom⟩
          · exact ⟨sh', mem_cons_of_mem _ hsh', h⟩
        · rw [hb] at hlonger
          have hlt : b.2.bits < c.2.bits := by simpa using hlonger
          omega
        · rw [hoff, Option.some.injEq] at hb
          rw [← hb]
          exact hc
      · simp only [hlonger, Bool.false_eq_true, if_false] at hnone hsome ⊢
        refine ⟨fun h => ?_, fun m hm => ?_⟩
        · rw [(hnone h).1] at hlonger
          exact absurd rfl hlonger
        · obtain ⟨hfrom, hfound, hall⟩ := hsome m hm
          refine ⟨hfrom.imp_right fun ⟨sh', hsh', h⟩ =>
            ⟨sh', mem_cons_of_mem _ hsh', h⟩, hfound, forall_mem_cons.2 ⟨fun b hb => ?_, hall⟩⟩
          rw [hoff, Option.some.injEq] at hb
          rw [← hb]
          cases hf : found with
          | none => exact absurd (by rw [hf]; rfl) hlonger
          | some d =>
            have hd := hfound d hf
            rw [hf] at hlonger
            have hle : c.2.bits ≤ d.2.bits := by simpa using hlonger
            omega

/-! ## The answer of the sharded Loc-RIB -/

/-- No covering prefix that is longer than the longest selectable one is stored in its shard. -/
def Unshadowed (hash : Prefix → UInt64) (n : ℕ) (s : Store PathGroup) (a : Addr) : Prop :=
  ∀ pfx, s.LongestSelectable a pfx → ∀ q g, s q = some g → q.covers a = true →
    pfx.bits < q.bits → shardIndex hash q n ≠ shardIndex hash pfx n

variable {hash : Prefix → UInt64} {shards : List (Store PathGroup)} {s : Store PathGroup}
  {a : Addr}

lemma offer_eq_some_iff (hdist : Distributes hash shards s) (ha : a.isValid) {i : ℕ}
    {sh : Store PathGroup} (hsh : shards[i]? = some sh) {p : Path} {pfx : Prefix} :
    offer a sh = some (p, pfx) ↔
      pfx ∈ covering a ∧ shardIndex hash pfx shards.length = i ∧
        (s pfx).bind PathGroup.best = some p ∧
        ∀ q ∈ covering a, pfx.bits < q.bits → shardIndex hash q shards.length = i →
          s q = none := by
  have hlpm : ∀ g, sh.lookupLPM a = some (g, pfx) ↔ pfx ∈ covering a ∧ sh pfx = some g ∧
      ∀ q ∈ covering a, pfx.bits < q.bits → sh q = none := by
    intro g
    unfold Store.lookupLPM
    rw [ha, Bool.not_true, if_neg Bool.false_ne_true, findSome?_covering_iff]
    simp only [map_eq_some_iff, Prod.mk.injEq, Option.map_eq_none_iff]
    constructor
    · rintro ⟨q, hq, ⟨g', hg', rfl, rfl⟩, hlonger⟩
      exact ⟨hq, hg', hlonger⟩
    · rintro ⟨hpfx, hg, hlonger⟩
      exact ⟨pfx, hpfx, ⟨g, hg, rfl, rfl⟩, hlonger⟩
  have hoffer : offer a sh = some (p, pfx) ↔
      ∃ g, sh.lookupLPM a = some (g, pfx) ∧ g.best = some p := by
    unfold offer
    rw [bind_eq_some_iff]
    constructor
    · rintro ⟨⟨g, q⟩, hm, hp⟩
      simp only [map_eq_some_iff, Prod.mk.injEq] at hp
      obtain ⟨b, hb, rfl, rfl⟩ := hp
      exact ⟨g, hm, hb⟩
    · rintro ⟨g, hm, hb⟩
      exact ⟨(g, pfx), hm, by simp [hb]⟩
  -- in shard `i` the entries are those of the store that hash to `i`
  have hself : ∀ q, sh q = if shardIndex hash q shards.length = i then s q else none :=
    hdist i sh hsh
  have hnone : ∀ q, sh q = none ↔ (shardIndex hash q shards.length = i → s q = none) := by
    intro q
    rw [hself q]
    split_ifs with hq <;> simp [hq]
  rw [hoffer]
  constructor
  · rintro ⟨g, hg, hbest⟩
    obtain ⟨hcov, hget, hlonger⟩ := (hlpm g).1 hg
    rw [hself] at hget
    split_ifs at hget with hi
    refine ⟨hcov, hi, by rw [hget, bind_some, hbest], fun q hq hlt => ?_⟩
    exact (hnone q).1 (hlonger q hq hlt)
  · rintro ⟨hcov, hi, hbest, hlonger⟩
    obtain ⟨g, hg, hbest⟩ := bind_eq_some_iff.1 hbest
    refine ⟨g, (hlpm g).2 ⟨hcov, ?_, fun q hq hlt => (hnone q).2 (hlonger q hq hlt)⟩, hbest⟩
    rw [hself, if_pos hi, hg]

section

variable (hs : s.WellFormed)

include hs

lemma selectableAt_iff {pfx : Prefix} :
    s.SelectableAt a pfx ↔ pfx ∈ covering a ∧ ∃ p, (s pfx).bind PathGroup.best = some p := by
  constructor
  · rintro ⟨g, hg, hcov, q, hq, hsel⟩
    obtain ⟨hmasked, -, hselected⟩ := hs pfx g hg
    refine ⟨(mem_covering_iff hmasked).2 hcov, ?_⟩
    rw [hg, bind_some, ← Option.isSome_iff_exists, ← Option.ne_none_iff_isSome]
    intro hnone
    have := hselected.best_eq_none_iff.1 hnone q hq
    rw [hsel] at this
    exact Bool.noConfusion this
  · rintro ⟨hcov, p, hp⟩
    obtain ⟨g, hg, hbest⟩ := bind_eq_some_iff.1 hp
    obtain ⟨hmasked, -, hselected⟩ := hs pfx g hg
    obtain ⟨hmem, hsel⟩ := hselected.best_selectable hbest
    exact ⟨g, hg, (mem_covering_iff hmasked).1 hcov, p, hmem, hsel⟩

lemma exists_longestSelectable {pfx : Prefix} (h : s.SelectableAt a pfx) :
    ∃ q, s.LongestSelectable a q := by
  have hfind : (covering a).findSome? (fun q => ((s q).bind PathGroup.best).map fun _ => q) ≠
      none := by
    obtain ⟨hcov, p, hp⟩ := (selectableAt_iff hs).1 h
    intro hnone
    have := findSome?_eq_none_iff.1 hnone pfx hcov
    rw [hp] at this
    cases this
  obtain ⟨q, hq⟩ := Option.ne_none_iff_exists'.1 hfind
  obtain ⟨q', hq', hbest, hlonger⟩ := findSome?_covering_iff.1 hq
  obtain ⟨p, hp, rfl⟩ := map_eq_some_iff.1 hbest
  refine ⟨q', (selectableAt_iff hs).2 ⟨hq', p, hp⟩, fun u hu => ?_⟩
  obtain ⟨hucov, pu, hpu⟩ := (selectableAt_iff hs).1 hu
  by_contra hlt
  have := hlonger u hucov (Nat.lt_of_not_le hlt)
  rw [hpu] at this
  cases this

lemma exists_offer (hdist : Distributes hash shards s) (hlen : 1 ≤ shards.length)
    (ha : a.isValid) (hclear : Unshadowed hash shards.length s a) {pfx : Prefix}
    (hpfx : s.LongestSelectable a pfx) : ∃ sh ∈ shards, ∃ p, offer a sh = some (p, pfx) := by
  have hlt := shardIndex_lt hash pfx hlen
  obtain ⟨hcov, p, hp⟩ := (selectableAt_iff hs).1 hpfx.1
  refine ⟨shards[shardIndex hash pfx shards.length], getElem_mem hlt, p, ?_⟩
  rw [offer_eq_some_iff hdist ha (getElem?_eq_getElem hlt)]
  refine ⟨hcov, rfl, hp, fun q hq hbits hi => ?_⟩
  rw [Option.eq_none_iff_forall_ne_some]
  intro g hg
  exact hclear pfx hpfx q g hg ((mem_covering_iff (hs q g hg).1).1 hq) hbits hi

lemma foldl_lpmShard_isAnswer_iff (hdist : Distributes hash shards s) (hlen : 1 ≤ shards.length)
    (ha : a.isValid) :
    IsAnswer s a (shards.foldl (lpmShard a) none) ↔ Unshadowed hash shards.length s a := by
  obtain ⟨hnone, hsome⟩ := foldl_lpmShard a shards none
  constructor
  · intro h pfx hpfx q g hg hcov hbits hshard
    rcases hres : shards.foldl (lpmShard a) none with _ | ⟨p, pfx'⟩
    · rw [hres] at h
      exact h pfx hpfx.1
    · rw [hres] at h
      have hmem : ∀ u, s.SelectableAt a u → u ∈ covering a := fun u hu =>
        ((selectableAt_iff hs).1 hu).1
      have heq : pfx' = pfx := eq_of_mem_covering (hmem pfx' h.1.1) (hmem pfx hpfx.1)
        (Nat.le_antisymm (hpfx.2 pfx' h.1.1) (h.1.2 pfx hpfx.1))
      subst heq
      -- the shard that offered it holds nothing longer
      obtain ⟨hfrom, -⟩ := hsome _ hres
      rcases hfrom with hfrom | ⟨sh, hsh, hoff⟩
      · cases hfrom
      · obtain ⟨i, hi⟩ := getElem?_of_mem hsh
        obtain ⟨-, hown, -, hlonger⟩ := (offer_eq_some_iff hdist ha hi).1 hoff
        have hq := (mem_covering_iff (hs q g hg).1).2 hcov
        rw [hlonger q hq hbits (hshard.trans hown)] at hg
        cases hg
  · intro hclear
    rcases hres : shards.foldl (lpmShard a) none with _ | ⟨p, pfx⟩
    · intro pfx hsel
      obtain ⟨q, hq⟩ := exists_longestSelectable hs hsel
      obtain ⟨sh, hsh, p, hoff⟩ := exists_offer hs hdist hlen ha hclear hq
      rw [(hnone hres).2 sh hsh] at hoff
      cases hoff
    · obtain ⟨hfrom, -, hall⟩ := hsome _ hres
      rcases hfrom with hfrom | ⟨sh, hsh, hoff⟩
      · cases hfrom
      · obtain ⟨i, hi⟩ := getElem?_of_mem hsh
        obtain ⟨hcov, -, hbest, -⟩ := (offer_eq_some_iff hdist ha hi).1 hoff
        refine ⟨⟨(selectableAt_iff hs).2 ⟨hcov, p, hbest⟩, fun u hu => ?_⟩, hbest⟩
        obtain ⟨q, hq⟩ := exists_longestSelectable hs hu
        obtain ⟨sh', hsh', p', hoff'⟩ := exists_offer hs hdist hlen ha hclear hq
        exact Nat.le_trans (hq.2 u hu) (hall sh' hsh' _ hoff')

end

/-- **Theorem.** Along every run whose prefixes hash as their masked forms do, a lookup gives the
best path of the longest covering prefix with a selectable path iff no longer covering prefix is
stored in the shard of that prefix. -/
theorem lpm_isAnswer_iff (n : ℕ) (hash : Prefix → UInt64) (calls : Calls)
    (hcalls : calls.HashConsistent hash n) (fam : Family) (a : Addr) :
    IsAnswer (Table.empty.run calls fam) a (((Rib.new n hash).run calls).lpm fam a) ↔
      Unshadowed hash (max n 1) (Table.empty.run calls fam) a := by
  set s := Table.empty.run calls fam with hsdef
  have hs : s.WellFormed := wellFormed_run calls fam
  have hrefines : Refines ((Rib.new n hash).run calls) (Table.empty.run calls) :=
    (refines_new n hash).run calls hcalls
  obtain ⟨hn, hhash⟩ := (Rib.new n hash).run_config calls
  have hfam := hrefines fam
  rw [hn, hhash] at hfam
  unfold Rib.lpm
  by_cases ha : a.isValid
  · rw [ha, Bool.not_true, if_neg Bool.false_ne_true]
    cases hshards : ((Rib.new n hash).run calls).families fam with
    | none =>
      -- no prefix of the family was ever stored
      rw [hshards] at hfam
      have hempty : ∀ pfx, ¬ s.SelectableAt a pfx := by
        rintro pfx ⟨g, hg, -⟩
        rw [hsdef, show Table.empty.run calls fam = Store.empty from hfam] at hg
        cases hg
      exact ⟨fun _ pfx hpfx => absurd hpfx.1 (hempty pfx), fun _ => hempty⟩
    | some shards =>
      rw [hshards] at hfam
      obtain ⟨hlen, hdist⟩ := hfam
      have hlen : shards.length = max n 1 := hlen
      rw [← hlen]
      exact foldl_lpmShard_isAnswer_iff hs hdist (by omega) ha
  · have hnone : ∀ pfx, ¬ s.SelectableAt a pfx := by
      rintro pfx ⟨g, hg, hcov, -⟩
      exact ha (Prefix.isValid_of_covers (hs pfx g hg).2.1 hcov)
    rw [if_pos (by simp [ha])]
    exact ⟨fun _ pfx hpfx => absurd hpfx.1 (hnone pfx), fun _ => hnone⟩

/-! ## A hidden route before a shorter one -/

/-- Source: core/family/family.go. -/
def ipv4Unicast : Family := ⟨1, 1⟩

def rejecting : Published where
  snapshot := some
    ⟨fun source => if source = 2 then some fun _ => { action := .reject } else none, none⟩
  declared := fun _ => none
  protocolName := fun _ => "static"

def ten : Prefix := ⟨.v4 0x0a000000#32, 8⟩

def tenOne : Prefix := ⟨.v4 0x0a010000#32, 16⟩

/-- 10.0.0.0/8 from protocol 1, and 10.1.0.0/16 from protocol 2, which the policy hides. -/
def nested : Calls :=
  [(rejecting, .insert ipv4Unicast ten { source := 1 }),
    (rejecting, .insert ipv4Unicast tenOne { source := 2 })]

lemma nested_hashConsistent (hash : Prefix → UInt64) (n : ℕ) : nested.HashConsistent hash n := by
  intro call hcall pfx hpfx
  simp only [nested, mem_cons, not_mem_nil, or_false] at hcall
  rcases hcall with rfl | rfl <;> cases hpfx <;> exact hashConsistent_of_masked (by decide) hash _

/-- A hash that tells prefixes apart by their length. -/
def lengthHash (pfx : Prefix) : UInt64 :=
  if pfx.bits = 8 then 0 else 1

/-- Two shards that separate the prefixes: the lookup gives the shorter one. -/
theorem lpm_isAnswer_nested :
    nested.HashConsistent lengthHash 2 ∧
      IsAnswer (Table.empty.run nested ipv4Unicast) (.v4 0x0a010001#32)
        (((Rib.new 2 lengthHash).run nested).lpm ipv4Unicast (.v4 0x0a010001#32)) := by
  refine ⟨nested_hashConsistent _ _,
    (lpm_isAnswer_iff 2 lengthHash nested (nested_hashConsistent _ _) _ _).2 ?_⟩
  -- a stored prefix that is longer than another one is the /16, and the other one is the /8
  have hstored : ∀ q g, Table.empty.run nested ipv4Unicast q = some g → q = ten ∨ q = tenOne := by
    obtain ⟨g₁, g₂, hs⟩ : ∃ g₁ g₂, Table.empty.run nested ipv4Unicast =
        (Store.empty.insert ten g₁).insert tenOne g₂ := ⟨_, _, rfl⟩
    intro q g hg
    rw [hs, Store.insert_apply, Store.insert_apply] at hg
    split_ifs at hg with h₁ h₂
    · exact .inr h₁.2
    · exact .inl h₂.2
    · cases hg
  rintro pfx ⟨⟨g', hg', -⟩, -⟩ q g hg - hbits
  rcases hstored pfx g' hg' with rfl | rfl <;> rcases hstored q g hg with rfl | rfl
  · exact absurd hbits (by decide)
  · decide
  · exact absurd hbits (by decide)
  · exact absurd hbits (by decide)

/-- With one shard the hidden prefix is its only match and the shorter one is lost; with two shards
that separate them it is found. -/
theorem lpm_hidden_shadows :
    ¬ IsAnswer (Table.empty.run nested ipv4Unicast) (.v4 0x0a010001#32)
        (((Rib.new 1 lengthHash).run nested).lpm ipv4Unicast (.v4 0x0a010001#32)) ∧
      ((Rib.new 1 lengthHash).run nested).lpm ipv4Unicast (.v4 0x0a010001#32) ≠
        ((Rib.new 2 lengthHash).run nested).lpm ipv4Unicast (.v4 0x0a010001#32) := by
  have hres : ((Rib.new 1 lengthHash).run nested).lpm ipv4Unicast (.v4 0x0a010001#32) = none := by
    decide +kernel
  refine ⟨?_, by decide +kernel⟩
  rw [hres]
  intro h
  exact h ten ⟨_, rfl, by decide, _, mem_cons_self, by decide⟩

/-! ## The best path of every group -/

/-- **The selection in every run.** Whatever was inserted, removed and judged again, under whatever
policies and distances: a stored group is in the shard of its prefix, which is masked; it has a best
path unless all its paths are invalid or hidden; and the best path is, of the others, the first of
the least distance and metric. -/
theorem best_firstLeast (n : ℕ) (hash : Prefix → UInt64) (calls : Calls)
    (hcalls : calls.HashConsistent hash n) {fam : Family} {shards : List (Store PathGroup)}
    (hshards : ((Rib.new n hash).run calls).families fam = some shards) {i : ℕ}
    {sh : Store PathGroup} (hsh : shards[i]? = some sh) {pfx : Prefix} {g : PathGroup}
    (hg : sh pfx = some g) :
    shardIndex hash pfx shards.length = i ∧ pfx.masked = pfx ∧
      (g.best = none ↔ ∀ p ∈ g.paths, p.selectable = false) ∧
      ∀ p, g.best = some p ↔
        ∃ b, Ze.Lib.FirstLeast (fun q : Path => q.selectable = true) Path.rank g.paths b p := by
  have hrefines := (refines_new n hash).run calls hcalls fam
  rw [hshards] at hrefines
  have hat := hrefines.2 i sh hsh pfx
  rw [hg, ((Rib.new n hash).run_config calls).2] at hat
  split_ifs at hat with hidx
  obtain ⟨hmasked, -, hselected⟩ := wellFormed_run calls fam pfx g hat.symm
  exact ⟨hidx, hmasked, hselected.best_eq_none_iff, fun p => hselected.best_eq_some_iff⟩

/-- 10.1.0.0/16 from three more protocols, two of them with the least metric. -/
def crowded : Calls :=
  nested ++ [(rejecting, .insert ipv4Unicast tenOne { source := 3, metric := 20 }),
    (rejecting, .insert ipv4Unicast tenOne { source := 4, metric := 10 }),
    (rejecting, .insert ipv4Unicast tenOne { source := 5, metric := 10 })]

lemma crowded_hashConsistent (hash : Prefix → UInt64) (n : ℕ) : crowded.HashConsistent hash n := by
  intro call hcall pfx hpfx
  simp only [crowded, nested, mem_append, mem_cons, not_mem_nil, or_false] at hcall
  rcases hcall with (rfl | rfl) | rfl | rfl | rfl <;> cases hpfx <;>
    exact hashConsistent_of_masked (by decide) hash _

/-- The /16 with four paths, the first of them hidden: the earlier of the two with the least metric
is the best. -/
theorem best_firstLeast_crowded : ∃ shards sh g,
    ((Rib.new 2 lengthHash).run crowded).families ipv4Unicast = some shards ∧
      shards[1]? = some sh ∧ sh tenOne = some g ∧
      g.paths.map Path.source = [2, 3, 4, 5] ∧ g.best.map Path.source = some 4 ∧
      ∀ p, g.best = some p ↔
        ∃ b, Ze.Lib.FirstLeast (fun q : Path => q.selectable = true) Path.rank g.paths b p :=
  ⟨_, _, _, rfl, rfl, rfl, by decide +kernel, by decide +kernel,
    (@best_firstLeast 2 lengthHash crowded (crowded_hashConsistent _ _) ipv4Unicast _ rfl 1 _ rfl
      tenOne _ rfl).2.2.2⟩

end Ze.LocRib
