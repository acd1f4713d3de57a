import Ze.Isis.Runs

/-!
# The Remaining Lifetime of what is flooded

A flooded LSP is the stored PDU with the Remaining Lifetime it had when it was stored, while the
entry ages beside it. `NoLonger` is that no PDU on the wire promises more time than its entry has
left, and `Rested` is when that is so.
-/

namespace Ze.Isis

open Ze.Lib List

namespace Flooder

/-- The next tick of the flood timer sends the LSP on some circuit. Source: flooding.go
FloodTick, floodCircuitLevel. -/
def Due (f : Flooder) (level : Level) (e : Entry) : Prop :=
  ∃ c ∈ f.circuits, c.passive = false ∧ c.formsLevel level = true ∧ c.id ∈ e.srm

/-- No PDU that the flooder sends has a greater Remaining Lifetime than its entry.
Source: flooding.go FloodTick -/
def NoLonger (f : Flooder) : Prop :=
  ∀ x ∈ f.floodTick, ∃ e, (f.db x.2.level).lookup x.2.lspId = some e ∧ x.2.lifetime ≤ e.lifetime

/-- Every LSP that is due is stored as a purge, or was heard again with as many seconds more as have
passed since. -/
def Rested (f : Flooder) : Prop :=
  ∀ level id e, (f.db level).lookup id = some e → f.Due level e →
    e.raw.lifetime = 0 ∨ e.raw.lifetime + e.aged ≤ e.heard

end Flooder

section

variable {f : Flooder} {c : FloodCircuit} {level : Level} {lsp : Lsp}

lemma mem_floodCircuitLevel_iff :
    lsp ∈ f.floodCircuitLevel c level ↔
      ∃ id e, (f.db level).lookup id = some e ∧ c.id ∈ e.srm ∧ e.raw = lsp := by
  unfold Flooder.floodCircuitLevel
  rw [mem_map]
  constructor
  · rintro ⟨⟨id, e⟩, hx, hraw⟩
    obtain ⟨hmem, hsrm⟩ := mem_filter.1 hx
    exact ⟨id, e, (SortedMap.mem_items_iff _).1 hmem, of_decide_eq_true hsrm, hraw⟩
  · rintro ⟨id, e, he, hsrm, hraw⟩
    refine ⟨(id, e), mem_filter.2 ⟨?_, decide_eq_true hsrm⟩, hraw⟩
    exact (SortedMap.mem_items_iff _).2 he

lemma mem_floodOn_iff :
    lsp ∈ f.floodOn c ↔ c.passive = false ∧ ∃ level, c.formsLevel level ∧
      lsp ∈ f.floodCircuitLevel c level := by
  have hlevel : ∀ level, lsp ∈ (if c.formsLevel level then f.floodCircuitLevel c level else []) ↔
      c.formsLevel level ∧ lsp ∈ f.floodCircuitLevel c level := by
    intro level
    by_cases h : c.formsLevel level
    · simp [h]
    · simp [h]
  unfold Flooder.floodOn
  by_cases hp : c.passive
  · simp [hp]
  · rw [if_neg hp, mem_append, hlevel, hlevel]
    refine ⟨fun h => ⟨Bool.eq_false_iff.2 hp, ?_⟩, ?_⟩
    · rcases h with h | h
      · exact ⟨.l1, h⟩
      · exact ⟨.l2, h⟩
    · rintro ⟨-, level, h⟩
      cases level with
      | l1 => exact .inl h
      | l2 => exact .inr h

lemma exists_mem_floodTick_iff :
    (∃ cid, (cid, lsp) ∈ f.floodTick) ↔
      ∃ level id e, (f.db level).lookup id = some e ∧ f.Due level e ∧ e.raw = lsp := by
  unfold Flooder.floodTick
  constructor
  · rintro ⟨cid, h⟩
    obtain ⟨c, hc, hmem⟩ := mem_flatMap.1 h
    obtain ⟨lsp', hlsp, heq⟩ := mem_map.1 hmem
    cases heq
    obtain ⟨hp, level, hforms, hlevel⟩ := mem_floodOn_iff.1 hlsp
    obtain ⟨id, e, he, hsrm, hraw⟩ := mem_floodCircuitLevel_iff.1 hlevel
    exact ⟨level, id, e, he, ⟨c, hc, hp, hforms, hsrm⟩, hraw⟩
  · rintro ⟨level, id, e, he, ⟨c, hc, hp, hforms, hsrm⟩, hraw⟩
    refine ⟨c.id, mem_flatMap.2 ⟨c, hc, mem_map.2 ⟨lsp, ?_, rfl⟩⟩⟩
    refine mem_floodOn_iff.2 ⟨hp, level, hforms, ?_⟩
    exact mem_floodCircuitLevel_iff.2 ⟨id, e, he, hsrm, hraw⟩

lemma raw_lifetime_le_iff {id : LspId} {e : Entry} (h : e.Coherent level id) :
    e.raw.lifetime ≤ e.lifetime ↔ e.raw.lifetime = 0 ∨ e.raw.lifetime + e.aged ≤ e.heard := by
  rw [h.lifetime]
  omega

/-- **In every state of every run** no flooded PDU promises more time than its entry has left if and
only if every LSP that is due is stored as a purge, or was heard again with as many seconds more as
have passed since. -/
theorem noLonger_iff (systemID : ℕ) (circuits : List FloodCircuit) (ops : List Op) :
    (Flooder.after { systemID, circuits } ops).NoLonger ↔
      (Flooder.after { systemID, circuits } ops).Rested := by
  have hco := (coherent_fresh systemID circuits).after ops
  generalize Flooder.after { systemID, circuits } ops = f at hco
  constructor
  · intro h level id e he hdue
    obtain ⟨cid, hmem⟩ := exists_mem_floodTick_iff.2 ⟨level, id, e, he, hdue, rfl⟩
    obtain ⟨e', he', hle⟩ := h _ hmem
    have hce := hco level id e he
    simp only [hce.level, hce.lspId] at he'
    rw [he] at he'
    cases he'
    exact (raw_lifetime_le_iff hce).1 hle
  · rintro h ⟨cid, lsp⟩ hmem
    obtain ⟨level, id, e, he, hdue, rfl⟩ := exists_mem_floodTick_iff.1 ⟨cid, hmem⟩
    have hce := hco level id e he
    refine ⟨e, ?_, (raw_lifetime_le_iff hce).2 (h level id e he hdue)⟩
    simp only [hce.level, hce.lspId]
    exact he

def dyingLsp : Lsp :=
  { level := .l2, lspId := Fin.ofNat _ (7 * 65536), sequence := 1, lifetime := 2, checksum := 9,
    typeBlock := 3, tlvs := [] }

/-- The LSP arrives on circuit 0, and two seconds pass. -/
def expiring : List Op := [.receiveLSP 0 true dyingLsp 0, .ageOnce 1, .ageOnce 2]

def twoCircuits : List FloodCircuit :=
  [{ id := 0, p2p := true, passive := false, formsL1 := false, formsL2 := true },
    { id := 1, p2p := true, passive := false, formsL1 := false, formsL2 := true }]

/-- The LSP has expired, and what goes out on circuit 1 gives it two seconds. -/
theorem flooded_after_expiry :
    ¬ (Flooder.after { systemID := 1, circuits := twoCircuits } expiring).NoLonger ∧
      ∃ x ∈ (Flooder.after { systemID := 1, circuits := twoCircuits } expiring).floodTick,
        x.2.lifetime = 2 ∧
          ∃ e, ((Flooder.after { systemID := 1, circuits := twoCircuits } expiring).db
            x.2.level).lookup x.2.lspId = some e ∧ e.lifetime = 0 := by
  have hrun : ((Flooder.after { systemID := 1, circuits := twoCircuits } expiring).floodTick.any
      fun x => decide (x.2.lifetime = 2) &&
        (((Flooder.after { systemID := 1, circuits := twoCircuits } expiring).db
          x.2.level).lookup x.2.lspId).any fun e => decide (e.lifetime = 0)) = true := by
    decide +kernel
  obtain ⟨x, hx, hb⟩ := any_eq_true.1 hrun
  obtain ⟨htwo, hany⟩ := (Bool.and_eq_true _ _).mp hb
  obtain ⟨e, he, hzero⟩ := (Option.any_eq_true _ _).1 hany
  have htwo' : x.2.lifetime = 2 := of_decide_eq_true htwo
  have hzero' : e.lifetime = 0 := of_decide_eq_true hzero
  refine ⟨fun h => ?_, x, hx, htwo', e, he, hzero'⟩
  obtain ⟨e', he', hle⟩ := h x hx
  rw [he] at he'
  cases he'
  omega

end

end Ze.Isis
