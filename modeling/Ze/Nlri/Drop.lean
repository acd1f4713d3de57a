import Ze.Nlri.Split

/-!
# Dropping NLRI from a CIDR field

The walk of `wireu/nlri_cidr.go` over a field of a CIDR family, and `DropCIDREntries`, which copies
the field without the NLRI that begin at the offsets given.
-/

namespace Ze.Nlri

open Ze.AsPath (Octet)
open List hiding head

/-- The NLRI at an offset, its part after the Path Identifier, and the offset past it. -/
def cidrEntry (field : List Octet) (off : ℕ) (addPath : Bool) :
    Option (List Octet × List Octet × ℕ) :=
  let pos := off + head addPath
  if field.length ≤ pos then none
  else
    let stop := pos + 1 + ((field.getD pos 0#8).toNat + 7) / 8
    if field.length < stop then none
    else some ((field.drop off).take (stop - off), (field.drop pos).take (stop - pos), stop)

lemma cidrEntry_lt {field entry cidr : List Octet} {off next : ℕ} {addPath : Bool}
    (h : cidrEntry field off addPath = some (entry, cidr, next)) :
    off < next ∧ next ≤ field.length := by
  unfold cidrEntry at h
  dsimp only at h
  split_ifs at h
  simp only [Option.some.injEq, Prod.mk.injEq] at h
  omega

/-- The NLRI of a field; `none` when it does not frame. Source: CIDRCursor, Next, Bad. -/
def cidrEntries (field : List Octet) (addPath : Bool) (off : ℕ) : Option (List (List Octet)) :=
  if field.length ≤ off then some []
  else
    match _h : cidrEntry field off addPath with
    | none => none
    | some (entry, _, next) => (cidrEntries field addPath next).map (entry :: ·)
  termination_by field.length - off
  decreasing_by
    have := cidrEntry_lt _h
    omega

/-- Source: DropCIDREntries, the loop. -/
def dropLoop (field : List Octet) (addPath : Bool) (off : ℕ) (drops : List UInt16)
    (out : List Octet) : Option (List Octet) :=
  if field.length ≤ off then
    -- an offset past the last entry
    if drops = [] then some out else none
  else
    match _h : cidrEntry field off addPath with
    | none => none
    | some (entry, _, next) =>
      match drops with
      | [] => dropLoop field addPath next [] (out ++ entry)
      | d :: later =>
        -- the offset fell inside the entry before this one
        if d.toNat < off then none
        else if d.toNat = off then dropLoop field addPath next later out
        else dropLoop field addPath next (d :: later) (out ++ entry)
  termination_by field.length - off
  decreasing_by
    all_goals
      have := cidrEntry_lt _h
      omega

def dropCIDREntries (out field : List Octet) (addPath : Bool) (drops : List UInt16) :
    Option (List Octet) :=
  dropLoop field addPath 0 drops out

/-! ## Entries and their offsets -/

/-- Each entry with the offset at which it begins. -/
def offsets (off : ℕ) : List (List Octet) → List (ℕ × List Octet)
  | [] => []
  | e :: es => (off, e) :: offsets (off + e.length) es

/-- The entries that begin at no offset given. -/
def kept (off : ℕ) (drops : List UInt16) (es : List (List Octet)) : List (List Octet) :=
  ((offsets off es).filter fun p => drops.all fun d => d.toNat != p.1).map Prod.snd

/-- One whole NLRI: the length octet says how many octets follow it. -/
def IsEntry (addPath : Bool) (e : List Octet) : Prop :=
  head addPath < e.length ∧
    e.length = head addPath + 1 + ((e.getD (head addPath) 0#8).toNat + 7) / 8

section

variable {field entry cidr out : List Octet} {addPath : Bool} {off next : ℕ}
  {es : List (List Octet)} {drops : List UInt16}

lemma cidrEntry_spec (h : cidrEntry field off addPath = some (entry, cidr, next)) :
    IsEntry addPath entry ∧ next = off + entry.length := by
  unfold cidrEntry at h
  dsimp only at h
  split_ifs at h with hshort hpast
  simp only [Option.some.injEq, Prod.mk.injEq] at h
  obtain ⟨rfl, -, rfl⟩ := h
  have hget : ∀ n, head addPath < n → ((field.drop off).take n).getD (head addPath) 0#8 =
      field.getD (off + head addPath) 0#8 := by
    intro n hn
    rw [getD_eq_getElem?_getD, getElem?_take_of_lt hn, getElem?_drop, getD_eq_getElem?_getD]
  unfold IsEntry
  rw [hget _ (by omega), length_take, length_drop]
  omega

lemma cidrEntry_append (pre post : List Octet) (h : IsEntry addPath entry) :
    ∃ cidr, cidrEntry (pre ++ (entry ++ post)) pre.length addPath =
      some (entry, cidr, pre.length + entry.length) := by
  obtain ⟨hlong, hlen⟩ := h
  have hget : (pre ++ (entry ++ post)).getD (pre.length + head addPath) 0#8 =
      entry.getD (head addPath) 0#8 := by
    rw [getD_eq_getElem?_getD, getElem?_append_right (Nat.le_add_right _ _),
      Nat.add_sub_cancel_left, getElem?_append_left hlong, getD_eq_getElem?_getD]
  have hstop : pre.length + head addPath + 1 + ((entry.getD (head addPath) 0#8).toNat + 7) / 8 =
      pre.length + entry.length := by omega
  unfold cidrEntry
  dsimp only
  rw [hget, hstop, length_append, length_append, if_neg (by omega), if_neg (by omega),
    drop_left, Nat.add_sub_cancel_left, take_left]
  exact ⟨_, rfl⟩

lemma cidrEntries_cons (h : cidrEntries field addPath off = some (entry :: es)) :
    ∃ cidr next, cidrEntry field off addPath = some (entry, cidr, next) ∧
      cidrEntries field addPath next = some es := by
  rw [cidrEntries] at h
  split_ifs at h
  · cases h
  split at h
  · cases h
  · rename_i e c next hentry
    obtain ⟨es', hes, heq⟩ := Option.map_eq_some_iff.1 h
    obtain ⟨rfl, rfl⟩ := cons.inj heq
    exact ⟨c, next, hentry, hes⟩

lemma cidrEntries_nil (h : cidrEntries field addPath off = some []) : field.length ≤ off := by
  rw [cidrEntries] at h
  split_ifs at h with hend
  · exact hend
  · split at h
    · cases h
    · obtain ⟨_, -, heq⟩ := Option.map_eq_some_iff.1 h
      cases heq

lemma forall_isEntry (h : cidrEntries field addPath off = some es) :
    ∀ e ∈ es, IsEntry addPath e := by
  induction es generalizing off with
  | nil => simp
  | cons e es ih =>
    obtain ⟨cidr, next, hentry, hes⟩ := cidrEntries_cons h
    intro x hx
    rcases mem_cons.1 hx with rfl | hx
    · exact (cidrEntry_spec hentry).1
    · exact ih hes x hx

lemma cidrEntries_flatten (hes : ∀ e ∈ es, IsEntry addPath e) (pre : List Octet) :
    cidrEntries (pre ++ es.flatten) addPath pre.length = some es := by
  induction es generalizing pre with
  | nil =>
    rw [cidrEntries, if_pos (by simp)]
  | cons e es ih =>
    have he := hes e mem_cons_self
    obtain ⟨cidr, hentry⟩ := cidrEntry_append pre es.flatten he
    have hrest := ih (fun x hx => hes x (mem_cons_of_mem _ hx)) (pre ++ e)
    rw [append_assoc, length_append] at hrest
    rw [flatten_cons, cidrEntries, if_neg]
    · split
      · rename_i hnone
        rw [hentry] at hnone
        cases hnone
      · rename_i e' c' next' hsome
        rw [hentry] at hsome
        simp only [Option.some.injEq, Prod.mk.injEq] at hsome
        obtain ⟨rfl, rfl, rfl⟩ := hsome
        rw [hrest, Option.map_some]
    · rw [length_append, length_append]
      have := he.1
      omega

/-! ## What is dropped -/

lemma le_of_mem_offsets {q : ℕ × List Octet} (h : q ∈ offsets off es) : off ≤ q.1 := by
  induction es generalizing off with
  | nil => cases h
  | cons e es ih =>
    rcases mem_cons.1 h with rfl | h
    · exact Nat.le_refl _
    · exact Nat.le_trans (Nat.le_add_right _ _) (ih h)

lemma mem_of_mem_offsets {q : ℕ × List Octet} (h : q ∈ offsets off es) : q.2 ∈ es := by
  induction es generalizing off with
  | nil => cases h
  | cons e es ih =>
    rcases mem_cons.1 h with rfl | h
    · exact mem_cons_self
    · exact mem_cons_of_mem _ (ih h)

lemma kept_of_lt {d : UInt16} (h : d.toNat < off) :
    kept off (d :: drops) es = kept off drops es := by
  unfold kept
  refine congrArg (map Prod.snd) (filter_congr fun q hq => ?_)
  have := le_of_mem_offsets hq
  rw [all_cons, bne_iff_ne.2 (by omega), Bool.true_and]

lemma dropLoop_eq (h : cidrEntries field addPath off = some es) (hsorted : drops.Pairwise (· < ·))
    (hstarts : ∀ d ∈ drops, ∃ e, (d.toNat, e) ∈ offsets off es) :
    dropLoop field addPath off drops out = some (out ++ (kept off drops es).flatten) := by
  induction es generalizing off drops out with
  | nil =>
    obtain rfl : drops = [] := eq_nil_iff_forall_not_mem.2 fun d hd => by
      obtain ⟨e, he⟩ := hstarts d hd
      cases he
    rw [dropLoop, if_pos (cidrEntries_nil h), if_pos rfl]
    simp [kept, offsets]
  | cons e es ih =>
    obtain ⟨cidr, next, hentry, hes⟩ := cidrEntries_cons h
    obtain ⟨hlt, hle⟩ := cidrEntry_lt hentry
    obtain ⟨-, rfl⟩ := cidrEntry_spec hentry
    -- the offsets after this entry
    have hlater : ∀ later : List UInt16,
        (∀ d ∈ later, ∃ x, (d.toNat, x) ∈ offsets off (e :: es)) → (∀ d ∈ later, off < d.toNat) →
        ∀ d ∈ later, ∃ x, (d.toNat, x) ∈ offsets (off + e.length) es := by
      intro later hstarts hpast d hd
      obtain ⟨x, hx⟩ := hstarts d hd
      rcases mem_cons.1 hx with heq | hx
      · exact absurd (Prod.mk.inj heq).1 (Nat.ne_of_gt (hpast d hd))
      · exact ⟨x, hx⟩
    have hkeep : (∀ d ∈ drops, off < d.toNat) →
        kept off drops (e :: es) = e :: kept (off + e.length) drops es := by
      intro hpast
      unfold kept
      rw [offsets, filter_cons_of_pos, map_cons]
      exact all_eq_true.2 fun d hd => bne_iff_ne.2 (Nat.ne_of_gt (hpast d hd))
    rw [dropLoop, if_neg (by omega)]
    split
    · rename_i hnone
      rw [hentry] at hnone
      cases hnone
    rename_i e' c' next' hsome
    rw [hentry] at hsome
    simp only [Option.some.injEq, Prod.mk.injEq] at hsome
    obtain ⟨rfl, rfl, rfl⟩ := hsome
    rcases drops with _ | ⟨d, later⟩
    · rw [ih hes .nil (by simp), hkeep (by simp), flatten_cons, append_assoc]
    · obtain ⟨hall, hsorted'⟩ := pairwise_cons.1 hsorted
      have hge : off ≤ d.toNat := by
        obtain ⟨x, hx⟩ := hstarts d mem_cons_self
        exact le_of_mem_offsets hx
      have hmem : ∀ d' ∈ later, ∃ x, (d'.toNat, x) ∈ offsets off (e :: es) :=
        fun d' hd' => hstarts d' (mem_cons_of_mem _ hd')
      dsimp only
      rw [if_neg (by omega)]
      by_cases hd : d.toNat = off
      · have hpast : ∀ d' ∈ later, off < d'.toNat := fun d' hd' => hd ▸ hall d' hd'
        rw [if_pos hd, ih hes hsorted' (hlater later hmem hpast)]
        have hdrop : kept off (d :: later) (e :: es) = kept (off + e.length) (d :: later) es := by
          unfold kept
          rw [offsets, filter_cons_of_neg]
          simp [hd]
        rw [hdrop, kept_of_lt (by omega)]
      · have hpast : ∀ d' ∈ d :: later, off < d'.toNat := by
          intro d' hd'
          rcases mem_cons.1 hd' with rfl | hd'
          · omega
          · exact Nat.lt_of_le_of_lt hge (hall d' hd')
        rw [if_neg hd, ih hes hsorted (hlater _ hstarts hpast), hkeep hpast, flatten_cons,
          append_assoc]

end

/-- **Dropping keeps the other NLRI.** For every field that frames, as the entries `es`, and every
ascending list of offsets at which entries begin, `dropCIDREntries` appends the other entries in
their order, and what it appends frames as these entries. -/
theorem dropCIDREntries_keeps {field : List Octet} {addPath : Bool} {es : List (List Octet)}
    {drops : List UInt16} (out : List Octet) (h : cidrEntries field addPath 0 = some es)
    (hsorted : drops.Pairwise (· < ·)) (hstarts : ∀ d ∈ drops, ∃ e, (d.toNat, e) ∈ offsets 0 es) :
    dropCIDREntries out field addPath drops = some (out ++ (kept 0 drops es).flatten) ∧
      cidrEntries (kept 0 drops es).flatten addPath 0 = some (kept 0 drops es) := by
  refine ⟨dropLoop_eq h hsorted hstarts, cidrEntries_flatten (fun e he => ?_) []⟩
  obtain ⟨q, hq, rfl⟩ := mem_map.1 he
  exact forall_isEntry h q.2 (mem_of_mem_offsets (mem_of_mem_filter hq))

/-- 10.0.0.0/8 and 11.0.0.0/8, the first dropped. -/
theorem dropCIDREntries_keeps_second :
    dropCIDREntries [] [8#8, 10#8, 8#8, 11#8] false [0] = some [8#8, 11#8] := by
  have h : cidrEntries [8#8, 10#8, 8#8, 11#8] false 0 = some [[8#8, 10#8], [8#8, 11#8]] := by
    refine @cidrEntries_flatten false [[8#8, 10#8], [8#8, 11#8]] ?_ []
    simp [IsEntry, head]
  exact (dropCIDREntries_keeps [] h (by decide) (by simp [offsets])).1

end Ze.Nlri
