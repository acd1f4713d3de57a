import Ze.AsPath.Wire

/-!
# Walking a field of NLRI

`core/bgp/nlri/nlrisplit`: an NLRI field of a family is cut into its NLRI one after the other. A
splitter reads where the NLRI that begins at an offset ends, hands the slice to the visitor and goes
on behind it; under ADD-PATH each slice begins with the four octets of a Path Identifier.
-/

namespace Ze.Nlri

open Ze.AsPath (Octet)

/-! ## The loop -/

/-- What a length error names. Source: the texts in nlrisplit/evpn.go, mvpn.go, mup.go, flowspec.go,
vpls.go, bgpls.go and srpolicy/split.go. -/
inductive SplitLabel
  | evpn
  | mvpn
  | mup
  | flowspec
  | flowspecExtended
  | vpls
  | bgpls
  | srpolicy
  deriving DecidableEq, Repr

/-- Why a field is not cut any further. Source: nlrisplit/cidr.go bitLengthEntryError, labeled.go
SplitLabeled, typelen.go splitTypeLength, flowspec.go, vpls.go, bgpls.go and
srpolicy/split.go, the errors. -/
inductive SplitError
  | truncatedAddPath (offset : ℕ)
  | invalidPrefixLength (bits maxBits : ℕ)
  | pastData (offset : ℕ)
  | truncatedLabeledHeader (offset : ℕ)
  | truncatedLabelStack (offset : ℕ)
  | invalidTotalBits (totalBits labelBytes offset : ℕ)
  | labeledPastData (offset : ℕ)
  | truncated (label : SplitLabel) (offset : ℕ)
  | zeroLength (label : SplitLabel) (offset : ℕ)
  | notByteAligned (bits offset : ℕ)
  | extendsPast (label : SplitLabel) (offset length : ℕ)
  deriving DecidableEq, Repr

/-- What a walk comes to: the ranges of the slices that were visited, and the error that ended it.
The count that is returned is the number of the slices. Source: nlrisplit/nlrisplit.go Splitter.
-/
structure Walk where
  visited : List (ℕ × ℕ)
  err : Option SplitError
  deriving DecidableEq, Repr

/-- A visitor. Source: nlrisplit.go Splitter, fn. -/
abbrev Visitor := List (ℕ × ℕ) → Bool

/-- The visitor that goes on, and `nil`. Source: nlrisplit.go Splitter. -/
def Visitor.goOn : Visitor := fun _ => true

abbrev Splitter := List Octet → Bool → Visitor → Walk

/-- The octets before the NLRI proper. Source: cidr.go splitByBitLength, head. -/
def head (addPath : Bool) : ℕ := if addPath then 4 else 0

/-- The loop over a field of `len` octets. Source: cidr.go splitByBitLength, labeled.go
SplitLabeled. -/
def walk (len : ℕ) (entryEnd : ℕ → Except SplitError ℕ) (fn : Visitor) :
    ℕ → ℕ → List (ℕ × ℕ) → Walk
  | 0, _, visited => ⟨visited, none⟩
  | turns + 1, offset, visited =>
    if len ≤ offset then ⟨visited, none⟩
    else
      match entryEnd offset with
      | .error err => ⟨visited, some err⟩
      | .ok stop =>
        if fn (visited ++ [(offset, stop)]) then
          walk len entryEnd fn turns stop (visited ++ [(offset, stop)])
        else ⟨visited ++ [(offset, stop)], none⟩

/-- The walk over a whole field; each NLRI takes an octet at least. Source: cidr.go
splitByBitLength. -/
def walkAll (data : List Octet) (entryEnd : ℕ → Except SplitError ℕ) (fn : Visitor) : Walk :=
  walk data.length entryEnd fn (data.length + 1) 0 []

/-- The octets of a range. Source: Go, data[start:stop]. -/
def slice (data : List Octet) (range : ℕ × ℕ) : List Octet :=
  (data.drop range.1).take (range.2 - range.1)

/-! ## The bit length -/

/-- Source: cidr.go. -/
def maxPrefixBits : ℕ := 128

/-- Source: cidr.go. -/
def maxLengthOctetBits : ℕ := 255

/-- Where the NLRI ends; behind the end of the data when it is refused. Source: cidr.go. -/
def bitLengthEntryEnd (data : List Octet) (start head maxBits : ℕ) : ℕ :=
  if data.length ≤ start + head then data.length + 1
  else
    let prefixLen := (data.getD (start + head) 0#8).toNat
    if maxBits < prefixLen then data.length + 1
    else start + head + 1 + (prefixLen + 7) / 8

/-- Source: cidr.go. -/
def bitLengthEntryError (data : List Octet) (start head maxBits : ℕ) : SplitError :=
  if data.length ≤ start + head then .truncatedAddPath start
  else if maxBits < (data.getD (start + head) 0#8).toNat then
    .invalidPrefixLength (data.getD (start + head) 0#8).toNat maxBits
  else .pastData start

/-- One turn of `splitByBitLength`. Source: cidr.go splitByBitLength. -/
def bitLengthEntry (data : List Octet) (head maxBits start : ℕ) : Except SplitError ℕ :=
  if data.length < bitLengthEntryEnd data start head maxBits then
    .error (bitLengthEntryError data start head maxBits)
  else .ok (bitLengthEntryEnd data start head maxBits)

/-- Source: cidr.go. -/
def splitByBitLength (maxBits : ℕ) : Splitter := fun data addPath fn =>
  walkAll data (bitLengthEntry data (head addPath) maxBits) fn

/-- Source: cidr.go. -/
def splitCIDR : Splitter := splitByBitLength maxPrefixBits

/-- Source: cidr.go. -/
def splitVPN : Splitter := splitByBitLength maxLengthOctetBits

/-! ## The label stack -/

/-- The octets of the label stack, read three at a time until the bottom-of-stack bit; `none` when
the data ends before it. Source: nlrisplit/labeled.go SplitLabeled, the inner loop. -/
def labelStack (data : List Octet) (labelStart : ℕ) : ℕ → ℕ → Option ℕ
  | 0, _ => none
  | turns + 1, labelBytes =>
    if data.length < labelStart + labelBytes + 3 then none
    else if data.getD (labelStart + labelBytes + 2) 0#8 &&& 1#8 = 1#8 then some (labelBytes + 3)
    else labelStack data labelStart turns (labelBytes + 3)

/-- One turn of `SplitLabeled`. Source: labeled.go SplitLabeled. -/
def labeledEntry (data : List Octet) (head start : ℕ) : Except SplitError ℕ :=
  if data.length < start + head + 1 then .error (.truncatedLabeledHeader start)
  else
    let totalBits := (data.getD (start + head) 0#8).toNat
    match labelStack data (start + head + 1) (data.length + 1) 0 with
    | none => .error (.truncatedLabelStack start)
    | some labelBytes =>
      if totalBits < labelBytes / 3 * 24 then .error (.invalidTotalBits totalBits labelBytes start)
      else
        let nlriLen := head + 1 + labelBytes + (totalBits - labelBytes / 3 * 24 + 7) / 8
        if data.length < start + nlriLen then .error (.labeledPastData start)
        else .ok (start + nlriLen)

/-- Source: labeled.go. -/
def splitLabeled : Splitter := fun data addPath fn =>
  walkAll data (labeledEntry data (head addPath)) fn

/-! ## What a walk visits -/

section

variable {len : ℕ} {entryEnd entryEnd' : ℕ → Except SplitError ℕ} {fn : Visitor}

lemma walk_done {offset : ℕ} (h : len ≤ offset) (turns : ℕ) (visited : List (ℕ × ℕ)) :
    walk len entryEnd fn turns offset visited = ⟨visited, none⟩ := by
  rcases turns with _ | turns
  · rfl
  · rw [walk, if_pos h]

lemma walk_goOn {offset stop : ℕ} (hlt : offset < len) (hstop : entryEnd offset = .ok stop)
    (turns : ℕ) (visited : List (ℕ × ℕ)) :
    walk len entryEnd Visitor.goOn (turns + 1) offset visited =
      walk len entryEnd Visitor.goOn turns stop (visited ++ [(offset, stop)]) := by
  rw [walk, if_neg (Nat.not_le.2 hlt), hstop]
  exact if_pos rfl

/-- Every slice that is visited begins inside the field and ends where the splitter says. -/
lemma forall_visited_of_walk :
    (turns : ℕ) → ∀ (offset : ℕ) (visited : List (ℕ × ℕ)),
      (∀ r ∈ visited, r.1 < len ∧ entryEnd r.1 = .ok r.2) →
      ∀ r ∈ (walk len entryEnd fn turns offset visited).visited,
        r.1 < len ∧ entryEnd r.1 = .ok r.2
  | 0, _, _, h => h
  | turns + 1, offset, visited, h => by
    rw [walk]
    by_cases hend : len ≤ offset
    · rw [if_pos hend]
      exact h
    rw [if_neg hend]
    rcases hstop : entryEnd offset with err | stop
    · exact h
    · have hmore : ∀ r ∈ visited ++ [(offset, stop)], r.1 < len ∧ entryEnd r.1 = .ok r.2 := by
        intro r hr
        rcases List.mem_append.1 hr with hr | hr
        · exact h r hr
        · rw [List.mem_singleton] at hr
          subst hr
          exact ⟨Nat.lt_of_not_le hend, hstop⟩
      dsimp only
      by_cases hfn : fn (visited ++ [(offset, stop)])
      · rw [if_pos hfn]
        exact forall_visited_of_walk turns stop _ hmore
      · rw [if_neg hfn]
        exact hmore

lemma walk_of_refines
    (hrefines : ∀ start stop, start < len → entryEnd start = .ok stop →
      entryEnd' start = .ok stop) :
    (turns : ℕ) → ∀ (offset : ℕ) (visited : List (ℕ × ℕ)),
      (walk len entryEnd fn turns offset visited).err = none →
      walk len entryEnd' fn turns offset visited = walk len entryEnd fn turns offset visited
  | 0, _, _, _ => rfl
  | turns + 1, offset, visited, h => by
    rw [walk] at h ⊢
    rw [walk]
    by_cases hend : len ≤ offset
    · rw [if_pos hend, if_pos hend]
    rw [if_neg hend] at h
    rw [if_neg hend, if_neg hend]
    rcases hstop : entryEnd offset with err | stop
    · rw [hstop] at h
      cases h
    · rw [hstop] at h
      rw [hrefines offset stop (Nat.lt_of_not_le hend) hstop]
      dsimp only at h ⊢
      by_cases hfn : fn (visited ++ [(offset, stop)])
      · rw [if_pos hfn] at h
        rw [if_pos hfn, if_pos hfn]
        exact walk_of_refines hrefines turns stop _ h
      · rw [if_neg hfn, if_neg hfn]

end

end Ze.Nlri
