import Ze.Nlri.Registry

/-!
# Chunks of an NLRI field

A field of NLRI is cut into chunks of whole NLRI that fit a size, in one walk (`chunkMPNLRI`) or
with one walk for each chunk (`splitMPNLRI`). `pack` is what both make of the NLRI of the field.

Default file: `message/chunk_mp_nlri.go`.
-/

namespace Ze.Nlri

open List hiding head
open Ze.AsPath (Octet)
open Ze.LocRib (Family)
open Except (toOption)
open Nat (add_assoc zero_add)
open Option (isSome)
open Prod (fst map mk snd)

/-- Source: ErrNLRITooLarge, ErrNLRIMalformed, invalid maxSize; nlrisplit ErrUnsupported. -/
inductive ChunkError
  | tooLarge (size : ℕ) (maxSize : ℤ)
  | malformed (err : SplitError)
  | unsupported
  | invalidMaxSize (maxSize : ℤ)
  deriving DecidableEq, Repr

/-- Source: nlriChunkWalk. -/
structure ChunkWalk where
  chunks : List (List Octet)
  offset : ℕ := 0
  chunkStart : ℕ := 0
  tooLarge : ℕ := 0

/-- What is done with a part, and whether the walk goes on. -/
abbrev Next := ChunkWalk → List Octet → ChunkWalk × Bool

def ChunkWalk.next (data : List Octet) (maxSize : ℤ) (stopAtLimit : Bool) : Next := fun w part =>
  if maxSize < part.length then ({ w with tooLarge := part.length }, false)
  else if maxSize < (w.offset : ℤ) - w.chunkStart + part.length then
    if stopAtLimit then (w, false)
    else
      (⟨w.chunks ++ [slice data (w.chunkStart, w.offset)], w.offset + part.length, w.offset,
        w.tooLarge⟩, true)
  else ({ w with offset := w.offset + part.length }, true)

/-- The state after the slices that were visited, and the last answer. -/
def seen (data : List Octet) (next : Next) (w : ChunkWalk) (visited : List (ℕ × ℕ)) :
    ChunkWalk × Bool :=
  visited.foldl (fun s r => next s.1 (slice data r)) (w, true)

/-- The walk with `next` as its visitor. Source: ChunkMPNLRI, SplitMPNLRI. -/
def visit (walk : Splitter) (data : List Octet) (addPath : Bool) (next : Next) (w : ChunkWalk) :
    ChunkWalk × Option SplitError :=
  let out := walk data addPath fun visited => (seen data next w visited).2
  ((seen data next w out.visited).1, out.err)

/-- Source: ChunkMPNLRI, SplitMPNLRI, the error. -/
def ChunkWalk.err (w : ChunkWalk) (maxSize : ℤ) (err : Option SplitError) : Option ChunkError :=
  if w.tooLarge ≠ 0 then some (.tooLarge w.tooLarge maxSize) else err.map .malformed

def chunkMPNLRI (data : List Octet) (fam : Family) (addPath : Bool) (maxSize : ℤ)
    (dst : List (List Octet)) : List (List Octet) × Option ChunkError :=
  if data = [] then (dst, none)
  else
    match getWithdraw fam with
    | none => (dst, some .unsupported)
    | some walk =>
      let (w, err) := visit walk data addPath (ChunkWalk.next data maxSize false) { chunks := dst }
      match w.err maxSize err with
      | some err => (w.chunks, some err)
      | none =>
        if w.chunkStart < w.offset then (w.chunks ++ [slice data (w.chunkStart, w.offset)], none)
        else (w.chunks, none)

/-- What fits, and what remains. -/
def splitMPNLRI (data : List Octet) (fam : Family) (addPath : Bool) (maxSize : ℤ) :
    Except ChunkError (List Octet × List Octet) :=
  if maxSize ≤ 0 then .error (.invalidMaxSize maxSize)
  else if data = [] then .ok ([], [])
  else
    match getWithdraw fam with
    | none => .error .unsupported
    | some walk =>
      let (w, err) := visit walk data addPath (ChunkWalk.next data maxSize true) { chunks := [] }
      match w.err maxSize err with
      | some err => .error err
      | none =>
        if w.offset = data.length then .ok (data, [])
        else .ok (data.take w.offset, data.drop w.offset)

/-- `splitMPNLRI` again and again, while anything remains. Source: chunk_mp_nlri_test.go
TestSplitMPNLRI_MultipleSplits, the loop. -/
def splitRepeatedly (fam : Family) (addPath : Bool) (maxSize : ℤ) :
    ℕ → List Octet → List (List Octet) × Option ChunkError
  | 0, _ => ([], none)
  | turns + 1, data =>
    if data = [] then ([], none)
    else
      match splitMPNLRI data fam addPath maxSize with
      | .error err => ([], some err)
      | .ok (fitting, remaining) =>
        let later := splitRepeatedly fam addPath maxSize turns remaining
        (fitting :: later.1, later.2)

/-! ## The NLRI of a field -/

/-- The end of the first NLRI. -/
def firstEnd (split : Splitter) (addPath : Bool) (data : List Octet) : Option ℕ :=
  (split data addPath fun _ => false).visited.head?.map snd

/-- The NLRI of a field, and whether what is behind them is malformed. -/
inductive Parts (first : List Octet → Option ℕ) : List Octet → List (List Octet) → Bool → Prop
  | done : Parts first [] [] false
  | bad {data : List Octet} : data ≠ [] → first data = none → Parts first data [] true
  | part {p rest : List Octet} {ps : List (List Octet)} {malformed : Bool} : p ≠ [] →
    first (p ++ rest) = some p.length → Parts first rest ps malformed →
    Parts first (p ++ rest) (p :: ps) malformed

/-- An NLRI is read from its own octets on. -/
def Local (entryEnd : List Octet → ℕ → Except SplitError ℕ) : Prop :=
  ∀ pre rest, (entryEnd (pre ++ rest) pre.length).toOption =
    (entryEnd rest 0).toOption.map (pre.length + ·)

lemma getD_append_add (pre rest : List Octet) (i : ℕ) :
    (pre ++ rest).getD (pre.length + i) 0#8 = rest.getD i 0#8 := by
  rw [getD_eq_getElem?_getD, getElem?_append_right (Nat.le_add_right _ _),
    Nat.add_sub_cancel_left, getD_eq_getElem?_getD]

lemma local_bitLengthEntry (head maxBits : ℕ) :
    Local fun data => bitLengthEntry data head maxBits := by
  intro pre rest
  simp only [bitLengthEntry, bitLengthEntryEnd, length_append, add_assoc, getD_append_add, zero_add]
  split_ifs <;> simp [toOption] <;> omega

lemma local_typeLengthEntry (label : SplitLabel) (hdrLen lenOff head : ℕ) :
    Local fun data => typeLengthEntry label hdrLen lenOff data head := by
  intro pre rest
  simp only [typeLengthEntry, length_append, add_assoc, getD_append_add, zero_add]
  split_ifs <;> simp [toOption] <;> omega

lemma local_flowSpecEntry (head : ℕ) : Local fun data => flowSpecEntry data head := by
  intro pre rest
  simp only [flowSpecEntry, flowSpecLength, length_append, add_assoc, getD_append_add, zero_add]
  split_ifs <;> simp [toOption] <;> omega

lemma local_wordLengthEntry (label : SplitLabel) (hdrLen head : ℕ) :
    Local fun data => wordLengthEntry label hdrLen data head := by
  intro pre rest
  simp only [wordLengthEntry, length_append, add_assoc, getD_append_add, zero_add]
  split_ifs <;> simp [toOption] <;> omega

lemma local_srPolicyEntry (head : ℕ) : Local fun data => srPolicyEntry data head := by
  intro pre rest
  simp only [srPolicyEntry, length_append, add_assoc, getD_append_add, zero_add]
  split_ifs <;> simp [toOption] <;> omega

/-- A splitter that reads each NLRI from its own octets on. -/
structure Framed (split : Splitter) (addPath : Bool)
    (entryEnd : List Octet → ℕ → Except SplitError ℕ) : Prop where
  eq : ∀ data fn, split data addPath fn = walkAll data (entryEnd data) fn
  advances : ∀ data, Advances data (head addPath) (entryEnd data)
  reads : Local entryEnd

lemma framed_of_getWithdraw (fam : Family) (addPath : Bool) :
    ∀ split, getWithdraw fam = some split → ∃ entryEnd, Framed split addPath entryEnd := by
  have hbits : ∀ maxBits, ∃ entryEnd, Framed (splitByBitLength maxBits) addPath entryEnd :=
    fun maxBits => ⟨_, fun _ _ => rfl, fun data => advances_bitLengthEntry data _ maxBits,
      local_bitLengthEntry _ maxBits⟩
  have hlength : ∀ label {hdrLen} (_ : 0 < hdrLen) lenOff,
      ∃ entryEnd, Framed (splitTypeLength label hdrLen lenOff) addPath entryEnd :=
    fun label _ hpos lenOff => ⟨_, fun _ _ => rfl,
      fun data => advances_typeLengthEntry data _ label hpos lenOff,
      local_typeLengthEntry label _ lenOff _⟩
  have hword : ∀ label hdrLen, ∃ entryEnd, Framed
      (fun data addPath fn => walkAll data (wordLengthEntry label hdrLen data (head addPath)) fn)
      addPath entryEnd :=
    fun label hdrLen => ⟨_, fun _ _ => rfl,
      fun data => advances_wordLengthEntry data _ label hdrLen,
      local_wordLengthEntry label hdrLen _⟩
  unfold getWithdraw
  by_cases hlabeled : (fam.afi = 1 ∨ fam.afi = 2) ∧ fam.safi = 4
  · rw [if_pos hlabeled]
    exact fun split h => Option.some.inj h ▸ hbits _
  unfold getSplitter
  dsimp only
  rw [if_neg hlabeled, if_neg hlabeled]
  refine forall_of_ite (hbits _) ?_
  refine forall_of_ite (hlength _ (by decide) _) ?_
  refine forall_of_ite
    ⟨_, fun _ _ => rfl, fun data => advances_srPolicyEntry data _, local_srPolicyEntry _⟩ ?_
  refine forall_of_ite (hlength _ (by decide) _) ?_
  refine forall_of_ite (hbits _) ?_
  refine forall_of_ite (hbits _) ?_
  refine forall_of_ite
    ⟨_, fun _ _ => rfl, fun data => advances_flowSpecEntry data _, local_flowSpecEntry _⟩ ?_
  refine forall_of_ite (hword .vpls 2) ?_
  refine forall_of_ite (hlength _ (by decide) _) ?_
  refine forall_of_ite (hword .bgpls 4) ?_
  intro split h
  cases h

lemma eq_ok_of_toOption {x : Except SplitError ℕ} {n : ℕ} (h : x.toOption = some n) :
    x = .ok n := by
  cases x <;> cases h
  rfl

/-- The visits of the parts, up to the first at which the walk stops. -/
def visitAll (next : Next) (w : ChunkWalk) : List (List Octet) → ChunkWalk × Bool
  | [] => (w, true)
  | p :: ps => if (next w p).2 then visitAll next (next w p).1 ps else next w p

lemma slice_append (pre cur rest : List Octet) :
    slice (pre ++ (cur ++ rest)) (pre.length, pre.length + cur.length) = cur := by
  rw [slice, drop_left, Nat.add_sub_cancel_left, take_left]

section

variable {fam : Family} {split : Splitter} {addPath : Bool}
  {entryEnd : List Octet → ℕ → Except SplitError ℕ} {first : List Octet → Option ℕ} {maxSize : ℤ}
  {pre cur rest data : List Octet} {ps : List (List Octet)} {bad : Bool}

lemma Framed.firstEnd_eq (h : Framed split addPath entryEnd) (hne : data ≠ []) :
    firstEnd split addPath data = (entryEnd data 0).toOption := by
  unfold firstEnd
  rw [h.eq, walkAll, walk, if_neg (by simpa using hne)]
  cases entryEnd data 0 <;> rfl

lemma Framed.exists_parts (h : Framed split addPath entryEnd) (data : List Octet) :
    ∃ ps bad, Parts (firstEnd split addPath) data ps bad := by
  by_cases hne : data = []
  · exact ⟨[], false, hne ▸ .done⟩
  rcases hfirst : firstEnd split addPath data with _ | stop
  · exact ⟨[], true, .bad hne hfirst⟩
  obtain ⟨hlt, hle⟩ :=
    h.advances data 0 stop (eq_ok_of_toOption ((h.firstEnd_eq hne).symm.trans hfirst))
  obtain ⟨ps, bad, hps⟩ := h.exists_parts (data.drop stop)
  have hp : (data.take stop).length = stop := length_take_of_le hle
  have hparts := Parts.part (ne_nil_of_length_pos (hp.symm ▸ Nat.zero_lt_of_lt hlt))
    (by rw [take_append_drop, hp, hfirst]) hps
  rw [take_append_drop] at hparts
  exact ⟨_, _, hparts⟩
  termination_by data.length
  decreasing_by
    rw [length_drop]
    omega

lemma Framed.walk_eq (h : Framed split addPath entryEnd) {next : Next} {w₀ w : ChunkWalk}
    (hps : Parts (firstEnd split addPath) rest ps bad) (hdata : data = pre ++ rest) (turns : ℕ)
    (hturns : rest.length < turns) {visited : List (ℕ × ℕ)}
    (hw : seen data next w₀ visited = (w, true)) {out : Walk}
    (hout : out = walk data.length (entryEnd data)
      (fun visited => (seen data next w₀ visited).2) turns pre.length visited) :
    seen data next w₀ out.visited = visitAll next w ps ∧
      out.err.isSome = ((visitAll next w ps).2 && bad) := by
  obtain ⟨turns, rfl⟩ : ∃ n, turns = n + 1 := ⟨turns - 1, by omega⟩
  induction hps generalizing pre turns visited w with
  | done =>
    rw [walk_done (by simp [hdata])] at hout
    subst hout
    exact ⟨hw, rfl⟩
  | @bad rest hne hfirst =>
    have hpos := length_pos_of_ne_nil hne
    have hread := h.reads pre rest
    rw [← h.firstEnd_eq hne, hfirst, ← hdata] at hread
    rw [walk, if_neg (by rw [hdata, length_append]; omega)] at hout
    rcases hend : entryEnd data pre.length with err | stop
    · rw [hend] at hout
      subst hout
      exact ⟨hw, rfl⟩
    · rw [hend] at hread
      cases hread
  | @part p rest ps bad hne hfirst hps ih =>
    have hpos := length_pos_of_ne_nil hne
    have hread := h.reads pre (p ++ rest)
    rw [← h.firstEnd_eq (by simp [hne]), hfirst, ← hdata] at hread
    rw [length_append] at hturns
    rw [walk, if_neg (by simp only [hdata, length_append]; omega), eq_ok_of_toOption hread] at hout
    have hstep : seen data next w₀ (visited ++ [(pre.length, pre.length + p.length)]) =
        next w p := by
      unfold seen at hw ⊢
      rw [foldl_append, hw, foldl_cons, foldl_nil, hdata, slice_append]
    dsimp only at hout
    rw [hstep] at hout
    rw [visitAll]
    by_cases hgo : (next w p).2
    · rw [if_pos hgo] at hout ⊢
      obtain ⟨turns, rfl⟩ : ∃ n, turns = n + 1 := ⟨turns - 1, by omega⟩
      refine ih (hdata.trans (append_assoc _ _ _).symm) (hstep.trans ?_) turns (by omega) ?_
      · rw [← hgo]
      · rw [hout, length_append]
    · rw [if_neg hgo] at hout ⊢
      subst hout
      rw [Bool.not_eq_true] at hgo
      rw [hgo]
      exact ⟨hstep, rfl⟩

lemma Framed.visit_eq (h : Framed split addPath entryEnd)
    (hps : Parts (firstEnd split addPath) data ps bad) (next : Next) (w : ChunkWalk) :
    (visit split data addPath next w).1 = (visitAll next w ps).1 ∧
      (visit split data addPath next w).2.isSome = ((visitAll next w ps).2 && bad) := by
  obtain ⟨hseen, herr⟩ := h.walk_eq hps (nil_append data).symm _ (Nat.lt_succ_self _)
    (show seen data next w [] = (w, true) from rfl) (h.eq data _)
  exact ⟨congrArg fst hseen, herr⟩

/-! ## Packing -/

/-- The chunks of the NLRI behind the open chunk `cur`, and whether there is an error. -/
def pack (maxSize : ℤ) (bad : Bool) (cur : List Octet) :
    List (List Octet) → List (List Octet) × Bool
  | [] => if bad then ([], true) else ([cur], false)
  | p :: ps =>
    if maxSize < p.length then ([], true)
    else if maxSize < cur.length + p.length then
      (cur :: (pack maxSize bad p ps).1, (pack maxSize bad p ps).2)
    else pack maxSize bad (cur ++ p) ps

/-- Each chunk begins what is left of the data and fits, and the NLRI behind it does not fit too. -/
def Packed (first : List Octet → Option ℕ) (maxSize : ℤ) : List (List Octet) → List Octet → Prop
  | [], _ => True
  | c :: cs, data => ∃ rest, data = c ++ rest ∧ c.length ≤ maxSize ∧
    (rest = [] ∨ ∃ n, first rest = some n ∧ maxSize < c.length + n) ∧ Packed first maxSize cs rest

lemma packed_pack (hps : Parts first rest ps bad) (hcur : cur.length ≤ maxSize) :
    Packed first maxSize (pack maxSize bad cur ps).1 (cur ++ rest) ∧
      ((pack maxSize bad cur ps).2 = false →
        (pack maxSize bad cur ps).1.flatten = cur ++ rest) := by
  induction hps generalizing cur with
  | done => exact ⟨⟨[], rfl, hcur, .inl rfl, trivial⟩, fun _ => by simp [pack]⟩
  | bad => exact ⟨trivial, fun h => by cases h⟩
  | @part p rest ps bad hne hfirst hps ih =>
    rw [pack]
    by_cases hlarge : maxSize < p.length
    · rw [if_pos hlarge]
      exact ⟨trivial, fun h => by cases h⟩
    rw [if_neg hlarge]
    by_cases hfull : maxSize < cur.length + p.length
    · obtain ⟨hpacked, hflat⟩ := ih (Int.not_lt.1 hlarge)
      rw [if_pos hfull]
      refine ⟨⟨p ++ rest, rfl, hcur, .inr ⟨_, hfirst, hfull⟩, hpacked⟩, fun h => ?_⟩
      rw [flatten_cons, hflat h]
    · rw [if_neg hfull, ← append_assoc]
      exact ih (by rw [length_append]; omega)

/-- Whether a walk ends with an error. -/
def ChunkWalk.fails (out : ChunkWalk × Bool) (bad : Bool) : Bool :=
  decide (out.1.tooLarge ≠ 0) || out.2 && bad

lemma ChunkWalk.isSome_err (maxSize : ℤ) {err : Option SplitError} {out : ChunkWalk × Bool}
    (h : err.isSome = (out.2 && bad)) : (out.1.err maxSize err).isSome = fails out bad := by
  unfold ChunkWalk.err fails
  rw [← h]
  split_ifs with hlarge <;> simp [hlarge]

/-- What `chunkMPNLRI` makes of the end of its walk. -/
def closed (data : List Octet) (out : ChunkWalk × Bool) (bad : Bool) : List (List Octet) × Bool :=
  if ChunkWalk.fails out bad then (out.1.chunks, true)
  else if out.1.chunkStart < out.1.offset then
    (out.1.chunks ++ [slice data (out.1.chunkStart, out.1.offset)], false)
  else (out.1.chunks, false)

lemma closed_visitAll (hps : Parts first rest ps bad) (hne : cur ++ rest ≠ [])
    (dst : List (List Octet)) (hdata : data = pre ++ (cur ++ rest)) :
    closed data (visitAll (ChunkWalk.next data maxSize false)
        ⟨dst, pre.length + cur.length, pre.length, 0⟩ ps) bad =
      (dst ++ (pack maxSize bad cur ps).1, (pack maxSize bad cur ps).2) := by
  induction hps generalizing dst cur pre with
  | done =>
    have hpos := length_pos_of_ne_nil hne
    rw [append_nil] at hpos
    rw [hdata, visitAll, closed, slice_append]
    simp [ChunkWalk.fails, pack, hpos]
  | bad => simp [visitAll, closed, ChunkWalk.fails, pack]
  | @part p rest ps bad hp hfirst hps ih =>
    have hlen : ((pre.length + cur.length : ℕ) : ℤ) - pre.length = cur.length := by omega
    rw [visitAll, ChunkWalk.next, pack, hlen]
    by_cases hlarge : maxSize < p.length
    · simp [hlarge, closed, ChunkWalk.fails, hp]
    by_cases hfull : maxSize < cur.length + p.length
    · have hrest := @ih (pre ++ cur) p (by simp [hp]) (dst ++ [cur])
        (hdata.trans (append_assoc _ _ _).symm)
      rw [length_append] at hrest
      simp only [hlarge, hfull, Bool.false_eq_true, if_false, if_true]
      rw [show slice data (pre.length, pre.length + cur.length) = cur from hdata ▸ slice_append ..,
        hrest, append_assoc]
      rfl
    · have hrest := @ih pre (cur ++ p) (by simp [hp]) dst (by rw [hdata, append_assoc])
      rw [length_append, ← add_assoc] at hrest
      simp only [hlarge, hfull, if_false, if_true, hrest]

/-- What repeated calls make of the end of the first walk. -/
def cut (again : List Octet → List (List Octet) × Option ChunkError) (data : List Octet)
    (out : ChunkWalk × Bool) (bad : Bool) : List (List Octet) × Bool :=
  if ChunkWalk.fails out bad then ([], true)
  else (data.take out.1.offset :: (again (data.drop out.1.offset)).1,
    (again (data.drop out.1.offset)).2.isSome)

section

variable (hsplit : getWithdraw fam = some split) (h : Framed split addPath entryEnd)
include hsplit h

lemma chunkMPNLRI_eq_closed (hps : Parts (firstEnd split addPath) data ps bad) (hne : data ≠ [])
    (dst : List (List Octet)) :
    map id isSome (chunkMPNLRI data fam addPath maxSize dst) =
      closed data (visitAll (ChunkWalk.next data maxSize false) { chunks := dst } ps) bad := by
  obtain ⟨hw, herr⟩ := h.visit_eq hps (ChunkWalk.next data maxSize false) { chunks := dst }
  have herr' := ChunkWalk.isSome_err maxSize herr
  rw [chunkMPNLRI, if_neg hne, hsplit]
  dsimp only
  rw [hw, closed, ← herr']
  cases ChunkWalk.err _ _ _ with
  | some err => rfl
  | none =>
    dsimp only
    split_ifs <;> simp_all

lemma splitRepeatedly_succ (hps : Parts (firstEnd split addPath) data ps bad) (hne : data ≠ [])
    (hmax : 0 < maxSize) (turns : ℕ) :
    map id isSome (splitRepeatedly fam addPath maxSize (turns + 1) data) =
      cut (splitRepeatedly fam addPath maxSize turns) data
        (visitAll (ChunkWalk.next data maxSize true) { chunks := [] } ps) bad := by
  obtain ⟨hw, herr⟩ := h.visit_eq hps (ChunkWalk.next data maxSize true) { chunks := [] }
  have herr' := ChunkWalk.isSome_err maxSize herr
  rw [splitRepeatedly, if_neg hne, splitMPNLRI, if_neg (Int.not_le.2 hmax), if_neg hne, hsplit]
  dsimp only
  rw [hw, cut, ← herr']
  cases ChunkWalk.err _ _ _ with
  | some err => rfl
  | none =>
    dsimp only
    split_ifs <;> simp_all

lemma pack_eq_cut (hps : Parts (firstEnd split addPath) rest ps bad) (hmax : 0 < maxSize)
    (turns : ℕ) (hdata : data = cur ++ rest) (hturns : data.length ≤ turns + 1) :
    pack maxSize bad cur ps = cut (splitRepeatedly fam addPath maxSize turns) data
      (visitAll (ChunkWalk.next data maxSize true) ⟨[], cur.length, 0, 0⟩ ps) bad := by
  induction hps generalizing cur data turns with
  | done =>
    have hdone : splitRepeatedly fam addPath maxSize turns [] = ([], none) := by
      cases turns <;> rfl
    simp [visitAll, cut, ChunkWalk.fails, pack, hdata, hdone]
  | bad => simp [visitAll, cut, ChunkWalk.fails, pack]
  | @part p rest ps bad hp hfirst hps ih =>
    rw [visitAll, ChunkWalk.next, pack, Int.natCast_zero, Int.sub_zero]
    by_cases hlarge : maxSize < p.length
    · simp [hlarge, cut, ChunkWalk.fails, hp]
    by_cases hfull : maxSize < cur.length + p.length
    · simp only [hdata, length_append] at hturns
      obtain ⟨turns, rfl⟩ : ∃ n, turns = n + 1 := ⟨turns - 1, by omega⟩
      -- the next call begins with this part, which fits alone
      have hlater := splitRepeatedly_succ hsplit h (.part hp hfirst hps) (by simp [hp]) hmax turns
      have hstep : ChunkWalk.next (p ++ rest) maxSize true { chunks := [] } p =
          (⟨[], p.length, 0, 0⟩, true) := by
        simp [ChunkWalk.next, hlarge]
      rw [visitAll, hstep, if_pos rfl, ← ih turns rfl (by rw [length_append]; omega)] at hlater
      simp only [hlarge, hfull, Bool.false_eq_true, if_false, if_true, cut, ChunkWalk.fails, hdata,
        take_left, drop_left, ← hlater]
      rfl
    · have hrest := @ih (cur ++ p) data turns (by rw [hdata, append_assoc]) hturns
      rw [length_append] at hrest
      simp only [hlarge, hfull, if_false, if_true, hrest]

end

lemma pack_of_nonpos (hps : Parts first data ps bad) (hne : data ≠ []) (hmax : maxSize ≤ 0) :
    pack maxSize bad [] ps = ([], true) := by
  cases hps with
  | done => exact absurd rfl hne
  | bad => rfl
  | part hp =>
    have := length_pos_of_ne_nil hp
    rw [pack, if_pos (by omega)]

end

/-- The end of the first NLRI of a field of the family. -/
def nextNLRI (fam : Family) (addPath : Bool) (data : List Octet) : Option ℕ :=
  (getWithdraw fam).bind fun walk => firstEnd walk addPath data

/-- **Chunks at once and one by one.** For every field, family, ADD-PATH mode and size, repeated
calls of `splitMPNLRI` on what remains give the chunks that `chunkMPNLRI` appends to `dst`, and an
error exactly when it does. Each chunk fits and the NLRI behind it does not fit too, and without an
error the chunks make up the field. -/
theorem chunkMPNLRI_eq_splitRepeatedly (data : List Octet) (fam : Family) (addPath : Bool)
    (maxSize : ℤ) (dst : List (List Octet)) :
    let chunked := chunkMPNLRI data fam addPath maxSize dst
    let again := splitRepeatedly fam addPath maxSize data.length data
    chunked.1 = dst ++ again.1 ∧ chunked.2.isSome = again.2.isSome ∧
      (again.2 = none → again.1.flatten = data) ∧
      Packed (nextNLRI fam addPath) maxSize again.1 data := by
  intro chunked again
  suffices h : ∃ r : List (List Octet) × Bool,
      map id isSome chunked = (dst ++ r.1, r.2) ∧
      map id isSome again = r ∧ (r.2 = false → r.1.flatten = data) ∧
      Packed (nextNLRI fam addPath) maxSize r.1 data by
    obtain ⟨_, hchunked, rfl, hflat, hpacked⟩ := h
    obtain ⟨hchunks, herr⟩ := mk.inj hchunked
    exact ⟨hchunks, herr, fun hnone => hflat (by simp [hnone]), hpacked⟩
  by_cases hne : data = []
  · subst hne
    exact ⟨([], false), by simp [chunked, chunkMPNLRI], rfl, fun _ => rfl, trivial⟩
  obtain ⟨turns, hturns⟩ : ∃ n, data.length = n + 1 :=
    ⟨data.length - 1, by have := length_pos_of_ne_nil hne; omega⟩
  simp only [again, hturns]
  rcases hsplit : getWithdraw fam with _ | split
  · refine ⟨([], true), ?_, ?_, (by simp), trivial⟩
    · simp [chunked, chunkMPNLRI, hne, hsplit]
    · rw [splitRepeatedly, if_neg hne, splitMPNLRI, if_neg hne, hsplit]
      by_cases hmax : maxSize ≤ 0 <;> simp [hmax]
  obtain ⟨entryEnd, hframed⟩ := framed_of_getWithdraw fam addPath split hsplit
  obtain ⟨ps, bad, hps⟩ := hframed.exists_parts data
  have hnext : nextNLRI fam addPath = firstEnd split addPath := by
    funext data
    rw [nextNLRI, hsplit]
    rfl
  have hchunked : map id isSome chunked = _ :=
    (chunkMPNLRI_eq_closed hsplit hframed hps hne dst).trans
      (closed_visitAll hps (show [] ++ data ≠ [] from hne) dst (nil_append _).symm)
  refine ⟨_, hchunked, ?_⟩
  rw [hnext]
  by_cases hmax : maxSize ≤ 0
  · rw [pack_of_nonpos hps hne hmax, splitRepeatedly, if_neg hne, splitMPNLRI, if_pos hmax]
    exact ⟨rfl, by simp, trivial⟩
  · have hpos := Int.not_le.1 hmax
    obtain ⟨hpacked, hflat⟩ := @packed_pack _ maxSize [] _ _ _ hps (Int.le_of_lt hpos)
    refine ⟨?_, hflat, hpacked⟩
    rw [splitRepeatedly_succ hsplit hframed hps hne hpos turns]
    exact (pack_eq_cut hsplit hframed hps hpos turns (nil_append _).symm hturns.le).symm

end Ze.Nlri
