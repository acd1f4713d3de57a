import Ze.Lib.Run
import Mathlib.Data.Nat.Basic

/-!
# A queue of changes beside the state they are made to

The changes of a keyed state are numbered by key. A reader takes them from a queue; a change that
does not fit is left out, and its key is handed to the reader later, who then reads the state
itself.
-/

namespace Ze.Lib

open List
open Function (update update_of_ne update_self)

variable {κ : Type*}

/-- What a reader takes: a queued change with its number, or the state of a key with the number of
the last change made to it. -/
inductive Taken (κ : Type*) where
  | queued (key : κ) (n : ℕ)
  | read (key : κ) (n : ℕ)
  deriving DecidableEq

/-- No change is taken after a state of its key that already held a later one. -/
def Forward (log : List (Taken κ)) : Prop :=
  log.Pairwise fun a b => ∀ key n m, a = .read key n → b = .queued key m → n ≤ m

/-- The number of the last change of each key, the queue, the keys that wait to be read, and what
was taken. -/
structure Reread (κ : Type*) where
  made : κ → ℕ
  queue : List (κ × ℕ)
  waiting : List κ
  log : List (Taken κ)

namespace Reread

/-- One step of either side. `change` tells whether the change fits the queue. -/
inductive Op (κ : Type*) where
  | change (key : κ) (fits : Bool)
  | handed (key : κ)
  | receive
  | take (keys : List κ)
  | read

def empty : Reread κ := ⟨fun _ => 0, [], [], []⟩

section

variable [DecidableEq κ] {r r' : Reread κ}

/-- The reader takes a change only when no key waits to be read, and keys only when the queue is
empty. -/
def step (r : Reread κ) : Op κ → Option (Reread κ)
  | .change key fits =>
    let n := r.made key + 1
    some { r with
      made := update r.made key n
      queue := if fits then r.queue ++ [(key, n)] else r.queue }
  | .handed key =>
    match r.waiting, r.queue with
    | [], [] =>
      let n := r.made key + 1
      some { r with made := update r.made key n, log := r.log ++ [.queued key n] }
    | _, _ => none
  | .receive =>
    match r.waiting, r.queue with
    | [], (key, n) :: queue => some { r with queue := queue, log := r.log ++ [.queued key n] }
    | _, _ => none
  | .take keys =>
    match r.waiting, r.queue with
    | [], [] => some { r with waiting := keys }
    | _, _ => none
  | .read =>
    match r.waiting with
    | [] => none
    | key :: keys => some { r with waiting := keys, log := r.log ++ [.read key (r.made key)] }

lemma le_update (made : κ → ℕ) (key k : κ) : made k ≤ update made key (made key + 1) k := by
  by_cases hk : k = key
  · subst hk
    rw [update_self]
    exact Nat.le_succ _
  · rw [update_of_ne hk]

/-- The numbers in the queue are of changes that were made. -/
def Dated (r : Reread κ) : Prop := ∀ key m, (key, m) ∈ r.queue → m ≤ r.made key

lemma Dated.step {op : Op κ} (h : r.Dated) (hstep : r.step op = some r') : r'.Dated := by
  intro k m hm
  rcases op with ⟨key, fits⟩ | key | - | keys | - <;> simp only [Reread.step] at hstep
  · cases hstep
    have hcases : (k, m) ∈ r.queue ∨ k = key ∧ m = r.made key + 1 := by
      dsimp only at hm
      split_ifs at hm
      · simpa using hm
      · exact .inl hm
    rcases hcases with hold | ⟨rfl, rfl⟩
    · exact Nat.le_trans (h k m hold) (le_update _ _ _)
    · dsimp only
      rw [update_self]
  · split at hstep
    · next hwaiting hqueue =>
      cases hstep
      rw [hqueue] at hm
      cases hm
    · cases hstep
  · split at hstep
    · next key n queue hwaiting hqueue =>
      cases hstep
      refine h k m ?_
      rw [hqueue]
      exact mem_cons_of_mem _ hm
    · cases hstep
  · split at hstep
    · cases hstep
      exact h k m hm
    · cases hstep
  · split at hstep
    · cases hstep
    · cases hstep
      exact h k m hm

end

/-- The key waits to be read and has a change in the queue. -/
def Behind (r : Reread κ) (key : κ) : Prop := key ∈ r.waiting ∧ ∃ n, (key, n) ∈ r.queue

/-- A key changes again while it waits to be read and has a change in the queue. -/
def Overtakes (r : Reread κ) : Op κ → Prop
  | .change key _ => r.Behind key
  | _ => False

/-! ## Without an overtaking step -/

/-- A change in the queue is not older than what was read of its key, nor than what is about to be
read. -/
structure Level (r : Reread κ) : Prop where
  waiting : ∀ key n, key ∈ r.waiting → (key, n) ∈ r.queue → r.made key ≤ n
  seen : ∀ key n, .read key n ∈ r.log → n ≤ r.made key ∧ ∀ m, (key, m) ∈ r.queue → n ≤ m
  forward : Forward r.log

lemma level_empty : Level (empty : Reread κ) :=
  ⟨by simp [empty], by simp [empty], List.Pairwise.nil⟩

lemma forward_queued {log : List (Taken κ)} (h : Forward log) {key : κ} {n : ℕ}
    (hseen : ∀ m, .read key m ∈ log → m ≤ n) : Forward (log ++ [.queued key n]) := by
  refine pairwise_append.2 ⟨h, pairwise_singleton _ _, ?_⟩
  intro a ha b hb k m m' hread hqueued
  rw [mem_singleton] at hb
  subst hread hb
  cases hqueued
  exact hseen m ha

lemma forward_read {log : List (Taken κ)} (h : Forward log) (key : κ) (n : ℕ) :
    Forward (log ++ [.read key n]) := by
  refine pairwise_append.2 ⟨h, pairwise_singleton _ _, ?_⟩
  intro a _ b hb k m m' _ hqueued
  rw [mem_singleton] at hb
  subst hb
  cases hqueued

lemma not_forward_append {log : List (Taken κ)} (h : ¬Forward log) (more : List (Taken κ)) :
    ¬Forward (log ++ more) := fun hall => h (pairwise_append.1 hall).1

lemma not_forward_queued {log : List (Taken κ)} {key : κ} {m n : ℕ} (hlt : m < n)
    (hread : .read key n ∈ log) : ¬Forward (log ++ [.queued key m]) := by
  intro hall
  have hle := (pairwise_append.1 hall).2.2 _ hread _ (mem_singleton_self _) key n m rfl rfl
  omega

variable [DecidableEq κ] {r r' : Reread κ}

lemma Level.change {key : κ} {fits : Bool} (h : r.Level) (hbehind : ¬r.Behind key)
    (hstep : r.step (.change key fits) = some r') : r'.Level := by
  simp only [step] at hstep
  cases hstep
  have hmem : ∀ k m, (k, m) ∈ (if fits then r.queue ++ [(key, r.made key + 1)] else r.queue) →
      (k, m) ∈ r.queue ∨ k = key ∧ m = r.made key + 1 := by
    intro k m hm
    split_ifs at hm
    · simpa using hm
    · exact .inl hm
  refine ⟨?_, ?_, h.forward⟩
  · intro k n hk hn
    dsimp only at hk
    rcases hmem k n hn with hold | ⟨rfl, rfl⟩
    · have hne : k ≠ key := by
        rintro rfl
        exact hbehind ⟨hk, n, hold⟩
      dsimp only
      rw [update_of_ne hne]
      exact h.waiting k n hk hold
    · dsimp only
      rw [update_self]
  · intro k n hread
    obtain ⟨hmade, hqueue⟩ := h.seen k n hread
    refine ⟨Nat.le_trans hmade (le_update _ _ _), ?_⟩
    intro m hm
    rcases hmem k m hm with hold | ⟨rfl, rfl⟩
    · exact hqueue m hold
    · omega

lemma Level.handed {key : κ} (h : r.Level) (hstep : r.step (.handed key) = some r') : r'.Level := by
  simp only [step] at hstep
  split at hstep
  · next hwaiting hqueue =>
    cases hstep
    refine ⟨?_, ?_, ?_⟩
    · intro k n hk
      rw [hwaiting] at hk
      cases hk
    · intro k n hread
      have hread : .read k n ∈ r.log := by simpa using hread
      refine ⟨Nat.le_trans (h.seen k n hread).1 (le_update _ _ _), ?_⟩
      intro m hm
      rw [hqueue] at hm
      cases hm
    · apply forward_queued h.forward
      intro m hm
      exact Nat.le_succ_of_le (h.seen key m hm).1
  · cases hstep

lemma Level.receive (h : r.Level) (hstep : r.step .receive = some r') : r'.Level := by
  simp only [step] at hstep
  split at hstep
  · next key n queue hwaiting hqueue =>
    cases hstep
    have hmem : ∀ q ∈ queue, q ∈ r.queue := by
      intro q hq
      rw [hqueue]
      exact mem_cons_of_mem _ hq
    refine ⟨?_, ?_, ?_⟩
    · intro k m hk
      rw [hwaiting] at hk
      cases hk
    · intro k m hread
      have hread : .read k m ∈ r.log := by simpa using hread
      obtain ⟨hmade, hold⟩ := h.seen k m hread
      exact ⟨hmade, fun m' hm' => hold m' (hmem _ hm')⟩
    · apply forward_queued h.forward
      intro m hm
      refine (h.seen key m hm).2 n ?_
      rw [hqueue]
      exact mem_cons_self
  · cases hstep

lemma Level.take {keys : List κ} (h : r.Level) (hstep : r.step (.take keys) = some r') :
    r'.Level := by
  simp only [step] at hstep
  split at hstep
  · next hwaiting hqueue =>
    cases hstep
    refine ⟨?_, h.seen, h.forward⟩
    intro k n _ hn
    rw [hqueue] at hn
    cases hn
  · cases hstep

lemma Level.read (h : r.Level) (hstep : r.step .read = some r') : r'.Level := by
  simp only [step] at hstep
  split at hstep
  · cases hstep
  · next key keys hwaiting =>
    cases hstep
    refine ⟨?_, ?_, forward_read h.forward _ _⟩
    · intro k n hk hn
      refine h.waiting k n ?_ hn
      rw [hwaiting]
      exact mem_cons_of_mem _ hk
    · intro k n hread
      rcases mem_append.1 hread with hread | hread
      · exact h.seen k n hread
      · rw [mem_singleton, Taken.read.injEq] at hread
        obtain ⟨rfl, rfl⟩ := hread
        refine ⟨Nat.le_refl _, fun m hm => h.waiting k m ?_ hm⟩
        rw [hwaiting]
        exact mem_cons_self

lemma Level.step {op : Op κ} (h : r.Level) (hop : ¬r.Overtakes op)
    (hstep : r.step op = some r') : r'.Level := by
  rcases op with ⟨key, fits⟩ | key | - | keys | -
  · exact h.change hop hstep
  · exact h.handed hstep
  · exact h.receive hstep
  · exact h.take hstep
  · exact h.read hstep

/-- A run without an overtaking step goes forward. -/
lemma forward_of_meets (ops : List (Op κ)) (hrun : run step empty ops = some r)
    (hmeets : Meets step (fun r op => ¬r.Overtakes op) empty ops) : Forward r.log :=
  (run_keeps (I := Level) (fun _ _ _ h hop hstep => h.step hop hstep) ops empty r level_empty hmeets
    hrun).forward

/-! ## After an overtaking step -/

/-- A change in the queue is older than what was read of its key, or than what is about to be read;
or one was taken. -/
def Overtaken (r : Reread κ) : Prop :=
  ¬Forward r.log ∨ ∃ key m, (key, m) ∈ r.queue ∧
    (key ∈ r.waiting ∧ m < r.made key ∨ ∃ n, m < n ∧ .read key n ∈ r.log)

/-- What is overtaken stays so until it is taken. -/
lemma Overtaken.step {op : Op κ} (h : r.Overtaken) (hstep : r.step op = some r') :
    r'.Overtaken := by
  rcases op with ⟨key, fits⟩ | key | - | keys | - <;> simp only [Reread.step] at hstep
  · cases hstep
    rcases h with h | ⟨k, m, hm, hk⟩
    · exact .inl h
    · refine .inr ⟨k, m, ?_, hk.imp_left fun hw => ⟨hw.1,
        Nat.lt_of_lt_of_le hw.2 (le_update _ _ _)⟩⟩
      dsimp only
      split_ifs
      · exact mem_append_left _ hm
      · exact hm
  · split at hstep
    · next hwaiting hqueue =>
      cases hstep
      rcases h with h | ⟨k, m, hm, -⟩
      · exact .inl (not_forward_append h _)
      · rw [hqueue] at hm
        cases hm
    · cases hstep
  · split at hstep
    · next key n queue hwaiting hqueue =>
      cases hstep
      rcases h with h | ⟨k, m, hm, ⟨hk, -⟩ | ⟨n', hlt, hread⟩⟩
      · exact .inl (not_forward_append h _)
      · rw [hwaiting] at hk
        cases hk
      · rw [hqueue] at hm
        rcases mem_cons.1 hm with heq | hm
        · cases heq
          exact .inl (not_forward_queued hlt hread)
        · exact .inr ⟨k, m, hm, .inr ⟨n', hlt, mem_append_left _ hread⟩⟩
    · cases hstep
  · split at hstep
    · next hwaiting hqueue =>
      cases hstep
      rcases h with h | ⟨k, m, hm, -⟩
      · exact .inl h
      · rw [hqueue] at hm
        cases hm
    · cases hstep
  · split at hstep
    · cases hstep
    · next key keys hwaiting =>
      cases hstep
      rcases h with h | ⟨k, m, hm, ⟨hk, hlt⟩ | ⟨n, hlt, hread⟩⟩
      · exact .inl (not_forward_append h _)
      · rw [hwaiting] at hk
        refine .inr ⟨k, m, hm, ?_⟩
        rcases mem_cons.1 hk with rfl | hk
        · exact .inr ⟨r.made k, hlt, mem_append_right _ (mem_singleton_self _)⟩
        · exact .inl ⟨hk, hlt⟩
      · exact .inr ⟨k, m, hm, .inr ⟨n, hlt, mem_append_left _ hread⟩⟩

lemma overtaken_of_overtakes {op : Op κ} (h : r.Dated) (hop : r.Overtakes op)
    (hstep : r.step op = some r') : r'.Overtaken := by
  rcases op with ⟨key, fits⟩ | key | - | keys | -
  · simp only [Reread.step] at hstep
    cases hstep
    obtain ⟨hwaiting, m, hm⟩ := hop
    refine .inr ⟨key, m, ?_, .inl ⟨hwaiting, ?_⟩⟩
    · dsimp only
      split_ifs
      · exact mem_append_left _ hm
      · exact hm
    · dsimp only
      rw [update_self]
      exact Nat.lt_succ_of_le (h key m hm)
  all_goals exact hop.elim

/-- A run with an overtaking step leaves a change overtaken. -/
lemma overtaken_of_not_meets :
    (ops : List (Op κ)) → ∀ r r' : Reread κ, r.Dated → run step r ops = some r' →
      ¬Meets step (fun r op => ¬r.Overtakes op) r ops → r'.Overtaken
  | [], _, _, _, _, hmeets => absurd trivial hmeets
  | op :: ops, r, r', hdated, hrun, hmeets => by
      rw [run_cons] at hrun
      obtain ⟨r₁, hstep, hrest⟩ := Option.bind_eq_some_iff.1 hrun
      by_cases hop : r.Overtakes op
      · exact run_inv (I := Overtaken) (fun _ _ _ h hstep => h.step hstep) ops r₁ r'
          (overtaken_of_overtakes hdated hop hstep) hrest
      · refine overtaken_of_not_meets ops r₁ r' (hdated.step hstep) hrest fun hlater => hmeets ?_
        refine ⟨hop, fun s hs => ?_⟩
        rw [hstep, Option.some.injEq] at hs
        exact hs ▸ hlater

/-- A run that goes forward and leaves nothing in the queue has no overtaking step. -/
lemma meets_of_forward (ops : List (Op κ)) (hrun : run step empty ops = some r)
    (hqueue : r.queue = []) (hforward : Forward r.log) :
    Meets step (fun r op => ¬r.Overtakes op) empty ops := by
  by_contra hmeets
  have hdated : (empty : Reread κ).Dated := by simp [Dated, empty]
  rcases overtaken_of_not_meets ops empty r hdated hrun hmeets with h | ⟨key, m, hm, -⟩
  · exact h hforward
  · rw [hqueue] at hm
    cases hm

end Reread

end Ze.Lib
