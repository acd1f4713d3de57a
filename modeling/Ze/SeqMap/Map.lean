import Mathlib.Data.Fintype.Card
import Mathlib.Data.List.Sort

/-!
# The map with a log of sequence numbers

`core/seqmap/seqmap.go`: a map whose entries also stand in a log that is sorted by their sequence
numbers. A replaced or deleted entry stays in the log, marked dead, until a compaction. Entries are
shared by their pointers; here an entry carries the number of its allocation, and marking it dead
looks for this number in the log.
-/

namespace Ze.SeqMap

open List
open Function (update update_of_ne update_self)

variable {K V : Type}

/-- Source: entry; id stands for the pointer. -/
structure Entry (K V : Type) where
  key : K
  seq : ℕ
  val : V
  live : Bool
  id : ℕ

/-- The map is the list of its entries, in no order; `next` is the next allocation. -/
structure Map (K V : Type) where
  items : List (Entry K V)
  log : List (Entry K V)
  dead : ℕ
  next : ℕ

def new : Map K V := ⟨[], [], 0, 0⟩

/-- What the range over the map and `sort.Slice`, which is not stable, make of the entries. -/
structure Sorter (K V : Type) where
  sort : List (Entry K V) → List (Entry K V)
  perm : ∀ l, (sort l).Perm l
  sorted : ∀ l, (sort l).Pairwise (·.seq ≤ ·.seq)

instance : Std.Total fun a b : Entry K V => a.seq ≤ b.seq := ⟨fun _ _ => Nat.le_total _ _⟩

instance : IsTrans (Entry K V) fun a b => a.seq ≤ b.seq := ⟨fun _ _ _ => Nat.le_trans⟩

/-- The insertion sort is one. -/
def insertionSorter : Sorter K V where
  sort := insertionSort fun a b => a.seq ≤ b.seq
  perm := perm_insertionSort _
  sorted := pairwise_insertionSort _

/-- Source: sort.Search, the loop. -/
def search (f : ℕ → Bool) (i j : ℕ) : ℕ :=
  if i < j then
    let h := (i + j) / 2
    if f h then search f i h else search f (h + 1) j
  else i
  termination_by j - i

/-- Source: old.live = false. -/
def kill (id : ℕ) (log : List (Entry K V)) : List (Entry K V) :=
  log.map fun e => if e.id = id then { e with live := false } else e

def insertLog (log : List (Entry K V)) (e : Entry K V) : List (Entry K V) :=
  if log.getLast?.all (·.seq ≤ e.seq) then log ++ [e]
  else
    let i := search (fun i => log[i]?.any (e.seq < ·.seq)) 0 log.length
    log.take i ++ e :: log.drop i

def compactMinLog : ℕ := 256

namespace Map

def compact (srt : Sorter K V) (m : Map K V) : Map K V :=
  { m with log := srt.sort m.items, dead := 0 }

def maybeCompact (srt : Sorter K V) (m : Map K V) : Map K V :=
  if m.log.length / 2 < m.dead ∧ compactMinLog < m.log.length then m.compact srt else m

/-- Source: Since, the entries that a callback is given which never stops. -/
def since (m : Map K V) (fromSeq : ℕ) : List (K × ℕ × V) :=
  let i := search (fun i => m.log[i]?.any (fromSeq ≤ ·.seq)) 0 m.log.length
  ((m.log.drop i).filter (·.live)).map fun e => (e.key, e.seq, e.val)

/-- Source: Range, likewise. -/
def range (m : Map K V) : List (K × ℕ × V) := m.items.map fun e => (e.key, e.seq, e.val)

def len (m : Map K V) : ℕ := m.items.length

def clear (m : Map K V) : Map K V := { m with items := [], log := [], dead := 0 }

variable [DecidableEq K]

def lookup (m : Map K V) (key : K) : Option (Entry K V) := m.items.find? (·.key = key)

/-- The entry of the key taken out of the map and marked dead. Source: Put, Delete. -/
def drop (m : Map K V) (key : K) : Map K V :=
  match m.lookup key with
  | none => m
  | some old =>
    { m with items := m.items.filter (·.key ≠ key), log := kill old.id m.log, dead := m.dead + 1 }

def put (srt : Sorter K V) (m : Map K V) (key : K) (seq : ℕ) (value : V) : Map K V :=
  let m := m.drop key
  let e : Entry K V := ⟨key, seq, value, true, m.next⟩
  maybeCompact srt
    { m with items := e :: m.items, log := insertLog m.log e, next := m.next + 1 }

def delete (srt : Sorter K V) (m : Map K V) (key : K) : Map K V × Bool :=
  if (m.lookup key).isSome then (maybeCompact srt (m.drop key), true) else (m, false)

def get (m : Map K V) (key : K) : Option V := (m.lookup key).map (·.val)

end Map

/-! ## The search -/

lemma search_spec {f : ℕ → Bool} {i j : ℕ} (hij : i ≤ j)
    (hmono : ∀ a b, a ≤ b → b < j → f a → f b) :
    i ≤ search f i j ∧ search f i j ≤ j ∧ (∀ a, i ≤ a → a < search f i j → f a = false) ∧
      ∀ a, search f i j ≤ a → a < j → f a := by
  fun_induction search f i j with
  | case1 i j hlt h hf ih =>
    obtain ⟨h1, h2, h3, h4⟩ := ih (by omega) fun a b hab hb => hmono a b hab (by omega)
    refine ⟨h1, by omega, h3, fun a ha haj => ?_⟩
    by_cases hah : a < h
    · exact h4 a ha hah
    · exact hmono h a (by omega) haj hf
  | case2 i j hlt h hf ih =>
    obtain ⟨h1, h2, h3, h4⟩ := ih (by omega) hmono
    refine ⟨by omega, h2, fun a ha hlt' => ?_, h4⟩
    by_cases hah : h < a
    · exact h3 a hah hlt'
    · by_contra htrue
      exact hf (hmono a h (by omega) (by omega) (by simpa using htrue))
  | case3 i j hge => exact ⟨Nat.le_refl _, hij, fun a h1 h2 => by omega, fun a h1 h2 => by omega⟩

/-- A search along a list finds where the elements with the property begin. -/
lemma search_list {α : Type} {l : List α} {p : α → Bool}
    (hmono : l.Pairwise fun a b => p a = true → p b) :
    l.take (search (fun i => l[i]?.any p) 0 l.length) = l.filter (!p ·) ∧
      l.drop (search (fun i => l[i]?.any p) 0 l.length) = l.filter p := by
  have hup : ∀ a b, a ≤ b → b < l.length → l[a]?.any p → l[b]?.any p := by
    intro a b hab hb ha
    rcases Nat.eq_or_lt_of_le hab with rfl | hlt
    · exact ha
    · rw [getElem?_eq_getElem (by omega)] at ha ⊢
      exact pairwise_iff_getElem.1 hmono a b (by omega) hb hlt ha
  obtain ⟨-, hle, hbelow, habove⟩ := search_spec (Nat.zero_le l.length) hup
  generalize search (fun i => l[i]?.any p) 0 l.length = r at *
  have htake : ∀ x ∈ l.take r, p x = false := by
    intro x hx
    obtain ⟨a, ha, rfl⟩ := mem_take_iff_getElem.1 hx
    have := hbelow a (Nat.zero_le a) (by omega)
    rwa [getElem?_eq_getElem (by omega)] at this
  have hdrop : ∀ x ∈ l.drop r, p x := by
    intro x hx
    obtain ⟨a, ha, rfl⟩ := mem_drop_iff_getElem.1 hx
    have := habove (r + a) (Nat.le_add_right r a) (by omega)
    rwa [getElem?_eq_getElem (by omega)] at this
  have hsplit := take_append_drop r l
  constructor
  · rw [← hsplit, filter_append, filter_eq_self.2 (by simpa using htake),
      filter_eq_nil_iff.2 (by simpa using hdrop), append_nil, hsplit]
  · rw [← hsplit, filter_append, filter_eq_nil_iff.2 (by simpa using htake),
      filter_eq_self.2 hdrop, nil_append, hsplit]

/-! ## The invariant -/

lemma seq_kill (id : ℕ) (e : Entry K V) :
    (if e.id = id then { e with live := false } else e : Entry K V).seq = e.seq := by
  split_ifs <;> rfl

lemma filter_kill (id : ℕ) (log : List (Entry K V)) :
    (kill id log).filter (·.live) = (log.filter (·.live)).filter (·.id ≠ id) := by
  induction log with
  | nil => rfl
  | cons e log ih =>
    unfold kill at ih ⊢
    rw [map_cons, filter_cons, ih, filter_cons]
    by_cases hid : e.id = id <;> by_cases hlive : e.live = true <;> simp [hid, hlive]

lemma perm_insertLog (log : List (Entry K V)) (e : Entry K V) :
    (insertLog log e).Perm (e :: log) := by
  unfold insertLog
  dsimp only
  split_ifs
  · exact perm_append_singleton e log
  · refine perm_middle.trans ?_
    rw [take_append_drop]

lemma sorted_insertLog {log : List (Entry K V)} (h : log.Pairwise (·.seq ≤ ·.seq))
    (e : Entry K V) : (insertLog log e).Pairwise (·.seq ≤ ·.seq) := by
  unfold insertLog
  dsimp only
  split_ifs with hlast
  · refine pairwise_append.2 ⟨h, pairwise_singleton _ _, fun a ha b hb => ?_⟩
    obtain rfl := mem_singleton.1 hb
    obtain ⟨pre, last, rfl⟩ := (eq_nil_or_concat' log).resolve_left (ne_nil_of_mem ha)
    have hle : last.seq ≤ b.seq := by simpa using hlast
    rcases mem_append.1 ha with ha | ha
    · exact Nat.le_trans ((pairwise_append.1 h).2.2 a ha last (mem_singleton_self _)) hle
    · exact mem_singleton.1 ha ▸ hle
  · obtain ⟨htake, hdrop⟩ := @search_list _ log (fun x => decide (e.seq < x.seq))
      (h.imp fun hab ha => by simp only [decide_eq_true_eq] at ha ⊢; omega)
    rw [htake, hdrop]
    refine pairwise_append.2 ⟨h.filter _, pairwise_cons.2 ⟨fun b hb => ?_, h.filter _⟩, ?_⟩
    · exact Nat.le_of_lt (by simpa using (mem_filter.1 hb).2)
    · intro a ha b hb
      have ha : a.seq ≤ e.seq := by simpa using (mem_filter.1 ha).2
      rcases mem_cons.1 hb with rfl | hb
      · exact ha
      · have hb : e.seq < b.seq := by simpa using (mem_filter.1 hb).2
        omega

/-- The log is sorted, its live entries are those of the map, which holds a content. -/
structure Inv (m : Map K V) (content : K → Option (ℕ × V)) : Prop where
  sorted : m.log.Pairwise (·.seq ≤ ·.seq)
  live : (m.log.filter (·.live)).Perm m.items
  ids : (m.log.map (·.id)).Nodup
  fresh : ∀ e ∈ m.log, e.id < m.next
  keys : (m.items.map (·.key)).Nodup
  holds : ∀ k q v, content k = some (q, v) ↔ ∃ e ∈ m.items, e.key = k ∧ e.seq = q ∧ e.val = v

namespace Inv

variable {m : Map K V} {content : K → Option (ℕ × V)} (h : Inv m content)

include h

lemma mem_log {e : Entry K V} (he : e ∈ m.items) : e ∈ m.log ∧ e.live :=
  mem_filter.1 (h.live.mem_iff.2 he)

lemma maybeCompact (srt : Sorter K V) : Inv (m.maybeCompact srt) content := by
  unfold Map.maybeCompact
  split_ifs
  · have hall : (srt.sort m.items).filter (·.live) = srt.sort m.items := by
      apply filter_eq_self.2
      intro e he
      exact (h.mem_log ((srt.perm _).mem_iff.1 he)).2
    have hids : (m.items.map (·.id)).Nodup :=
      (h.live.map (·.id)).nodup_iff.1 (h.ids.sublist (filter_sublist.map _))
    refine ⟨srt.sorted _, ?_, ((srt.perm _).map _).nodup_iff.2 hids, ?_, h.keys, h.holds⟩
    · rw [Map.compact, hall]
      exact srt.perm _
    · intro e he
      exact h.fresh e (h.mem_log ((srt.perm _).mem_iff.1 he)).1
  · exact h

variable [DecidableEq K]

lemma lookup_eq_some {k : K} {e : Entry K V} : m.lookup k = some e ↔ e ∈ m.items ∧ e.key = k := by
  constructor
  · intro hfind
    exact ⟨mem_of_find?_eq_some hfind, by simpa using find?_some hfind⟩
  · rintro ⟨he, rfl⟩
    rcases hfind : m.lookup e.key with _ | e'
    · simpa using find?_eq_none.1 hfind e he
    · have hkey : e'.key = e.key := by simpa using find?_some hfind
      exact congrArg some (inj_on_of_nodup_map h.keys (mem_of_find?_eq_some hfind) he hkey)

lemma drop (key : K) : Inv (m.drop key) (update content key none) := by
  have hholds : ∀ k q v, update content key none k = some (q, v) ↔
      ∃ e ∈ m.items.filter (·.key ≠ key), e.key = k ∧ e.seq = q ∧ e.val = v := by
    intro k q v
    by_cases hk : k = key
    · subst hk
      simp +contextual
    · rw [update_of_ne hk, h.holds]
      refine exists_congr fun e => and_congr_left fun he => ?_
      simp [he.1, hk]
  unfold Map.drop
  rcases hold : m.lookup key with _ | old
  · have hall : m.items.filter (·.key ≠ key) = m.items := by
      apply filter_eq_self.2
      intro e he
      simpa using find?_eq_none.1 hold e he
    exact ⟨h.sorted, h.live, h.ids, h.fresh, h.keys, hall ▸ hholds⟩
  · obtain ⟨hmem, hkey⟩ := h.lookup_eq_some.1 hold
    have hids : (m.log.map (·.id)) = (kill old.id m.log).map (·.id) := by
      unfold kill
      rw [map_map]
      apply map_congr_left
      intro e _
      by_cases hid : e.id = old.id <;> simp [hid]
    -- the entry with the key is the one with the number
    have hfilter : m.items.filter (·.id ≠ old.id) = m.items.filter (·.key ≠ key) := by
      apply filter_congr
      intro e he
      rw [decide_eq_decide, not_iff_not]
      constructor
      · intro hid
        rw [inj_on_of_nodup_map h.ids (h.mem_log he).1 (h.mem_log hmem).1 hid, hkey]
      · intro hek
        rw [inj_on_of_nodup_map h.keys he hmem (hek.trans hkey.symm)]
    refine ⟨?_, ?_, hids ▸ h.ids, ?_, h.keys.sublist (filter_sublist.map _), hholds⟩
    · unfold kill
      rw [pairwise_map]
      simpa only [seq_kill] using h.sorted
    · rw [filter_kill, ← hfilter]
      exact h.live.filter _
    · intro e he
      obtain ⟨e', he', rfl⟩ := mem_map.1 he
      have := h.fresh e' he'
      split_ifs <;> exact this

lemma put (srt : Sorter K V) (key : K) (seq : ℕ) (value : V) :
    Inv (m.put srt key seq value) (update content key (some (seq, value))) := by
  have hd := h.drop key
  have hno : ∀ e ∈ (m.drop key).items, e.key ≠ key := by
    intro e he hek
    have := (hd.holds key e.seq e.val).2 ⟨e, he, hek, rfl, rfl⟩
    rw [update_self] at this
    cases this
  unfold Map.put
  dsimp only
  generalize m.drop key = m' at hd hno ⊢
  have hperm := perm_insertLog m'.log ⟨key, seq, value, true, m'.next⟩
  apply Inv.maybeCompact
  refine ⟨sorted_insertLog hd.sorted _, ?_, ?_, ?_, ?_, ?_⟩
  · refine (hperm.filter _).trans ?_
    rw [filter_cons_of_pos rfl]
    exact hd.live.cons _
  · refine (hperm.map _).nodup_iff.2 (nodup_cons.2 ⟨fun hmem => ?_, hd.ids⟩)
    obtain ⟨e, he, hid⟩ := mem_map.1 hmem
    exact absurd hid (Nat.ne_of_lt (hd.fresh e he))
  · intro e he
    rcases mem_cons.1 (hperm.mem_iff.1 he) with rfl | he
    · exact Nat.lt_succ_self _
    · exact Nat.lt_succ_of_lt (hd.fresh e he)
  · refine nodup_cons.2 ⟨fun hmem => ?_, hd.keys⟩
    obtain ⟨e, he, hek⟩ := mem_map.1 hmem
    exact hno e he hek
  · intro k q v
    by_cases hk : k = key
    · subst hk
      rw [update_self]
      refine ⟨fun heq => ⟨_, mem_cons_self, rfl, ?_⟩, ?_⟩
      · simpa using heq
      · rintro ⟨e, he, hek, rfl, rfl⟩
        rcases mem_cons.1 he with rfl | he
        · rfl
        · exact absurd hek (hno e he)
    · rw [update_of_ne hk, ← update_of_ne hk none content, hd.holds]
      simp [Ne.symm hk]

end Inv

/-! ## Runs -/

inductive Op (K V : Type)
  | put (key : K) (seq : ℕ) (value : V)
  | delete (key : K)
  | clear

variable [DecidableEq K]

def step (m : Map K V) : Sorter K V × Op K V → Map K V
  | (srt, .put key seq value) => m.put srt key seq value
  | (srt, .delete key) => (m.delete srt key).1
  | (_, .clear) => m.clear

/-- What the operations make of a plain map from keys to sequence numbers and values. -/
def apply (content : K → Option (ℕ × V)) : Sorter K V × Op K V → K → Option (ℕ × V)
  | (_, .put key seq value) => update content key (some (seq, value))
  | (_, .delete key) => update content key none
  | (_, .clear) => fun _ => none

lemma inv_step {m : Map K V} {content : K → Option (ℕ × V)} (h : Inv m content)
    (op : Sorter K V × Op K V) : Inv (step m op) (apply content op) := by
  obtain ⟨srt, ⟨key, seq, value⟩ | key | _⟩ := op
  · exact h.put srt key seq value
  · have hd := h.drop key
    unfold step apply Map.delete
    dsimp only
    split_ifs with hsome
    · exact hd.maybeCompact srt
    · have hsame : m.drop key = m := by
        rw [Map.drop, Option.not_isSome_iff_eq_none.1 hsome]
      exact hsame ▸ hd
  · exact ⟨.nil, .nil, .nil, by simp [step, Map.clear], .nil, by simp [apply, step, Map.clear]⟩

omit [DecidableEq K] in
lemma inv_new : Inv (new : Map K V) fun _ => none :=
  ⟨.nil, .nil, .nil, by simp [new], .nil, by simp [new]⟩

lemma inv_run {m : Map K V} {content : K → Option (ℕ × V)} (h : Inv m content)
    (ops : List (Sorter K V × Op K V)) : Inv (ops.foldl step m) (ops.foldl apply content) := by
  induction ops generalizing m content with
  | nil => exact h
  | cons op ops ih => exact ih (inv_step h op)

/-- **The map and its log hold one content.** After every sequence of operations, whatever order
each compaction leaves entries of one sequence number in: `since` visits exactly the keys with a
sequence number from `fromSeq` on, each once, with its value and in the order of the numbers; `get`
reads the content, `range` visits what `since` visits from 0 on, and `len` counts it. -/
theorem since_agrees (ops : List (Sorter K V × Op K V)) :
    let m := ops.foldl step new
    let content := ops.foldl apply fun _ => none
    (∀ fromSeq, (m.since fromSeq).Pairwise (fun a b => a.2.1 ≤ b.2.1) ∧
      ((m.since fromSeq).map Prod.fst).Nodup ∧
      ∀ k q v, (k, q, v) ∈ m.since fromSeq ↔ content k = some (q, v) ∧ fromSeq ≤ q) ∧
    (∀ k, m.get k = (content k).map Prod.snd) ∧
    m.range.Perm (m.since 0) ∧ m.len = (m.since 0).length := by
  have h := inv_run inv_new ops
  intro m content
  have hsince : ∀ fromSeq, m.since fromSeq =
      ((m.log.filter (fromSeq ≤ ·.seq)).filter (·.live)).map fun e => (e.key, e.seq, e.val) := by
    intro fromSeq
    have hmono := h.sorted.imp fun {a b} hab (ha : decide (fromSeq ≤ a.seq)) =>
      show decide (fromSeq ≤ b.seq) = true by simp only [decide_eq_true_eq] at ha ⊢; omega
    rw [Map.since, (search_list hmono).2]
  have hmem : ∀ fromSeq e, e ∈ (m.log.filter (fromSeq ≤ ·.seq)).filter (·.live) ↔
      e ∈ m.items ∧ fromSeq ≤ e.seq := by
    intro fromSeq e
    rw [← h.live.mem_iff]
    simp only [mem_filter, decide_eq_true_eq]
    tauto
  have hall : (m.since 0).Perm m.range := by
    have hzero : m.log.filter (0 ≤ ·.seq) = m.log := filter_eq_self.2 (by simp)
    rw [hsince, hzero]
    exact h.live.map _
  refine ⟨fun fromSeq => ⟨?_, ?_, fun k q v => ?_⟩, fun k => ?_, hall.symm, ?_⟩
  · rw [hsince, pairwise_map]
    exact (h.sorted.filter _).filter _
  · rw [hsince, map_map]
    have hsub := (h.live.map (·.key)).nodup_iff.2 h.keys
    rw [filter_comm]
    exact hsub.sublist (filter_sublist.map _)
  · rw [hsince, mem_map, h.holds]
    simp only [hmem, Prod.mk.injEq]
    constructor
    · rintro ⟨e, ⟨he, hle⟩, rfl, rfl, rfl⟩
      exact ⟨⟨e, he, rfl, rfl, rfl⟩, hle⟩
    · rintro ⟨⟨e, he, rfl, rfl, rfl⟩, hle⟩
      exact ⟨e, ⟨he, hle⟩, rfl, rfl, rfl⟩
  · rcases hc : content k with _ | ⟨q, v⟩
    · rcases hget : m.lookup k with _ | e
      · rw [Map.get, hget]
        rfl
      · obtain ⟨he, hek⟩ := h.lookup_eq_some.1 hget
        cases hc.symm.trans ((h.holds k e.seq e.val).2 ⟨e, he, hek, rfl, rfl⟩)
    · obtain ⟨e, he, hek, rfl, rfl⟩ := (h.holds k q v).1 hc
      rw [Map.get, h.lookup_eq_some.2 ⟨he, hek⟩]
      rfl
  · rw [hall.length_eq, Map.range, length_map]
    rfl

/-! ## The length of the log -/

def Counted (m : Map K V) : Prop := m.log.length = m.len + m.dead

/-- The log is at most twice as long as the map, or short. -/
def Tight (m : Map K V) : Prop := Counted m ∧ m.log.length ≤ max compactMinLog (2 * m.len)

variable {m : Map K V} {content : K → Option (ℕ × V)}

omit [DecidableEq K] in
lemma tight_maybeCompact (hc : Counted m) (srt : Sorter K V) : Tight (m.maybeCompact srt) := by
  unfold Tight Counted Map.maybeCompact at *
  split_ifs
  · have hlen := (srt.perm m.items).length_eq
    simp only [Map.compact, Map.len, hlen]
    omega
  · omega

lemma Inv.counted_drop (h : Inv m content) (hc : Counted m) (key : K) : Counted (m.drop key) := by
  unfold Map.drop
  rcases hold : m.lookup key with _ | old
  · exact hc
  · obtain ⟨hmem, hkey⟩ := h.lookup_eq_some.1 hold
    have hin : key ∈ m.items.map (·.key) := mem_map.2 ⟨old, hmem, hkey⟩
    have herase : (m.items.filter (·.key ≠ key)).map (·.key) = (m.items.map (·.key)).erase key := by
      rw [h.keys.erase_eq_filter, filter_map]
      simp only [ne_eq, decide_not]
      rfl
    have hlen := congrArg length herase
    have hpos := length_pos_of_mem hmem
    rw [length_map, length_erase_of_mem hin, length_map] at hlen
    unfold Counted Map.len at hc ⊢
    simp only [kill, length_map]
    omega

lemma Inv.tight_step (h : Inv m content) (ht : Tight m) (op : Sorter K V × Op K V) :
    Tight (step m op) := by
  obtain ⟨srt, ⟨key, seq, value⟩ | key | _⟩ := op
  · have hc := h.counted_drop ht.1 key
    apply tight_maybeCompact
    unfold Counted at hc ⊢
    simp only [Map.len, (perm_insertLog _ _).length_eq, length_cons] at hc ⊢
    omega
  · unfold step Map.delete
    dsimp only
    split_ifs
    · exact tight_maybeCompact (h.counted_drop ht.1 key) srt
    · exact ht
  · exact ⟨rfl, Nat.zero_le _⟩

lemma Inv.tight_run (h : Inv m content) (ht : Tight m) (ops : List (Sorter K V × Op K V)) :
    Tight (ops.foldl step m) := by
  induction ops generalizing m content with
  | nil => exact ht
  | cons op ops ih => exact ih (inv_step h op) (h.tight_step ht op)

/-- **The log does not outgrow the map.** After every sequence of operations the log has the entries
of the map and those counted dead, and at most 256 or twice as many as the map. -/
theorem log_length_bounded (ops : List (Sorter K V × Op K V)) :
    let m := ops.foldl step new
    m.log.length = m.len + m.dead ∧ m.log.length ≤ max compactMinLog (2 * m.len) := by
  exact inv_new.tight_run ⟨rfl, Nat.zero_le _⟩ ops

/-- 300 values put under two keys in turn. -/
def alternating : List (Sorter Bool ℕ × Op Bool ℕ) :=
  (range 300).map fun i => (insertionSorter, .put (i % 2 == 0) i i)

/-- Their log is shorter than the run: it has been compacted on the way. -/
theorem log_length_bounded_alternating :
    (alternating.foldl step new).log.length ≤ 256 ∧ alternating.length = 300 := by
  have hlen : (alternating.foldl step new).len ≤ 2 := by
    rw [Map.len, ← length_map (·.key)]
    exact Nodup.length_le_card (inv_run inv_new alternating).keys
  have hlog := (log_length_bounded alternating).2
  rw [compactMinLog] at hlog
  exact ⟨by omega, by rw [alternating, length_map, length_range]⟩

end Ze.SeqMap
