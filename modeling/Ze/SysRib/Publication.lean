import Ze.Lib.Run
import Ze.SysRib.Emission

/-!
# The order of publication

A computation of the system RIB holds its lock; the batches it answers are published after the lock
is released, by the goroutine that computed them: the worker, the configuration callbacks, or the
handler of a replay request. `Bus` is the step system.
-/

namespace Ze.SysRib

open List

open Ze.Lib (Meets RangeOrder run run_keeps)
open Ze.Lib.Delta (Apart writeAll writeAll_append writeAll_comm writeAll_eq_of_replay
  writeAll_flatMap_filter writeAll_rel)
open Ze.LocRib (Family)

/-! ## Replays -/

/-- The table handed to a FIB plugin that asks for it: the answer of `fibEntry` for every prefix
that is programmed, unless it is the refusal. Source: sysrib.go. -/
def SysRIB.replayBest (s : SysRIB) (env : Env) (ord : RangeOrder PrefixKey) : List OutgoingChange :=
  (ord.keys s.best.keys).filterMap fun key =>
    (s.best.lookup key).bind fun route =>
      if !s.programmedByZe key then none
      else if (s.fibEntry env key route).2 = .forbidden then none
      else some (.add key (s.fibEntry env key route).1)

/-- The answer of `fibEntry` for every programmed prefix is the path that `installed` has.
Source: sysrib.go replayBest, installedPath.matches -/
def SysRIB.Current (s : SysRIB) (env : Env) : Prop :=
  ∀ key ∈ s.installed.keys, ∀ path ∈ s.installed.lookup key, ∀ best ∈ s.best.lookup key,
    (s.fibEntry env key best).2 ≠ .forbidden → path.matches (s.fibEntry env key best).1 = true

instance (s : SysRIB) (env : Env) : Decidable (s.Current env) :=
  inferInstanceAs (Decidable (∀ key ∈ s.installed.keys, _))

/-! ## The goroutines -/

/-- Who computes and publishes. Source: sysrib.go run, register.go. -/
inductive Goroutine where
  | worker
  | config
  | replayer (n : ℕ)
  deriving DecidableEq, Repr

/-- The computations of each goroutine.
Source: sysrib.go processLocRIBChange, processCascade, register.go OnConfigApply -/
def Goroutine.computes : Goroutine → SysRIB.Op → Bool
  | .worker, .processEvent _ => true
  | .worker, .cascade _ => true
  | .config, .declareDistances _ => true
  | .config, .reapplyAdminDistances _ => true
  | .config, .applyFIBImport _ _ => true
  | _, _ => false

/-- The changes of one family, with the goroutine and the number of the computation they are of.
Source: events.go BestChangeBatch -/
structure Batch where
  owner : Goroutine
  seq : ℕ
  changes : List OutgoingChange
  deriving DecidableEq

/-- The changes of a computation by family, in the order of a range over the families.
Source: sysrib.go processCascade, changesByFamily -/
def byFamily (ord : RangeOrder Family) (changes : List OutgoingChange) :
    List (List OutgoingChange) :=
  (ord.keys (changes.map (·.key.1)).toFinset).map fun fam => changes.filter (·.key.1 = fam)

/-- The system RIB, the batches computed and not yet published in the order of their computation,
and those published in the order of their publication. -/
structure Bus where
  rib : SysRIB
  queue : List Batch
  published : List Batch
  computed : ℕ

namespace Bus

inductive Act where
  | compute (g : Goroutine) (env : Env) (op : SysRIB.Op) (ord : RangeOrder Family)
  | replay (n : ℕ) (env : Env) (keys : RangeOrder PrefixKey) (ord : RangeOrder Family)
  | publish (g : Goroutine)

/-- Source: sysrib.go newSysRIB. -/
def new : Bus where
  rib := SysRIB.new
  queue := []
  published := []
  computed := 0

def free (w : Bus) (g : Goroutine) : Bool := w.queue.all fun b => b.owner != g

def enqueue (w : Bus) (g : Goroutine) (rib : SysRIB) (changes : List OutgoingChange)
    (ord : RangeOrder Family) : Bus :=
  { w with
    rib := rib
    queue := w.queue ++ (byFamily ord changes).map (Batch.mk g w.computed)
    computed := w.computed + 1 }

/-- One step: a computation under the lock, or a publication. A goroutine publishes all it computed
before it computes again.
Source: sysrib.go processCascade, publishChanges, replayBest, fibimport.go
publishFIBImport -/
def step (os : String → Bool) (w : Bus) : Act → Option Bus
  | .compute g env op ord =>
    if g.computes op && w.free g then
      some (w.enqueue g (w.rib.step os (env, op)).1 (w.rib.step os (env, op)).2 ord)
    else none
  | .replay n env keys ord =>
    if w.free (.replayer n) then
      some (w.enqueue (.replayer n) w.rib (w.rib.replayBest env keys) ord)
    else none
  | .publish g =>
    (w.queue.find? fun b => b.owner = g).map fun b =>
      { w with
        queue := w.queue.eraseP fun b => b.owner = g
        published := w.published ++ [b] }

/-- The changes of a list of batches, one after the other. -/
def changesOf (bs : List Batch) : List OutgoingChange := bs.flatMap Batch.changes

/-- The table of a FIB plugin that applies the published batches.
Source: events.go BestChangeEntry -/
def table (w : Bus) : PrefixKey → Option FibEntry :=
  writeAll (fun _ => none) (changesOf w.published)

/-- No earlier batch about one of its prefixes waits. -/
def Uncrossed (w : Bus) (g : Goroutine) : Prop :=
  ∀ b ∈ w.queue.find? (fun b => b.owner = g), ∀ a ∈ w.queue.takeWhile (fun b => b.owner ≠ g),
    Apart a.changes b.changes

instance (w : Bus) (g : Goroutine) : Decidable (w.Uncrossed g) :=
  inferInstanceAs (Decidable (∀ b ∈ w.queue.find? _, _))

/-- What a step owes: a publication is uncrossed, a replay current. -/
def Orderly (w : Bus) : Act → Prop
  | .compute .. => True
  | .replay _ env _ _ => w.rib.Current env
  | .publish g => w.Uncrossed g

instance (w : Bus) (act : Act) : Decidable (w.Orderly act) :=
  match act with
  | .compute .. => isTrue trivial
  | .replay _ env _ _ => inferInstanceAs (Decidable (w.rib.Current env))
  | .publish g => inferInstanceAs (Decidable (w.Uncrossed g))

/-! ## The entries as `installed` records them -/

/-- The part of an entry that `installed` records. Source: sysrib.go installedEntry. -/
def path (entry : FibEntry) : InstalledPath := installedEntry entry .unproved

def SamePath (x y : Option FibEntry) : Prop := x.map path = y.map path

lemma matches_iff {p : InstalledPath} {entry : FibEntry} :
    p.matches entry ↔ { p with proved := false } = path entry := by
  simp only [InstalledPath.matches, path, installedEntry, Bool.and_eq_true, beq_iff_eq,
    InstalledPath.mk.injEq]
  constructor
  · rintro ⟨⟨⟨⟨⟨hnh, hif⟩, hon⟩, hw⟩, hsid⟩, hl⟩
    exact ⟨hnh, hif, hw, hl, hsid, hon, rfl⟩
  · rintro ⟨hnh, hif, hw, hl, hsid, hon, -⟩
    exact ⟨⟨⟨⟨⟨hnh, hif⟩, hon⟩, hw⟩, hsid⟩, hl⟩

lemma map_path_view (s : SysRIB) (key : PrefixKey) :
    (s.view key).map path = (s.installed.lookup key).map fun p => { p with proved := false } := by
  unfold SysRIB.view
  rw [Option.map_map]
  rfl

lemma rel_installed_of_samePath {s : SysRIB} {key : PrefixKey} {x : Option FibEntry}
    (h : SamePath (s.view key) x) :
    Option.Rel (fun path entry => path.matches entry = true) (s.installed.lookup key) x := by
  unfold SamePath at h
  rw [map_path_view] at h
  cases hinstalled : s.installed.lookup key with
  | none =>
    rw [hinstalled] at h
    cases x with
    | none => exact .none
    | some entry => cases h
  | some p =>
    rw [hinstalled] at h
    cases x with
    | none => cases h
    | some entry => exact .some (matches_iff.mpr (Option.some.inj h))

/-! ## The invariant -/

section

variable {os : String → Bool} {w w' : Bus} {g : Goroutine} {b : Batch} {s : SysRIB} {env : Env}

lemma changesOf_append (as bs : List Batch) : changesOf (as ++ bs) = changesOf as ++ changesOf bs :=
  flatMap_append

lemma changesOf_singleton (b : Batch) : changesOf [b] = b.changes := append_nil _

lemma writeAll_byFamily (m : PrefixKey → Option FibEntry) (ord : RangeOrder Family)
    (changes : List OutgoingChange) (n : ℕ) :
    writeAll m (changesOf ((byFamily ord changes).map (Batch.mk g n))) = writeAll m changes := by
  have hcut : changesOf ((byFamily ord changes).map (Batch.mk g n)) =
      (ord.keys (changes.map (·.key.1)).toFinset).flatMap fun fam =>
        changes.filter fun d => d.key.1 = fam := by
    unfold changesOf byFamily
    rw [map_map, flatMap_map]
    rfl
  rw [hcut]
  apply writeAll_flatMap_filter Prod.fst m (ord.nodup_keys _)
  intro d hd
  rw [ord.mem_keys, mem_toFinset]
  exact mem_map_of_mem hd

lemma samePath_replayBest {keys : RangeOrder PrefixKey} {key : PrefixKey}
    {m : PrefixKey → Option FibEntry} (hcurrent : s.Current env)
    (hm : SamePath (s.view key) (m key)) :
    SamePath (s.view key) (writeAll m (s.replayBest env keys) key) := by
  apply Ze.Lib.Delta.writeAll_of_forall (P := SamePath (s.view key)) hm
  intro d hd hkey
  unfold SysRIB.replayBest at hd
  obtain ⟨k, -, hd⟩ := mem_filterMap.1 hd
  obtain ⟨best, hbest, hd⟩ := Option.bind_eq_some_iff.1 hd
  split_ifs at hd with hprog hverdict
  cases hd
  obtain rfl : k = key := hkey
  unfold SysRIB.programmedByZe at hprog
  rw [Bool.not_eq_true', Bool.not_eq_false] at hprog
  obtain ⟨p, hp⟩ := Option.isSome_iff_exists.1 hprog
  have hmatches := hcurrent k (Finmap.mem_keys.2 (Finmap.mem_of_lookup_eq_some hp)) p hp best
    hbest hverdict
  unfold SamePath
  rw [map_path_view, hp, Option.map_some, matches_iff.1 hmatches]
  rfl

/-- What the queue, the published batches and the system RIB have to do with each other. -/
structure Inv (os : String → Bool) (w : Bus) : Prop where
  rib : w.rib.Inv os
  /-- With the queue written in the order of its computations, the table is what is recorded. -/
  ahead : ∀ key, SamePath (w.rib.view key) (writeAll w.table (changesOf w.queue) key)
  sorted : w.queue.Pairwise fun a b => a.seq ≤ b.seq
  bound : ∀ a, a ∈ w.queue ∨ a ∈ w.published → a.seq < w.computed
  /-- No published batch overrides a later one. -/
  order : w.published.Pairwise fun a b => Apart a.changes b.changes ∨ a.seq ≤ b.seq
  /-- None that waits will override a later one that is published. -/
  late : ∀ a ∈ w.published, ∀ b ∈ w.queue, Apart a.changes b.changes ∨ a.seq ≤ b.seq

lemma Inv.enqueue {changes : List OutgoingChange} {ord : RangeOrder Family} (h : w.Inv os)
    (hrib : s.Inv os) (hchanges : ∀ m key, SamePath (w.rib.view key) (m key) →
      SamePath (s.view key) (writeAll m changes key)) :
    (w.enqueue g s changes ord).Inv os := by
  have hnew : ∀ a ∈ (byFamily ord changes).map (Batch.mk g w.computed), a.seq = w.computed := by
    intro a ha
    obtain ⟨cs, -, rfl⟩ := mem_map.1 ha
    rfl
  refine ⟨hrib, fun key => ?_, ?_, ?_, h.order, ?_⟩
  · have hsplit : changesOf (w.enqueue g s changes ord).queue = changesOf w.queue ++
        changesOf ((byFamily ord changes).map (Batch.mk g w.computed)) := changesOf_append _ _
    rw [hsplit, writeAll_append, writeAll_byFamily]
    exact hchanges _ key (h.ahead key)
  · refine pairwise_append.2 ⟨h.sorted, ?_, fun a ha b hb => ?_⟩
    · apply pairwise_iff_forall_sublist.2
      intro a b hab
      rw [hnew a (hab.subset (by simp)), hnew b (hab.subset (by simp))]
    · rw [hnew b hb]
      exact (h.bound a (.inl ha)).le
  · rintro a (ha | ha)
    · rcases mem_append.1 ha with ha | ha
      · exact Nat.lt_succ_of_lt (h.bound a (.inl ha))
      · rw [hnew a ha]
        exact Nat.lt_succ_self _
    · exact Nat.lt_succ_of_lt (h.bound a (.inr ha))
  · intro a ha b hb
    rcases mem_append.1 hb with hb | hb
    · exact h.late a ha b hb
    · right
      rw [hnew b hb]
      exact (h.bound a (.inr ha)).le

lemma Inv.publish (h : w.Inv os) (hb : w.queue.find? (fun b => b.owner = g) = some b)
    (huncrossed : w.Uncrossed g) :
    Inv os { w with
      queue := w.queue.eraseP fun b => b.owner = g
      published := w.published ++ [b] } := by
  obtain ⟨howner, pre, post, hqueue, hpre⟩ := find?_eq_some_iff_append.1 hb
  have htake : w.queue.takeWhile (fun b => b.owner ≠ g) = pre := by
    rw [hqueue, takeWhile_append_of_pos, takeWhile_cons_of_neg, append_nil]
    · simpa using howner
    · intro a ha
      simpa using hpre a ha
  have herase : w.queue.eraseP (fun b => b.owner = g) = pre ++ post := by
    rw [hqueue, eraseP_append_right _ (fun a ha => by simpa using hpre a ha),
      eraseP_cons_of_pos (by simpa using howner)]
  have hapart : ∀ a ∈ pre, Apart a.changes b.changes := by
    intro a ha
    exact huncrossed b hb a (htake ▸ ha)
  have hpreapart : Apart (changesOf pre) b.changes := by
    intro c hc d hd
    obtain ⟨a, ha, hc⟩ := mem_flatMap.1 hc
    exact hapart a ha c hc d hd
  have hbmem : b ∈ w.queue := by
    rw [hqueue]
    simp
  have hrest : ∀ a, a ∈ pre ++ post → a ∈ w.queue := by
    intro a ha
    rw [hqueue]
    rcases mem_append.1 ha with ha | ha
    · exact mem_append_left _ ha
    · exact mem_append_right _ (mem_cons_of_mem b ha)
  have hsorted := h.sorted
  rw [hqueue, pairwise_append, pairwise_cons] at hsorted
  rw [herase]
  refine ⟨h.rib, fun key => ?_, ?_, ?_, ?_, ?_⟩
  · have htable : Bus.table { w with queue := pre ++ post, published := w.published ++ [b] } =
        writeAll w.table b.changes := by
      unfold Bus.table
      rw [changesOf_append, writeAll_append, changesOf_singleton]
    have hwrites : writeAll (writeAll w.table b.changes) (changesOf (pre ++ post)) =
        writeAll w.table (changesOf w.queue) := by
      calc writeAll (writeAll w.table b.changes) (changesOf (pre ++ post))
          = writeAll (writeAll w.table (b.changes ++ changesOf pre)) (changesOf post) := by
            rw [changesOf_append, writeAll_append, writeAll_append]
        _ = writeAll (writeAll w.table (changesOf pre ++ b.changes)) (changesOf post) := by
            rw [writeAll_comm _ hpreapart]
        _ = writeAll w.table (changesOf w.queue) := by
            rw [hqueue, ← singleton_append, changesOf_append, changesOf_append,
              changesOf_singleton, ← writeAll_append, append_assoc]
    rw [htable, hwrites]
    exact h.ahead key
  · exact pairwise_append.2 ⟨hsorted.1, hsorted.2.1.2, fun a ha c hc =>
      hsorted.2.2 a ha c (mem_cons_of_mem b hc)⟩
  · rintro a (ha | ha)
    · exact h.bound a (.inl (hrest a ha))
    · rcases mem_append.1 ha with ha | ha
      · exact h.bound a (.inr ha)
      · rw [mem_singleton.1 ha]
        exact h.bound b (.inl hbmem)
  · refine pairwise_append.2 ⟨h.order, pairwise_singleton _ _, fun a ha c hc => ?_⟩
    rw [mem_singleton.1 hc]
    exact h.late a ha b hbmem
  · intro a ha c hc
    rcases mem_append.1 ha with ha | ha
    · exact h.late a ha c (hrest c hc)
    · rw [mem_singleton.1 ha]
      rcases mem_append.1 hc with hc | hc
      · left
        intro d hd e he
        exact (hapart c hc e he d hd).symm
      · right
        exact hsorted.2.1.1 c hc

lemma Inv.step {act : Act} (h : w.Inv os) (horderly : w.Orderly act)
    (hstep : w.step os act = some w') : w'.Inv os := by
  cases act with
  | compute g env op ord =>
    simp only [Bus.step] at hstep
    split_ifs at hstep
    cases hstep
    obtain ⟨hinv, htells⟩ := h.rib.step (env, op)
    refine h.enqueue hinv fun m key hm => ?_
    rw [← writeAll_eq_of_replay htells]
    exact writeAll_rel (R := SamePath) (fun _ => rfl) hm _
  | replay n env keys ord =>
    simp only [Bus.step] at hstep
    split_ifs at hstep
    cases hstep
    exact h.enqueue h.rib fun m key hm => samePath_replayBest horderly hm
  | publish g =>
    simp only [Bus.step] at hstep
    obtain ⟨b, hb, rfl⟩ := Option.map_eq_some_iff.1 hstep
    exact h.publish hb horderly

lemma inv_new (os : String → Bool) : new.Inv os := by
  refine ⟨SysRIB.inv_new os, fun key => ?_, List.Pairwise.nil, ?_, List.Pairwise.nil, ?_⟩
  · rfl
  · simp [new]
  · simp [new]

/-- **Theorem.** In every interleaving in which a batch is published with no earlier one about its
prefixes still queued, and a replay is computed when `fibEntry` answers what is recorded: once every
computed batch is published, the table has for every prefix the entry that `installed` records, and
no published batch overrides one of a later computation. -/
theorem table_of_uncrossed (os : String → Bool) (acts : List Act) (w : Bus)
    (horderly : Meets (Bus.step os) Bus.Orderly new acts)
    (hrun : run (Bus.step os) new acts = some w) (hdone : w.queue = []) :
    (∀ key, Option.Rel (fun path entry => path.matches entry = true)
      (w.rib.installed.lookup key) (w.table key)) ∧
    w.published.Pairwise fun a b => Apart a.changes b.changes ∨ a.seq ≤ b.seq := by
  have hinv : w.Inv os := run_keeps (I := Inv os) (fun _ _ _ hs hcond hstep => hs.step hcond hstep)
    acts new w (inv_new os) horderly hrun
  refine ⟨fun key => ?_, hinv.order⟩
  apply rel_installed_of_samePath
  have hahead := hinv.ahead key
  rw [hdone] at hahead
  exact hahead

end

/-! ## Two runs -/

def netKey : PrefixKey := (⟨1, 1⟩, ⟨.v4 0x0a000000#32, 8⟩)

/-- A Loc-RIB that resolves no gateway, and ranges that meet the one protocol. -/
noncomputable def netEnv : Env where
  lpm := some fun _ _ => none
  range := RangeOrder.listing ["static"] (nodup_singleton _)
  sort := PathSort.insertion

noncomputable def netKeys : RangeOrder PrefixKey :=
  RangeOrder.listing [netKey] (nodup_singleton _)

noncomputable def netFamilies : RangeOrder Family :=
  RangeOrder.listing [netKey.1] (nodup_singleton _)

/-- The worker takes a static route from the Loc-RIB. -/
noncomputable def learn : Act :=
  .compute .worker netEnv
    (.processEvent { protocol := "static", family := netKey.1, fromLocRIB := true,
                     changes := [{ action := .add, pfx := netKey.2, nextHop := .v4 0xc0000201#32,
                                   priority := 10 }] }) netFamilies

/-- The configuration withholds static routes: the three computations of an apply.
Source: register.go OnConfigApply -/
noncomputable def withhold : List Act :=
  [.compute .config netEnv (.declareDistances fun _ => none) netFamilies,
    .compute .config netEnv (.reapplyAdminDistances netKeys) netFamilies, .compute .config netEnv
      (.applyFIBImport (fun p => if p = "static" then some false else none) netKeys) netFamilies]

/-- Each batch is published before the next is computed. -/
noncomputable def inOrder : List Act :=
  [learn, .publish .worker, .replay 0 netEnv netKeys netFamilies, .publish (.replayer 0)] ++
    withhold ++ [.publish .config]

/-- The batch of the worker is published after that of the configuration. -/
noncomputable def crossed : List Act := [learn] ++ withhold ++ [.publish .config, .publish .worker]

/-- The theorem at a run with a replay and an apply: the withheld route is gone at its end. -/
theorem table_of_uncrossed_in_order :
    ∃ w, run (Bus.step fun _ => false) new inOrder = some w ∧ w.published.length = 3 ∧
      w.table netKey = none := by
  have heval : ((run (Bus.step fun _ => false) new inOrder).any fun w =>
      w.queue.isEmpty && w.published.length == 3 && w.rib.installed.lookup netKey == none) =
        true := by
    decide +kernel
  obtain ⟨w, hrun, hw⟩ := (Option.any_eq_true _ _).mp heval
  rw [Bool.and_eq_true, Bool.and_eq_true, List.isEmpty_iff, beq_iff_eq, beq_iff_eq] at hw
  obtain ⟨⟨hqueue, hlength⟩, hinstalled⟩ := hw
  have horderly : Meets (Bus.step fun _ => false) Bus.Orderly new inOrder := by decide +kernel
  have hrel := (table_of_uncrossed (fun _ => false) inOrder w horderly hrun hqueue).1 netKey
  refine ⟨w, hrun, hlength, ?_⟩
  rw [hinstalled] at hrel
  cases htable : w.table netKey with
  | none => rfl
  | some entry =>
    rw [htable] at hrel
    cases hrel

/-- Not in every interleaving: the worker computes an add, the configuration withholds the protocol
and publishes its withdrawal, and the add that comes after it stays. -/
theorem crossed_add_outlives_withdraw :
    ¬ ∀ (acts : List Act) (w : Bus), run (Bus.step fun _ => false) new acts = some w →
        w.queue = [] →
        (∀ key, Option.Rel (fun path entry => path.matches entry = true)
          (w.rib.installed.lookup key) (w.table key)) ∧
        w.published.Pairwise fun a b => Apart a.changes b.changes ∨ a.seq ≤ b.seq := by
  intro hclaim
  have heval : ((run (Bus.step fun _ => false) new crossed).any fun w =>
      w.queue.isEmpty && w.rib.installed.lookup netKey == none && (w.table netKey).isSome) =
        true := by
    decide +kernel
  obtain ⟨w, hrun, hw⟩ := (Option.any_eq_true _ _).mp heval
  rw [Bool.and_eq_true, Bool.and_eq_true, List.isEmpty_iff, beq_iff_eq] at hw
  obtain ⟨⟨hqueue, hinstalled⟩, htable⟩ := hw
  have hrel := (hclaim crossed w hrun hqueue).1 netKey
  obtain ⟨entry, hentry⟩ := Option.isSome_iff_exists.mp htable
  rw [hinstalled, hentry] at hrel
  cases hrel

end Bus

end Ze.SysRib
