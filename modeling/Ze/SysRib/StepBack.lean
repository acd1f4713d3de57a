import Ze.Lib.Reread
import Ze.SysRib.Cascade
import Ze.SysRib.Drained

/-!
# An overflow that steps back

`takeOverflow` hands the overflowed prefixes to the worker while the channel is empty, and the
worker reads them from the Loc-RIB one by one. A prefix that still waits to be read goes on
changing: its next change is queued behind the reads, and one more change makes the queued one
older than the state that the worker is about to read.
-/

namespace Ze.SysRib

open List

open Ze.Lib (RangeOrder SetIndex Delta Reread Forward)
open Ze.LocRib (View Change)
open Function (update)
open Option (bind bind_some)

namespace World

/-! ## The changes, by number -/

/-- The prefix waits to be read from the Loc-RIB, and the channel holds a change of it. -/
def Behind (w : World) (key : PrefixKey) : Prop := key ∈ w.waiting ∧ ∃ c ∈ w.ch, c.key = key

/-- The Loc-RIB changes a prefix that waits to be read and has a change in the channel. -/
def Overtakes (w : World) : Act → Prop
  | .report key _ _ => w.Behind key
  | .silent key _ _ => w.Behind key
  | _ => False

variable (st : Setup) (same : View → View → Prop) [DecidableRel same]

/-- What a step is to the queue: a change of a prefix that fits the channel or not, a change handed
to the worker or taken by it, the taking of the overflow, or the read of a prefix.
Source: locrib_feed.go offer, takeOverflow, resyncOverflow -/
def tells (w : World) : Act → Option (Reread.Op PrefixKey)
  | .report key _ _ => some (.change key (decide (w.ch.length < st.cap)))
  | .handoff key _ _ => some (.handed key)
  | .silent key _ _ => some (.change key false)
  | .record _ => none
  | .wake _ => none
  | .receive => some .receive
  | .woken => none
  | .work choice =>
    match w.worker with
    | .resume .take =>
      if w.overflow = ∅ ∨ w.ch ≠ [] then none else some (.take (choice.ord.keys w.overflow))
    | .resume (.keys (_ :: _)) => some .read
    | _ => none

def told (w : World) (acts : List Act) : List (Reread.Op PrefixKey) :=
  Ze.Lib.observed (World.step st same) (tells st) w acts

lemma told_cons (w : World) (act : Act) (acts : List Act) :
    w.told st same (act :: acts) =
      (w.tells st act).toList ++ (w.step st same act).elim [] fun w' => w'.told st same acts := rfl

/-- The queue holds the prefixes of the channel, and the worker is going to read the ones that wait.
-/
structure Agrees (w : World) (r : Reread PrefixKey) : Prop where
  queue : r.queue.map Prod.fst = w.ch.map Delta.key
  waiting : r.waiting = w.waiting

variable {st same} {w w' : World} {r : Reread PrefixKey}

lemma Agrees.queue_eq_nil (h : Agrees w r) : r.queue = [] ↔ w.ch = [] := by
  rw [← map_eq_nil_iff (f := Prod.fst), h.queue, map_eq_nil_iff]

lemma Agrees.behind_iff (h : Agrees w r) (key : PrefixKey) : r.Behind key ↔ w.Behind key := by
  have hqueue : (∃ n, (key, n) ∈ r.queue) ↔ ∃ c ∈ w.ch, c.key = key := by
    rw [← mem_map, ← h.queue]
    simp
  unfold Reread.Behind Behind
  rw [h.waiting, hqueue]

lemma Agrees.congr (h : Agrees w r) (hch : w'.ch = w.ch) (hworker : w'.waiting = w.waiting) :
    Agrees w' r := by
  refine ⟨?_, ?_⟩
  · rw [hch]
    exact h.queue
  · rw [hworker]
    exact h.waiting

lemma Agrees.works {choice : Choice} (h : Agrees w r) (hworks : Works st choice w w') :
    ∃ r', Ze.Lib.run Reread.step r (w.tells st (.work choice)).toList = some r' ∧ Agrees w' r' := by
  cases hworks with
  | walked hworker | skip hworker | store hworker | event hworker | cover hworker | spent hworker
  | still hworker | spread hworker | done hworker =>
    rw [show w.tells st (.work choice) = none by simp [tells, hworker]]
    exact ⟨r, rfl, h.congr rfl (by simp [World.waiting, hworker, Phase.rest, Rest.toRead])⟩
  | untaken hworker hnothing =>
    rw [show w.tells st (.work choice) = none by simp [tells, hworker, hnothing]]
    exact ⟨r, rfl, h.congr rfl (by simp [World.waiting, hworker, Phase.rest, Rest.toRead])⟩
  | take hworker hover hch =>
    have htells : w.tells st (.work choice) = some (.take (choice.ord.keys w.overflow)) := by
      simp [tells, hworker, hover, hch]
    have hqueue : r.queue = [] := h.queue_eq_nil.2 hch
    have hempty : r.waiting = [] := by
      rw [h.waiting]
      simp [World.waiting, hworker, Phase.rest, Rest.toRead]
    rw [htells]
    refine ⟨{ r with waiting := choice.ord.keys w.overflow }, ?_, ⟨h.queue, rfl⟩⟩
    simp [Ze.Lib.run, Reread.step, hqueue, hempty]
  | @read k ks hworker =>
    have htells : w.tells st (.work choice) = some .read := by simp [tells, hworker]
    have hkeys : r.waiting = k :: ks := by
      rw [h.waiting]
      simp [World.waiting, hworker, Phase.rest, Rest.toRead]
    rw [htells]
    refine ⟨{ r with waiting := ks, log := r.log ++ [.read k (r.made k)] }, ?_, ⟨h.queue, rfl⟩⟩
    simp [Ze.Lib.run, Reread.step, hkeys]

omit [DecidableRel same] in
lemma Agrees.steps {act : Act} (h : Agrees w r) (hsteps : Steps st same w act w') :
    ∃ r', Ze.Lib.run Reread.step r (w.tells st act).toList = some r' ∧ Agrees w' r' := by
  cases hsteps with
  | queue _ hroom =>
    refine ⟨_, rfl, ?_, h.waiting⟩
    simp [hroom, h.queue, map_append]
  | crowd _ hroom =>
    refine ⟨_, rfl, ?_, h.waiting⟩
    simp [hroom, h.queue, World.change]
  | @handoff key new _ hidle hch =>
    have hqueue : r.queue = [] := h.queue_eq_nil.2 hch
    have hwaiting : r.waiting = [] := by
      rw [h.waiting]
      simp [World.waiting, hidle, Phase.rest]
    refine ⟨{ r with
      made := update r.made key (r.made key + 1)
      log := r.log ++ [.queued key (r.made key + 1)] }, ?_, ?_, ?_⟩
    · simp [tells, Ze.Lib.run, Reread.step, hqueue, hwaiting]
    · simp [hqueue, World.change, hch]
    · rw [hwaiting]
      simp [World.waiting, Phase.rest, Rest.toRead]
  | silent => exact ⟨_, rfl, h.queue, h.waiting⟩
  | record | wake => exact ⟨r, rfl, h.congr rfl rfl⟩
  | receive hidle hch =>
    have hwaiting : r.waiting = [] := by
      rw [h.waiting]
      simp [World.waiting, hidle, Phase.rest]
    have hmap := h.queue
    rw [hch, map_cons, map_eq_cons_iff] at hmap
    obtain ⟨⟨k, n⟩, queue, hqueue, -, hrest⟩ := hmap
    refine ⟨{ r with queue := queue, log := r.log ++ [.queued k n] }, ?_, hrest, ?_⟩
    · simp [tells, Ze.Lib.run, Reread.step, hqueue, hwaiting]
    · rw [hwaiting]
      simp [World.waiting, Phase.rest, Rest.toRead]
  | woken hidle =>
    exact ⟨r, rfl, h.congr rfl (by simp [World.waiting, hidle, Phase.rest, Rest.toRead])⟩
  | work hworks => exact h.works hworks

/-! ## Runs -/

/-- What a run is to the queue is a run of it. -/
lemma Agrees.run : (acts : List Act) → ∀ (w w' : World) (r : Reread PrefixKey), Agrees w r →
    Ze.Lib.run (World.step st same) w acts = some w' →
    ∃ r', Ze.Lib.run Reread.step r (w.told st same acts) = some r' ∧ Agrees w' r'
  | [], w, w', r, h, hrun => by
      rw [Ze.Lib.run_nil] at hrun
      cases hrun
      exact ⟨r, rfl, h⟩
  | act :: acts, w, w', r, h, hrun => by
      rw [Ze.Lib.run_cons] at hrun
      obtain ⟨w₁, hstep, hrest⟩ := Option.bind_eq_some_iff.1 hrun
      obtain ⟨r₁, hr₁, h₁⟩ := h.steps (steps_of_step hstep)
      obtain ⟨r', hr', h'⟩ := Agrees.run acts w₁ w' r₁ h₁ hrest
      refine ⟨r', ?_, h'⟩
      rw [told_cons, hstep, Option.elim_some, Ze.Lib.run_append, hr₁, bind_some, hr']

lemma Agrees.overtakes_iff (h : Agrees w r) (act : Act) :
    w.Overtakes act ↔ ∃ op ∈ w.tells st act, r.Overtakes op := by
  cases act with
  | report key new lpm => simpa [tells, Overtakes, Reread.Overtakes] using (h.behind_iff key).symm
  | silent key v lpm => simpa [tells, Overtakes, Reread.Overtakes] using (h.behind_iff key).symm
  | work choice =>
    simp only [tells, Overtakes, false_iff]
    rintro ⟨op, hop, hover⟩
    split at hop
    · split_ifs at hop
      · cases hop
      · cases hop
        exact hover
    · cases hop
      exact hover
    · cases hop
  | _ => simp [tells, Overtakes, Reread.Overtakes]

/-- A run overtakes where its image does. -/
lemma Agrees.meets_iff : (acts : List Act) → ∀ (w : World) (r : Reread PrefixKey), Agrees w r →
    (Ze.Lib.Meets (World.step st same) (fun w act => ¬w.Overtakes act) w acts ↔
      Ze.Lib.Meets Reread.step (fun r op => ¬r.Overtakes op) r (w.told st same acts))
  | [], _, _, _ => Iff.rfl
  | act :: acts, w, r, h => by
      have hhead : ¬w.Overtakes act ↔ Ze.Lib.Meets Reread.step (fun r op => ¬r.Overtakes op) r
          (w.tells st act).toList := by
        have hover : w.Overtakes act ↔ ∃ op ∈ w.tells st act, r.Overtakes op := h.overtakes_iff act
        rw [hover]
        cases w.tells st act with
        | none | some op => simp [Ze.Lib.Meets]
      rw [told_cons, Ze.Lib.meets_append, ← hhead]
      refine and_congr_right fun _ => ?_
      cases hstep : w.step st same act with
      | none => simp [Ze.Lib.Meets]
      | some w₁ =>
        obtain ⟨r₁, hr₁, h₁⟩ := h.steps (steps_of_step hstep)
        have hrest := Agrees.meets_iff acts w₁ r₁ h₁
        simpa [hr₁] using hrest

lemma agrees_start (loc : Loc) (rib : SysRIB) (ks : List PrefixKey) :
    Agrees (start loc rib ks) Reread.empty :=
  ⟨rfl, rfl⟩

/-- **Theorem.** For every size of the channel and every interleaving of the changes of the Loc-RIB,
the offers, the wakes and the steps of the worker, number the changes of each prefix. In a run in
which no prefix that waits to be read and has a change in the channel changes again, no queued
change is processed after a read of its prefix from the Loc-RIB that already held a later one; and
in a run that leaves the channel empty, only then. -/
theorem steps_forward_iff (st : Setup) (same : View → View → Prop) [DecidableRel same] (loc : Loc)
    (rib : SysRIB) (ks : List PrefixKey) (acts : List Act) (w : World)
    (hrun : Ze.Lib.run (World.step st same) (start loc rib ks) acts = some w) :
    ∃ r, Ze.Lib.run Reread.step Reread.empty ((start loc rib ks).told st same acts) = some r ∧
      (Ze.Lib.Meets (World.step st same) (fun w act => ¬w.Overtakes act) (start loc rib ks) acts →
        Forward r.log) ∧
      (w.ch = [] → Forward r.log →
        Ze.Lib.Meets (World.step st same) (fun w act => ¬w.Overtakes act) (start loc rib ks)
          acts) := by
  obtain ⟨r, hr, hagrees⟩ := Agrees.run acts _ w _ (agrees_start loc rib ks) hrun
  have hmeets : Ze.Lib.Meets (World.step st same) (fun w act => ¬w.Overtakes act)
      (start loc rib ks) acts ↔ _ := Agrees.meets_iff acts _ _ (agrees_start loc rib ks)
  refine ⟨r, hr, fun hm => ?_, fun hch hforward => ?_⟩
  · exact Reread.forward_of_meets _ hr (hmeets.1 hm)
  · apply hmeets.2
    exact Reread.meets_of_forward _ hr (hagrees.queue_eq_nil.2 hch) hforward

instance (w : World) (act : Act) : Decidable (w.Overtakes act) :=
  match act with
  | .report key _ _ => inferInstanceAs (Decidable (key ∈ w.waiting ∧ ∃ c ∈ w.ch, c.key = key))
  | .silent key _ _ => inferInstanceAs (Decidable (key ∈ w.waiting ∧ ∃ c ∈ w.ch, c.key = key))
  | .handoff _ _ _ | .record _ | .wake _ | .receive | .woken | .work _ =>
    inferInstanceAs (Decidable False)

/-- With room for one change: the second change of the prefix overflows, the first is taken from the
channel, the prefix is read, and a third change is queued behind the read. -/
noncomputable def readBetween : List Act :=
  [Act.work exampleChoice, .report exampleKey (some exampleView) fun _ _ => none,
    .report exampleKey none fun _ _ => none, .record exampleKey, .wake exampleKey, .receive] ++
  replicate 5 (Act.work exampleChoice) ++
  [Act.report exampleKey (some exampleView) fun _ _ => none] ++
  replicate 4 (Act.work exampleChoice) ++ Act.receive :: replicate 4 (Act.work exampleChoice)

/-- No change overtakes another: the prefix goes through its first, second and third change. -/
theorem readBetween_steps_forward :
    ∃ w r, Ze.Lib.run (World.step (staticSetup 1) (· = ·))
        (start ⟨fun _ => none, fun _ _ => none⟩ SysRIB.new []) readBetween = some w ∧
      Ze.Lib.run Reread.step Reread.empty
        ((start ⟨fun _ => none, fun _ _ => none⟩ SysRIB.new []).told (staticSetup 1) (· = ·)
          readBetween) = some r ∧
      r.log = [.queued exampleKey 1, .read exampleKey 2, .queued exampleKey 3] ∧ Forward r.log := by
  have heval : (Ze.Lib.run (World.step (staticSetup 1) (· = ·))
      (start ⟨fun _ => none, fun _ _ => none⟩ SysRIB.new []) readBetween).isSome := by
    decide +kernel
  have hlog : ((Ze.Lib.run Reread.step Reread.empty
      ((start ⟨fun _ => none, fun _ _ => none⟩ SysRIB.new []).told (staticSetup 1) (· = ·)
        readBetween)).map Reread.log) =
      some [.queued exampleKey 1, .read exampleKey 2, .queued exampleKey 3] := by
    decide +kernel
  have hmeets : Ze.Lib.Meets (World.step (staticSetup 1) (· = ·)) (fun w act => ¬w.Overtakes act)
      (start ⟨fun _ => none, fun _ _ => none⟩ SysRIB.new []) readBetween := by
    decide +kernel
  obtain ⟨w, hrun⟩ := Option.isSome_iff_exists.mp heval
  obtain ⟨r, hr, hforward, -⟩ := steps_forward_iff (staticSetup 1) (· = ·) _ _ _ _ w hrun
  rw [hr, Option.map_some, Option.some.injEq] at hlog
  exact ⟨w, r, hrun, hr, hlog, hforward hmeets⟩

/-! ## A full channel -/

end World

namespace SysRIB

variable {st : Setup} {s : SysRIB} {env : Env} {lpm : Lpm} {key : PrefixKey} {u : Option View}

/-- The system RIB holds routes of the Loc-RIB that depend on no next-hop. -/
structure Independent (st : Setup) (s : SysRIB) : Prop where
  kept : s.Kept st
  best : ∀ key b, s.best.lookup key = some b → b.trackedAddrs = []
  tracking : ∀ nh, SetIndex.at_ s.tracking nh = ∅

lemma Independent.protocols {proto : String} {r : ProtocolRoute} (h : s.Independent st)
    (hr : (s.protocols key).lookup proto = some r) : r.trackedAddrs = [] := by
  obtain ⟨v, hroutes, hbest, -⟩ := (h.kept.at_ key).holds
  obtain ⟨v', hv', rfl⟩ := exists_of_mem_protocols hroutes hr
  refine h.best key _ ?_
  rw [hbest, Option.mem_def.1 hv', Option.map_some]

lemma Independent.event (h : s.Independent st) (henv : env.lpm = some lpm)
    (hu : ∀ v ∈ u, Followed st key v ∧ (locRoute st v).trackedAddrs = []) :
    (s.afterEvent st env key u).Independent st := by
  have hsettles := h.kept.event henv u fun v hv => (hu v hv).1
  have hold : ∀ nh q, s.ForeignAt key nh q := by
    intro nh q
    refine ⟨fun b hb => ?_, fun proto r hr => ?_⟩
    · simp [Foreign, h.best key b hb]
    · simp [Foreign, h.protocols hr]
  obtain ⟨t, ht⟩ := s.untrackNextHopGroup_eq env key
  have hroutes : ((s.retrack t).load st key u).routes.lookup key = u.map (stored st) := by
    rw [lookup_load, if_pos rfl]
  have hprev : ∀ b, ((s.retrack t).load st key u).best.lookup key = some b →
      s.best.lookup key = some b := by
    intro b hb
    cases u <;> exact hb
  have hnew : ∀ nh q, ((s.retrack t).load st key u).ForeignAt key nh q := by
    intro nh q
    refine ⟨fun b hb => (hold nh q).1 b (hprev b hb), fun proto r hr => ?_⟩
    obtain ⟨v, hv, rfl⟩ := exists_of_mem_protocols hroutes hr
    simp [Foreign, (hu v hv).2]
  have hafter : s.afterEvent st env key u =
      (((s.retrack t).load st key u).recomputeBest env key).1 := by
    unfold afterEvent
    rw [ht]
  refine ⟨hsettles.kept, ?_, ?_⟩
  · intro k b hb
    by_cases hk : k = key
    · subst hk
      rw [(h.kept.inv.event env k u).best] at hb
      obtain ⟨v, hv, rfl⟩ := Option.map_eq_some_iff.1 hb
      exact (hu v hv).2
    · rw [(hsettles.same k hk).best] at hb
      exact h.best k b hb
  · intro nh
    have howns : ((s.retrack t).load st key u).Owns key :=
      ((h.kept.inv.load u).programmable key).owns
    refine Finset.eq_empty_of_forall_notMem fun q hq => ?_
    rw [hafter, mem_recomputeBest howns (hnew nh q)] at hq
    have hloaded : ((s.retrack t).load st key u).tracking =
        (s.untrackNextHopGroup env key).tracking := by
      rw [ht]
      cases u <;> rfl
    rw [hloaded, mem_untrackNextHopGroup (hold nh q), h.tracking nh] at hq
    exact absurd hq (Finset.notMem_empty q)

end SysRIB

namespace World

variable {st : Setup} (same : View → View → Prop) [DecidableRel same] {w : World} {key : PrefixKey}
  (choice : Choice)

/-- A view that depends on no next-hop, or a removal. -/
def DeviceOnly (st : Setup) (key : PrefixKey) (new : Option View) : Prop :=
  WellFormed st key new ∧ ∀ v ∈ new, Followed st key v ∧ (locRoute st v).trackedAddrs = []

variable {c : Change} {cap : ℕ}

lemma run_turn {rest : Rest} (hrib : w.rib.Independent st)
    (hc : DeviceOnly st c.key (value c)) (hevent : w.worker = .event c rest) :
    ∃ rib, rib.Independent st ∧
      Ze.Lib.run (World.step st same) w [.work choice, .work choice, .work choice] =
        some { w with worker := .resume rest, rib := rib } := by
  have hrib : (w.processed st choice c).Independent st := by
    rw [processed_eq w choice hc.1]
    exact hrib.event rfl hc.2
  have hnone : dependentKeys (w.processed st choice c).tracking
      (coveredNHs w.loc.lpm (w.processed st choice c).tracking c.key.2) = ∅ := by
    ext k
    simp [dependentKeys, hrib.tracking]
  have hlist : choice.ord.keys ∅ = [] := by
    refine eq_nil_iff_forall_not_mem.2 fun k hk => ?_
    exact absurd ((choice.ord.mem_keys _ _).1 hk) (Finset.notMem_empty k)
  refine ⟨w.processed st choice c, hrib, ?_⟩
  simp only [Ze.Lib.run, World.step, work, hevent, bind_some, hnone, hlist]

/-- The steps with which the worker takes a change from the channel, processes it and asks for the
overflow. -/
def cycle (choice : Choice) : List Act :=
  [.receive, .work choice, .work choice, .work choice, .work choice]

lemma run_cycle {ch : List Change} (hrib : w.rib.Independent st)
    (hc : DeviceOnly st c.key (value c)) (hidle : w.worker = .idle) (hch : w.ch = c :: ch) :
    ∃ rib, rib.Independent st ∧ Ze.Lib.run (World.step st same) w (cycle choice) =
      ({ w with ch := ch, worker := .resume .take, rib := rib } : World).work st choice := by
  let w₁ : World := { w with ch := ch, worker := .event c .take }
  have hstep : w.step st same .receive = some w₁ := by simp [World.step, hidle, hch, w₁]
  have hrib₁ : w₁.rib.Independent st := hrib
  obtain ⟨rib, hrib, hturn⟩ : ∃ rib : SysRIB, rib.Independent st ∧
      Ze.Lib.run (World.step st same) w₁ [.work choice, .work choice, .work choice] =
        some { w₁ with worker := .resume .take, rib := rib } :=
    run_turn same choice hrib₁ hc rfl
  refine ⟨rib, hrib, ?_⟩
  have hsplit : cycle choice =
      .receive :: ([.work choice, .work choice, .work choice] ++ [.work choice]) := rfl
  rw [hsplit, Ze.Lib.run_cons, hstep, bind_some, Ze.Lib.run_append, hturn, bind_some,
    Ze.Lib.run_cons]
  exact Option.bind_fun_some _

/-- The worker takes changes until the channel is empty. -/
def drain (choice : Choice) (n : ℕ) : List Act := (replicate n (cycle choice)).flatten

lemma drain_succ (n : ℕ) : drain choice (n + 1) = cycle choice ++ drain choice n := by
  rw [drain, replicate_succ, flatten_cons, drain]

lemma run_drain : (ch : List Change) → ∀ (c : Change) (w : World), w.rib.Independent st →
    (∀ d ∈ c :: ch, DeviceOnly st d.key (value d)) → w.worker = .idle → w.ch = c :: ch →
    w.overflow = {key} →
    ∃ rib : SysRIB, rib.Independent st ∧
      Ze.Lib.run (World.step st same) w (drain choice (ch.length + 1)) =
        some { w with ch := [], overflow := ∅, worker := .resume (.keys [key]), rib := rib }
  | [], c, w, hrib, hok, hidle, hch, hover => by
      obtain ⟨rib, hrib, hcycle⟩ := run_cycle same choice hrib (hok c mem_cons_self) hidle hch
      refine ⟨rib, hrib, ?_⟩
      rw [length_nil, drain_succ, Ze.Lib.run_append, hcycle]
      simp [work, hover, drain, RangeOrder.keys_singleton]
  | d :: ch, c, w, hrib, hok, hidle, hch, hover => by
      obtain ⟨rib, hrib, hcycle⟩ := run_cycle same choice hrib (hok c mem_cons_self) hidle hch
      let w₁ : World := { w with ch := d :: ch, worker := .idle, rib := rib }
      obtain ⟨rib', hrib', hrest⟩ := run_drain ch d w₁ hrib
        (fun e he => hok e (mem_cons_of_mem c he)) rfl rfl hover
      refine ⟨rib', hrib', ?_⟩
      have htake : ({ w with ch := d :: ch, worker := .resume .take, rib := rib } : World).work st
          choice = some w₁ := by
        simp [work, w₁]
      rw [length_cons, drain_succ, Ze.Lib.run_append, hcycle, htake, bind_some, hrest]

def flapKey : PrefixKey := (⟨1, 1⟩, ⟨.v4 0x0a010000#32, 16⟩)

def stepKey : PrefixKey := (⟨1, 1⟩, ⟨.v4 0x0a020000#32, 16⟩)

def deviceAt (metric : ℕ) : View :=
  ({ source := 1, interface := "eth0", metric := UInt32.ofNat metric }, [])

/-- The longest matches of a Loc-RIB with the two prefixes. -/
def lpmOf (flap step : Option View) : Lpm :=
  (Loc.of fun k => if k = flapKey then flap else if k = stepKey then step else none).lpm

def fill (n : ℕ) : List Act :=
  (range n).map fun i => .report flapKey (some (deviceAt i)) (lpmOf (some (deviceAt i)) none)

lemma deviceOnly_deviceAt (cap n : ℕ) (hfam : key.1 ≠ ⟨0, 0⟩) (hvalid : key.2.isValid) :
    DeviceOnly (staticSetup cap) key (some (deviceAt n)) := by
  refine ⟨⟨hfam, hvalid, ?_⟩, ?_⟩
  · intro v hv
    cases hv
    simp [staticSetup, deviceAt]
  · intro v hv
    cases hv
    have htracked : (locRoute (staticSetup cap) (deviceAt n)).trackedAddrs = [] := rfl
    exact ⟨⟨⟨rfl, rfl, by simp [deviceAt]⟩, .inr htracked⟩, htracked⟩

lemma step_report {new : Option View} {lpm : Lpm} (hmay : MayChange st w key new)
    (hroom : w.ch.length < st.cap) :
    w.step st same (.report key new lpm) = some { w with
      loc := ⟨update w.loc.current key new, lpm⟩
      ch := w.ch ++ [changeFor key (w.loc.current key) new] } := by
  rw [World.step, if_neg (not_not.2 hmay), if_pos hroom]
  rfl

lemma run_fill (cap : ℕ) : (n : ℕ) → ∀ w : World, w.offering = ∅ → w.ch.length + n ≤ cap →
    (∀ c ∈ w.ch, DeviceOnly (staticSetup cap) c.key (value c)) →
    ∃ (loc : Loc) (ch : List Change),
      Ze.Lib.run (World.step (staticSetup cap) same) w (fill n) =
        some { w with loc := loc, ch := ch } ∧
      ch.length = w.ch.length + n ∧ ∀ c ∈ ch, DeviceOnly (staticSetup cap) c.key (value c)
  | 0, w, _, _, hok => ⟨w.loc, w.ch, rfl, rfl, hok⟩
  | n + 1, w, hoffer, hroom, hok => by
      obtain ⟨loc, ch, hrun, hlen, hch⟩ := run_fill cap n w hoffer (by omega) hok
      have hdevice : DeviceOnly (staticSetup cap) flapKey (some (deviceAt n)) :=
        deviceOnly_deviceAt cap n (by decide) (by decide)
      have hfits : ch.length < (staticSetup cap).cap := by
        show ch.length < cap
        omega
      have hmay : MayChange (staticSetup cap) { w with loc := loc, ch := ch } flapKey
          (some (deviceAt n)) := by
        refine ⟨?_, hdevice.1, .inl (by simp)⟩
        rw [hoffer]
        exact Finmap.lookup_empty _
      refine ⟨⟨update loc.current flapKey (some (deviceAt n)), lpmOf (some (deviceAt n)) none⟩,
        ch ++ [changeFor flapKey (loc.current flapKey) (some (deviceAt n))], ?_,
        by simp [hlen, Nat.add_assoc], ?_⟩
      · rw [fill, range_succ, map_append, Ze.Lib.run_append, ← fill, hrun,
          bind_some, map_singleton, Ze.Lib.run_cons, step_report same hmay hfits,
          bind_some, Ze.Lib.run_nil]
      · intro d hd
        rcases mem_append.1 hd with hd | hd
        · exact hch d hd
        · rw [mem_singleton] at hd
          rw [hd, key_changeFor, value_changeFor]
          exact hdevice

/-- The steps until the overflow was taken: the channel is full of changes of one prefix when the
other changes, and the worker drains it. -/
def overflowSteps (cap : ℕ) : List Act :=
  fill cap ++ ([.report stepKey (some (deviceAt 1)) (lpmOf (some (deviceAt (cap - 1)))
    (some (deviceAt 1))), .record stepKey, .wake stepKey, .work choice] ++ drain choice cap)

def stepReport (cap n : ℕ) : Act :=
  .report stepKey (some (deviceAt n)) (lpmOf (some (deviceAt (cap - 1))) (some (deviceAt n)))

/-- The prefix changes twice before the worker has read it, and then the channel is drained again.
-/
def stepBackRun (cap : ℕ) : List Act :=
  (overflowSteps choice cap ++ [stepReport cap 2]) ++ stepReport cap 3 ::
    ([.work choice, .work choice, .work choice, .work choice, .work choice] ++ drain choice 2)

def emptyStart : World := start (Loc.of fun _ => none) (emptyRIB (fun _ => none) fun _ => none) []

lemma run_overflow (loc : Loc) (ch : List Change) (rib : SysRIB) (lpm : Lpm)
    (hfull : ch.length = cap) :
    ∃ loc', Ze.Lib.run (World.step (staticSetup cap) same) ⟨loc, ch, ∅, false, ∅, .seed [], rib⟩
        [.report stepKey (some (deviceAt 1)) lpm, .record stepKey, .wake stepKey, .work choice] =
      some ⟨loc', ch, {stepKey}, true, ∅, .idle, rib⟩ := by
  have hmay : MayChange (staticSetup cap) ⟨loc, ch, ∅, false, ∅, .seed [], rib⟩ stepKey
      (some (deviceAt 1)) :=
    ⟨Finmap.lookup_empty _, (deviceOnly_deviceAt cap 1 (by decide) (by decide)).1, .inl (by simp)⟩
  have hroom : ¬ch.length < (staticSetup cap).cap := by
    show ¬ch.length < cap
    omega
  have hover : ((∅ : Finmap fun _ : PrefixKey => Offer).insert stepKey .recorded).erase stepKey =
      ∅ := by
    apply Finmap.ext_lookup
    intro k
    by_cases hk : k = stepKey
    · subst hk
      rw [Finmap.lookup_erase, Finmap.lookup_empty]
    · rw [Finmap.lookup_erase_ne hk, Finmap.lookup_insert_of_ne _ hk]
  refine ⟨⟨update loc.current stepKey (some (deviceAt 1)), lpm⟩, ?_⟩
  simp [Ze.Lib.run, World.step, hmay, hroom, World.change, work, hover]

lemma run_overflowSteps (hcap : 0 < cap) :
    ∃ w, Ze.Lib.run (World.step (staticSetup cap) same) emptyStart (overflowSteps choice cap) =
        some w ∧
      w.rib.Independent (staticSetup cap) ∧ w.ch = [] ∧ w.overflow = ∅ ∧ w.offering = ∅ ∧
      w.worker = .resume (.keys [stepKey]) := by
  obtain ⟨loc, ch, hfill, hlen, hch⟩ :=
    run_fill same cap cap emptyStart rfl (by simp [emptyStart, start]) (by simp [emptyStart, start])
  have hlen : ch.length = cap := by simpa [emptyStart, start] using hlen
  have hrib : (emptyRIB (fun _ => none) fun _ => none).Independent (staticSetup cap) := by
    refine ⟨kept_empty _ _, ?_, ?_⟩
    · simp [emptyRIB, SysRIB.new]
    · intro nh
      rfl
  obtain ⟨loc', hfull⟩ := run_overflow same choice loc ch (emptyRIB (fun _ => none) fun _ => none)
    (lpmOf (some (deviceAt (cap - 1))) (some (deviceAt 1))) hlen
  rcases ch with _ | ⟨c, ch⟩
  · rw [length_nil] at hlen
    omega
  · let w : World :=
      ⟨loc', c :: ch, {stepKey}, true, ∅, .idle, emptyRIB (fun _ => none) fun _ => none⟩
    have hover : w.overflow = {stepKey} := rfl
    obtain ⟨rib, hrib, hdrain⟩ := run_drain same choice ch c w hrib hch rfl rfl hover
    refine ⟨{ w with ch := [], overflow := ∅, worker := .resume (.keys [stepKey]), rib := rib }, ?_,
      hrib, rfl, rfl, rfl, rfl⟩
    rw [length_cons] at hlen
    rw [hlen] at hdrain
    rw [overflowSteps, Ze.Lib.run_append, hfill, bind_some, Ze.Lib.run_append]
    exact (congrArg (bind · _) hfull).trans hdrain

lemma run_read {v : View} (hrib : w.rib.Independent st) (hv : DeviceOnly st key (some v))
    (hworker : w.worker = .resume (.keys [key])) (hoffer : w.offering = ∅)
    (hcurrent : w.loc.current key = some v) :
    ∃ rib : SysRIB, rib.Independent st ∧ Ze.Lib.run (World.step st same) w
        [.work choice, .work choice, .work choice, .work choice, .work choice] =
      some { w with worker := .idle, rib := rib } := by
  let w₁ : World := { w with worker := .event (.add key v) (.keys []) }
  have hread : w.step st same (.work choice) = some w₁ := by
    simp [World.step, work, hworker, hoffer, hcurrent, w₁]
  have hrib₁ : w₁.rib.Independent st := hrib
  have hadd : DeviceOnly st (Delta.key (.add key v)) (value (.add key v)) := hv
  obtain ⟨rib, hrib, hturn⟩ : ∃ rib : SysRIB, rib.Independent st ∧
      Ze.Lib.run (World.step st same) w₁ [.work choice, .work choice, .work choice] =
        some { w₁ with worker := .resume (.keys []), rib := rib } :=
    run_turn same choice hrib₁ hadd rfl
  refine ⟨rib, hrib, ?_⟩
  have hsplit : [Act.work choice, .work choice, .work choice, .work choice, .work choice] =
      .work choice :: ([.work choice, .work choice, .work choice] ++ [.work choice]) := rfl
  rw [hsplit, Ze.Lib.run_cons, hread, bind_some, Ze.Lib.run_append, hturn, bind_some]
  rfl

lemma run_drain_two {d : Change} (hrib : w.rib.Independent st)
    (hc : DeviceOnly st c.key (value c)) (hd : DeviceOnly st d.key (value d))
    (hidle : w.worker = .idle) (hch : w.ch = [c, d]) (hover : w.overflow = ∅) :
    ∃ w', Ze.Lib.run (World.step st same) w (drain choice 2) = some w' ∧ w'.ch = [] := by
  obtain ⟨rib, hrib, hfirst⟩ := run_cycle same choice hrib hc hidle hch
  let w₁ : World := { w with ch := [d], worker := .idle, rib := rib }
  have hidle₁ : ({ w with ch := [d], worker := .resume .take, rib := rib } : World).work st choice =
      some w₁ := by
    simp [work, w₁]
  have hrib₁ : w₁.rib.Independent st := hrib
  obtain ⟨rib', -, hsecond⟩ := run_cycle (w := w₁) same choice hrib₁ hd rfl rfl
  have hidle₂ : ({ w₁ with ch := [], worker := .resume .take, rib := rib' } : World).work st
      choice = some { w₁ with ch := [], worker := .idle, rib := rib' } := by
    simp [work, w₁, hover]
  refine ⟨{ w₁ with ch := [], worker := .idle, rib := rib' }, ?_, rfl⟩
  rw [drain_succ, drain_succ, Ze.Lib.run_append, hfirst, hidle₁, bind_some,
    Ze.Lib.run_append, hsecond, hidle₂, bind_some]
  rfl

lemma run_stepBackRun (hcap : 1 < cap) :
    ∃ w, Ze.Lib.run (World.step (staticSetup cap) same) emptyStart (stepBackRun choice cap) =
        some w ∧ w.ch = [] ∧
      ¬Ze.Lib.Meets (World.step (staticSetup cap) same) (fun w act => ¬w.Overtakes act) emptyStart
        (stepBackRun choice cap) := by
  obtain ⟨w, hrun, hrib, hch, hover, hoffer, hworker⟩ :=
    run_overflowSteps same choice (Nat.lt_of_succ_lt hcap)
  have hdevice : ∀ n, DeviceOnly (staticSetup cap) stepKey (some (deviceAt n)) :=
    fun n => deviceOnly_deviceAt cap n (by decide) (by decide)
  have hmay : ∀ (w : World) (n : ℕ), w.offering = ∅ →
      MayChange (staticSetup cap) w stepKey (some (deviceAt n)) := by
    intro w n hoffer
    refine ⟨?_, (hdevice n).1, .inl (by simp)⟩
    rw [hoffer]
    exact Finmap.lookup_empty _
  have hreported : ∀ (w : World) (n : ℕ), w.offering = ∅ → w.ch.length < cap →
      ∃ c : Change, c.key = stepKey ∧ value c = some (deviceAt n) ∧
        w.step (staticSetup cap) same (stepReport cap n) = some { w with
          loc := ⟨update w.loc.current stepKey (some (deviceAt n)),
            lpmOf (some (deviceAt (cap - 1))) (some (deviceAt n))⟩
          ch := w.ch ++ [c] } :=
    fun w n hoffer hroom => ⟨_, key_changeFor _ _ _, value_changeFor _ _ _,
      step_report same (hmay w n hoffer) hroom⟩
  obtain ⟨c, hckey, hcvalue, hsecond⟩ :=
    hreported w 2 hoffer (by rw [hch]; exact Nat.lt_of_succ_lt hcap)
  set w₁ : World := { w with
    loc := ⟨update w.loc.current stepKey (some (deviceAt 2)),
      lpmOf (some (deviceAt (cap - 1))) (some (deviceAt 2))⟩
    ch := w.ch ++ [c] } with hw₁
  have hch₁ : w₁.ch = [c] := by simp [hw₁, hch]
  obtain ⟨d, hdkey, hdvalue, hthird⟩ := hreported w₁ 3 hoffer (by rw [hch₁]; exact hcap)
  set w₂ : World := { w₁ with
    loc := ⟨update w₁.loc.current stepKey (some (deviceAt 3)),
      lpmOf (some (deviceAt (cap - 1))) (some (deviceAt 3))⟩
    ch := w₁.ch ++ [d] } with hw₂
  have hch₂ : w₂.ch = [c, d] := by simp [hw₂, hch₁]
  have hcurrent₂ : w₂.loc.current stepKey = some (deviceAt 3) := by simp [hw₂]
  obtain ⟨rib, hrib, hread⟩ := run_read (w := w₂) same choice hrib (hdevice 3) hworker hoffer
    hcurrent₂
  obtain ⟨w', hdrain, hempty⟩ := run_drain_two (w := { w₂ with worker := .idle, rib := rib }) same
    choice hrib (by rw [hckey, hcvalue]; exact hdevice 2) (by rw [hdkey, hdvalue]; exact hdevice 3)
    rfl hch₂ hover
  have hfirst : Ze.Lib.run (World.step (staticSetup cap) same) emptyStart
      (overflowSteps choice cap ++ [stepReport cap 2]) = some w₁ := by
    rw [Ze.Lib.run_append, hrun, bind_some, Ze.Lib.run_cons, hsecond]
    rfl
  refine ⟨w', ?_, hempty, ?_⟩
  · rw [stepBackRun, Ze.Lib.run_append, hfirst, bind_some, Ze.Lib.run_cons, hthird,
      bind_some, Ze.Lib.run_append, hread, bind_some, hdrain]
  · intro hmeets
    have hcond := ((Ze.Lib.meets_append _ _ _).1 hmeets).2 w₁ hfirst
    refine hcond.1 ⟨?_, c, ?_, hckey⟩
    · show stepKey ∈ w₁.waiting
      have hworker₁ : w₁.worker = .resume (.keys [stepKey]) := hworker
      simp [waiting, hworker₁, Phase.rest, Rest.toRead]
    · rw [hch₁]
      exact mem_singleton_self c

lemma not_forward_stepBackRun (hcap : 1 < cap) :
    ∃ w r, Ze.Lib.run (World.step (staticSetup cap) same) emptyStart (stepBackRun choice cap) =
        some w ∧
      Ze.Lib.run Reread.step Reread.empty
        (emptyStart.told (staticSetup cap) same (stepBackRun choice cap)) = some r ∧
      ¬Forward r.log := by
  obtain ⟨w, hrun, hch, hmeets⟩ := run_stepBackRun same choice hcap
  obtain ⟨r, hr, hagrees⟩ := Agrees.run _ emptyStart w _ (agrees_start _ _ _) hrun
  refine ⟨w, r, hrun, hr, fun hforward => hmeets ?_⟩
  apply (Agrees.meets_iff _ _ _ (agrees_start _ _ _)).2
  exact Reread.meets_of_forward _ hr (hagrees.queue_eq_nil.2 hch) hforward

/-- Ranges that meet the one protocol and the two prefixes. -/
noncomputable def stepChoice : Choice where
  range := RangeOrder.listing ["static"] (nodup_singleton _)
  sort := PathSort.insertion
  ord := RangeOrder.listing [flapKey, stepKey] (by decide)

/-- With the channel of the program: 4096 changes of one prefix are queued when another changes for
the first time, and it changes twice more after the worker took the overflow. The worker reads it
with its third change, and then processes the second. -/
theorem overflow_steps_back :
    ∃ w r, Ze.Lib.run (World.step (staticSetup locRIBFeedSize) (· = ·)) emptyStart
        (stepBackRun stepChoice locRIBFeedSize) = some w ∧
      Ze.Lib.run Reread.step Reread.empty
        (emptyStart.told (staticSetup locRIBFeedSize) (· = ·)
          (stepBackRun stepChoice locRIBFeedSize)) = some r ∧
      ¬Forward r.log :=
  not_forward_stepBackRun (· = ·) stepChoice (by decide)

end World

end Ze.SysRib
