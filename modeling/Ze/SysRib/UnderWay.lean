import Ze.Lib.Run
import Ze.SysRib.Feed

/-!
# What is under way in the feed

The views that the parties of the feed hold: the Loc-RIB, the channel, the change in the worker's
hand, and the prefixes it is going to read. `Works` and `Steps` say what a step can do; `Formed` is
an invariant of all views under way, whatever is asked of each of them (`Formed.steps`).
-/

namespace Ze.SysRib

open List

open Ze.Lib (lookup_erase_eq)
open Ze.LocRib (View Change)
open Ze.Net (Prefix)

namespace World

/-! ## What a step does -/

/-- The change with which the worker goes on from the view of a prefix that it reads.
Source: locrib_feed.go resyncOverflow -/
def reread (k : PrefixKey) (u : Option View) : Change := u.elim (.remove k) (.add k)

@[simp] lemma key_reread (k : PrefixKey) (u : Option View) : (reread k u).key = k := by
  cases u <;> rfl

@[simp] lemma value_reread (k : PrefixKey) (u : Option View) : value (reread k u) = u := by
  cases u <;> rfl

section

variable (st : Setup)

/-- The steps of the worker: one case for each branch of `work`. -/
inductive Works (choice : Choice) (w : World) : World → Prop
  | walked (hworker : w.worker = .seed []) : Works choice w { w with worker := .idle }
  | skip {k : PrefixKey} {ks : List PrefixKey} (hworker : w.worker = .seed (k :: ks))
      (hoffer : w.offering.lookup k = none) (hcurrent : w.loc.current k = none) :
      Works choice w { w with worker := .seed ks }
  | store {k : PrefixKey} {ks : List PrefixKey} {v : View} (hworker : w.worker = .seed (k :: ks))
      (hoffer : w.offering.lookup k = none) (hcurrent : w.loc.current k = some v) :
      Works choice w { w with worker := .seed ks, rib := w.processed st choice (.add k v) }
  | event {c : Change} {rest : Rest} (hworker : w.worker = .event c rest) :
      Works choice w { w with worker := .cover c.key.2 rest, rib := w.processed st choice c }
  | cover {pfx : Prefix} {rest : Rest} {first : Finset PrefixKey}
      (hworker : w.worker = .cover pfx rest)
      (hfirst : first = dependentKeys w.rib.tracking (coveredNHs w.loc.lpm w.rib.tracking pfx)) :
      Works choice w { w with worker := .cascade (choice.ord.keys first) first rest }
  | spent {seen : Finset PrefixKey} {rest : Rest} (hworker : w.worker = .cascade [] seen rest) :
      Works choice w { w with worker := .resume rest }
  | still {key : PrefixKey} {rem : List PrefixKey} {seen : Finset PrefixKey} {rest : Rest}
      (hworker : w.worker = .cascade (key :: rem) seen rest)
      (hsame : (w.rib.cascadeRecompute (w.env choice) key).2 = none) :
      Works choice w { w with
        worker := .cascade rem seen rest
        rib := (w.rib.cascadeRecompute (w.env choice) key).1 }
  | spread {key : PrefixKey} {rem : List PrefixKey} {seen new : Finset PrefixKey} {rest : Rest}
      {rib : SysRIB} (hworker : w.worker = .cascade (key :: rem) seen rest)
      (hrib : rib = (w.rib.cascadeRecompute (w.env choice) key).1)
      (hchange : (w.rib.cascadeRecompute (w.env choice) key).2 ≠ none)
      (hnew : new =
        dependentKeys rib.tracking (coveredNHs w.loc.lpm rib.tracking key.2) \ seen) :
      Works choice w { w with
        worker := .cascade (rem ++ choice.ord.keys new) (seen ∪ new) rest
        rib := rib }
  | untaken (hworker : w.worker = .resume .take) (hnothing : w.overflow = ∅ ∨ w.ch ≠ []) :
      Works choice w { w with worker := .idle }
  | take (hworker : w.worker = .resume .take) (hover : w.overflow ≠ ∅) (hch : w.ch = []) :
      Works choice w { w with
        worker := .resume (.keys (choice.ord.keys w.overflow))
        overflow := ∅ }
  | done (hworker : w.worker = .resume (.keys [])) : Works choice w { w with worker := .idle }
  | read {k : PrefixKey} {ks : List PrefixKey} (hworker : w.worker = .resume (.keys (k :: ks)))
      (hoffer : w.offering.lookup k = none) :
      Works choice w { w with worker := .event (reread k (w.loc.current k)) (.keys ks) }

/-- The steps of any party: one case for each branch of `step`. -/
inductive Steps (same : View → View → Prop) (w : World) : Act → World → Prop
  | queue {key : PrefixKey} {new : Option View} {lpm : Lpm} (hmay : MayChange st w key new)
      (hroom : w.ch.length < st.cap) :
      Steps same w (.report key new lpm)
        { w.change key new lpm with ch := w.ch ++ [changeFor key (w.loc.current key) new] }
  | crowd {key : PrefixKey} {new : Option View} {lpm : Lpm} (hmay : MayChange st w key new)
      (hroom : ¬w.ch.length < st.cap) :
      Steps same w (.report key new lpm)
        { w.change key new lpm with offering := w.offering.insert key .full }
  | handoff {key : PrefixKey} {new : Option View} {lpm : Lpm} (hidle : w.worker = .idle)
      (hch : w.ch = []) (hmay : MayChange st w key new) :
      Steps same w (.handoff key new lpm) { w.change key new lpm with
        worker := .event (changeFor key (w.loc.current key) new) .take }
  | silent {key : PrefixKey} {u v : View} {lpm : Lpm} (hu : w.loc.current key = some u)
      (hoffer : w.offering.lookup key = none) (hsame : same u v)
      (hwf : WellFormed st key (some v)) :
      Steps same w (.silent key v lpm) (w.change key (some v) lpm)
  | record {key : PrefixKey} (hfull : w.offering.lookup key = some .full) :
      Steps same w (.record key) { w with
        overflow := insert key w.overflow
        offering := w.offering.insert key .recorded }
  | wake {key : PrefixKey} (hrecorded : w.offering.lookup key = some .recorded) :
      Steps same w (.wake key) { w with wake := true, offering := w.offering.erase key }
  | receive {c : Change} {ch : List Change} (hidle : w.worker = .idle) (hch : w.ch = c :: ch) :
      Steps same w .receive { w with ch := ch, worker := .event c .take }
  | woken (hidle : w.worker = .idle) (hwake : w.wake) :
      Steps same w .woken { w with wake := false, worker := .resume .take }
  | work {choice : Choice} {w' : World} (hworks : Works st choice w w') :
      Steps same w (.work choice) w'

variable {st} {choice : Choice} {same : View → View → Prop} {act : Act} {w w' : World}

lemma works_of_work (hstep : w.work st choice = some w') : Works st choice w w' := by
  unfold work at hstep
  split at hstep
  · cases hstep
  · next hworker =>
    cases hstep
    exact .walked hworker
  · next k ks hworker =>
    split_ifs at hstep with hoffer
    rw [not_not] at hoffer
    split at hstep
    · next hcurrent =>
      cases hstep
      exact .skip hworker hoffer hcurrent
    · next v hcurrent =>
      cases hstep
      exact .store hworker hoffer hcurrent
  · next c rest hworker =>
    cases hstep
    exact .event hworker
  · next pfx rest hworker =>
    cases hstep
    exact .cover hworker rfl
  · next seen rest hworker =>
    cases hstep
    exact .spent hworker
  · next key rem seen rest hworker =>
    dsimp only at hstep
    split_ifs at hstep with hchange <;> cases hstep
    · exact .still hworker hchange
    · exact .spread hworker rfl hchange rfl
  · next hworker =>
    split_ifs at hstep with hnothing <;> cases hstep
    · exact .untaken hworker hnothing
    · rw [not_or, not_not] at hnothing
      exact .take hworker hnothing.1 hnothing.2
  · next hworker =>
    cases hstep
    exact .done hworker
  · next k ks hworker =>
    split_ifs at hstep with hoffer
    rw [not_not] at hoffer
    have hread : Works st choice w _ := .read hworker hoffer
    split at hstep
    all_goals
      next hcurrent =>
        cases hstep
        rwa [hcurrent] at hread

lemma steps_of_step [DecidableRel same] (hstep : w.step st same act = some w') :
    Steps st same w act w' := by
  unfold step at hstep
  split at hstep
  · split_ifs at hstep with hmay hroom <;> cases hstep
    · exact .queue hmay hroom
    · exact .crowd hmay hroom
  · split at hstep
    · next hidle hch =>
      split_ifs at hstep with hmay
      cases hstep
      exact .handoff hidle hch hmay
    · cases hstep
  · split at hstep
    · cases hstep
    · next u hu =>
      split_ifs at hstep with hmay
      cases hstep
      exact .silent hu hmay.1 hmay.2.1 hmay.2.2
  · split_ifs at hstep with hfull
    cases hstep
    exact .record hfull
  · split_ifs at hstep with hrecorded
    cases hstep
    exact .wake hrecorded
  · split at hstep
    · next c ch hidle hch =>
      cases hstep
      exact .receive hidle hch
    · cases hstep
  · split at hstep
    · next hidle =>
      split_ifs at hstep with hwake
      cases hstep
      exact .woken hidle hwake
    · cases hstep
  · exact .work (works_of_work hstep)

end

/-! ## What is under way -/

def hand (w : World) : Option Change :=
  match w.worker with
  | .event c _ => some c
  | _ => none

/-- The prefixes the worker is about to read from the Loc-RIB. -/
def toRead (w : World) : List PrefixKey :=
  match w.worker with
  | .seed ks => ks
  | .idle => []
  | .event _ rest => rest.toRead
  | .cover _ rest => rest.toRead
  | .cascade _ _ rest => rest.toRead
  | .resume rest => rest.toRead

/-- What a run may ask of every view beyond that it is well formed. -/
structure Form (st : Setup) where
  ok : PrefixKey → Option View → Prop
  wellFormed : ∀ {k new}, ok k new → WellFormed st k new
  keyOnly : ∀ {k new}, ok k new → ok k none

def Form.base (st : Setup) : Form st where
  ok := WellFormed st
  wellFormed := id
  keyOnly := fun h => ⟨h.1, h.2.1, by simp⟩

/-- Every prefix and every view under way has the form; the walk has stored nothing yet for the
prefixes before it. -/
structure Formed {st : Setup} (f : Form st) (w : World) : Prop where
  current : ∀ k v, w.loc.current k = some v → f.ok k (some v)
  queued : ∀ c ∈ w.ch, f.ok c.key (value c)
  inHand : ∀ c, w.hand = some c → f.ok c.key (value c)
  toRead : ∀ k ∈ w.toRead, f.ok k none
  overflow : ∀ k ∈ w.overflow, f.ok k none
  offering : ∀ k, w.offering.lookup k ≠ none → f.ok k none
  seed : ∀ ks, w.worker = .seed ks → ks.Nodup ∧ ∀ k ∈ ks, w.rib.routes.lookup k = none

/-- The view that a step brings into the Loc-RIB has the form. -/
def Brings {st : Setup} (f : Form st) : Act → Prop
  | .report key new _ => f.ok key new
  | .handoff key new _ => f.ok key new
  | .silent key v _ => f.ok key (some v)
  | _ => True

/-- The walk has every prefix of the Loc-RIB before it, each once. -/
structure Walks (st : Setup) (loc : Loc) (ks : List PrefixKey) : Prop where
  nodup : ks.Nodup
  keys : ∀ k ∈ ks, WellFormed st k none
  current : ∀ k v, loc.current k = some v → WellFormed st k (some v)
  covers : ∀ k, loc.current k ≠ none → k ∈ ks

def staticSetup (cap : ℕ) : Setup where
  cap := cap
  os := fun _ => false
  reg := ⟨fun id => if id = 0 then "" else "static", rfl⟩

variable {st : Setup} {f : Form st} {same : View → View → Prop} {w w' : World} {k key : PrefixKey}

@[simp] lemma value_changeFor (key : PrefixKey) (prev new : Option View) :
    value (changeFor key prev new) = new := by
  unfold changeFor
  cases new with
  | none => rfl
  | some v =>
    dsimp only
    split_ifs <;> rfl

@[simp] lemma key_changeFor (key : PrefixKey) (prev new : Option View) :
    (changeFor key prev new).key = key := by
  unfold changeFor
  cases new with
  | none => rfl
  | some v =>
    dsimp only
    split_ifs <;> rfl

variable {choice : Choice} {new : Option View} {lpm : Lpm}

lemma loc_works (h : Works st choice w w') : w'.loc = w.loc := by
  cases h <;> rfl

/-! ## Every step -/

lemma Formed.of_step (hf : Formed f w)
    (hcurrent : ∀ k v, w'.loc.current k = some v → w.loc.current k = some v ∨
      f.ok k (some v)) (hch : ∀ c ∈ w'.ch, c ∈ w.ch ∨ f.ok c.key (value c))
    (hhand : ∀ c, w'.hand = some c → w.hand = some c ∨ f.ok c.key (value c))
    (hread : ∀ k ∈ w'.toRead, k ∈ w.toRead ∨ k ∈ w.overflow)
    (hoverflow : ∀ k ∈ w'.overflow, k ∈ w.overflow ∨ w.offering.lookup k ≠ none)
    (hoffer : ∀ k, w'.offering.lookup k ≠ none → w.offering.lookup k ≠ none ∨ f.ok k none)
    (hseed : ∀ ks, w'.worker = .seed ks → ks.Nodup ∧ ∀ k ∈ ks, w'.rib.routes.lookup k = none) :
    Formed f w' where
  current := fun k v hv => (hcurrent k v hv).elim (hf.current k v) id
  queued := fun c hc => (hch c hc).elim (hf.queued c) id
  inHand := fun c hc => (hhand c hc).elim (hf.inHand c) id
  toRead := fun k hk => (hread k hk).elim (hf.toRead k) (hf.overflow k)
  overflow := fun k hk => (hoverflow k hk).elim (hf.overflow k) (hf.offering k)
  offering := fun k hk => (hoffer k hk).elim (hf.offering k) id
  seed := hseed

lemma current_change (hnew : f.ok key new) (k : PrefixKey)
    (v : View) (hv : (w.change key new lpm).loc.current k = some v) :
    w.loc.current k = some v ∨ f.ok k (some v) := by
  by_cases hk : k = key
  · subst hk
    have hself : (w.change k new lpm).loc.current k = new := Function.update_self _ _ _
    rw [hself] at hv
    subst hv
    exact .inr hnew
  · have hother : (w.change key new lpm).loc.current k = w.loc.current k :=
      Function.update_of_ne hk _ _
    exact .inl (hother ▸ hv)

lemma offering_insert {o : Offer} (hkey : f.ok key none ∨ w.offering.lookup key ≠ none)
    (k : PrefixKey) (h : (w.offering.insert key o).lookup k ≠ none) :
    w.offering.lookup k ≠ none ∨ f.ok k none := by
  by_cases hk : k = key
  · subst hk
    exact hkey.symm
  · rw [Finmap.lookup_insert_of_ne _ hk] at h
    exact .inl h

lemma Formed.onward (hf : Formed f w) (hoffer : w'.offering = w.offering)
    (hoverflow : w'.overflow = w.overflow) (hch : w'.ch = w.ch) (hloc : w'.loc = w.loc)
    (hhand : ∀ c, w'.hand = some c → f.ok c.key (value c)) (hread : ∀ k ∈ w'.toRead, k ∈ w.toRead)
    (hseed : ∀ ks, w'.worker = .seed ks → ks.Nodup ∧ ∀ k ∈ ks, w'.rib.routes.lookup k = none) :
    Formed f w' := by
  refine hf.of_step ?_ ?_ (fun c hc => .inr (hhand c hc)) (fun k hk => .inl (hread k hk)) ?_ ?_
    hseed
  · rw [hloc]
    exact fun _ _ => .inl
  · rw [hch]
    exact fun _ => .inl
  · rw [hoverflow]
    exact fun _ => .inl
  · rw [hoffer]
    exact fun _ => .inl

lemma Formed.works (hf : Formed f w) (h : Works st choice w w') : Formed f w' := by
  cases h with
  | walked hworker | event hworker | cover hworker | spent hworker | still hworker
  | spread hworker | untaken hworker | done hworker =>
    exact hf.onward rfl rfl rfl rfl (by simp [hand]) (by simp [World.toRead, hworker, Rest.toRead])
      (by simp)
  | skip hworker =>
    obtain ⟨hnodup, hnone⟩ := hf.seed _ hworker
    refine hf.onward rfl rfl rfl rfl (by simp [hand]) ?_ ?_
    · simp +contextual [World.toRead, hworker]
    · rintro _ ⟨⟩
      exact ⟨(nodup_cons.1 hnodup).2, fun k hk => hnone k (mem_cons_of_mem _ hk)⟩
  | @store key _ v hworker _ hcurrent =>
    obtain ⟨hnodup, hnone⟩ := hf.seed _ hworker
    obtain ⟨hkey, hnodup⟩ := nodup_cons.1 hnodup
    refine hf.onward rfl rfl rfl rfl (by simp [hand]) ?_ ?_
    · simp +contextual [World.toRead, hworker]
    · rintro _ ⟨⟩
      refine ⟨hnodup, fun k hk => ?_⟩
      have hwf : WellFormed st key (some v) := f.wellFormed (hf.current key v hcurrent)
      refine (routes_processed w choice hwf k).trans ?_
      exact (if_neg (ne_of_mem_of_not_mem hk hkey)).trans (hnone k (mem_cons_of_mem _ hk))
  | take hworker =>
    refine hf.of_step (fun _ _ => .inl) (fun _ => .inl) (by simp [hand]) ?_ (by simp)
      (fun _ => .inl) (by simp)
    exact fun k hk => .inr ((choice.ord.mem_keys _ _).1 hk)
  | @read k ks hworker =>
    have hk : f.ok k none := hf.toRead k (by simp [World.toRead, hworker, Rest.toRead])
    refine hf.onward rfl rfl rfl rfl ?_ ?_ (by simp)
    · intro c hc
      obtain rfl : reread k (w.loc.current k) = c := by simpa [hand] using hc
      rw [key_reread, value_reread]
      cases hcurrent : w.loc.current k with
      | none => exact hk
      | some v => exact hf.current k v hcurrent
    · simp only [World.toRead, hworker, Rest.toRead]
      exact fun k' hk' => mem_cons_of_mem _ hk'

lemma Formed.steps {act : Act} (hf : Formed f w) (hact : Brings f act)
    (h : Steps st same w act w') : Formed f w' := by
  cases h with
  | @queue key new =>
    refine hf.of_step (current_change hact) ?_ (fun _ => .inl) (fun _ => .inl)
      (fun _ => .inl) (fun _ => .inl) hf.seed
    intro c hc
    rcases mem_append.1 hc with hc | hc
    · exact .inl hc
    · rw [mem_singleton] at hc
      subst hc
      rw [value_changeFor, key_changeFor]
      exact .inr hact
  | crowd =>
    exact hf.of_step (current_change hact) (fun _ => .inl) (fun _ => .inl) (fun _ => .inl)
      (fun _ => .inl) (offering_insert (.inl (f.keyOnly hact))) hf.seed
  | @handoff key new =>
    refine hf.of_step (current_change hact) (fun _ => .inl) ?_ (by simp [World.toRead, Rest.toRead])
      (fun _ => .inl) (fun _ => .inl) (by simp)
    intro c hc
    obtain rfl : changeFor key (w.loc.current key) new = c := by simpa [hand] using hc
    rw [value_changeFor, key_changeFor]
    exact .inr hact
  | silent =>
    exact hf.of_step (current_change hact) (fun _ => .inl) (fun _ => .inl)
      (fun _ => .inl) (fun _ => .inl) (fun _ => .inl) hf.seed
  | record hfull =>
    refine hf.of_step (fun _ _ => .inl) (fun _ => .inl) (fun _ => .inl) (fun _ => .inl) ?_
      (offering_insert (.inr (by simp [hfull]))) hf.seed
    intro k hk
    rcases Finset.mem_insert.1 hk with rfl | hk
    · exact .inr (by simp [hfull])
    · exact .inl hk
  | wake =>
    refine hf.of_step (fun _ _ => .inl) (fun _ => .inl) (fun _ => .inl) (fun _ => .inl)
      (fun _ => .inl) ?_ hf.seed
    intro k hk
    rw [lookup_erase_eq] at hk
    split_ifs at hk with heq
    · exact absurd rfl hk
    · exact .inl hk
  | @receive c ch hidle hch =>
    refine hf.of_step (fun _ _ => .inl) ?_ ?_ (by simp [World.toRead, Rest.toRead])
      (fun _ => .inl) (fun _ => .inl) (by simp)
    · intro c' hc'
      rw [hch]
      exact .inl (mem_cons_of_mem _ hc')
    · intro c' hc'
      obtain rfl : c = c' := by simpa [hand] using hc'
      exact .inr (hf.queued c (hch ▸ mem_cons_self))
  | woken =>
    exact hf.of_step (fun _ _ => .inl) (fun _ => .inl) (by simp [hand])
      (by simp [World.toRead, Rest.toRead]) (fun _ => .inl) (fun _ => .inl) (by simp)
  | work hworks => exact hf.works hworks

lemma brings_base {act : Act} (h : Steps st same w act w') : Brings (Form.base st) act := by
  cases h with
  | queue hmay | crowd hmay | handoff _ _ hmay => exact hmay.2.1
  | silent _ _ _ hwf => exact hwf
  | _ => trivial

end World

end Ze.SysRib
