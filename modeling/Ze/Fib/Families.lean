import Ze.Lib.Run
import Ze.Fib.Kernel

/-!
# One kernel route for the families of a prefix

The system RIB tells the writer about each family and prefix by itself (`tell`): an add for an
absent one, an update or a withdrawal for a present one. The writer keeps one kernel route for a
destination, whatever the family. `World` runs the two together, with every call of the writer
succeeding, over any route table that does what is documented of it.

`holds_iff_present` is by the invariant `Inv`, which follows each destination by itself (`Routed`):
`own_add`, `own_replace` and `own_del` say what a call does to the writer's routes there.
-/

namespace Ze.Fib

open List

open Ze.Lib (Meets run run_cons run_keeps)
open Ze.LocRib (Family)
open Ze.Net (Prefix)
open Ze.SysRib (PrefixKey RouteAction)
open Bool (and_eq_true)
open Finset (erase_empty mem_erase mem_insert mem_insert_self)

/-! ## The writer's routes to a destination -/

/-- A route of the writer to a destination, in the main table. -/
def owned (d : Prefix) (c : KernelRoute) : Bool :=
  c.dst == d && c.table == rtTableMain && c.protocol == rtprotZE

def own (routes : List KernelRoute) (d : Prefix) : List KernelRoute := routes.filter (owned d)

/-- The kernel has a route of the writer for the prefix. -/
def Backend.holds {σ : Type} (os : RouteTable σ) (b : Backend σ) (pfx : Prefix) : Bool :=
  (os.routeList b.routes).any (owned pfx.masked)

section

variable {σ : Type} {os : RouteTable σ} {t t' : σ} {routes routes' : List KernelRoute}
  {r c : KernelRoute} {d : Prefix}

lemma owned_iff : owned d c ↔ c.dst = d ∧ c.table = rtTableMain ∧ c.protocol = rtprotZE := by
  unfold owned
  rw [and_eq_true, and_eq_true, beq_iff_eq, beq_iff_eq, beq_iff_eq, and_assoc]

lemma holds_iff {b : Backend σ} {pfx : Prefix} :
    b.holds os pfx ↔ own (os.routeList b.routes) pfx.masked ≠ [] := by
  unfold Backend.holds own
  rw [any_eq_true, ne_eq, filter_eq_nil_iff]
  push Not
  rfl

lemma sameDst_iff : r.sameDst c ↔ c.dst = r.dst ∧ c.table = r.table := by
  unfold KernelRoute.sameDst
  rw [and_eq_true, beq_iff_eq, beq_iff_eq]

lemma sameSlot_iff :
    r.sameSlot c ↔ (c.dst = r.dst ∧ c.table = r.table) ∧ c.priority = r.priority := by
  unfold KernelRoute.sameSlot
  rw [and_eq_true, sameDst_iff, beq_iff_eq]

lemma names_iff {q : RouteQuery} :
    q.names c ↔ c.dst = q.dst ∧ c.table = q.table ∧ c.protocol = q.protocol ∧
      ∀ p ∈ q.priority, p = c.priority := by
  unfold RouteQuery.names
  rw [and_eq_true, and_eq_true, and_eq_true, beq_iff_eq, beq_iff_eq, beq_iff_eq,
    Option.all_eq_true, and_assoc, and_assoc]
  simp only [beq_iff_eq, Option.mem_def]

/-- Routes that one route has joined, at each destination. -/
lemma own_cons (hc : owned d c) (h : routes'.Perm (c :: routes)) (d' : Prefix) :
    (own routes' d').Perm (if d' = d then c :: own routes d' else own routes d') := by
  have hfilter : (own routes' d').Perm (own (c :: routes) d') := h.filter _
  refine hfilter.trans (Perm.of_eq ?_)
  unfold own
  rw [filter_cons]
  by_cases hd : d' = d
  · rw [if_pos hd, hd, if_pos hc]
  · rw [if_neg hd, if_neg]
    exact fun h' => hd ((owned_iff.1 h').1.symm.trans (owned_iff.1 hc).1)

lemma own_add (hos : os.Documented) (hr : owned r.dst r) (h : os.routeAdd t r = .ok t') :
    (own (os.routeList t') r.dst).Perm (r :: own (os.routeList t) r.dst) ∧
      (∀ d, d ≠ r.dst → (own (os.routeList t') d).Perm (own (os.routeList t) d)) ∧
      ∀ c ∈ own (os.routeList t) r.dst, c.priority ≠ r.priority := by
  obtain ⟨hslot, hperm⟩ := hos.add t t' r h
  refine ⟨?_, fun d hd => ?_, fun c hc heq => ?_⟩
  · simpa only [if_true] using own_cons hr hperm r.dst
  · simpa only [hd, if_false] using own_cons hr hperm d
  · obtain ⟨hmem, hown⟩ := mem_filter.1 hc
    obtain ⟨hdst, htable, -⟩ := owned_iff.1 hown
    have hsame : r.sameSlot c :=
      sameSlot_iff.2 ⟨⟨hdst, htable.trans (owned_iff.1 hr).2.1.symm⟩, heq⟩
    rw [hslot c hmem] at hsame
    cases hsame

/-- The write of `replaceOwnedRoute`: the route takes the place of the one of its priority. -/
lemma own_written (hos : os.Documented) (hr : owned r.dst r)
    (hslots : ((own (os.routeList t) r.dst).map KernelRoute.priority).Nodup)
    (hours : ∀ c ∈ os.routeList t, r.sameSlot c → c.protocol = rtprotZE)
    (h : (if ((os.routeList t).filter r.sameDst).any (·.priority == r.priority) then
      os.routeReplace t r else os.routeAdd t r) = .ok t') :
    (own (os.routeList t') r.dst).Perm
        (r :: (own (os.routeList t) r.dst).filter (·.priority != r.priority)) ∧
      ∀ d, d ≠ r.dst → (own (os.routeList t') d).Perm (own (os.routeList t) d) := by
  split_ifs at h with hany
  · have hslot : ∃ c ∈ os.routeList t, r.sameSlot c := by
      obtain ⟨c, hc, hprio⟩ := any_eq_true.1 hany
      obtain ⟨hmem, hdst⟩ := mem_filter.1 hc
      exact ⟨c, hmem, by rw [KernelRoute.sameSlot, hdst, hprio]; rfl⟩
    obtain ⟨c, rest, hsame, hbefore, hafter⟩ := hos.replace t t' r h hslot
    obtain ⟨⟨hdst, htable⟩, hprio⟩ := sameSlot_iff.1 hsame
    have hown : owned r.dst c := owned_iff.2 ⟨hdst, htable.trans (owned_iff.1 hr).2.1,
      hours c (hbefore.mem_iff.2 mem_cons_self) hsame⟩
    have hold := own_cons hown hbefore
    have hnew := own_cons hr hafter
    refine ⟨?_, fun d hd => ?_⟩
    · have hself := hold r.dst
      rw [if_pos rfl] at hself
      have hrest : ∀ c' ∈ own rest r.dst, c'.priority ≠ r.priority := by
        intro c' hc' heq
        rw [(hself.map _).nodup_iff, map_cons, nodup_cons] at hslots
        exact hslots.1 (mem_map.2 ⟨c', hc', heq.trans hprio.symm⟩)
      have hkeep : ((own (os.routeList t) r.dst).filter (·.priority != r.priority)).Perm
          (own rest r.dst) := by
        refine (hself.filter _).trans (Perm.of_eq ?_)
        rw [filter_cons_of_neg (by simp [hprio]), filter_eq_self]
        simpa using hrest
      have hself' := hnew r.dst
      rw [if_pos rfl] at hself'
      exact hself'.trans (hkeep.symm.cons r)
    · have hd₀ := hold d
      have hd₁ := hnew d
      rw [if_neg hd] at hd₀ hd₁
      exact hd₁.trans hd₀.symm
  · obtain ⟨hself, hother, hfree⟩ := own_add hos hr h
    refine ⟨?_, hother⟩
    rwa [filter_eq_self.2 (by simpa using hfree)]

/-- The deletes of `replaceOwnedRoute`: each takes out one route of another priority. -/
lemma own_removed (hos : os.Documented) (hr : owned r.dst r) :
    (cs : List KernelRoute) → (∀ c ∈ cs, r.sameDst c) → ∀ t t',
      cs.foldlM (removeSuperseded os r) t = .ok t' →
        (own (os.routeList t) r.dst).length = (own (os.routeList t') r.dst).length +
          (cs.filter fun c => c.protocol == rtprotZE && c.priority != r.priority).length ∧
        ∀ d, d ≠ r.dst → (own (os.routeList t') d).Perm (own (os.routeList t) d)
  | [], _, t, t', h => by
    obtain rfl : t = t' := Except.ok.inj h
    exact ⟨rfl, fun _ _ => .refl _⟩
  | c :: cs, hall, t, t', h => by
    rw [foldlM_cons] at h
    have hrest := own_removed hos hr cs fun c' hc' => hall c' (mem_cons_of_mem c hc')
    obtain ⟨hdst, htable⟩ := sameDst_iff.1 (hall c mem_cons_self)
    unfold removeSuperseded at h
    by_cases hsup : (c.protocol == rtprotZE && c.priority != r.priority)
    · rw [if_pos hsup] at h
      rcases hdel : os.routeDel t ⟨c.dst, c.table, c.protocol, some c.priority⟩ with e | t₁
      · rw [hdel] at h
        cases h
      rw [hdel] at h
      obtain ⟨c', hc', hperm⟩ := hos.del t t₁ _ hdel
      obtain ⟨hdst', htable', hze, -⟩ := names_iff.1 hc'
      have hown : owned r.dst c' := owned_iff.2 ⟨hdst'.trans hdst,
        (htable'.trans htable).trans (owned_iff.1 hr).2.1,
        hze.trans (beq_iff_eq.1 (Bool.and_eq_true_iff.1 hsup).1)⟩
      obtain ⟨hlen, hother⟩ := hrest t₁ t' h
      have hstep := own_cons hown hperm
      have hself := hstep r.dst
      rw [if_pos rfl] at hself
      refine ⟨?_, fun d hd => ?_⟩
      · rw [hself.length_eq, length_cons, hlen, filter_cons, if_pos hsup, length_cons]
        omega
      · have hd₁ := hstep d
        rw [if_neg hd] at hd₁
        exact (hother d hd).trans hd₁.symm
    · rw [if_neg hsup] at h
      rw [filter_cons, if_neg hsup]
      exact hrest t t' h

lemma own_replace (hos : os.Documented) (hr : owned r.dst r)
    (hslots : ((own (os.routeList t) r.dst).map KernelRoute.priority).Nodup)
    (h : replaceOwnedRoute os t r = .ok t') :
    (own (os.routeList t') r.dst).length = 1 ∧
      ∀ d, d ≠ r.dst → (own (os.routeList t') d).Perm (own (os.routeList t) d) := by
  unfold replaceOwnedRoute at h
  by_cases hexist : (((os.routeList t).filter r.sameDst).any fun c =>
      c.priority == r.priority && c.protocol != rtprotZE)
  · simp only [hexist, if_true] at h
    cases h
  simp only [hexist] at h
  have hours : ∀ c ∈ os.routeList t, r.sameSlot c → c.protocol = rtprotZE := by
    intro c hc hslot
    by_contra hne
    apply hexist
    obtain ⟨hdst, hprio⟩ := Bool.and_eq_true_iff.1 hslot
    refine any_eq_true.2 ⟨c, mem_filter.2 ⟨hc, hdst⟩, ?_⟩
    rw [hprio, Bool.true_and, bne_iff_ne]
    exact hne
  rcases hwrite : (if ((os.routeList t).filter r.sameDst).any (·.priority == r.priority) then
      os.routeReplace t r else os.routeAdd t r) with e | t₁
  · rw [hwrite] at h
    cases h
  rw [hwrite] at h
  obtain ⟨hself, hother⟩ := own_written hos hr hslots hours hwrite
  obtain ⟨hlen, hkept⟩ := own_removed hos hr _ (fun c hc => (mem_filter.1 hc).2) t₁ t' h
  -- as many deletes as routes of another priority
  have hcount : ((os.routeList t).filter r.sameDst).filter
      (fun c => c.protocol == rtprotZE && c.priority != r.priority) =
        (own (os.routeList t) r.dst).filter (·.priority != r.priority) := by
    unfold own
    rw [filter_filter, filter_filter]
    apply filter_congr
    intro c _
    unfold owned KernelRoute.sameDst
    rw [(owned_iff.1 hr).2.1]
    cases c.dst == r.dst <;> cases c.table == rtTableMain <;> cases c.protocol == rtprotZE <;>
      cases c.priority != r.priority <;> rfl
  rw [hcount, hself.length_eq, length_cons] at hlen
  exact ⟨by omega, fun d hd => (hkept d hd).trans (hother d hd)⟩

lemma own_del (hos : os.Documented)
    (h : os.routeDel t ⟨d, rtTableMain, rtprotZE, none⟩ = .ok t') :
    (own (os.routeList t') d).length + 1 = (own (os.routeList t) d).length ∧
      ∀ d', d' ≠ d → (own (os.routeList t') d').Perm (own (os.routeList t) d') := by
  obtain ⟨c, hc, hperm⟩ := hos.del t t' _ h
  obtain ⟨hdst, htable, hze, -⟩ := names_iff.1 hc
  have hstep := own_cons (owned_iff.2 ⟨hdst, htable, hze⟩) hperm
  have hself := hstep d
  rw [if_pos rfl] at hself
  refine ⟨by rw [hself.length_eq, length_cons], fun d' hd => ?_⟩
  have hd' := hstep d'
  rw [if_neg hd] at hd'
  exact hd'.symm

end

/-! ## What a successful change does -/

namespace FibKernel

variable {σ : Type} {os : RouteTable σ} {env : Env} {f : FibKernel σ} {c : BestChangeEntry}
  {b : Backend σ}

lemma owned_buildRichRoute {r : RichRoute} (h : r.tableID = 0) :
    owned (buildRichRoute r).dst (buildRichRoute r) := by
  rw [owned_iff]
  unfold buildRichRoute
  rw [h]
  exact ⟨rfl, rfl, rfl⟩

/-- The kernel route that the backend made of the change was written by `op`. -/
lemma exists_written {op : σ → KernelRoute → Except Error σ}
    {req : RichRoute} (hpfx : req.pfx = c.pfx) (htable : req.tableID = 0)
    (h : (op f.backend.routes (buildRichRoute req)).map
      (fun routes => { f.backend with routes := routes }) = .ok b) :
    ∃ r : KernelRoute, r.dst = c.pfx.masked ∧ owned r.dst r ∧
      op f.backend.routes r = .ok b.routes := by
  refine ⟨buildRichRoute req, by rw [← hpfx]; rfl, owned_buildRichRoute htable, ?_⟩
  cases hroute : op f.backend.routes (buildRichRoute req) with
  | error e =>
    rw [hroute] at h
    cases h
  | ok routes =>
    rw [hroute] at h
    rw [← Except.ok.inj h]

lemma of_checkLabels {k : Except Error (Backend σ)} (h : (checkLabels c >>= fun _ => k) = .ok b) :
    k = .ok b := by
  cases hlabels : checkLabels c with
  | error e =>
    rw [hlabels] at h
    cases h
  | ok u =>
    rw [hlabels] at h
    exact h

lemma routeAdd_of_addOwn (htable : c.tableID = 0) (h : f.addOwn os env c = .ok b) :
    ∃ r : KernelRoute, r.dst = c.pfx.masked ∧ owned r.dst r ∧
      os.routeAdd f.backend.routes r = .ok b.routes := by
  have hown := of_checkLabels h
  unfold Backend.addRoute Backend.addRichRoute at hown
  split_ifs at hown
  · exact exists_written rfl htable hown
  · exact exists_written rfl rfl hown

lemma replaceOwnedRoute_of_replaceOwn (htable : c.tableID = 0) (h : f.replaceOwn os env c = .ok b) :
    ∃ r : KernelRoute, r.dst = c.pfx.masked ∧ owned r.dst r ∧
      replaceOwnedRoute os f.backend.routes r = .ok b.routes := by
  have hown := of_checkLabels h
  unfold Backend.replaceRoute Backend.replaceRichRoute at hown
  split_ifs at hown
  · exact exists_written rfl htable hown
  · exact exists_written rfl rfl hown

lemma routeDel_of_delChange (htable : c.tableID = 0) (h : f.delChange os c = .ok b) :
    os.routeDel f.backend.routes ⟨c.pfx.masked, rtTableMain, rtprotZE, none⟩ = .ok b.routes := by
  have hrich : f.backend.delRichRoute os c.pfx 0 = .ok b := by
    unfold delChange at h
    rw [htable] at h
    split_ifs at h
    · exact h
    · exact h
  unfold Backend.delRichRoute at hrich
  rw [if_pos rfl] at hrich
  cases hroute : os.routeDel f.backend.routes ⟨c.pfx.masked, rtTableMain, rtprotZE, none⟩ with
  | error e =>
    rw [hroute] at hrich
    cases hrich
  | ok routes =>
    rw [hroute] at hrich
    rw [← Except.ok.inj hrich]

lemma replaceChange_eq_addChange : f.replaceChange os env c = f.addChange os env c := by
  unfold replaceChange addChange
  cases f.owns c.pfx <;> rfl

lemma processChange_program (hvalid : c.pfx.isValid)
    (hverb : verb c.action = .install ∨ verb c.action = .replace) (hok : f.succeeds os env c) :
    ∃ b, f.addChange os env c = .ok b ∧ (f.processChange os env c).backend = b ∧
      (f.processChange os env c).installed = f.installed.insert c.pfx c.nextHop ∧
      (f.processChange os env c).retained = f.retained.erase c.pfx ∧
      (f.processChange os env c).stopped = f.stopped := by
  unfold succeeds at hok
  unfold processChange
  rcases hverb with hverb | hverb
  · simp only [hverb, hvalid, Bool.not_true, Bool.false_eq_true, if_false] at hok ⊢
    cases hprogram : f.addChange os env c with
    | error e =>
      rw [hprogram] at hok
      cases hok
    | ok b => exact ⟨b, rfl, rfl, rfl, rfl, rfl⟩
  · simp only [hverb, replaceChange_eq_addChange, hvalid, Bool.not_true, Bool.false_eq_true,
      if_false] at hok ⊢
    cases hprogram : f.addChange os env c with
    | error e =>
      rw [hprogram] at hok
      cases hok
    | ok b => exact ⟨b, rfl, rfl, rfl, rfl, rfl⟩

lemma processChange_remove (hvalid : c.pfx.isValid) (hverb : verb c.action = .remove)
    (hok : f.succeeds os env c) :
    ∃ b, f.delChange os c = .ok b ∧ (f.processChange os env c).backend = b ∧
      (f.processChange os env c).installed = f.installed.erase c.pfx ∧
      (f.processChange os env c).retained = f.retained.erase c.pfx ∧
      (f.processChange os env c).stopped = f.stopped := by
  unfold succeeds at hok
  unfold processChange
  simp only [hverb, hvalid, Bool.not_true, Bool.false_eq_true, if_false] at hok ⊢
  cases hdel : f.delChange os c with
  | error e =>
    rw [hdel] at hok
    cases hok
  | ok b => exact ⟨b, rfl, rfl, rfl, rfl, rfl⟩

lemma processChange_skip (hverb : verb c.action = .skip) : f.processChange os env c = f := by
  unfold processChange
  simp only [hverb, ite_self]

end FibKernel

/-! ## The writer and its producer -/

/-- What is present after a change of a family, if the producer may send it: an add for an absent
prefix, an update or a withdrawal for a present one. The system RIB names no table.
Source: events.go BestChangeBatch, sysrib.go prefixKey, ecmp.go fibChange -/
def tell (fam : Family) (present : Finset PrefixKey) (c : BestChangeEntry) :
    Option (Finset PrefixKey) :=
  if c.pfx.isValid && c.tableID == 0 then
    match verb c.action with
    | .install => if (fam, c.pfx) ∈ present then none else some (insert (fam, c.pfx) present)
    | .replace => if (fam, c.pfx) ∈ present then some present else none
    | .remove => if (fam, c.pfx) ∈ present then some (present.erase (fam, c.pfx)) else none
    | .skip => some present
  else none

/-- A removal meets no other family, and no other prefix, with the same destination. -/
def Alone (fam : Family) (present : Finset PrefixKey) (c : BestChangeEntry) : Prop :=
  verb c.action = .remove →
    ∀ key ∈ present, key.2.masked = c.pfx.masked → key = (fam, c.pfx)

instance (fam : Family) (present : Finset PrefixKey) (c : BestChangeEntry) :
    Decidable (Alone fam present c) :=
  inferInstanceAs (Decidable (_ → _))

/-- The writer, and what the producer has told it is present. -/
structure World (σ : Type) where
  fib : FibKernel σ
  present : Finset PrefixKey

namespace World

/-- A new writer, nothing told. Source: fibkernel.go newFIBKernel. -/
def new {σ : Type} (backend : Backend σ) : World σ where
  fib := .new backend
  present := ∅

/-- One batch the producer may send, every call of which succeeds.
Source: fibkernel.go processEvent -/
def step {σ : Type} (os : RouteTable σ) (w : World σ) (event : Env × BestChangeBatch) :
    Option (World σ) :=
  (run (tell event.2.family) w.present event.2.changes).bind fun present =>
    if w.fib.Succeed os event.1 event.2.changes then
      some { fib := w.fib.processEvent os event.1 event.2, present := present }
    else none

/-- Every removal of the batch is `Alone` where it stands. -/
def BatchAlone {σ : Type} (w : World σ) (event : Env × BestChangeBatch) : Prop :=
  Meets (tell event.2.family) (Alone event.2.family) w.present event.2.changes

instance {σ : Type} (w : World σ) (event : Env × BestChangeBatch) :
    Decidable (w.BatchAlone event) :=
  inferInstanceAs (Decidable (Meets _ _ _ _))

end World

/-! ## The invariant -/

def Single (present : Finset PrefixKey) (d : Prefix) : Prop :=
  ∀ a ∈ present, ∀ b ∈ present, a.2.masked = d → b.2.masked = d → a = b

/-- The kernel follows what is present at a destination. -/
structure Routed (routes : List KernelRoute) (present : Finset PrefixKey) (d : Prefix) : Prop where
  /-- There is a route when a prefix to the destination is present. -/
  held : own routes d ≠ [] ↔ ∃ key ∈ present, key.2.masked = d
  /-- The writer's routes are in slots of their own. -/
  slots : ((own routes d).map KernelRoute.priority).Nodup
  /-- One key: one route. -/
  sole : Single present d → (own routes d).length ≤ 1

/-- The kernel and the maps of the writer follow what is present. -/
structure Inv {σ : Type} (os : RouteTable σ) (f : FibKernel σ) (present : Finset PrefixKey) :
    Prop where
  running : f.stopped = false
  retained : f.retained = ∅
  /-- The writer knows the prefixes some family has. -/
  tracked : ∀ p, (f.installed.lookup p).isSome = true ↔ ∃ fam, (fam, p) ∈ present
  routed : ∀ d, Routed (os.routeList f.backend.routes) present d

section

variable {σ : Type} {os : RouteTable σ} {env : Env} {f : FibKernel σ} {c : BestChangeEntry}
  {fam : Family} {present present' : Finset PrefixKey} {routes routes' : List KernelRoute}
  {d : Prefix}

lemma nodup_of_length_le_one {cs : List KernelRoute} (h : cs.length ≤ 1) :
    (cs.map KernelRoute.priority).Nodup := by
  match cs with
  | [] => exact nodup_nil
  | [c] => exact nodup_singleton _
  | _ :: _ :: _ => simp at h

/-- What happens at other destinations does not matter. -/
lemma Routed.congr (h : Routed routes present d) (hperm : (own routes' d).Perm (own routes d))
    (hkeys : ∀ key : PrefixKey, key.2.masked = d → (key ∈ present' ↔ key ∈ present)) :
    Routed routes' present' d := by
  refine ⟨?_, (hperm.map _).nodup_iff.2 h.slots, fun hsingle => ?_⟩
  · rw [ne_eq, ← perm_nil, hperm.congr_left, perm_nil, ← ne_eq, h.held]
    refine exists_congr fun key => ?_
    constructor
    · exact fun ⟨hmem, hmask⟩ => ⟨(hkeys key hmask).2 hmem, hmask⟩
    · exact fun ⟨hmem, hmask⟩ => ⟨(hkeys key hmask).1 hmem, hmask⟩
  · rw [hperm.length_eq]
    apply h.sole
    intro a ha b hb hmask hmask'
    exact hsingle a ((hkeys a hmask).2 ha) b ((hkeys b hmask').2 hb) hmask hmask'

variable (hos : os.Documented) (h : Inv os f present)
include hos h

lemma Inv.program (hvalid : c.pfx.isValid) (htable : c.tableID = 0)
    (hverb : verb c.action = .install ∨ verb c.action = .replace) (hok : f.succeeds os env c) :
    Inv os (f.processChange os env c) (insert (fam, c.pfx) present) := by
  obtain ⟨b, hadd, hbackend, hinstalled, hretained, hstopped⟩ :=
    FibKernel.processChange_program hvalid hverb hok
  have howns : f.owns c.pfx = (f.installed.lookup c.pfx).isSome := by
    unfold FibKernel.owns
    rw [h.retained]
    simp
  have hat := h.routed c.pfx.masked
  -- what the call does to the routes of each destination
  obtain ⟨hself, hother⟩ :
      Routed (os.routeList b.routes) (insert (fam, c.pfx) present) c.pfx.masked ∧
        ∀ d, d ≠ c.pfx.masked →
          (own (os.routeList b.routes) d).Perm (own (os.routeList f.backend.routes) d) := by
    have hkey : ∃ key ∈ insert (fam, c.pfx) present, key.2.masked = c.pfx.masked :=
      ⟨_, mem_insert_self _ _, rfl⟩
    unfold FibKernel.addChange at hadd
    split_ifs at hadd with hold
    · obtain ⟨r, hdst, hr, hreplace⟩ := FibKernel.replaceOwnedRoute_of_replaceOwn htable hadd
      rw [← hdst] at hat hkey ⊢
      obtain ⟨hlen, hother⟩ := own_replace hos hr hat.slots hreplace
      have hne : own (os.routeList b.routes) r.dst ≠ [] :=
        ne_nil_of_length_pos (hlen ▸ Nat.one_pos)
      exact ⟨⟨iff_of_true hne hkey, nodup_of_length_le_one hlen.le, fun _ => hlen.le⟩, hother⟩
    · obtain ⟨r, hdst, hr, hroute⟩ := FibKernel.routeAdd_of_addOwn htable hadd
      rw [← hdst] at hat hkey ⊢
      obtain ⟨hnew, hother, hfree⟩ := own_add hos hr hroute
      refine ⟨⟨iff_of_true ?_ hkey, ?_, fun hsingle => ?_⟩, hother⟩
      · exact ne_nil_of_mem (hnew.mem_iff.2 mem_cons_self)
      · rw [(hnew.map _).nodup_iff, map_cons, nodup_cons]
        refine ⟨fun hmem => ?_, hat.slots⟩
        obtain ⟨c', hc', heq⟩ := mem_map.1 hmem
        exact hfree c' hc' heq
      · -- no key was there before this one, so no route was
        have hempty : own (os.routeList f.backend.routes) r.dst = [] := by
          by_contra hne
          obtain ⟨key, hmem, hmask⟩ := hat.held.1 hne
          have heq := hsingle key (Finset.mem_insert_of_mem hmem) (fam, c.pfx)
            (mem_insert_self _ _) hmask hdst.symm
          apply hold
          rw [howns, h.tracked]
          exact ⟨fam, heq ▸ hmem⟩
        rw [hnew.length_eq, hempty]
        exact le_rfl
  subst hbackend
  refine ⟨by rw [hstopped, h.running], by rw [hretained, h.retained, erase_empty], ?_, ?_⟩
  · intro p
    rw [hinstalled, Ze.Lib.lookup_insert_eq]
    by_cases hp : p = c.pfx
    · subst hp
      rw [if_pos rfl]
      exact ⟨fun _ => ⟨fam, mem_insert_self _ _⟩, fun _ => rfl⟩
    · rw [if_neg hp, h.tracked]
      refine exists_congr fun fam' => ?_
      rw [mem_insert, Prod.mk.injEq]
      constructor
      · exact .inr
      · rintro (⟨-, heq⟩ | hmem)
        · exact absurd heq hp
        · exact hmem
  · intro d
    by_cases hd : d = c.pfx.masked
    · exact hd ▸ hself
    · refine (h.routed d).congr (hother d hd) fun key hmask => ?_
      rw [mem_insert, or_iff_right]
      rintro rfl
      exact hd hmask.symm

lemma Inv.remove (hvalid : c.pfx.isValid) (htable : c.tableID = 0) (hverb : verb c.action = .remove)
    (halone : Alone fam present c) (hok : f.succeeds os env c) :
    Inv os (f.processChange os env c) (present.erase (fam, c.pfx)) := by
  obtain ⟨b, hdel, hbackend, hinstalled, hretained, hstopped⟩ :=
    FibKernel.processChange_remove hvalid hverb hok
  obtain ⟨hlen, hother⟩ := own_del hos (FibKernel.routeDel_of_delChange htable hdel)
  have halone := halone hverb
  have hgone : own (os.routeList b.routes) c.pfx.masked = [] := by
    have hone := (h.routed c.pfx.masked).sole fun a ha a' ha' hmask hmask' => by
      rw [halone a ha hmask, halone a' ha' hmask']
    apply eq_nil_of_length_eq_zero
    omega
  subst hbackend
  refine ⟨by rw [hstopped, h.running], by rw [hretained, h.retained, erase_empty], ?_, ?_⟩
  · intro p
    rw [hinstalled, Ze.Lib.lookup_erase_eq]
    by_cases hp : p = c.pfx
    · subst hp
      rw [if_pos rfl]
      constructor
      · intro hnone
        cases hnone
      · rintro ⟨fam', hmem⟩
        obtain ⟨hne, hmem⟩ := mem_erase.1 hmem
        exact absurd (halone _ hmem rfl) hne
    · rw [if_neg hp, h.tracked]
      refine exists_congr fun fam' => ?_
      rw [mem_erase]
      constructor
      · intro hmem
        refine ⟨fun heq => hp (Prod.mk.inj heq).2, hmem⟩
      · exact And.right
  · intro d
    by_cases hd : d = c.pfx.masked
    · subst hd
      refine ⟨iff_of_false (absurd hgone) ?_, by rw [hgone]; exact nodup_nil, fun _ => ?_⟩
      · rintro ⟨key, hmem, hmask⟩
        obtain ⟨hne, hmem⟩ := mem_erase.1 hmem
        exact hne (halone key hmem hmask)
      · rw [hgone]
        exact Nat.zero_le 1
    · refine (h.routed d).congr (hother d hd) fun key hmask => ?_
      rw [mem_erase, and_iff_right]
      rintro rfl
      exact hd hmask.symm

lemma Inv.change (htell : tell fam present c = some present') (halone : Alone fam present c)
    (hok : f.succeeds os env c) : Inv os (f.processChange os env c) present' := by
  have hsent : (c.pfx.isValid && c.tableID == 0) := by
    by_contra hnot
    unfold tell at htell
    rw [if_neg hnot] at htell
    cases htell
  unfold tell at htell
  rw [if_pos hsent] at htell
  rw [and_eq_true, beq_iff_eq] at hsent
  obtain ⟨hvalid, htable⟩ := hsent
  cases hverb : verb c.action with
  | install =>
    simp only [hverb] at htell
    split_ifs at htell with hmem
    cases htell
    exact h.program hos hvalid htable (.inl hverb) hok
  | replace =>
    simp only [hverb] at htell
    split_ifs at htell with hmem
    cases htell
    rw [← Finset.insert_eq_of_mem hmem]
    exact h.program hos hvalid htable (.inr hverb) hok
  | remove =>
    simp only [hverb] at htell
    split_ifs at htell with hmem
    cases htell
    exact h.remove hos hvalid htable hverb halone hok
  | skip =>
    simp only [hverb] at htell
    cases htell
    rw [FibKernel.processChange_skip hverb]
    exact h

lemma Inv.changes {cs : List BestChangeEntry} (htell : run (tell fam) present cs = some present')
    (halone : Meets (tell fam) (Alone fam) present cs) (hok : f.Succeed os env cs) :
    Inv os (cs.foldl (FibKernel.processChange os env) f) present' := by
  induction cs generalizing f present with
  | nil =>
    cases htell
    exact h
  | cons c cs ih =>
    rw [run_cons] at htell
    obtain ⟨present₁, hfirst, hrest⟩ := Option.bind_eq_some_iff.1 htell
    exact ih (h.change hos hfirst halone.1 hok.1) hrest (halone.2 present₁ hfirst) hok.2

end

namespace World

variable {σ : Type} {os : RouteTable σ} {w w' : World σ} {backend : Backend σ}
  {event : Env × BestChangeBatch}

lemma inv_new (hforeign : ∀ r ∈ os.routeList backend.routes, r.protocol ≠ rtprotZE) :
    Inv os (new backend).fib (new backend).present := by
  have hnone : ∀ d, own (os.routeList backend.routes) d = [] := by
    intro d
    unfold own
    rw [filter_eq_nil_iff]
    intro c hc hown
    exact hforeign c hc (owned_iff.1 hown).2.2
  refine ⟨rfl, rfl, fun p => ?_, fun d => ⟨?_, ?_, fun _ => ?_⟩⟩
  · simp [new, FibKernel.new]
  · simp [new, FibKernel.new, hnone]
  · simp [new, FibKernel.new, hnone]
  · simp [new, FibKernel.new, hnone]

lemma inv_step (hos : os.Documented) (h : Inv os w.fib w.present) (halone : w.BatchAlone event)
    (hstep : w.step os event = some w') : Inv os w'.fib w'.present := by
  unfold step at hstep
  obtain ⟨present, htell, hstep⟩ := Option.bind_eq_some_iff.1 hstep
  split_ifs at hstep with hok
  cases hstep
  have hrunning : w.fib.processEvent os event.1 event.2 =
      event.2.changes.foldl (FibKernel.processChange os event.1) w.fib := by
    unfold FibKernel.processEvent
    rw [h.running]
    rfl
  dsimp only
  rw [hrunning]
  exact h.changes hos htell halone hok

/-- Whatever route table does what is documented of it: after every batch, it has a route of the
writer for a prefix exactly when some family still has it, in every run whose removals are alone at
their destination. -/
theorem holds_iff_present (hos : os.Documented)
    (hforeign : ∀ r ∈ os.routeList backend.routes, r.protocol ≠ rtprotZE)
    (events : List (Env × BestChangeBatch))
    (halone : Meets (step os) BatchAlone (new backend) events)
    (hrun : run (step os) (new backend) events = some w) (pfx : Prefix) :
    w.fib.backend.holds os pfx ↔ ∃ key ∈ w.present, key.2.masked = pfx.masked := by
  have hinv : Inv os w.fib w.present :=
    run_keeps (I := fun w => Inv os w.fib w.present)
      (fun s o s' hs hcond hstep => inv_step hos hs hcond hstep) events (new backend) w
      (inv_new hforeign) halone hrun
  rw [holds_iff]
  exact (hinv.routed pfx.masked).held

def tenSlash8 : Prefix := ⟨.v4 0x0A000000#32, 8⟩

/-- Source: family.go. -/
def ipv4Unicast : Family := ⟨1, 1⟩

/-- Source: family.go SAFIMPLSLabel. -/
def ipv4Labeled : Family := ⟨1, 4⟩

/-- A batch of one change of 10.0.0.0/8, by an OS that takes every route. -/
def sends (fam : Family) (action : RouteAction) (labels : List UInt32) : Env × BestChangeBatch :=
  (⟨fun _ => true, 0⟩,
    { family := fam
      changes := [{ action := action, pfx := tenSlash8, nextHop := .v4 0xC0000201#32,
                    labels := labels }] })

/-- The labeled family comes and goes before the unicast one comes. -/
def inTurn : List (Env × BestChangeBatch) :=
  [sends ipv4Labeled .add [100], sends ipv4Labeled .update [200], sends ipv4Labeled .withdraw [],
    sends ipv4Unicast .add []]

/-- The labeled family comes and goes while the unicast one is there. -/
def together : List (Env × BestChangeBatch) :=
  [sends ipv4Unicast .add [], sends ipv4Labeled .add [100], sends ipv4Labeled .withdraw []]

/-- A route table that is the list of its routes. -/
def listTable : RouteTable (List KernelRoute) where
  routeList := id
  routeAdd routes r := if routes.any r.sameSlot then .error .exist else .ok (r :: routes)
  routeReplace routes r := .ok (r :: routes.eraseP r.sameSlot)
  routeDel routes q := if routes.any q.names then .ok (routes.eraseP q.names) else .error .noRoute

lemma exists_perm_of_eraseP {p : KernelRoute → Bool} {routes : List KernelRoute} {c : KernelRoute}
    (hc : c ∈ routes) (hp : p c) :
    ∃ c', p c' ∧ routes.Perm (c' :: routes.eraseP p) := by
  obtain ⟨c', pre, post, -, hp', hsplit, herase⟩ := exists_of_eraseP hc hp
  refine ⟨c', hp', ?_⟩
  rw [herase, hsplit]
  exact perm_middle

lemma listTable_documented : listTable.Documented := by
  refine ⟨fun t t' r h => ?_, fun t t' r h ⟨c, hc, hslot⟩ => ?_, fun t t' q h => ?_⟩
  · simp only [listTable] at h
    split_ifs at h with hany
    cases h
    exact ⟨by simpa [listTable] using hany, .refl _⟩
  · cases h
    obtain ⟨c', hslot', hperm⟩ := exists_perm_of_eraseP hc hslot
    exact ⟨c', _, hslot', hperm, .refl _⟩
  · simp only [listTable] at h
    split_ifs at h with hany
    cases h
    obtain ⟨c, hc, hnames⟩ := any_eq_true.1 hany
    exact exists_perm_of_eraseP hc hnames

/-- The theorem at a run of four batches: the route of the unicast family is there at its end. -/
theorem holds_iff_present_in_turn :
    ∃ w, run (step listTable) (new { routes := [] }) inTurn = some w ∧
      (ipv4Unicast, tenSlash8) ∈ w.present ∧ w.fib.backend.holds listTable tenSlash8 := by
  have hend : ((run (step listTable) (new { routes := [] }) inTurn).any fun w =>
      decide ((ipv4Unicast, tenSlash8) ∈ w.present)) := by
    decide +kernel
  obtain ⟨w, hrun, hpresent⟩ := Option.any_eq_true _ _ |>.1 hend
  have hmem := of_decide_eq_true hpresent
  refine ⟨w, hrun, hmem, ?_⟩
  have halone : Meets (step listTable) BatchAlone (new { routes := [] }) inTurn := by
    decide +kernel
  rw [holds_iff_present listTable_documented (fun r hr => absurd hr not_mem_nil) inTurn halone hrun]
  exact ⟨_, hmem, rfl⟩

/-- Not in every run: the withdrawal of the labeled family takes the route of the unicast one. -/
theorem labeled_withdraw_removes_unicast :
    ¬ ∀ (events : List (Env × BestChangeBatch)) (w : World (List KernelRoute)),
        run (step listTable) (new { routes := [] }) events = some w → ∀ pfx : Prefix,
          (w.fib.backend.holds listTable pfx ↔
            ∃ key ∈ w.present, key.2.masked = pfx.masked) := by
  intro hclaim
  have hend : ((run (step listTable) (new { routes := [] }) together).any fun w =>
      decide ((ipv4Unicast, tenSlash8) ∈ w.present) &&
        !w.fib.backend.holds listTable tenSlash8) := by
    decide +kernel
  obtain ⟨w, hrun, hgone⟩ := Option.any_eq_true _ _ |>.1 hend
  rw [and_eq_true, decide_eq_true_iff, Bool.not_eq_true'] at hgone
  have hholds := (hclaim together w hrun tenSlash8).2 ⟨_, hgone.1, rfl⟩
  rw [hgone.2] at hholds
  cases hholds

end World

end Ze.Fib
