import Ze.OspfSpf.Routes
import Ze.LocRib.Path
import Ze.Lib.Run

/-!
# Installing routes

`Apply` installs the difference between a route set and the one before, and `insert` withdraws the
instances that a route no longer has. The sink keeps paths by prefix, source and instance.
`Installer.Kept` says what is installed after any number of calls.

Default file: `install.go`. Suppressed calls and the counters are left out.
-/

namespace Ze.OspfSpf

open Ze.Net Ze.Lib List
open Ze.LocRib (Path ProtocolID)
open Function (update)

/-! ## Differences of route sets -/

/-- Source: route.go routeEqual, backupEqual. -/
def routeEqual (a b : RouteEntry) : Bool := decide (a = b)

/-- Source: route.go. -/
structure RouteDelta where
  added : List RouteEntry
  changed : List RouteEntry
  removed : List Prefix

/-- Source: route.go. -/
def diffRoutes (ord : RangeOrder Prefix) (prev cur : Finmap fun _ : Prefix => RouteEntry) :
    RouteDelta :=
  let byPrefix (a b : RouteEntry) : Bool := prefixCompare a.pfx b.pfx != .gt
  { added := ((ord.keys cur.keys).filterMap fun pfx => match cur.lookup pfx, prev.lookup pfx with
      | some c, none => some c
      | _, _ => none).mergeSort byPrefix
    changed := ((ord.keys cur.keys).filterMap fun pfx => match cur.lookup pfx, prev.lookup pfx with
      | some c, some p => if routeEqual p c then none else some c
      | _, _ => none).mergeSort byPrefix
    removed := ((ord.keys prev.keys).filter fun pfx => (cur.lookup pfx).isNone).mergeSort
      fun p q => prefixCompare p q != .gt }

/-- Source: route.go. -/
def indexByPrefix (routes : List RouteEntry) : Finmap fun _ : Prefix => RouteEntry :=
  routes.foldl (fun m r => m.insert r.pfx r) ∅

/-! ## The installer -/

/-- Source: route.go. -/
def Backup.valid (b : Backup) : Bool := b.kind != .none && b.nextHop.isValid

def metricToUint32 (m : ℕ) : UInt32 := if 2 ^ 32 - 1 < m then 0xFFFFFFFF else UInt32.ofNat m

/-- `none` for a type that the SPF does not produce, which panics. -/
def ribRouteType (t : UInt8) (nssa : Bool) : Option UInt8 :=
  if t = 1 then some 1
  else if t = 2 then some 2
  else if t = 3 then some (if nssa then 5 else 3)
  else if t = 4 then some (if nssa then 6 else 4)
  else none

/-- The path of one next hop. Source: insert. -/
def pathOf (source : ProtocolID) (r : RouteEntry) (i : ℕ) (nh : NextHop) : Option Path :=
  let backup := (r.backups[i]?).filter Backup.valid
  let backupIface := (backup.map Backup.iface).getD ""
  (ribRouteType r.type r.nssa).map fun t =>
    { source := source
      inst := UInt32.ofNat i
      nextHop := nh.addr
      interface := nh.iface
      onLink := nh.iface != ""
      metric := metricToUint32 r.metric
      backupNextHop := (backup.map Backup.nextHop).getD .zero
      backupRepairLabels := (backup.map Backup.repairLabels).getD []
      backupInterface := backupIface
      backupOnLink := backupIface != ""
      ospfRouteType := t
      tag := r.tag
      hasTag := r.hasTag }

/-- The paths that are inserted for a route, in order. Source: insert, its loop. -/
def paths (source : ProtocolID) (r : RouteEntry) : Option (List Path) :=
  (r.nextHops.zipIdx.filter fun x => x.1.addr.isValid).mapM fun x => pathOf source r x.2 x.1

structure InstalledRoute where
  entry : RouteEntry
  instances : List UInt32

structure Installer where
  installed : Finmap fun _ : Prefix => InstalledRoute
  sink : Prefix → ProtocolID → UInt32 → Option Path

namespace Installer

def insertPath (s : Installer) (pfx : Prefix) (p : Path) : Installer :=
  { s with sink := update s.sink pfx (update (s.sink pfx) p.source
      (update (s.sink pfx p.source) p.inst (some p))) }

def removePath (s : Installer) (pfx : Prefix) (source : ProtocolID) (inst : UInt32) : Installer :=
  { s with sink := update s.sink pfx (update (s.sink pfx) source
      (update (s.sink pfx source) inst none)) }

variable (source : ProtocolID)

def insert (s : Installer) (r : RouteEntry) : Option Installer :=
  (paths source r).map fun ps =>
    let newInstances := ps.map Path.inst
    let s := ps.foldl (fun s p => s.insertPath r.pfx p) s
    let stale := ((s.installed.lookup r.pfx).map InstalledRoute.instances).getD []
    let s := (stale.filter fun old => !newInstances.contains old).foldl
      (fun s old => s.removePath r.pfx source old) s
    { s with installed := s.installed.insert r.pfx ⟨r, newInstances⟩ }

/-- The paths of a prefix are withdrawn. Source: remove, RemoveAll. -/
def withdraw (s : Installer) (pfx : Prefix) : Installer :=
  (((s.installed.lookup pfx).map InstalledRoute.instances).getD []).foldl
    (fun s inst => s.removePath pfx source inst) s

def remove (s : Installer) (pfx : Prefix) : Installer :=
  let s := s.withdraw source pfx
  { s with installed := s.installed.erase pfx }

def apply (ord : RangeOrder Prefix) (s : Installer) (cur : List RouteEntry) : Option Installer :=
  let prevIdx := (ord.keys s.installed.keys).foldl (fun m pfx =>
    match s.installed.lookup pfx with
    | some ir => m.insert pfx ir.entry
    | none => m) (∅ : Finmap fun _ : Prefix => RouteEntry)
  let delta := diffRoutes ord prevIdx (indexByPrefix cur)
  ((delta.added.foldlM (insert source) s).bind fun s =>
    delta.changed.foldlM (insert source) s).map fun s =>
      delta.removed.foldl (remove source) s

def removeAll (ord : RangeOrder Prefix) (s : Installer) : Installer :=
  { (ord.keys s.installed.keys).foldl (withdraw source) s with installed := ∅ }

/-- A call; each ranges over its maps in an order of its own. -/
inductive Call
  | apply (ord : RangeOrder Prefix) (cur : List RouteEntry)
  | removeAll (ord : RangeOrder Prefix)

/-- Source: Apply, RemoveAll. -/
def step (s : Installer) : Call → Option Installer
  | .apply ord cur => s.apply source ord cur
  | .removeAll ord => some (s.removeAll source ord)

def lastSet (calls : List Call) : Finmap fun _ : Prefix => RouteEntry :=
  match calls.getLast? with
  | some (.apply _ cur) => indexByPrefix cur
  | _ => ∅

/-! ## One prefix -/

variable {source}

lemma sink_insertPaths (ps : List Path) (s : Installer) (pfx p : Prefix) (inst : UInt32)
    (hps : ∀ x ∈ ps, x.source = source) :
    (ps.foldl (fun s x => s.insertPath pfx x) s).sink p source inst =
      if p = pfx then (ps.reverse.find? fun x => x.inst == inst) <|> s.sink p source inst
      else s.sink p source inst := by
  induction ps generalizing s with
  | nil => simp
  | cons x ps ih =>
    have hx : x.source = source := hps x mem_cons_self
    rw [foldl_cons, ih _ fun y hy => hps y (mem_cons_of_mem x hy), reverse_cons, find?_append]
    by_cases hp : p = pfx
    · subst hp
      rw [if_pos rfl, if_pos rfl]
      rcases hfind : ps.reverse.find? fun x => x.inst == inst with _ | y
      · by_cases hinst : inst = x.inst
        · simp [insertPath, hx, hinst]
        · simp [insertPath, hx, hinst, Ne.symm hinst]
      · rw [hfind]
        rfl
    · rw [if_neg hp, if_neg hp]
      simp [insertPath, hp]

lemma sink_removePaths (insts : List UInt32) (s : Installer) (pfx p : Prefix) (inst : UInt32) :
    (insts.foldl (fun s i => s.removePath pfx source i) s).sink p source inst =
      if p = pfx ∧ inst ∈ insts then none else s.sink p source inst := by
  induction insts generalizing s with
  | nil => simp
  | cons i insts ih =>
    rw [foldl_cons, ih]
    by_cases hp : p = pfx
    · subst hp
      by_cases hi : inst = i
      · simp [removePath, hi]
      · simp [removePath, hi]
    · simp [removePath, hp]

lemma installed_insertPaths (ps : List Path) (s : Installer) (pfx : Prefix) :
    (ps.foldl (fun s x => s.insertPath pfx x) s).installed = s.installed := by
  induction ps generalizing s with
  | nil => rfl
  | cons x ps ih =>
    rw [foldl_cons, ih]
    rfl

lemma installed_removePaths (insts : List UInt32) (s : Installer) (pfx : Prefix) :
    (insts.foldl (fun s i => s.removePath pfx source i) s).installed = s.installed := by
  induction insts generalizing s with
  | nil => rfl
  | cons i insts ih =>
    rw [foldl_cons, ih]
    rfl

variable {r : RouteEntry} {p : Prefix}

lemma source_of_paths {ps : List Path} (h : paths source r = some ps) :
    ∀ x ∈ ps, x.source = source := by
  intro x hx
  obtain ⟨y, -, hy⟩ := exists_of_mem_mapM _ _ h hx
  rw [pathOf, Option.map_eq_some_iff] at hy
  obtain ⟨t, -, rfl⟩ := hy
  rfl

variable (source) in
/-- What the sink holds for a prefix: the paths of the installed route, the last one of each
instance. -/
structure Kept (s : Installer) : Prop where
  route : ∀ p ir, s.installed.lookup p = some ir → ∃ ps, paths source ir.entry = some ps ∧
    ir.instances = ps.map Path.inst ∧ ir.entry.pfx = p ∧
    ∀ inst, s.sink p source inst = ps.reverse.find? fun x => x.inst == inst
  none : ∀ p, s.installed.lookup p = none → ∀ inst, s.sink p source inst = none

variable {s s' : Installer}

lemma Kept.mem_instances (h : s.Kept source) {inst : UInt32}
    (hin : s.sink p source inst ≠ Option.none) :
    inst ∈ ((s.installed.lookup p).map InstalledRoute.instances).getD [] := by
  rcases hir : s.installed.lookup p with _ | ir
  · exact absurd (h.none p hir inst) hin
  · obtain ⟨ps, -, hinsts, -, hsink⟩ := h.route p ir hir
    rw [hsink inst] at hin
    obtain ⟨x, hx⟩ := Option.ne_none_iff_exists'.1 hin
    rw [Option.map_some, Option.getD_some, hinsts, mem_map]
    have hmem := mem_of_find?_eq_some hx
    exact ⟨x, mem_reverse.1 hmem, by simpa using find?_some hx⟩

lemma Kept.insert (h : s.Kept source) (hs : s.insert source r = some s') :
    s'.Kept source ∧ ∀ p, (s'.installed.lookup p).map InstalledRoute.entry =
      if p = r.pfx then some r else (s.installed.lookup p).map InstalledRoute.entry := by
  rw [Installer.insert, Option.map_eq_some_iff] at hs
  obtain ⟨ps, hps, rfl⟩ := hs
  dsimp only
  rw [installed_removePaths, installed_insertPaths]
  have hsink : ∀ p inst, (((((s.installed.lookup r.pfx).map InstalledRoute.instances).getD
      []).filter fun old => !(ps.map Path.inst).contains old).foldl
        (fun s old => s.removePath r.pfx source old)
        (ps.foldl (fun s p => s.insertPath r.pfx p) s)).sink p source inst =
      if p = r.pfx then ps.reverse.find? fun x => x.inst == inst else s.sink p source inst := by
    intro p inst
    rw [sink_removePaths, sink_insertPaths ps s r.pfx p inst (source_of_paths hps)]
    by_cases hp : p = r.pfx
    · subst hp
      rw [if_pos rfl, if_pos rfl]
      by_cases hnew : inst ∈ ps.map Path.inst
      · -- written by the loop
        rw [if_neg (fun hc => by simpa [hnew] using (mem_filter.1 hc.2).2)]
        obtain ⟨x, hx, hxi⟩ := mem_map.1 hnew
        have hsome : (ps.reverse.find? fun x => x.inst == inst).isSome := by
          rw [find?_isSome]
          exact ⟨x, mem_reverse.2 hx, by simpa using hxi⟩
        obtain ⟨y, hy⟩ := Option.isSome_iff_exists.1 hsome
        rw [hy]
        rfl
      · have hnone : (ps.reverse.find? fun x => x.inst == inst) = Option.none := by
          rw [find?_eq_none]
          intro x hx hxi
          exact hnew (mem_map.2 ⟨x, mem_reverse.1 hx, by simpa using hxi⟩)
        rw [hnone]
        by_cases hold : s.sink r.pfx source inst = Option.none
        · simp [hold]
        · rw [if_pos ⟨rfl, mem_filter.2 ⟨h.mem_instances hold, by simpa using hnew⟩⟩]
    · rw [if_neg hp, if_neg hp, if_neg (fun hc => hp hc.1)]
  refine ⟨⟨fun p ir hir => ?_, fun p hp => ?_⟩, fun p => ?_⟩
  · rw [lookup_insert_eq] at hir
    split_ifs at hir with hp
    · cases hir
      refine ⟨ps, hps, rfl, hp.symm, fun inst => (hsink p inst).trans (if_pos hp)⟩
    · obtain ⟨ps', hps', hinsts, hpfx, hsink'⟩ := h.route p ir hir
      exact ⟨ps', hps', hinsts, hpfx, fun inst =>
        ((hsink p inst).trans (if_neg hp)).trans (hsink' inst)⟩
  · rw [lookup_insert_eq] at hp
    split_ifs at hp with hpfx
    intro inst
    exact ((hsink p inst).trans (if_neg hpfx)).trans (h.none p hp inst)
  · rw [lookup_insert_eq]
    split_ifs <;> rfl

lemma sink_withdraw (hmem : ∀ inst, s.sink p source inst ≠ Option.none →
      inst ∈ ((s.installed.lookup p).map InstalledRoute.instances).getD []) (pfx : Prefix)
    (inst : UInt32) : (s.withdraw source pfx).sink p source inst =
      if p = pfx then Option.none else s.sink p source inst := by
  rw [withdraw, sink_removePaths]
  by_cases hp : p = pfx
  · subst hp
    rw [if_pos rfl]
    by_cases hold : s.sink p source inst = Option.none
    · rw [hold, ite_self]
    · rw [if_pos ⟨rfl, hmem inst hold⟩]
  · rw [if_neg hp, if_neg (fun hc => hp hc.1)]

lemma Kept.remove (h : s.Kept source) (pfx : Prefix) : (s.remove source pfx).Kept source ∧
    ∀ p, ((s.remove source pfx).installed.lookup p).map InstalledRoute.entry =
      if p = pfx then Option.none else (s.installed.lookup p).map InstalledRoute.entry := by
  have hinst : (s.withdraw source pfx).installed = s.installed := installed_removePaths _ s pfx
  have hlook : ∀ p, (s.remove source pfx).installed.lookup p =
      if p = pfx then Option.none else s.installed.lookup p := by
    intro p
    rw [Installer.remove]
    dsimp only
    rw [hinst, lookup_erase_eq]
  refine ⟨⟨fun p ir hir => ?_, fun p hp inst => ?_⟩, fun p => ?_⟩
  · rw [hlook] at hir
    split_ifs at hir with hp
    obtain ⟨ps, hps, hinsts, hpfx, hsink⟩ := h.route p ir hir
    exact ⟨ps, hps, hinsts, hpfx, fun inst =>
      ((sink_withdraw (fun _ => h.mem_instances) pfx inst).trans (if_neg hp)).trans (hsink inst)⟩
  · rw [hlook] at hp
    refine (sink_withdraw (fun _ => h.mem_instances) pfx inst).trans ?_
    split_ifs at hp ⊢ with hpfx
    · rfl
    · exact h.none p hp inst
  · rw [hlook]
    split_ifs <;> rfl

/-! ## Route sets -/

lemma lookup_indexByPrefix {routes : List RouteEntry}
    (h : (indexByPrefix routes).lookup p = some r) : r ∈ routes ∧ r.pfx = p := by
  have hfold : ∀ (routes rest : List RouteEntry) (m : Finmap fun _ : Prefix => RouteEntry),
      (∀ p r, m.lookup p = some r → r ∈ routes ∧ r.pfx = p) → ∀ p r,
        (rest.foldl (fun m r => m.insert r.pfx r) m).lookup p = some r →
          r ∈ routes ++ rest ∧ r.pfx = p := by
    intro routes rest
    induction rest generalizing routes with
    | nil => simp
    | cons x rest ih =>
      intro m hm
      rw [append_cons]
      refine ih _ _ fun p r hr => ?_
      rw [lookup_insert_eq] at hr
      split_ifs at hr with hp
      · cases hr
        exact ⟨by simp, hp.symm⟩
      · exact ⟨mem_append_left _ (hm p r hr).1, (hm p r hr).2⟩
  exact hfold [] routes ∅ (by simp) p r h

lemma lookup_prevIdx (ord : RangeOrder Prefix) (s : Installer) (p : Prefix) :
    ((ord.keys s.installed.keys).foldl (fun m pfx => match s.installed.lookup pfx with
      | some ir => m.insert pfx ir.entry
      | Option.none => m) (∅ : Finmap fun _ : Prefix => RouteEntry)).lookup p =
      (s.installed.lookup p).map InstalledRoute.entry := by
  have hfold : ∀ (keys : List Prefix) (m : Finmap fun _ : Prefix => RouteEntry),
      (keys.foldl (fun m pfx => match s.installed.lookup pfx with
        | some ir => m.insert pfx ir.entry
        | Option.none => m) m).lookup p =
        if p ∈ keys then (s.installed.lookup p).map InstalledRoute.entry <|> m.lookup p
        else m.lookup p := by
    intro keys
    induction keys with
    | nil => simp
    | cons k keys ih =>
      intro m
      rw [foldl_cons, ih]
      rcases hk : s.installed.lookup k with _ | ir
      · by_cases hp : p = k
        · subst hp
          simp [hk]
        · simp [hp]
      · dsimp only
        rw [lookup_insert_eq]
        by_cases hp : p = k
        · subst hp
          simp [hk]
        · simp [hp]
  rw [hfold, Finmap.lookup_empty]
  by_cases hp : p ∈ ord.keys s.installed.keys
  · rw [if_pos hp]
    simp
  · rw [if_neg hp]
    rw [ord.mem_keys, Finmap.mem_keys] at hp
    rw [Finmap.lookup_eq_none.2 hp]
    rfl

lemma Kept.inserts {cur : Finmap fun _ : Prefix => RouteEntry} (l : List RouteEntry) :
    ∀ {s s' : Installer}, (∀ r ∈ l, cur.lookup r.pfx = some r) → s.Kept source →
      l.foldlM (Installer.insert source) s = some s' →
      s'.Kept source ∧ ∀ p, (s'.installed.lookup p).map InstalledRoute.entry =
        if p ∈ l.map RouteEntry.pfx then cur.lookup p
        else (s.installed.lookup p).map InstalledRoute.entry := by
  induction l with
  | nil =>
    intro s s' _ h hs
    cases hs
    exact ⟨h, fun p => by simp⟩
  | cons r l ih =>
    intro s s' hl h hs
    rw [foldlM_cons] at hs
    obtain ⟨s₁, hs₁, hs⟩ := Option.bind_eq_some_iff.1 hs
    obtain ⟨hkept, hentry⟩ := h.insert hs₁
    obtain ⟨hkept', hentry'⟩ := ih (fun x hx => hl x (mem_cons_of_mem r hx)) hkept hs
    refine ⟨hkept', fun p => ?_⟩
    rw [hentry' p, hentry p]
    by_cases hp : p = r.pfx
    · subst hp
      simp [hl r mem_cons_self]
    · simp [hp]

lemma Kept.removes (l : List Prefix) : ∀ {s : Installer}, s.Kept source →
    (l.foldl (Installer.remove source) s).Kept source ∧
      ∀ p, ((l.foldl (Installer.remove source) s).installed.lookup p).map InstalledRoute.entry =
        if p ∈ l then Option.none else (s.installed.lookup p).map InstalledRoute.entry := by
  induction l with
  | nil =>
    intro s h
    exact ⟨h, fun p => by simp⟩
  | cons pfx l ih =>
    intro s h
    obtain ⟨hkept, hentry⟩ := h.remove pfx
    obtain ⟨hkept', hentry'⟩ := ih hkept
    refine ⟨hkept', fun p => ?_⟩
    rw [foldl_cons, hentry' p, hentry p]
    by_cases hp : p = pfx
    · simp [hp]
    · simp [hp]

lemma Kept.apply {ord : RangeOrder Prefix} {cur : List RouteEntry} (h : s.Kept source)
    (hs : s.apply source ord cur = some s') : s'.Kept source ∧
      ∀ p, (s'.installed.lookup p).map InstalledRoute.entry = (indexByPrefix cur).lookup p := by
  rw [Installer.apply] at hs
  set prev := (ord.keys s.installed.keys).foldl (fun m pfx => match s.installed.lookup pfx with
    | some ir => m.insert pfx ir.entry
    | Option.none => m) (∅ : Finmap fun _ : Prefix => RouteEntry) with hprevdef
  have hprev : ∀ p, prev.lookup p = (s.installed.lookup p).map InstalledRoute.entry :=
    lookup_prevIdx ord s
  generalize hidx : indexByPrefix cur = idx at hs ⊢
  have hpfx : ∀ p r, idx.lookup p = some r → r.pfx = p :=
    fun p r hr => (lookup_indexByPrefix (hidx ▸ hr)).2
  have hkeys : ∀ p r, idx.lookup p = some r → p ∈ ord.keys idx.keys := by
    intro p r hr
    rw [ord.mem_keys, Finmap.mem_keys]
    exact Finmap.mem_of_lookup_eq_some hr
  have hadded : ∀ r, r ∈ (diffRoutes ord prev idx).added ↔
      idx.lookup r.pfx = some r ∧ prev.lookup r.pfx = Option.none := by
    intro r
    rw [diffRoutes, mem_mergeSort, mem_filterMap]
    constructor
    · rintro ⟨p, -, hp⟩
      split at hp
      · rename_i c hc hnone
        cases hp
        rw [hpfx p r hc]
        exact ⟨hc, hnone⟩
      · cases hp
    · rintro ⟨hr, hnone⟩
      exact ⟨r.pfx, hkeys _ r hr, by rw [hr, hnone]⟩
  have hchanged : ∀ r, r ∈ (diffRoutes ord prev idx).changed ↔
      idx.lookup r.pfx = some r ∧ ∃ q, prev.lookup r.pfx = some q ∧ q ≠ r := by
    intro r
    rw [diffRoutes, mem_mergeSort, mem_filterMap]
    constructor
    · rintro ⟨p, -, hp⟩
      split at hp
      · rename_i c q hc hq
        split_ifs at hp with hne
        cases hp
        rw [hpfx p r hc]
        exact ⟨hc, q, hq, by simpa [routeEqual] using hne⟩
      · cases hp
    · rintro ⟨hr, q, hq, hne⟩
      refine ⟨r.pfx, hkeys _ r hr, ?_⟩
      rw [hr, hq]
      simp [routeEqual, hne]
  have hremoved : ∀ p, p ∈ (diffRoutes ord prev idx).removed ↔
      (∃ q, prev.lookup p = some q) ∧ idx.lookup p = Option.none := by
    intro p
    rw [diffRoutes, mem_mergeSort, mem_filter, ord.mem_keys, Finmap.mem_keys,
      Option.isNone_iff_eq_none, ← Finmap.lookup_isSome, Option.isSome_iff_exists]
  rw [Option.map_eq_some_iff] at hs
  obtain ⟨s₂, hs₂, rfl⟩ := hs
  obtain ⟨s₁, hs₁, hs₂⟩ := Option.bind_eq_some_iff.mp hs₂
  obtain ⟨hkept₁, hentry₁⟩ := h.inserts _ (fun r hr => ((hadded r).mp hr).1) hs₁
  obtain ⟨hkept₂, hentry₂⟩ := hkept₁.inserts _ (fun r hr => ((hchanged r).mp hr).1) hs₂
  obtain ⟨hkept₃, hentry₃⟩ := hkept₂.removes (diffRoutes ord prev idx).removed
  refine ⟨hkept₃, fun p => ?_⟩
  rw [hentry₃ p, hentry₂ p, hentry₁ p, ← hprev p]
  rcases hc : idx.lookup p with _ | c
  · -- not in the new set: neither added nor changed, and removed if it was there
    split_ifs with hrem
    · rfl
    · rfl
    · rfl
    · rcases hq : prev.lookup p with _ | q
      · rfl
      · exact absurd ((hremoved p).mpr ⟨⟨q, hq⟩, hc⟩) hrem
  · have hcp := hpfx p c hc
    have hkeep : p ∉ (diffRoutes ord prev idx).removed := by
      intro hrem
      rw [((hremoved p).mp hrem).2] at hc
      cases hc
    rw [if_neg hkeep]
    split_ifs with hch had
    · rfl
    · rfl
    · -- neither added nor changed: it is the route that was there
      rcases hq : prev.lookup p with _ | q
      · refine absurd (mem_map.mpr ⟨c, (hadded c).mpr ?_, hcp⟩) had
        rw [hcp]
        exact ⟨hc, hq⟩
      · by_contra hne
        refine hch (mem_map.mpr ⟨c, (hchanged c).mpr ?_, hcp⟩)
        rw [hcp]
        exact ⟨hc, q, hq, fun heq => hne (by rw [heq])⟩

lemma Kept.removeAll (h : s.Kept source) (ord : RangeOrder Prefix) :
    (s.removeAll source ord).Kept source := by
  have hfold : ∀ (p : Prefix) (inst : UInt32) (keys : List Prefix) (t : Installer),
      t.installed = s.installed → (∀ inst, t.sink p source inst ≠ Option.none →
        inst ∈ ((s.installed.lookup p).map InstalledRoute.instances).getD []) →
      (keys.foldl (withdraw source) t).sink p source inst =
        if p ∈ keys then Option.none else t.sink p source inst := by
    intro p inst keys
    induction keys with
    | nil => simp
    | cons k keys ih =>
      intro t ht hmem
      have hinst : (t.withdraw source k).installed = s.installed :=
        (installed_removePaths _ t k).trans ht
      have hsink : ∀ inst, (t.withdraw source k).sink p source inst =
          if p = k then Option.none else t.sink p source inst :=
        sink_withdraw (by rw [ht]; exact hmem) k
      rw [foldl_cons, ih _ hinst, hsink inst]
      · by_cases hp : p = k
        · simp [hp]
        · simp [hp]
      · intro i hi
        rw [hsink i] at hi
        split_ifs at hi with hp
        · exact absurd rfl hi
        · exact hmem i hi
  refine ⟨fun p ir hir => ?_, fun p _ inst => ?_⟩
  · rw [Installer.removeAll, Finmap.lookup_empty] at hir
    cases hir
  · refine (hfold p inst (ord.keys s.installed.keys) s rfl fun _ => h.mem_instances).trans ?_
    split_ifs with hp
    · rfl
    · rw [ord.mem_keys, Finmap.mem_keys] at hp
      exact h.none p (Finmap.lookup_eq_none.mpr hp) inst

/-! ## Runs -/

variable (source) in
/-- The installed routes are those of the last set. -/
structure Mirrors (calls : List Call) (s : Installer) : Prop where
  kept : s.Kept source
  entries : ∀ p, (s.installed.lookup p).map InstalledRoute.entry = (lastSet calls).lookup p

lemma Mirrors.step {calls : List Call} (h : s.Mirrors source calls) (c : Call)
    (hs : s.step source c = some s') : s'.Mirrors source (calls ++ [c]) := by
  have hlast : lastSet (calls ++ [c]) = lastSet [c] := by simp [lastSet]
  rcases c with ⟨ord, cur⟩ | ord
  · obtain ⟨hkept, hentries⟩ := h.kept.apply hs
    exact ⟨hkept, fun p => by rw [hlast]; exact hentries p⟩
  · cases hs
    refine ⟨h.kept.removeAll ord, fun p => ?_⟩
    rw [hlast, Installer.removeAll, lastSet, Finmap.lookup_empty]
    rfl

lemma mirrors_run (more : List Call) : ∀ {calls : List Call} {s s' : Installer},
    s.Mirrors source calls → run (step source) s more = some s' →
      s'.Mirrors source (calls ++ more) := by
  induction more with
  | nil =>
    rintro calls s _ h ⟨⟩
    simpa using h
  | cons c more ih =>
    intro calls s s' h hs
    obtain ⟨s₁, hs₁, hs⟩ := Option.bind_eq_some_iff.1 hs
    rw [append_cons]
    exact ih (h.step c hs₁) hs

lemma find?_paths {ps : List Path} (h : paths source r = some ps)
    (hfew : r.nextHops.length ≤ 2 ^ 32) (inst : UInt32) :
    (ps.reverse.find? fun x => x.inst == inst) =
      ((r.nextHops[inst.toNat]?).filter fun nh => nh.addr.isValid).bind
        (pathOf source r inst.toNat) := by
  have hinst : ∀ {i nh x}, pathOf source r i nh = some x → x.inst = UInt32.ofNat i := by
    intro i nh x hx
    rw [pathOf, Option.map_eq_some_iff] at hx
    obtain ⟨t, -, rfl⟩ := hx
    rfl
  -- a path of this instance is that of the next hop of this index
  have hpath : ∀ x ∈ ps, x.inst = inst → ∃ nh, r.nextHops[inst.toNat]? = some nh ∧
      nh.addr.isValid ∧ pathOf source r inst.toNat nh = some x := by
    intro x hx hxi
    obtain ⟨⟨nh, i⟩, hmem, hxp⟩ := exists_of_mem_mapM _ _ h hx
    rw [mem_filter, mk_mem_zipIdx_iff_getElem?] at hmem
    obtain ⟨hget, hvalid⟩ := hmem
    have hlt : i < 2 ^ 32 := (List.getElem?_eq_some_iff.mp hget).1.trans_le hfew
    have hi : inst.toNat = i := by
      rw [← hxi, hinst hxp, UInt32.toNat_ofNat_of_lt' hlt]
    rw [hi]
    exact ⟨nh, hget, hvalid, hxp⟩
  rcases hfind : ps.reverse.find? fun x => x.inst == inst with _ | x
  · rw [hfind]
    symm
    rw [Option.bind_eq_none_iff]
    intro nh hnh
    rw [Option.filter_eq_some_iff] at hnh
    by_contra hne
    obtain ⟨x, hx⟩ := Option.ne_none_iff_exists'.1 hne
    have hmem : (nh, inst.toNat) ∈ r.nextHops.zipIdx.filter fun x => x.1.addr.isValid := by
      rw [mem_filter, mk_mem_zipIdx_iff_getElem?]
      exact hnh
    obtain ⟨y, hy, hyp⟩ := mem_mapM_of_mem _ _ h hmem
    rw [find?_eq_none] at hfind
    refine hfind y (mem_reverse.2 hy) ?_
    rw [hinst hyp]
    simp
  · have hx := mem_reverse.1 (mem_of_find?_eq_some hfind)
    obtain ⟨nh, hget, hvalid, hxp⟩ := hpath x hx (by simpa using find?_some hfind)
    rw [hfind, hget, Option.filter_some, if_pos hvalid, Option.bind_some, hxp]

/-- A route of a type that the SPF produces is inserted. -/
lemma isSome_insert (s : Installer) (h : (ribRouteType r.type r.nssa).isSome) :
    (s.insert source r).isSome := by
  have hpaths : ∀ l : List (NextHop × ℕ), (l.mapM fun x => pathOf source r x.2 x.1).isSome := by
    intro l
    induction l with
    | nil => rfl
    | cons x l ih =>
      obtain ⟨t, ht⟩ := Option.isSome_iff_exists.1 h
      obtain ⟨ps, hps⟩ := Option.isSome_iff_exists.1 ih
      rw [mapM_cons, hps, pathOf, ht]
      rfl
  rw [Installer.insert, Option.isSome_map]
  exact hpaths _

lemma exists_lookup_of_mem_diffRoutes {ord : RangeOrder Prefix}
    {prev cur : Finmap fun _ : Prefix => RouteEntry}
    (h : r ∈ (diffRoutes ord prev cur).added ∨ r ∈ (diffRoutes ord prev cur).changed) :
    ∃ p, cur.lookup p = some r := by
  rcases h with h | h
  · rw [diffRoutes, mem_mergeSort, mem_filterMap] at h
    obtain ⟨p, -, hp⟩ := h
    split at hp
    · cases hp
      exact ⟨p, ‹_›⟩
    · cases hp
  · rw [diffRoutes, mem_mergeSort, mem_filterMap] at h
    obtain ⟨p, -, hp⟩ := h
    split at hp
    · split_ifs at hp
      cases hp
      exact ⟨p, ‹_›⟩
    · cases hp

lemma isSome_inserts (l : List RouteEntry)
    (h : ∀ r ∈ l, (ribRouteType r.type r.nssa).isSome) (s : Installer) :
    (l.foldlM (insert source) s).isSome := by
  induction l generalizing s with
  | nil => rfl
  | cons r l ih =>
    have hr : (s.insert source r).isSome := isSome_insert s (h r mem_cons_self)
    obtain ⟨s', hs'⟩ := Option.isSome_iff_exists.1 hr
    rw [foldlM_cons, hs']
    exact ih (fun x hx => h x (mem_cons_of_mem r hx)) s'

/-- `Apply` panics in no run over routes of the types that the SPF produces. -/
lemma exists_run (calls : List Call)
    (h : ∀ ord cur, Call.apply ord cur ∈ calls → ∀ r ∈ cur,
      (ribRouteType r.type r.nssa).isSome) (s : Installer) :
    ∃ s', run (step source) s calls = some s' := by
  induction calls generalizing s with
  | nil => exact ⟨s, rfl⟩
  | cons c calls ih =>
    have hstep : ∃ s₁, s.step source c = some s₁ := by
      rcases c with ⟨ord, cur⟩ | ord
      · refine Option.isSome_iff_exists.1 ?_
        have hcur : ∀ r prev, r ∈ (diffRoutes ord prev (indexByPrefix cur)).added ∨
            r ∈ (diffRoutes ord prev (indexByPrefix cur)).changed →
              (ribRouteType r.type r.nssa).isSome := by
          intro r prev hr
          obtain ⟨p, hp⟩ := exists_lookup_of_mem_diffRoutes hr
          exact h ord cur mem_cons_self r (lookup_indexByPrefix hp).1
        rw [Installer.step, Installer.apply, Option.isSome_map]
        obtain ⟨s₁, hs₁⟩ := Option.isSome_iff_exists.1
          (isSome_inserts _ (fun r hr => hcur r _ (.inl hr)) s)
        rw [hs₁]
        exact isSome_inserts _ (fun r hr => hcur r _ (.inr hr)) s₁
      · exact ⟨_, rfl⟩
    obtain ⟨s₁, hs₁⟩ := hstep
    obtain ⟨s', hs'⟩ := ih (fun ord cur hc => h ord cur (mem_cons_of_mem c hc)) s₁
    exact ⟨s', by rw [run_cons, hs₁]; exact hs'⟩

/-- **The sink holds the last route set.** After every sequence of calls of `Apply` and `RemoveAll`
on a new installer, whatever the order in which they range over their maps, the sink has an OSPF
path for a prefix and an instance exactly if the last route set has a route to the prefix with a
valid next hop of this index, and the path is the one made of them. No list of next hops is longer
than the instance numbers, as `insert` relies on; of two routes to one prefix the later counts. -/
theorem sink_holds_last_set {calls : List Call}
    (hrun : run (step source) ⟨∅, fun _ _ _ => Option.none⟩ calls = some s)
    (hfew : ∀ p r, (lastSet calls).lookup p = some r → r.nextHops.length ≤ 2 ^ 32) (p : Prefix)
    (inst : UInt32) :
    s.sink p source inst = ((lastSet calls).lookup p).bind fun r =>
      ((r.nextHops[inst.toNat]?).filter fun nh => nh.addr.isValid).bind
        (pathOf source r inst.toNat) := by
  have hinit : Mirrors source [] ⟨∅, fun _ _ _ => Option.none⟩ := by
    refine ⟨⟨fun p ir hir => ?_, fun _ _ _ => rfl⟩, fun p => ?_⟩
    · rw [Finmap.lookup_empty] at hir
      cases hir
    · rw [lastSet, Finmap.lookup_empty]
      rfl
  have hmirror : s.Mirrors source calls := by simpa using mirrors_run calls hinit hrun
  rw [← hmirror.entries p]
  rcases hir : s.installed.lookup p with _ | ir
  · exact hmirror.kept.none p hir inst
  · obtain ⟨ps, hps, -, -, hsink⟩ := hmirror.kept.route p ir hir
    have hlast : (lastSet calls).lookup p = some ir.entry := by
      rw [← hmirror.entries p, hir]
      rfl
    rw [hsink inst, find?_paths hps (hfew p ir.entry hlast) inst]
    rfl

def wide : RouteEntry :=
  { routeVia 1#32 with nextHops := [⟨.v4 1#32, "", 1, false⟩, ⟨.v4 2#32, "", 1, false⟩] }

def other : RouteEntry := { routeVia 3#32 with pfx := ⟨.v4 0x0B000000#32, 24⟩ }

/-- Two prefixes are installed, one of them through two next hops. The next route set keeps one of
the next hops and drops the other prefix, and then all paths are withdrawn. -/
theorem sink_holds_last_set_shrinking :
    ∃ s₁ s₂ s₃, run (step 7) ⟨∅, fun _ _ _ => Option.none⟩ [.apply default [wide, other]] =
      some s₁ ∧
      run (step 7) ⟨∅, fun _ _ _ => Option.none⟩
        [.apply default [wide, other], .apply default [routeVia 1#32]] = some s₂ ∧
      run (step 7) ⟨∅, fun _ _ _ => Option.none⟩
        [.apply default [wide, other], .apply default [routeVia 1#32], .removeAll default] =
          some s₃ ∧
      (∀ x ∈ [(wide, 0), (wide, 1), (other, 0)], (s₁.sink x.1.pfx 7 x.2).isSome) ∧
      (s₂.sink wide.pfx 7 0).isSome ∧
      (∀ x ∈ [(wide, 1), (other, 0)], s₂.sink x.1.pfx 7 x.2 = Option.none) ∧
      ∀ p inst, s₃.sink p 7 inst = Option.none := by
  have hrun : ∀ calls : List Call, (∀ ord cur, Call.apply ord cur ∈ calls →
      cur ⊆ [wide, other, routeVia 1#32]) →
        ∃ s, run (step 7) ⟨∅, fun _ _ _ => Option.none⟩ calls = some s := by
    have htypes : ∀ r ∈ [wide, other, routeVia 1#32],
        (ribRouteType r.type r.nssa).isSome := by decide
    exact fun calls h => exists_run calls (fun ord cur hc r hr => htypes r (h ord cur hc hr)) _
  obtain ⟨s₁, h₁⟩ := hrun [.apply default [wide, other]] (by simp)
  obtain ⟨s₂, h₂⟩ := hrun [.apply default [wide, other], .apply default [routeVia 1#32]] (by
    intro ord cur hc
    simp only [mem_cons, Call.apply.injEq, not_mem_nil, or_false] at hc
    rcases hc with ⟨-, rfl⟩ | ⟨-, rfl⟩ <;> simp)
  obtain ⟨s₃, h₃⟩ := hrun
    [.apply default [wide, other], .apply default [routeVia 1#32], .removeAll default] (by
      intro ord cur hc
      simp only [mem_cons, Call.apply.injEq, reduceCtorEq, not_mem_nil, or_false] at hc
      rcases hc with ⟨-, rfl⟩ | ⟨-, rfl⟩ <;> simp)
  have hfew : ∀ l : List RouteEntry, (∀ r ∈ l, r.nextHops.length ≤ 2) → ∀ p r,
      (indexByPrefix l).lookup p = some r → r.nextHops.length ≤ 2 ^ 32 := by
    intro l hl p r hr
    have := hl r (lookup_indexByPrefix hr).1
    omega
  have hp₁ := sink_holds_last_set h₁ (hfew [wide, other] (by decide))
  have hp₂ := sink_holds_last_set h₂ (hfew [routeVia 1#32] (by decide))
  have hp₃ := sink_holds_last_set h₃ (hfew [] (by simp))
  refine ⟨s₁, s₂, s₃, h₁, h₂, h₃, ?_, ?_, ?_, fun p inst => hp₃ p inst⟩
  · simp only [mem_cons, not_mem_nil, or_false]
    rintro x (rfl | rfl | rfl) <;> rw [hp₁] <;> rfl
  · rw [hp₂]
    rfl
  · simp only [mem_cons, not_mem_nil, or_false]
    rintro x (rfl | rfl) <;> rw [hp₂] <;> rfl

end Installer

end Ze.OspfSpf
