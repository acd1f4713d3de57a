import Ze.OspfSpf.Distances
import Ze.Net.Prefix
import Ze.Lib.GoMap
import Mathlib.Data.Prod.Lex

/-!
# The best routes of an area

`route.go`: `selectBestRoutes` folds the candidates into one route for each prefix: a better one
replaces the route, an equally good one adds its next hops up to the limit. What it keeps for a
prefix is described by `Chosen`.
-/

namespace Ze.OspfSpf

open Ze.Net Ze.Lib List
open NextHop (key)
open Prod (ext fst mk)

/-! ## Routes -/

inductive BackupKind
  | none
  | lfa
  | tilfa
deriving DecidableEq, Repr

structure Backup where
  nextHop : Addr
  iface : String
  repairLabels : List UInt32
  linkProtect : Bool
  nodeProtect : Bool
  downstream : Bool
  kind : BackupKind
deriving DecidableEq

/-- The types are open: `1` to `4` are intra-area, inter-area and the two external types.
Source: RouteEntry, RouteType -/
structure RouteEntry where
  areaId : AreaId
  pfx : Prefix
  metric : ℕ
  type : UInt8
  origin : RouterId
  nextHops : List NextHop
  backups : List Backup
  tag : UInt32
  hasTag : Bool
  nssa : Bool
deriving DecidableEq

def routeTypeRank (t : UInt8) : ℕ :=
  if t = 1 then 0 else if t = 2 then 1 else if t = 3 then 2 else if t = 4 then 3 else 4

def routeBetter (a b : RouteEntry) : Bool :=
  if routeTypeRank a.type ≠ routeTypeRank b.type then
    decide (routeTypeRank a.type < routeTypeRank b.type)
  else decide (a.metric < b.metric)

def routeSamePreference (a b : RouteEntry) : Bool :=
  routeTypeRank a.type == routeTypeRank b.type && a.metric == b.metric

/-- Source: spf.go. -/
def sortNextHops (hops : List NextHop) : List NextHop :=
  hops.mergeSort fun a b => (a.addr.cmp b.addr).then (compare a.iface b.iface) != .gt

/-- Source: net/netip Prefix.Compare. -/
def prefixCompare (p q : Prefix) : Ordering :=
  (p.masked.addr.cmp q.masked.addr).then ((compare p.bits q.bits).then (p.addr.cmp q.addr))

/-- A candidate as the loop takes it, `none` if it is skipped.
Source: selectBestRoutes, the first half of the loop -/
def prepare (k : ℕ) (c : RouteEntry) : Option RouteEntry :=
  if !c.pfx.isValid || c.nextHops.isEmpty || decide (lsInfinity ≤ c.metric) then none
  else
    let c := { c with
      pfx := c.pfx.masked
      nextHops := sortNextHops (capNextHops k c.nextHops []) }
    if c.nextHops.isEmpty then none else some c

/-- The route with the next hops of an equally good candidate.
Source: selectBestRoutes, the merge -/
def merged (k : ℕ) (cur c : RouteEntry) : RouteEntry :=
  { cur with
    nextHops := sortNextHops (mergeNextHops cur.nextHops c.nextHops k)
    origin := if c.origin < cur.origin then c.origin else cur.origin }

/-- Source: selectBestRoutes, the second half of the loop. -/
def consider (k : ℕ) (best : Finmap fun _ : Prefix => RouteEntry) (c : RouteEntry) :
    Finmap fun _ : Prefix => RouteEntry :=
  match best.lookup c.pfx with
  | none => best.insert c.pfx c
  | some cur =>
    if routeBetter c cur then best.insert c.pfx c
    else if routeSamePreference c cur then best.insert c.pfx (merged k cur c)
    else best

def selectBestRoutes (ord : RangeOrder Prefix) (candidates : List RouteEntry) (maxPaths : ℤ) :
    List RouteEntry :=
  let k := effectiveMaxPaths maxPaths
  let best := candidates.foldl (fun best c =>
    match prepare k c with
    | none => best
    | some c => consider k best c) ∅
  (ord.values best).mergeSort fun a b => prefixCompare a.pfx b.pfx != .gt

/-! ## One prefix -/

def pref (r : RouteEntry) : ℕ ×ₗ ℕ := toLex (routeTypeRank r.type, r.metric)

lemma routeBetter_iff (a b : RouteEntry) : routeBetter a b ↔ pref a < pref b := by
  rw [pref, pref, Prod.Lex.toLex_lt_toLex, routeBetter]
  split_ifs with h
  · simp [h]
  · rw [not_not] at h
    simp [h]

lemma routeSamePreference_iff (a b : RouteEntry) : routeSamePreference a b ↔ pref a = pref b := by
  rw [pref, pref, routeSamePreference, Bool.and_eq_true, beq_iff_eq, beq_iff_eq]
  simp

/-- What a route does not get from several candidates. -/
def attrs (r : RouteEntry) : Prefix × UInt8 × ℕ × UInt32 × Bool × AreaId :=
  (r.pfx, r.type, r.metric, r.tag, r.hasTag, r.areaId)

lemma pref_of_attrs {a b : RouteEntry} (h : attrs a = attrs b) : pref a = pref b := by
  simp only [attrs, mk.injEq] at h
  rw [pref, pref, h.2.1, h.2.2.1]

/-- The loop at one prefix. Source: selectBestRoutes. -/
def join (k : ℕ) : Option RouteEntry → RouteEntry → Option RouteEntry
  | none, c => some c
  | some cur, c =>
    if routeBetter c cur then some c
    else if routeSamePreference c cur then some (merged k cur c)
    else some cur

lemma lookup_consider (k : ℕ) (best : Finmap fun _ : Prefix => RouteEntry) (c : RouteEntry)
    (p : Prefix) : (consider k best c).lookup p =
      if p = c.pfx then join k (best.lookup p) c else best.lookup p := by
  rw [consider]
  by_cases hp : p = c.pfx
  · rw [if_pos hp, ← hp]
    rcases hcur : best.lookup p with _ | cur
    · rw [lookup_insert_eq, if_pos rfl]
      rfl
    · dsimp only [join]
      split_ifs
      · rw [lookup_insert_eq, if_pos rfl]
      · rw [lookup_insert_eq, if_pos rfl]
      · exact hcur
  · rw [if_neg hp]
    split
    · rw [lookup_insert_eq, if_neg hp]
    · split_ifs
      · rw [lookup_insert_eq, if_neg hp]
      · rw [lookup_insert_eq, if_neg hp]
      · rfl

/-- The candidates of a prefix as the loop takes them. -/
def usable (k : ℕ) (candidates : List RouteEntry) (p : Prefix) : List RouteEntry :=
  (candidates.filterMap (prepare k)).filter fun c => decide (c.pfx = p)

lemma lookup_loop (k : ℕ) (p : Prefix) (candidates : List RouteEntry)
    (best : Finmap fun _ : Prefix => RouteEntry) :
    (candidates.foldl (fun best c => match prepare k c with
      | none => best
      | some c => consider k best c) best).lookup p =
      (usable k candidates p).foldl (join k) (best.lookup p) := by
  induction candidates generalizing best with
  | nil => rfl
  | cons c candidates ih =>
    rw [foldl_cons, ih, usable, usable, filterMap_cons]
    rcases prepare k c with _ | c
    · rfl
    · dsimp only
      rw [lookup_consider, filter_cons]
      by_cases hp : c.pfx = p
      · rw [if_pos hp.symm, if_pos (decide_eq_true hp)]
        rfl
      · rw [if_neg (Ne.symm hp), if_neg (by simpa using hp)]

lemma mem_selectBestRoutes {ord : RangeOrder Prefix} {candidates : List RouteEntry}
    {maxPaths : ℤ} {r : RouteEntry} : r ∈ selectBestRoutes ord candidates maxPaths ↔
      ∃ p, (usable (effectiveMaxPaths maxPaths) candidates p).foldl
        (join (effectiveMaxPaths maxPaths)) none = some r := by
  rw [selectBestRoutes, mem_mergeSort, RangeOrder.mem_values]
  simp only [lookup_loop, Finmap.lookup_empty]

/-- The next hops of a candidate are valid, different and within the limit. -/
structure Prepared (k : ℕ) (c : RouteEntry) : Prop where
  nodup : (c.nextHops.map key).Nodup
  few : c.nextHops.length ≤ k
  valid : ∀ h ∈ c.nextHops, h.addr.isValid = true

lemma prepared_of_prepare {k : ℕ} {c c' : RouteEntry} (h : prepare k c = some c') :
    Prepared k c' := by
  rw [prepare] at h
  dsimp only at h
  split_ifs at h
  cases h
  have hperm := mergeSort_perm (capNextHops k c.nextHops []) fun a b =>
    (a.addr.cmp b.addr).then (compare a.iface b.iface) != .gt
  obtain ⟨ext, hext, hvalid⟩ := mergeNextHops_append [] c.nextHops k
  refine ⟨?_, ?_, fun h hh => ?_⟩
  · apply (hperm.map key).nodup_iff.2
    rw [capNextHops_eq]
    exact nodup_mergeNextHops c.nextHops k nodup_nil
  · apply hperm.length_eq.trans_le
    rw [capNextHops_eq]
    exact length_mergeNextHops_le c.nextHops (Nat.zero_le k)
  · have hmem := hperm.mem_iff.1 hh
    rw [capNextHops_eq, hext, nil_append] at hmem
    exact (hvalid h hmem).2

lemma prepared_of_usable {k : ℕ} {candidates : List RouteEntry} {p : Prefix} {c : RouteEntry}
    (h : c ∈ usable k candidates p) : Prepared k c ∧ c.pfx = p := by
  rw [usable, mem_filter, mem_filterMap, decide_eq_true_eq] at h
  obtain ⟨⟨c₀, -, hprep⟩, hp⟩ := h
  exact ⟨prepared_of_prepare hprep, hp⟩

/-- The route `r` is what the loop may keep after the candidates `g`. -/
structure Chosen (k : ℕ) (g : List RouteEntry) (r : RouteEntry) : Prop where
  least : ∀ c ∈ g, pref r ≤ pref c
  ofOne : ∃ c ∈ g, attrs c = attrs r
  hops : ∀ h ∈ r.nextHops, ∃ c ∈ g, pref c = pref r ∧ h ∈ c.nextHops
  nodup : (r.nextHops.map key).Nodup
  few : r.nextHops.length ≤ k
  kept : ∀ c ∈ g, pref c = pref r → ∀ h ∈ c.nextHops,
    h.key ∈ r.nextHops.map key ∨ k ≤ r.nextHops.length

section

variable {k : ℕ} {g : List RouteEntry} {r c : RouteEntry}

lemma attrs_merged (k : ℕ) (r c : RouteEntry) : attrs (merged k r c) = attrs r := rfl

lemma nextHops_merged (k : ℕ) (r c : RouteEntry) :
    (merged k r c).nextHops.Perm (mergeNextHops r.nextHops c.nextHops k) :=
  mergeSort_perm _ _

lemma chosen_alone (hc : Prepared k c) (hleast : ∀ d ∈ g, pref c < pref d) :
    Chosen k (g ++ [c]) c where
  least d hd := by
    rcases mem_append.1 hd with hd | hd
    · exact (hleast d hd).le
    · rw [mem_singleton.1 hd]
  ofOne := ⟨c, by simp, rfl⟩
  hops h hh := ⟨c, by simp, rfl, hh⟩
  nodup := hc.nodup
  few := hc.few
  kept d hd hpref h hh := by
    rcases mem_append.1 hd with hd | hd
    · exact absurd hpref (hleast d hd).ne'
    · rw [mem_singleton.1 hd] at hh
      exact .inl (mem_map_of_mem hh)

lemma Chosen.merged (h : Chosen k g r) (hc : Prepared k c) (hpref : pref c = pref r) :
    Chosen k (g ++ [c]) (merged k r c) := by
  have hperm := nextHops_merged k r c
  have hpref' : pref (OspfSpf.merged k r c) = pref r := pref_of_attrs (attrs_merged k r c)
  obtain ⟨ext, hext, hmem⟩ := mergeNextHops_append r.nextHops c.nextHops k
  refine ⟨fun d hd => ?_, ?_, fun x hx => ?_, ?_, ?_, fun d hd hd' x hx => ?_⟩
  · rw [hpref']
    rcases mem_append.1 hd with hd | hd
    · exact h.least d hd
    · rw [mem_singleton.1 hd, hpref]
  · obtain ⟨d, hd, hattrs⟩ := h.ofOne
    exact ⟨d, mem_append_left _ hd, hattrs⟩
  · rw [hperm.mem_iff, hext, mem_append] at hx
    rw [hpref']
    rcases hx with hx | hx
    · obtain ⟨d, hd, hd'⟩ := h.hops x hx
      exact ⟨d, mem_append_left _ hd, hd'⟩
    · exact ⟨c, by simp, hpref, (hmem x hx).1⟩
  · exact (hperm.map key).nodup_iff.2 (nodup_mergeNextHops c.nextHops k h.nodup)
  · rw [hperm.length_eq]
    exact length_mergeNextHops_le c.nextHops h.few
  · rw [hperm.length_eq, (hperm.map key).mem_iff]
    rw [hpref'] at hd'
    rcases mem_append.1 hd with hd | hd
    · rw [hext, map_append, length_append]
      rcases h.kept d hd hd' x hx with hin | hfull
      · exact .inl (mem_append_left _ hin)
      · exact .inr (by omega)
    · rw [mem_singleton.1 hd] at hx
      rcases contains_mergeNextHops r.nextHops c.nextHops k hx (hc.valid x hx) with hin | hfull
      · exact .inl (containsNextHop_iff.1 hin)
      · exact .inr hfull

lemma Chosen.skip (h : Chosen k g r) (hpref : pref r < pref c) : Chosen k (g ++ [c]) r where
  least d hd := by
    rcases mem_append.1 hd with hd | hd
    · exact h.least d hd
    · rw [mem_singleton.1 hd]
      exact hpref.le
  ofOne := by
    obtain ⟨d, hd, hattrs⟩ := h.ofOne
    exact ⟨d, mem_append_left _ hd, hattrs⟩
  hops x hx := by
    obtain ⟨d, hd, hd'⟩ := h.hops x hx
    exact ⟨d, mem_append_left _ hd, hd'⟩
  nodup := h.nodup
  few := h.few
  kept d hd hd' := by
    rcases mem_append.1 hd with hd | hd
    · exact h.kept d hd hd'
    · rw [mem_singleton.1 hd] at hd'
      exact absurd hd' hpref.ne'

lemma join_cases (k : ℕ) (r c : RouteEntry) :
    (pref c < pref r ∧ join k (some r) c = some c) ∨
      (pref c = pref r ∧ join k (some r) c = some (merged k r c)) ∨
      (pref r < pref c ∧ join k (some r) c = some r) := by
  rw [join]
  by_cases hlt : pref c < pref r
  · exact .inl ⟨hlt, if_pos ((routeBetter_iff c r).2 hlt)⟩
  · rw [if_neg (fun h => hlt ((routeBetter_iff c r).1 h))]
    by_cases heq : pref c = pref r
    · exact .inr (.inl ⟨heq, if_pos ((routeSamePreference_iff c r).2 heq)⟩)
    · refine .inr (.inr ⟨lt_of_le_of_ne (not_lt.1 hlt) (Ne.symm heq), ?_⟩)
      rw [if_neg (fun h => heq ((routeSamePreference_iff c r).1 h))]

lemma chosen_foldl_join (l : List RouteEntry) : ∀ {g : List RouteEntry} {r : RouteEntry},
    Chosen k g r → (∀ c ∈ l, Prepared k c) →
      ∃ r', l.foldl (join k) (some r) = some r' ∧ Chosen k (g ++ l) r' := by
  induction l with
  | nil =>
    intro g r h _
    exact ⟨r, rfl, by simpa using h⟩
  | cons c l ih =>
    intro g r h hl
    have hc := hl c mem_cons_self
    have hl' : ∀ d ∈ l, Prepared k d := fun d hd => hl d (mem_cons_of_mem c hd)
    rw [foldl_cons, append_cons]
    rcases join_cases k r c with ⟨hlt, hjoin⟩ | ⟨heq, hjoin⟩ | ⟨hlt, hjoin⟩
    · rw [hjoin]
      exact ih (chosen_alone hc fun d hd => hlt.trans_le (h.least d hd)) hl'
    · rw [hjoin]
      exact ih (h.merged hc heq) hl'
    · rw [hjoin]
      exact ih (h.skip hlt) hl'

lemma foldl_join_lead (l : List RouteEntry) : ∀ {r r' : RouteEntry},
    (∀ c ∈ l, pref r ≤ pref c) → l.foldl (join k) (some r) = some r' →
      attrs r' = attrs r ∧ r.nextHops ⊆ r'.nextHops := by
  induction l with
  | nil =>
    rintro r r' _ ⟨⟩
    exact ⟨rfl, List.Subset.refl _⟩
  | cons c l ih =>
    intro r r' hl h
    have hl' : ∀ d ∈ l, pref r ≤ pref d := fun d hd => hl d (mem_cons_of_mem c hd)
    rw [foldl_cons] at h
    rcases join_cases k r c with ⟨hlt, -⟩ | ⟨heq, hjoin⟩ | ⟨hlt, hjoin⟩
    · exact absurd hlt (not_lt.2 (hl c mem_cons_self))
    · rw [hjoin] at h
      have hpref : pref (merged k r c) = pref r := pref_of_attrs (attrs_merged k r c)
      obtain ⟨hattrs, hsub⟩ := ih (by rw [hpref]; exact hl') h
      refine ⟨hattrs, fun x hx => hsub ?_⟩
      obtain ⟨ext, hext, -⟩ := mergeNextHops_append r.nextHops c.nextHops k
      rw [(nextHops_merged k r c).mem_iff, hext]
      exact mem_append_left _ hx
    · rw [hjoin] at h
      exact ih hl' h

end

/-! ## The order of the candidates -/

def tops (k : ℕ) (candidates : List RouteEntry) (p : Prefix) : List RouteEntry :=
  (usable k candidates p).filter fun c => (usable k candidates p).all fun d => !routeBetter d c

/-- The next hops of the best candidates of a prefix. -/
def topHops (k : ℕ) (candidates : List RouteEntry) (p : Prefix) : List NextHop :=
  (tops k candidates p).flatMap RouteEntry.nextHops

/-- The best candidates of every prefix have one type, tag and area; no two of their next hops
differ in their router or in `OnLink` only; and there are not more next hops than the limit. -/
structure Settled (k : ℕ) (candidates : List RouteEntry) : Prop where
  alike : ∀ p, ∀ a ∈ tops k candidates p, ∀ b ∈ tops k candidates p,
    a.type = b.type ∧ a.tag = b.tag ∧ a.hasTag = b.hasTag ∧ a.areaId = b.areaId
  distinct : ∀ p, ∀ x ∈ topHops k candidates p, ∀ y ∈ topHops k candidates p, x.key = y.key → x = y
  fit : ∀ p, ((topHops k candidates p).map key).toFinset.card ≤ k

/-- What the route set is compared by: prefix, type, metric, tag, area and next hops. -/
def shown (r : RouteEntry) : (Prefix × UInt8 × ℕ × UInt32 × Bool × AreaId) × Finset NextHop :=
  (attrs r, r.nextHops.toFinset)

/-- The route set that is built from the candidates. -/
def routeSet (ord : RangeOrder Prefix) (candidates : List RouteEntry) (maxPaths : ℤ) :
    Set ((Prefix × UInt8 × ℕ × UInt32 × Bool × AreaId) × Finset NextHop) :=
  {x | ∃ r ∈ selectBestRoutes ord candidates maxPaths, shown r = x}

section

variable {k : ℕ} {candidates l : List RouteEntry} {p : Prefix} {r c : RouteEntry}

lemma mem_tops : c ∈ tops k candidates p ↔
    c ∈ usable k candidates p ∧ ∀ d ∈ usable k candidates p, pref c ≤ pref d := by
  rw [tops, mem_filter, all_eq_true]
  simp only [Bool.not_eq_true', ← Bool.not_eq_true, routeBetter_iff, not_lt]

lemma mem_topHops {x : NextHop} :
    x ∈ topHops k candidates p ↔ ∃ c ∈ tops k candidates p, x ∈ c.nextHops :=
  mem_flatMap

lemma Chosen.mem_tops_iff (h : Chosen k (usable k candidates p) r) :
    c ∈ tops k candidates p ↔ c ∈ usable k candidates p ∧ pref c = pref r := by
  rw [mem_tops]
  refine and_congr_right fun hc => ⟨fun hle => ?_, fun heq d hd => heq ▸ h.least d hd⟩
  obtain ⟨d, hd, hattrs⟩ := h.ofOne
  exact le_antisymm (pref_of_attrs hattrs ▸ hle d hd) (h.least c hc)

lemma exists_chosen (hne : usable k candidates p ≠ []) :
    ∃ r, (usable k candidates p).foldl (join k) none = some r ∧
      Chosen k (usable k candidates p) r := by
  have hprep : ∀ c ∈ usable k candidates p, Prepared k c := fun c hc => (prepared_of_usable hc).1
  obtain ⟨c, g, hg⟩ := exists_cons_of_ne_nil hne
  rw [hg] at hprep ⊢
  exact chosen_foldl_join g (g := [c]) (chosen_alone (g := []) (hprep c mem_cons_self) (by simp))
    fun d hd => hprep d (mem_cons_of_mem c hd)

lemma chosen_of_foldl (h : (usable k candidates p).foldl (join k) none = some r) :
    Chosen k (usable k candidates p) r ∧ r.pfx = p := by
  have hne : usable k candidates p ≠ [] := by
    intro hnil
    rw [hnil] at h
    cases h
  obtain ⟨r', hr', hchosen⟩ := exists_chosen hne
  obtain rfl := Option.some.inj (hr'.symm.trans h)
  obtain ⟨c, hc, hattrs⟩ := hchosen.ofOne
  exact ⟨hchosen, (congrArg fst hattrs).symm.trans (prepared_of_usable hc).2⟩

lemma usable_perm (h : l.Perm candidates) (p : Prefix) :
    (usable k l p).Perm (usable k candidates p) :=
  (h.filterMap _).filter _

lemma Chosen.mem_nextHops_iff (hset : Settled k candidates) (hperm : l.Perm candidates)
    (h : Chosen k (usable k l p) r) {x : NextHop} :
    x ∈ r.nextHops ↔ x ∈ topHops k candidates p := by
  have htops : ∀ c, c ∈ tops k candidates p ↔ c ∈ usable k l p ∧ pref c = pref r := by
    intro c
    rw [← h.mem_tops_iff, mem_tops, mem_tops]
    simp only [(usable_perm hperm p).mem_iff]
  have hsub : ∀ y ∈ r.nextHops, y ∈ topHops k candidates p := by
    intro y hy
    obtain ⟨c, hc, hpref, hmem⟩ := h.hops y hy
    exact mem_topHops.2 ⟨c, (htops c).2 ⟨hc, hpref⟩, hmem⟩
  refine ⟨hsub x, fun hx => ?_⟩
  obtain ⟨c, hc, hxc⟩ := mem_topHops.1 hx
  obtain ⟨hcu, hpref⟩ := (htops c).1 hc
  have hkey : x.key ∈ r.nextHops.map key := by
    rcases h.kept c hcu hpref x hxc with hin | hfull
    · exact hin
    · -- the route is full, and has all the keys there are
      have hincl : (r.nextHops.map key).toFinset ⊆
          ((topHops k candidates p).map key).toFinset := by
        intro y hy
        rw [mem_toFinset, mem_map] at hy ⊢
        obtain ⟨z, hz, hzy⟩ := hy
        exact ⟨z, hsub z hz, hzy⟩
      have hcard : ((topHops k candidates p).map key).toFinset.card ≤
          (r.nextHops.map key).toFinset.card := by
        rw [toFinset_card_of_nodup h.nodup, length_map]
        exact (hset.fit p).trans hfull
      rw [← mem_toFinset, Finset.eq_of_subset_of_card_le hincl hcard, mem_toFinset]
      exact mem_map_of_mem hx
  obtain ⟨y, hy, hyx⟩ := mem_map.1 hkey
  rw [hset.distinct p x hx y (hsub y hy) hyx.symm]
  exact hy

lemma shown_eq_of_settled (hset : Settled k candidates) (hperm : l.Perm candidates)
    {r' : RouteEntry} (h : (usable k candidates p).foldl (join k) none = some r)
    (h' : (usable k l p).foldl (join k) none = some r') : shown r' = shown r := by
  obtain ⟨hchosen, -⟩ := chosen_of_foldl h
  obtain ⟨hchosen', -⟩ := chosen_of_foldl h'
  obtain ⟨c, hc, hattrs⟩ := hchosen.ofOne
  obtain ⟨c', hc', hattrs'⟩ := hchosen'.ofOne
  have htop : c ∈ tops k candidates p := hchosen.mem_tops_iff.2 ⟨hc, pref_of_attrs hattrs⟩
  have htop' : c' ∈ tops k candidates p := by
    have := hchosen'.mem_tops_iff.2 ⟨hc', pref_of_attrs hattrs'⟩
    rw [mem_tops] at this ⊢
    simpa only [(usable_perm hperm p).mem_iff] using this
  have hpref : pref c' = pref c :=
    le_antisymm ((mem_tops.1 htop').2 c hc) ((mem_tops.1 htop).2 c' (mem_tops.1 htop').1)
  obtain ⟨htype, htag, hhas, harea⟩ := hset.alike p c' htop' c htop
  have hmetric : c'.metric = c.metric := congrArg (fun x => (ofLex x).2) hpref
  have hpfx : c'.pfx = c.pfx := by
    rw [(prepared_of_usable hc).2, (prepared_of_usable (mem_tops.1 htop').1).2]
  rw [shown, shown, ← hattrs, ← hattrs']
  refine ext ?_ ?_
  · simp only [attrs, htype, htag, hhas, harea, hmetric, hpfx]
  · ext x
    rw [mem_toFinset, mem_toFinset, hchosen'.mem_nextHops_iff hset hperm,
      hchosen.mem_nextHops_iff hset (List.Perm.refl _)]

lemma exists_lead (htop : c ∈ tops k candidates p) :
    ∃ l r, l.Perm candidates ∧ (usable k l p).foldl (join k) none = some r ∧
      attrs r = attrs c ∧ c.nextHops ⊆ r.nextHops := by
  obtain ⟨hc, hleast⟩ := mem_tops.1 htop
  have hmem := hc
  rw [usable, mem_filter, mem_filterMap] at hmem
  obtain ⟨⟨c₀, hc₀, hprep⟩, hp⟩ := hmem
  have hperm : (c₀ :: candidates.erase c₀).Perm candidates := (perm_cons_erase hc₀).symm
  have husable : usable k (c₀ :: candidates.erase c₀) p =
      c :: usable k (candidates.erase c₀) p := by
    rw [usable, filterMap_cons, hprep, filter_cons, if_pos hp]
    rfl
  have hne : usable k (c₀ :: candidates.erase c₀) p ≠ [] := by
    rw [husable]
    exact cons_ne_nil _ _
  obtain ⟨r, hr, -⟩ := exists_chosen hne
  refine ⟨_, r, hperm, hr, ?_⟩
  rw [husable, foldl_cons] at hr
  refine foldl_join_lead _ (fun d hd => hleast d ?_) hr
  rw [← (usable_perm hperm p).mem_iff, husable]
  exact mem_cons_of_mem c hd

/-- **The route set does not depend on the order of the candidates exactly when it is settled.** For
every list of candidates and every limit: all permutations of the candidates give the same routes,
compared by prefix, type, metric, tag, area and the set of next hops, if and only if for every
prefix the best candidates agree in type, tag and area and their next hops fit within the limit. -/
theorem selectBestRoutes_perm_iff (ord : RangeOrder Prefix) (candidates : List RouteEntry)
    (maxPaths : ℤ) :
    (∀ l, l.Perm candidates → routeSet ord l maxPaths = routeSet ord candidates maxPaths) ↔
      Settled (effectiveMaxPaths maxPaths) candidates := by
  generalize hk : effectiveMaxPaths maxPaths = k
  constructor
  · intro hall
    -- the route of a prefix has what each of its best candidates has
    have hroute : ∀ p, ∀ c ∈ tops k candidates p, ∀ r,
        (usable k candidates p).foldl (join k) none = some r →
          attrs c = attrs r ∧ c.nextHops ⊆ r.nextHops := by
      intro p c htop r hr
      obtain ⟨l, r', hperm, hr', hattrs, hsub⟩ := exists_lead htop
      have hin : shown r' ∈ routeSet ord candidates maxPaths := by
        rw [← hall l hperm]
        exact ⟨r', mem_selectBestRoutes.2 ⟨p, hk.symm ▸ hr'⟩, rfl⟩
      obtain ⟨r₂, hr₂, hshown⟩ := hin
      obtain ⟨q, hq⟩ := mem_selectBestRoutes.1 hr₂
      rw [hk] at hq
      rw [shown, shown, mk.injEq] at hshown
      have hpq : q = p := by
        rw [← (chosen_of_foldl hq).2, ← (chosen_of_foldl hr').2]
        exact congrArg fst hshown.1
      subst hpq
      obtain rfl := Option.some.inj (hq.symm.trans hr)
      refine ⟨(hshown.1.trans hattrs).symm, fun x hx => ?_⟩
      rw [← mem_toFinset, hshown.2, mem_toFinset]
      exact hsub hx
    have hchosen : ∀ p, ∀ c ∈ tops k candidates p, ∃ r,
        (usable k candidates p).foldl (join k) none = some r ∧
          Chosen k (usable k candidates p) r := by
      intro p c hc
      exact exists_chosen (ne_nil_of_mem (mem_tops.1 hc).1)
    refine ⟨fun p a ha b hb => ?_, fun p x hx y hy hxy => ?_, fun p => ?_⟩
    · obtain ⟨r, hr, -⟩ := hchosen p a ha
      have hattrs := (hroute p a ha r hr).1.trans (hroute p b hb r hr).1.symm
      simp only [attrs, mk.injEq] at hattrs
      tauto
    · obtain ⟨a, ha, hxa⟩ := mem_topHops.1 hx
      obtain ⟨b, hb, hyb⟩ := mem_topHops.1 hy
      obtain ⟨r, hr, hr'⟩ := hchosen p a ha
      exact inj_on_of_nodup_map hr'.nodup ((hroute p a ha r hr).2 hxa)
        ((hroute p b hb r hr).2 hyb) hxy
    · by_cases hnil : tops k candidates p = []
      · simp [topHops, hnil]
      · obtain ⟨a, ha⟩ := exists_mem_of_ne_nil _ hnil
        obtain ⟨r, hr, hr'⟩ := hchosen p a ha
        calc ((topHops k candidates p).map key).toFinset.card
            ≤ (r.nextHops.map key).toFinset.card := by
              apply Finset.card_le_card
              intro y hy
              rw [mem_toFinset, mem_map] at hy ⊢
              obtain ⟨x, hx, hxy⟩ := hy
              obtain ⟨b, hb, hxb⟩ := mem_topHops.1 hx
              exact ⟨x, (hroute p b hb r hr).2 hxb, hxy⟩
          _ ≤ r.nextHops.length := by
              rw [toFinset_card_of_nodup hr'.nodup, length_map]
          _ ≤ k := hr'.few
  · intro hset l hperm
    ext x
    simp only [routeSet, Set.mem_ofPred_eq, mem_selectBestRoutes, hk]
    constructor
    · rintro ⟨r', ⟨p, hr'⟩, rfl⟩
      have hne : usable k candidates p ≠ [] := by
        intro hnil
        have hperm' := usable_perm (k := k) hperm p
        rw [hnil, perm_nil] at hperm'
        rw [hperm'] at hr'
        cases hr'
      obtain ⟨r, hr, -⟩ := exists_chosen hne
      exact ⟨r, ⟨p, hr⟩, (shown_eq_of_settled hset hperm hr hr').symm⟩
    · rintro ⟨r, ⟨p, hr⟩, rfl⟩
      have hne : usable k l p ≠ [] := by
        intro hnil
        have hperm' := usable_perm (k := k) hperm p
        rw [hnil, nil_perm] at hperm'
        rw [hperm'] at hr
        cases hr
      obtain ⟨r', hr', -⟩ := exists_chosen hne
      exact ⟨r', ⟨p, hr'⟩, shown_eq_of_settled hset hperm hr hr'⟩

end

/-- A route to `10.0.0.0/24` of cost 10 through one next hop. -/
def routeVia (nextHop : BitVec 32) : RouteEntry where
  areaId := 0
  pfx := ⟨.v4 0x0A000000#32, 24⟩
  metric := 10
  type := 1
  origin := 1
  nextHops := [⟨.v4 nextHop, "", 1, false⟩]
  backups := []
  tag := 0
  hasTag := false
  nssa := false

/-- Two routers at one cost and a limit of one path: the next hop is that of the candidate that
comes first. -/
theorem selectBestRoutes_first_wins : ¬ ∀ (ord : RangeOrder Prefix) (l : List RouteEntry),
    l.Perm [routeVia 1#32, routeVia 2#32] →
      routeSet ord l 1 = routeSet ord [routeVia 1#32, routeVia 2#32] 1 := by
  intro hall
  have hset := hall default [routeVia 2#32, routeVia 1#32] (List.Perm.swap _ _ _)
  have hone : ∀ a b : BitVec 32, a ≠ b → a = 1#32 ∨ a = 2#32 → b = 1#32 ∨ b = 2#32 →
      (usable 1 [routeVia a, routeVia b] (routeVia 1#32).pfx).foldl (join 1) none =
        some (routeVia a) := by
    rintro a b hab (rfl | rfl) (rfl | rfl) <;> first | exact absurd rfl hab | decide +kernel
  have hin : shown (routeVia 2#32) ∈ routeSet default [routeVia 1#32, routeVia 2#32] 1 := by
    rw [← hset]
    exact ⟨_, mem_selectBestRoutes.mpr ⟨_, hone 2#32 1#32 (by decide) (by simp) (by simp)⟩, rfl⟩
  obtain ⟨r, hr, hshown⟩ := hin
  obtain ⟨p, hp⟩ := mem_selectBestRoutes.mp hr
  have hpfx : p = (routeVia 1#32).pfx := by
    rw [← (chosen_of_foldl hp).2]
    exact congrArg (fun x => x.1.1) hshown
  subst hpfx
  have hr' := (hone 1#32 2#32 (by decide) (by simp) (by simp)).symm.trans hp
  rw [← Option.some.inj hr'] at hshown
  exact absurd (congrArg Prod.snd hshown) (by decide)

end Ze.OspfSpf
