import Ze.Lib.Walk
import Ze.SysRib.Feed

/-!
# What a resolution reads

`resolve` and `chainCovered` follow the same chain of longest matches. This module says what that
chain reads of the Loc-RIB, and so when a change of the Loc-RIB can move what the FIB owes.
-/

namespace Ze.SysRib

open List

open Ze.Lib (RangeOrder walk walk_forall walk_congr walk_of_none walk_of_some)
open Ze.LocRib (Family Path View)
open Ze.Net (Addr Prefix covering masked_of_mem_covering mem_covering_iff)
open Function (update)

/-! ## The chain -/

variable {lpm lpm' : Lpm}

/-- The next address of a chain; `none` where it ends. Source: nhresolver.go chainCovered. -/
def hop (lpm : Lpm) (current : Addr) : Option Addr :=
  match lpm (familyForAddr current) current with
  | none => none
  | some path =>
    if discards path.routeType || path.onLink || !path.nextHop.isValid ||
        path.nextHop == current then none
    else some path.nextHop

def chain (lpm : Lpm) (root : Addr) : List Addr := walk (hop lpm) maxRecursionDepth root

lemma chainLoop_iff (pfx : Prefix) : (n : ℕ) → ∀ a,
    chainLoop lpm pfx n a ↔ ∃ x ∈ walk (hop lpm) n a, contains pfx x
  | 0, a => by simp [chainLoop, walk]
  | n + 1, a => by
      unfold chainLoop
      by_cases hcontains : contains pfx a
      · rw [if_pos hcontains]
        refine ⟨fun _ => ⟨a, ?_, hcontains⟩, fun _ => rfl⟩
        simp only [walk]
        exact mem_cons_self
      · rw [if_neg hcontains]
        cases hlookup : lpm (familyForAddr a) a with
        | none =>
          rw [walk_of_none n (by simp only [hop, hlookup])]
          simpa using hcontains
        | some path =>
          dsimp only
          split_ifs with hend
          · rw [walk_of_none n (by simp only [hop, hlookup, hend, if_true])]
            simpa using hcontains
          · rw [walk_of_some n (by simp only [hop, hlookup, hend]; rfl)]
            rw [chainLoop_iff pfx n path.nextHop]
            simp [hcontains]

/-- A prefix covers a chain when it holds one of the addresses it looks up. -/
lemma chainCovered_iff {root : Addr} {pfx : Prefix} :
    chainCovered lpm root pfx ↔ ∃ x ∈ chain lpm root, contains pfx x :=
  chainLoop_iff pfx maxRecursionDepth root

lemma resolveLoop_congr : (n : ℕ) → ∀ (metric : UInt32) (a : Addr),
    (∀ x ∈ walk (hop lpm') n a, lpm (familyForAddr x) x = lpm' (familyForAddr x) x) →
    resolveLoop lpm n metric a = resolveLoop lpm' n metric a
  | 0, _, _, _ => rfl
  | n + 1, metric, a, h => by
      have hhere : lpm (familyForAddr a) a = lpm' (familyForAddr a) a := by
        apply h a
        simp only [walk]
        exact mem_cons_self
      unfold resolveLoop
      rw [hhere]
      cases hlookup : lpm' (familyForAddr a) a with
      | none => rfl
      | some path =>
        dsimp only
        split_ifs with hdiscards hvalid hlink hself
        · rfl
        · rfl
        · rfl
        · rfl
        · apply resolveLoop_congr
          intro x hx
          apply h x
          rw [walk_of_some n (by simp [hop, hlookup, hdiscards, hvalid, hlink, hself]; rfl)]
          exact mem_cons_of_mem a hx

/-- A resolution reads the addresses of its chain. -/
lemma resolve_congr {root : Addr}
    (h : ∀ x ∈ chain lpm' root, lpm (familyForAddr x) x = lpm' (familyForAddr x) x) :
    resolve lpm root = resolve lpm' root := by
  unfold resolve
  rw [resolveLoop_congr maxRecursionDepth 0 root h]

variable {a : Addr}

lemma hop_congr (h : lpm (familyForAddr a) a = lpm' (familyForAddr a) a) :
    hop lpm a = hop lpm' a := by
  unfold hop
  rw [h]

/-! ## A change of the Loc-RIB -/

def Plain (a : Addr) : Prop := a.isValid = true ∧ a.zone = []

/-- The Loc-RIB answers a lookup with the best path of the longest prefix that has one.
Source: locrib/manager.go LPM -/
def LongestMatch (loc : Loc) : Prop :=
  ∀ fam a, Plain a →
    loc.lpm fam a = (covering a).findSome? fun p => (loc.current (fam, p)).map Prod.fst

def Loc.of (current : PrefixKey → Option View) : Loc where
  current := current
  lpm := fun fam a => (covering a).findSome? fun p => (current (fam, p)).map Prod.fst

lemma longestMatch_of (current : PrefixKey → Option View) : LongestMatch (Loc.of current) :=
  fun _ _ _ => rfl

def Unzoned (v : View) : Prop :=
  v.1.nextHop.zone = [] ∧ v.1.srv6SID.zone = [] ∧ ∀ nh ∈ v.2, nh.addr.zone = []

instance (v : View) : Decidable (Unzoned v) := inferInstanceAs (Decidable (_ ∧ _ ∧ _))

lemma LongestMatch.exists_view {loc : Loc} (h : LongestMatch loc) {fam : Family}
    {path : Path} (ha : Plain a) (hpath : loc.lpm fam a = some path) :
    ∃ k v, loc.current k = some v ∧ v.1 = path := by
  rw [h fam a ha] at hpath
  obtain ⟨p, -, hp⟩ := exists_of_findSome?_eq_some hpath
  obtain ⟨v, hv, rfl⟩ := Option.map_eq_some_iff.1 hp
  exact ⟨(fam, p), v, hv, rfl⟩

lemma moved_of_ne {current : PrefixKey → Option View} {key : PrefixKey} {new : Option View}
    {fam : Family} (h : LongestMatch ⟨current, lpm⟩)
    (h' : LongestMatch ⟨update current key new, lpm'⟩) (hkey : key.2.isValid)
    (ha : Plain a) (hne : lpm fam a ≠ lpm' fam a) : contains key.2 a := by
  by_contra hcontains
  apply hne
  have hold : lpm fam a = _ := h fam a ha
  have hnew : lpm' fam a = _ := h' fam a ha
  rw [hold, hnew, ← head?_filterMap, ← head?_filterMap]
  congr 1
  apply filterMap_congr
  intro p hp
  have hother : (fam, p) ≠ key := by
    rintro rfl
    apply hcontains
    have hcovers : p.covers a :=
      (mem_covering_iff (masked_of_mem_covering hp)).mp hp
    simpa [contains, ha.2, hcovers] using hkey
  dsimp only
  rw [Function.update_of_ne hother]

section

variable {current : PrefixKey → Option View} {key : PrefixKey} {new : Option View} {root : Addr}

lemma plain_of_mem_chain {loc : Loc} (h : LongestMatch loc)
    (hviews : ∀ k v, loc.current k = some v → Unzoned v) (hroot : Plain root) :
    ∀ x ∈ chain loc.lpm root, Plain x := by
  refine walk_forall ?_ maxRecursionDepth root hroot
  intro a b ha hb
  unfold hop at hb
  cases hlookup : loc.lpm (familyForAddr a) a with
  | none =>
    rw [hlookup] at hb
    cases hb
  | some path =>
    rw [hlookup] at hb
    dsimp only at hb
    split_ifs at hb with hend
    cases hb
    obtain ⟨k, v, hv, rfl⟩ := h.exists_view ha hlookup
    simp only [Bool.or_eq_true, Bool.not_eq_true', not_or, Bool.not_eq_false] at hend
    exact ⟨hend.1.2, (hviews k v hv).1⟩

variable (h : LongestMatch ⟨current, lpm⟩) (h' : LongestMatch ⟨update current key new, lpm'⟩)
  (hviews : ∀ k v, update current key new k = some v → Unzoned v) (hkey : key.2.isValid)
  (hroot : Plain root)
include h h' hviews hkey hroot

lemma chain_reads_or :
    (∀ x ∈ chain lpm' root, lpm (familyForAddr x) x = lpm' (familyForAddr x) x) ∨
      chainCovered lpm' root key.2 := by
  by_cases hmoved : ∃ x ∈ chain lpm' root, lpm (familyForAddr x) x ≠ lpm' (familyForAddr x) x
  · obtain ⟨x, hx, hne⟩ := hmoved
    refine .inr (chainCovered_iff.2 ⟨x, hx, ?_⟩)
    exact moved_of_ne h h' hkey (plain_of_mem_chain h' hviews hroot x hx) hne
  · refine .inl ?_
    intro x hx
    by_contra hne
    exact hmoved ⟨x, hx, hne⟩

lemma resolve_eq_or : resolve lpm root = resolve lpm' root ∨ chainCovered lpm' root key.2 :=
  (chain_reads_or h h' hviews hkey hroot).imp_left resolve_congr

lemma chainCovered_or {pfx : Prefix} (hcovered : chainCovered lpm root pfx) :
    chainCovered lpm' root pfx ∨ chainCovered lpm' root key.2 := by
  refine (chain_reads_or h h' hviews hkey hroot).imp_left fun hreads => ?_
  have hchain : chain lpm root = chain lpm' root :=
    walk_congr maxRecursionDepth root fun x hx => hop_congr (hreads x hx)
  rw [chainCovered_iff] at hcovered ⊢
  rw [← hchain]
  exact hcovered

end

/-! ## Equal-cost groups -/

def Ascending (paths : List ECMPPath) : Prop :=
  paths.Pairwise fun a b => ecmpPathCompare a b ≠ .gt

lemma eq_of_not_ecmpChanged {a b : List ECMPPath} (ha : Ascending a) (hb : Ascending b)
    (h : ecmpChanged a b = false) : a = b := by
  unfold ecmpChanged at h
  split_ifs at h
  have hself : ∀ l : List ECMPPath, Ascending l →
      l.mergeSort (fun x y => ecmpPathCompare x y != .gt) = l := by
    intro l hl
    apply mergeSort_of_pairwise
    exact hl.imp fun hle => by simpa using hle
  rw [hself a ha, hself b hb] at h
  simpa using h

lemma dedupFrom_sublist (last : ForwardingPath) :
    (paths : List ForwardingPath) → (dedupFrom last paths).Sublist paths
  | [] => List.Sublist.slnil
  | p :: ps => by
      unfold dedupFrom
      split_ifs
      · exact (dedupFrom_sublist last ps).cons p
      · exact (dedupFrom_sublist p ps).cons_cons p

lemma dedupECMP_sublist : (paths : List ForwardingPath) → (dedupECMP paths).Sublist paths
  | [] => List.Sublist.slnil
  | p :: ps => (dedupFrom_sublist p ps).cons_cons p

lemma ascending_finishECMP (sort : PathSort) (paths : List ForwardingPath) :
    Ascending (ecmpPaths (finishECMP sort paths)) := by
  unfold Ascending ecmpPaths finishECMP
  rw [pairwise_map]
  refine List.Pairwise.sublist ?_ (sort.ascending paths)
  exact (take_sublist _ _).trans (dedupECMP_sublist _)

lemma finishECMP_congr {sort sort' : PathSort} {paths : List ForwardingPath} {sid : Addr}
    (h : ∀ p ∈ paths, p.srv6SID = sid) : finishECMP sort paths = finishECMP sort' paths := by
  have hsort : sort.sort paths = sort'.sort paths := by
    have hperm : (sort.sort paths).Perm (sort'.sort paths) :=
      (sort.perm paths).trans (sort'.perm paths).symm
    refine hperm.eq_of_pairwise ?_ (sort.ascending paths) (sort'.ascending paths)
    intro a b ha hb hab hba
    have hsid : a.srv6SID = b.srv6SID := by
      rw [h a ((sort.perm paths).mem_iff.1 ha), h b ((sort'.perm paths).mem_iff.1 hb)]
    have hpath : a.toECMPPath = b.toECMPPath := by
      apply ecmpPathCompare_eq_iff.1
      have hswap : ecmpPathCompare b.toECMPPath a.toECMPPath =
          (ecmpPathCompare a.toECMPPath b.toECMPPath).swap := Std.OrientedCmp.eq_swap
      rw [hswap] at hba
      cases hcmp : ecmpPathCompare a.toECMPPath b.toECMPPath with
      | eq => rfl
      | gt => exact absurd hcmp hab
      | lt =>
        rw [hcmp] at hba
        exact absurd rfl hba
    cases a
    cases b
    simp_all
  unfold finishECMP
  rw [hsort]

/-! ## What the FIB owes for a prefix of the Loc-RIB -/

section

variable {st : Setup} {v : View}

lemma values_stored (range : RangeOrder String) : range.values (stored st v) = [locRoute st v] :=
  range.values_singleton _ _

/-- The siblings of a route that share its prefix. Source: ecmp.go ecmpGroup. -/
def siblingPaths (route : ProtocolRoute) : List ForwardingPath :=
  (route.ecmpNextHops.filter fun nh =>
    !sameTarget nh route && namesATarget nh.addr nh.interface).map (memberPath route)

lemma groupMembers_stored (range : RangeOrder String) (permits : String → Bool) :
    groupMembers range permits (stored st v) (locRoute st v) = siblingPaths (locRoute st v) := by
  unfold groupMembers siblingPaths
  rw [values_stored]
  simp

variable {route : ProtocolRoute} {p : ForwardingPath}

lemma srv6SID_of_mem_siblingPaths
    (h : p ∈ siblingPaths route) : p.srv6SID = route.srv6SID := by
  obtain ⟨nh, -, rfl⟩ := mem_map.1 h
  rfl

lemma srv6SID_resolveMember {q : ForwardingPath} (h : resolveMember lpm p = some q) :
    q.srv6SID = p.srv6SID := by
  unfold resolveMember at h
  dsimp only at h
  split_ifs at h <;> rw [Option.some.injEq] at h <;> subst h <;> rfl

lemma resolveMember_congr
    (h : p.nextHop.isValid → p.onLink = false → resolve lpm p.nextHop = resolve lpm' p.nextHop) :
    resolveMember lpm p = resolveMember lpm' p := by
  unfold resolveMember
  by_cases hvalid : p.nextHop.isValid
  · by_cases hlink : p.onLink
    · simp [hvalid, hlink]
    · rw [h hvalid (by simpa using hlink)]
  · simp [hvalid]

lemma mem_trackedAddrs_of_sibling
    (h : p ∈ siblingPaths route) (hvalid : p.nextHop.isValid) (hlink : p.onLink = false) :
    p.nextHop ∈ route.trackedAddrs := by
  obtain ⟨nh, hnh, rfl⟩ := mem_map.1 h
  have hmem : nh ∈ route.ecmpNextHops := (mem_filter.1 hnh).1
  unfold ProtocolRoute.trackedAddrs
  refine mem_append_left _ (mem_append_right _ (mem_map.2 ⟨nh, ?_, rfl⟩))
  rw [mem_filter]
  refine ⟨hmem, ?_⟩
  have hvalid : nh.addr.isValid := hvalid
  have hlink : nh.onLink = false := hlink
  simp [hvalid, hlink]

lemma mem_trackedAddrs_nextHop (hvalid : route.nextHop.isValid)
    (hlink : route.nextHopOnLink = false) : route.nextHop ∈ route.trackedAddrs := by
  unfold ProtocolRoute.trackedAddrs
  simp [hvalid, hlink]

lemma mem_trackedAddrs_srv6SID (hvalid : route.srv6SID.isValid) :
    route.srv6SID ∈ route.trackedAddrs := by
  unfold ProtocolRoute.trackedAddrs
  simp [hvalid]

lemma plain_of_tracked (hv : Unzoned v) {nh : Addr}
    (h : nh ∈ (locRoute st v).trackedAddrs) : Plain nh := by
  obtain ⟨hgateway, hsid, hsiblings⟩ := hv
  unfold ProtocolRoute.trackedAddrs at h
  rw [mem_append, mem_append] at h
  rcases h with (h | h) | h
  · split_ifs at h with hvalid
    · rw [mem_singleton] at h
      subst h
      rw [Bool.and_eq_true] at hvalid
      exact ⟨hvalid.1, hgateway⟩
    · cases h
  · obtain ⟨member, hmember, rfl⟩ := mem_map.1 h
    obtain ⟨hmem, hvalid⟩ := mem_filter.1 hmember
    rw [Bool.and_eq_true] at hvalid
    exact ⟨hvalid.1, hsiblings member hmem⟩
  · split_ifs at h with hvalid
    · rw [mem_singleton] at h
      subst h
      exact ⟨hvalid, hsid⟩
    · cases h

namespace SysRIB

variable {s s' : SysRIB} {env env' : Env} {key : PrefixKey}

lemma ecmpCollectResolved_stored (h : ∀ nh ∈ (locRoute st v).trackedAddrs,
    resolve lpm nh = resolve lpm' nh) :
    s.ecmpCollectResolved env lpm (stored st v) (locRoute st v) =
      s'.ecmpCollectResolved env' lpm' (stored st v) (locRoute st v) := by
  unfold ecmpCollectResolved
  rw [groupMembers_stored, groupMembers_stored]
  have hmembers : (siblingPaths (locRoute st v)).filterMap (resolveMember lpm) =
      (siblingPaths (locRoute st v)).filterMap (resolveMember lpm') := by
    apply filterMap_congr
    intro p hp
    apply resolveMember_congr
    exact fun hvalid hlink => h _ (mem_trackedAddrs_of_sibling hp hvalid hlink)
  rw [hmembers]
  have hsid : ∀ q ∈ (siblingPaths (locRoute st v)).filterMap (resolveMember lpm'),
      q.srv6SID = (locRoute st v).srv6SID := by
    intro q hq
    obtain ⟨p, hp, hpq⟩ := mem_filterMap.1 hq
    rw [srv6SID_resolveMember hpq, srv6SID_of_mem_siblingPaths hp]
  exact finishECMP_congr hsid

lemma ecmpCollect_stored (hpermit : s'.fibPermit = s.fibPermit) :
    s.ecmpCollect env (stored st v) (locRoute st v) =
      s'.ecmpCollect env' (stored st v) (locRoute st v) := by
  unfold ecmpCollect ecmpGroup
  rw [groupMembers_stored, groupMembers_stored]
  unfold fibPermitted
  rw [hpermit, finishECMP_congr fun p hp => srv6SID_of_mem_siblingPaths hp]

lemma fibEntry_congr (hs : s.protocols key = stored st v) (hs' : s'.protocols key = stored st v)
    (hpermit : s'.fibPermit = s.fibPermit) (henv : env.lpm = some lpm)
    (henv' : env'.lpm = some lpm')
    (h : ∀ nh ∈ (locRoute st v).trackedAddrs, resolve lpm nh = resolve lpm' nh) :
    s.fibEntry env key (locRoute st v) = s'.fibEntry env' key (locRoute st v) := by
  have hgroup : s.ecmpCollectResolved env lpm (stored st v) (locRoute st v) =
      s'.ecmpCollectResolved env' lpm' (stored st v) (locRoute st v) :=
    ecmpCollectResolved_stored h
  have hselected : s.ecmpCollect env (stored st v) (locRoute st v) =
      s'.ecmpCollect env' (stored st v) (locRoute st v) := ecmpCollect_stored hpermit
  have hown : resolveMember lpm (routePath (locRoute st v) (locRoute st v).nextHop) =
      resolveMember lpm' (routePath (locRoute st v) (locRoute st v).nextHop) := by
    apply resolveMember_congr
    exact fun hvalid hlink => h _ (mem_trackedAddrs_nextHop hvalid hlink)
  have hsid : (locRoute st v).srv6SID.isValid →
      resolve lpm (locRoute st v).srv6SID = resolve lpm' (locRoute st v).srv6SID :=
    fun hvalid => h _ (mem_trackedAddrs_srv6SID hvalid)
  unfold fibEntry
  rw [hs, hs', henv, henv']
  dsimp only
  rw [hgroup, hselected, hown]
  by_cases hvalid : (locRoute st v).srv6SID.isValid
  · rw [hsid hvalid]
  · simp only [hvalid, Bool.false_and]

lemma ascending_ecmpCollect (s : SysRIB) (env : Env) (protocols : Protocols)
    (winner : ProtocolRoute) : Ascending (ecmpPaths (s.ecmpCollect env protocols winner)) := by
  unfold ecmpCollect ecmpGroup
  split_ifs
  · exact List.Pairwise.nil
  · exact ascending_finishECMP _ _

lemma ascending_fibEntry (s : SysRIB) (env : Env) (key : PrefixKey) (best : ProtocolRoute) :
    Ascending (s.fibEntry env key best).1.ecmpPaths := by
  have hcollect : Ascending (ecmpPaths (s.ecmpCollect env (s.protocols key) best)) :=
    s.ascending_ecmpCollect env _ _
  unfold fibEntry
  dsimp only
  split
  · exact hcollect
  · next lpm _ =>
    have hgroup : Ascending (ecmpPaths (s.ecmpCollectResolved env lpm (s.protocols key) best)) :=
      ascending_finishECMP _ _
    generalize s.ecmpCollectResolved env lpm (s.protocols key) best = group at hgroup
    split_ifs
    · exact List.Pairwise.nil
    · exact hgroup
    · split
      · exact hgroup
      · split
        · exact hcollect
        · exact (pairwise_cons.1 hgroup).2

end SysRIB

end

end Ze.SysRib
