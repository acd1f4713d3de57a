import Ze.Forward.Reencode

/-!
# What re-encoding keeps of the MP attributes
-/

namespace Ze.Forward

open Ze.AsPath (Octet Attr putUint32 writeHeader isExtLength)
open Ze.Attribute
open List hiding head
open Ze.Nlri
open Ze.LocRib (Family)
open BitVec (ofNat toNat toNat_ofNat)
open Nat (le_succ mod_eq_of_lt succ succ_mul)

variable {Src : Type} {m m' : FwdPathIDMemo Src} {n : ℕ}

/-! ## Room for identifiers -/

def Room (m : FwdPathIDMemo Src) (n : ℕ) : Prop :=
  ∃ free : List (BitVec 32), free.Nodup ∧ n ≤ free.length ∧ ∀ id ∈ free, m.table.used id = none

lemma Room.mono {k : ℕ} (h : Room m n) (hle : k ≤ n) : Room m k := by
  obtain ⟨free, hnodup, hlen, hfree⟩ := h
  exact ⟨free, hnodup, hle.trans hlen, hfree⟩

lemma Room.use {id : BitVec 32} (h : Room m (n + 1))
    (hused : ∀ x, x ≠ id → m'.table.used x = m.table.used x) : Room m' n := by
  obtain ⟨free, hnodup, hlen, hfree⟩ := h
  refine ⟨free.erase id, hnodup.erase id, ?_, ?_⟩
  · rw [length_erase]
    split_ifs <;> omega
  · intro x hx
    obtain ⟨hne, hmem⟩ := hnodup.mem_erase_iff.1 hx
    rw [hused x hne]
    exact hfree x hmem

lemma exists_mintLocked (h : Room m (n + 1)) :
    ∃ id, m.table.mintLocked = some (id, { m.table with next := id + 1#32 }) := by
  obtain ⟨_ | ⟨x, free⟩, -, hlen, hfree⟩ := h
  · exact absurd hlen (Nat.not_succ_le_zero n)
  · obtain ⟨⟨id, t⟩, hmint⟩ :=
      Option.isSome_iff_exists.1 (mintLocked_isSome (hfree x mem_cons_self))
    obtain ⟨-, rfl⟩ := mintLocked_spec hmint
    exact ⟨id, hmint⟩

/-- The NLRI has a key of a length that a key may have. Source: forward_path_id.go
fwdPathKeyFor. -/
def HasKey (fam : Family) (raw : List Octet) (withdraw : Bool) : Prop :=
  ∃ key, getPrefixKey fam raw prefixKeyScratchSize withdraw = some key ∧ key.length ≤ extMsgLen

lemma exists_fwdPathKeyFor_iff (fam : Family) (received : BitVec 32) (raw : List Octet)
    (withdraw : Bool) :
    (∃ key, fwdPathKeyFor fam received raw withdraw = .ok key) ↔ HasKey fam raw withdraw := by
  unfold fwdPathKeyFor HasKey
  rcases getPrefixKey fam raw prefixKeyScratchSize withdraw with _ | key
  · simp
  · by_cases hlen : extMsgLen < key.length
    · simp [hlen]
    · simp [hlen, Nat.le_of_not_lt hlen]

section

variable [DecidableEq Src]

lemma exists_generate (received : BitVec 32) (hroom : Room m (n + 1)) :
    ∃ id t, m.table.generate m.source received = some (id, t) ∧
      ∀ x, x ≠ id → t.used x = m.table.used x := by
  unfold FwdPathIDTable.generate
  rcases m.table.bySource.lookup (m.source, received) with _ | id
  · obtain ⟨id, hmint⟩ := exists_mintLocked hroom
    rw [hmint]
    exact ⟨id, _, rfl, fun x hx => by rw [used_use, if_neg hx]⟩
  · exact ⟨id, _, rfl, fun _ _ => rfl⟩

lemma exists_generatePath (key : FwdPathKey) (hroom : Room m (n + 1)) :
    ∃ id t, m.table.generatePath m.source key = some (id, t) ∧
      ∀ x, x ≠ id → t.used x = m.table.used x := by
  unfold FwdPathIDTable.generatePath
  rcases m.table.byPath.lookup (m.source, key) with _ | id
  · obtain ⟨id, hmint⟩ := exists_mintLocked hroom
    rw [hmint]
    exact ⟨id, _, rfl, fun x hx => by rw [used_use, if_neg hx]⟩
  · exact ⟨id, _, rfl, fun _ _ => rfl⟩

lemma exists_unframed (received : BitVec 32) (withdraw : Bool) (hroom : Room m (n + 1)) :
    ∃ id m', Gives (unframed received withdraw) m id m' ∧ Room m' n := by
  rcases hlast : m.last.filter (·.1 = received) with _ | ⟨_, generated⟩
  · by_cases hw : withdraw
    · refine ⟨(m.table.bySource.lookup (m.source, received)).getD 0#32, m, ?_,
        hroom.mono (le_succ n)⟩
      simp only [Gives, unframed, hlast, if_pos hw]
    · obtain ⟨id, t, hgen, hused⟩ := exists_generate received hroom
      refine ⟨id, { m with last := some (received, id), table := t }, ?_, hroom.use hused⟩
      simp only [Gives, unframed, hlast, if_neg hw, hgen]
      rfl
  · refine ⟨generated, m, ?_, hroom.mono (le_succ n)⟩
    simp only [Gives, unframed, hlast]

lemma exists_framed {fam : Family} {raw : List Octet} {withdraw : Bool} (received : BitVec 32)
    (hkey : HasKey fam raw withdraw) (hroom : Room m (n + 1)) :
    ∃ id m', Gives (framed fam received raw withdraw) m id m' ∧ Room m' n := by
  obtain ⟨key, hkey⟩ := (exists_fwdPathKeyFor_iff fam received raw withdraw).2 hkey
  by_cases hw : withdraw
  · refine ⟨(m.table.byPath.lookup (m.source, key)).getD 0#32, m, ?_, hroom.mono (le_succ n)⟩
    simp only [Gives, framed, hkey, if_pos hw]
  · obtain ⟨id, t, hgen, hused⟩ := exists_generatePath key hroom
    refine ⟨id, { m with table := t }, ?_, hroom.use hused⟩
    simp only [Gives, framed, hkey, if_neg hw, hgen]
    rfl

lemma hasKey_of_framed {fam : Family} {received id : BitVec 32} {raw : List Octet}
    {withdraw : Bool} (h : Gives (framed fam received raw withdraw) m id m') :
    HasKey fam raw withdraw := by
  rw [← exists_fwdPathKeyFor_iff fam received]
  unfold Gives framed at h
  split at h
  · cases (Prod.mk.inj (Option.some.inj h)).1
  · rename_i key hkey
    exact ⟨key, hkey⟩

/-! ## The second walk -/

namespace Framing

/-- The native NLRI behind each other, each with an identifier exactly when the destination
negotiated ADD-PATH. -/
def Framed (f : Framing) (natives : List (List Octet)) (field : List Octet) : Prop :=
  if f.destAddPath then
    ∃ ids : List (BitVec 32), ids.length = natives.length ∧
      field = (zipWith (fun id bare => putUint32 id ++ bare) ids natives).flatten
  else field = natives.flatten

/-- Every NLRI that is given an identifier by its path has a key. -/
def Keyed (f : Framing) (natives : List (List Octet)) : Prop :=
  f.srcAddPath = true → f.destAddPath = true →
    ∀ bare ∈ natives, HasKey f.fam bare f.withdraw

variable {f : Framing} {size : ℕ} {raw out out' : List Octet} {raws : List (List Octet)}

lemma Framed.cons {bare field : List Octet} {natives : List (List Octet)} {lead : List Octet}
    (hlead : if f.destAddPath then ∃ id, lead = putUint32 id else lead = [])
    (h : f.Framed natives field) : f.Framed (bare :: natives) (lead ++ bare ++ field) := by
  unfold Framed at h ⊢
  by_cases hd : f.destAddPath
  · rw [if_pos hd] at h hlead ⊢
    obtain ⟨id, rfl⟩ := hlead
    obtain ⟨ids, hlen, rfl⟩ := h
    exact ⟨id :: ids, congrArg succ hlen, rfl⟩
  · rw [if_neg hd] at h hlead ⊢
    subst hlead h
    rfl

lemma Framed.length_eq {natives : List (List Octet)} {field : List Octet}
    (h : f.Framed natives field) :
    field.length = natives.flatten.length + natives.length * head f.destAddPath := by
  unfold Framed at h
  by_cases hd : f.destAddPath
  · rw [if_pos hd] at h
    obtain ⟨ids, hlen, rfl⟩ := h
    rw [head, if_pos hd]
    induction natives generalizing ids with
    | nil =>
      rw [zipWith_nil_right]
      rfl
    | cons bare natives ih =>
      rcases ids with _ | ⟨id, ids⟩
      · cases hlen
      · have hrest := ih ids (succ.inj hlen)
        rw [zipWith_cons_cons, flatten_cons, flatten_cons, length_append,
          length_append, length_append, length_cons, hrest, show (putUint32 id).length = 4 from rfl]
        omega
  · rw [if_neg hd] at h
    rw [h, head, if_neg hd, Nat.mul_zero, Nat.add_zero]

lemma exists_pathID (hkey : f.srcAddPath → HasKey f.fam (raw.drop 4) f.withdraw)
    (hroom : Room m (n + 1)) : ∃ id m', Gives (f.pathID raw) m id m' ∧ Room m' n := by
  unfold pathID
  by_cases hs : f.srcAddPath
  · rw [if_pos hs]
    exact exists_framed _ (hkey hs) hroom
  · rw [if_neg hs]
    exact exists_unframed _ _ hroom

lemma gives_writeID (h : Gives (f.writeID size raw out) m out' m') :
    ∃ lead, out' = out ++ lead ∧ lead.length = head f.destAddPath ∧
      (if f.destAddPath then ∃ id, lead = putUint32 id else lead = []) ∧
      (f.srcAddPath → f.destAddPath →
        HasKey f.fam (raw.drop (head f.srcAddPath)) f.withdraw) := by
  unfold writeID at h
  by_cases hd : f.destAddPath
  · rw [if_pos hd, gives_bind] at h
    obtain ⟨id, m₁, hid, h⟩ := h
    split_ifs at h
    · exact absurd h not_gives_panics
    · obtain ⟨rfl, -⟩ := gives_pure.1 h
      refine ⟨putUint32 id, rfl, ?_, ?_, ?_⟩
      · rw [head, if_pos hd]
        rfl
      · rw [if_pos hd]
        exact ⟨id, rfl⟩
      · intro hs _
        rw [pathID, if_pos hs] at hid
        rw [head, if_pos hs]
        exact hasKey_of_framed hid
  · rw [if_neg hd] at h
    obtain ⟨rfl, -⟩ := gives_pure.1 h
    refine ⟨[], (append_nil out).symm, ?_, ?_, ?_⟩
    · rw [head, if_neg hd]
      rfl
    · rw [if_neg hd]
    · exact fun _ h => absurd h hd

lemma exists_writeID (hkey : f.srcAddPath → f.destAddPath →
      HasKey f.fam (raw.drop (head f.srcAddPath)) f.withdraw)
    (hsize : out.length + head f.destAddPath ≤ size) (hroom : Room m (n + 1)) :
    ∃ out' m', Gives (f.writeID size raw out) m out' m' ∧ Room m' n := by
  unfold writeID
  by_cases hd : f.destAddPath
  · rw [head, if_pos hd] at hsize
    have hkey' : f.srcAddPath → HasKey f.fam (raw.drop 4) f.withdraw := by
      intro hs
      have := hkey hs hd
      rwa [head, if_pos hs] at this
    obtain ⟨id, m', hid, hroom'⟩ := exists_pathID hkey' hroom
    refine ⟨out ++ putUint32 id, m', ?_, hroom'⟩
    rw [if_pos hd, gives_bind]
    refine ⟨id, m', hid, ?_⟩
    rw [if_neg (by omega)]
    exact gives_pure.2 ⟨rfl, rfl⟩
  · rw [if_neg hd]
    exact ⟨out, m, gives_pure.2 ⟨rfl, rfl⟩, hroom.mono (le_succ n)⟩

/-- The NLRI of raws without their Path Identifiers. -/
def natives (f : Framing) (raws : List (List Octet)) : List (List Octet) :=
  raws.map (drop (head f.srcAddPath))

lemma length_flatten_natives (hlong : ∀ s ∈ raws, head f.srcAddPath < s.length) :
    (f.natives raws).flatten.length + raws.length * head f.srcAddPath = raws.flatten.length := by
  induction raws with
  | nil => rw [length_nil, Nat.zero_mul]; rfl
  | cons raw rest ih =>
    have hraw := hlong raw mem_cons_self
    have hrest := ih fun s hs => hlong s (mem_cons_of_mem _ hs)
    rw [natives] at hrest ⊢
    rw [map_cons, flatten_cons, flatten_cons, length_append, length_append,
      length_drop, length_cons, succ_mul]
    omega

lemma take_of_size {lead : List Octet} {rest : List (List Octet)}
    (hlead : lead.length = head f.destAddPath)
    (hsize : size = out.length + ((f.natives (raw :: rest)).flatten.length +
      (raw :: rest).length * head f.destAddPath)) :
    (raw.drop (head f.srcAddPath)).take (size - (out ++ lead).length) =
        raw.drop (head f.srcAddPath) ∧
      size = (out ++ lead ++ raw.drop (head f.srcAddPath)).length +
        ((f.natives rest).flatten.length + rest.length * head f.destAddPath) := by
  rw [natives, map_cons, flatten_cons, length_append, length_cons, succ_mul] at hsize
  rw [natives, length_append, length_append, length_append, hlead]
  refine ⟨take_of_length_le ?_, ?_⟩ <;> omega

section

variable (hlong : ∀ s ∈ raws, head f.srcAddPath < s.length)
  (hsize : size = out.length + ((f.natives raws).flatten.length + raws.length * head f.destAddPath))
include hlong hsize

lemma framed_of_reframe (h : Gives (f.reframe size raws out) m out' m') :
    ∃ field, out' = out ++ field ∧ f.Framed (f.natives raws) field ∧
      f.Keyed (f.natives raws) := by
  induction raws generalizing out m with
  | nil =>
    obtain ⟨rfl, -⟩ := gives_pure.1 h
    refine ⟨[], (append_nil out).symm, ?_, fun _ _ bare hn => absurd hn not_mem_nil⟩
    unfold Framed
    split_ifs
    · exact ⟨[], rfl, rfl⟩
    · rfl
  | cons raw rest ih =>
    rw [reframe, if_neg (Nat.not_lt.mpr (hlong raw mem_cons_self).le), gives_bind] at h
    obtain ⟨out₁, m₁, hwrite, h⟩ := h
    obtain ⟨lead, rfl, hlead, hid, hkey⟩ := gives_writeID hwrite
    obtain ⟨htake, hrest⟩ := take_of_size hlead hsize
    rw [htake] at h
    obtain ⟨field, rfl, hframed, hkeyed⟩ :=
      ih (fun s hs => hlong s (mem_cons_of_mem _ hs)) hrest h
    refine ⟨lead ++ raw.drop (head f.srcAddPath) ++ field, ?_, hframed.cons hid, ?_⟩
    · simp only [append_assoc]
    · intro hs hd bare hn
      rcases mem_cons.1 hn with rfl | hn
      · exact hkey hs hd
      · exact hkeyed hs hd bare hn

lemma exists_reframe (hkeyed : f.Keyed (f.natives raws)) (hroom : Room m (raws.length + n)) :
    ∃ out' m', Gives (f.reframe size raws out) m out' m' ∧ Room m' n := by
  induction raws generalizing out m with
  | nil => exact ⟨out, m, gives_pure.2 ⟨rfl, rfl⟩, hroom.mono (Nat.le_add_left n _)⟩
  | cons raw rest ih =>
    rw [length_cons, Nat.add_right_comm] at hroom
    have hfits : out.length + head f.destAddPath ≤ size := by
      rw [length_cons, succ_mul] at hsize
      omega
    obtain ⟨out₁, m₁, hwrite, hroom₁⟩ :=
      exists_writeID (fun hs hd => hkeyed hs hd _ mem_cons_self) hfits hroom
    obtain ⟨lead, rfl, hlead, -, -⟩ := gives_writeID hwrite
    obtain ⟨htake, hrest⟩ := take_of_size hlead hsize
    obtain ⟨out', m', hgives, hroom'⟩ :=
      ih (fun s hs => hlong s (mem_cons_of_mem _ hs)) hrest
        (fun hs hd bare hn => hkeyed hs hd bare (mem_cons_of_mem _ hn)) hroom₁
    refine ⟨out', m', ?_, hroom'⟩
    rw [reframe, if_neg (Nat.not_lt.mpr (hlong raw mem_cons_self).le), gives_bind]
    refine ⟨_, m₁, hwrite, ?_⟩
    rw [htake]
    exact hgives

end

/-! ## The field -/

/-- The slices that the splitter of the source visits. -/
def slices (f : Framing) (data : List Octet) : List (List Octet) :=
  match splitterFor f.fam f.withdraw with
  | none => []
  | some split => (split data f.srcAddPath Visitor.goOn).visited.map (slice data)

def Accepts (f : Framing) (data : List Octet) : Prop :=
  ∃ split, splitterFor f.fam f.withdraw = some split ∧
    (split data f.srcAddPath Visitor.goOn).err = none

/-- The field is written again: there are Path Identifiers to take away or to add. -/
def Rewrites (f : Framing) (data : List Octet) : Prop :=
  data ≠ [] ∧ (f.srcAddPath = true ∨ f.destAddPath = true)

def Reframed (f : Framing) (data field : List Octet) : Prop :=
  f.Framed (f.natives (f.slices data)) field

variable {data field : List Octet}

lemma tiles_slices (h : f.Accepts data) : Tiles data (head f.srcAddPath) (f.slices data) := by
  obtain ⟨split, hsplit, herr⟩ := h
  unfold slices
  rw [hsplit]
  exact tiling_of_splitterFor hsplit data f.srcAddPath herr

lemma resize_eq (h : f.Accepts data) :
    f.resize data.length (f.slices data).length = (f.natives (f.slices data)).flatten.length +
      (f.slices data).length * head f.destAddPath := by
  have htiles := tiles_slices h
  have hnatives := length_flatten_natives htiles.long
  rw [htiles.flatten] at hnatives
  unfold resize
  omega

lemma length_reframed (h : f.Accepts data) (hr : f.Reframed data field) :
    field.length = f.resize data.length (f.slices data).length := by
  rw [hr.length_eq, resize_eq h, natives, length_map]

lemma reframed_self (h : f.Accepts data) (hn : ¬ f.Rewrites data) : f.Reframed data data := by
  have htiles := tiles_slices h
  by_cases hdata : data = []
  · have hnil : f.slices data = [] := by
      rcases hs : f.slices data with _ | ⟨s, rest⟩
      · rfl
      · have hlong := htiles.long s (hs ▸ mem_cons_self)
        have hflat := htiles.flatten
        rw [hs, flatten_cons, hdata, append_eq_nil_iff] at hflat
        rw [hflat.1] at hlong
        exact absurd hlong (Nat.not_lt_zero _)
    unfold Reframed Framed
    rw [hnil, hdata]
    split_ifs
    · exact ⟨[], rfl, rfl⟩
    · rfl
  · have hboth : ¬ (f.srcAddPath ∨ f.destAddPath) := fun hp => hn ⟨hdata, hp⟩
    rw [not_or] at hboth
    unfold Reframed Framed natives
    rw [if_neg hboth.2, head, if_neg hboth.1, map_congr_left fun _ _ => drop_zero, map_id']
    exact htiles.flatten.symm

lemma fwdReencodeNLRIs_of_not_rewrites (h : ¬ f.Rewrites data) :
    (fwdReencodeNLRIs data f : FwdM Src _) = pure none := by
  unfold fwdReencodeNLRIs
  rw [if_pos]
  unfold Rewrites at h
  by_cases hdata : data = []
  · exact .inl hdata
  · have := not_or.1 fun hp => h ⟨hdata, hp⟩
    exact .inr ⟨Bool.eq_false_iff.2 this.1, Bool.eq_false_iff.2 this.2⟩

lemma fwdReencodeNLRIs_of_rewrites (h : f.Rewrites data) (ha : f.Accepts data) :
    (fwdReencodeNLRIs data f : FwdM Src _) =
      f.reframe (f.resize data.length (f.slices data).length) (f.slices data) [] >>= fun out =>
        pure (some (out ++
          replicate (f.resize data.length (f.slices data).length - out.length) 0#8)) := by
  obtain ⟨split, hsplit, herr⟩ := ha
  have hboth : ¬ (data = [] ∨ f.srcAddPath = false ∧ f.destAddPath = false) := by
    rintro (hdata | ⟨hs, hd⟩)
    · exact h.1 hdata
    · rcases h.2 with hp | hp
      · exact absurd (hs.symm.trans hp) (by decide)
      · exact absurd (hd.symm.trans hp) (by decide)
  unfold fwdReencodeNLRIs slices
  rw [if_neg hboth, hsplit]
  dsimp only
  rcases hwalk : split data f.srcAddPath Visitor.goOn with ⟨visited, err⟩
  rw [hwalk] at herr
  obtain rfl := herr
  simp only [length_map]

lemma resize_eq_nil_add (h : f.Accepts data) :
    f.resize data.length (f.slices data).length = ([] : List Octet).length +
      ((f.natives (f.slices data)).flatten.length +
        (f.slices data).length * head f.destAddPath) := by
  rw [resize_eq h, length_nil, Nat.zero_add]

lemma reframed_of_fwdReencodeNLRIs {new : Option (List Octet)} (h : f.Rewrites data)
    (ha : f.Accepts data) (hg : Gives (fwdReencodeNLRIs data f) m new m') :
    (∃ field, new = some field ∧ f.Reframed data field) ∧ f.Keyed (f.natives (f.slices data)) := by
  rw [fwdReencodeNLRIs_of_rewrites h ha, gives_bind] at hg
  obtain ⟨out, m₁, hout, hg⟩ := hg
  obtain ⟨rfl, -⟩ := gives_pure.1 hg
  obtain ⟨field, hfield, hframed, hkeyed⟩ :=
    framed_of_reframe (tiles_slices ha).long (resize_eq_nil_add ha) hout
  refine ⟨⟨field, ?_, hframed⟩, hkeyed⟩
  rw [hfield, nil_append, length_reframed ha hframed, Nat.sub_self, replicate_zero, append_nil]

lemma exists_fwdReencodeNLRIs (h : f.Rewrites data) (ha : f.Accepts data)
    (hkeyed : f.Keyed (f.natives (f.slices data))) (hroom : Room m (data.length + n)) :
    ∃ new m', Gives (fwdReencodeNLRIs data f) m new m' ∧ Room m' n := by
  have htiles := tiles_slices ha
  obtain ⟨out, m', hout, hroom'⟩ := exists_reframe htiles.long (resize_eq_nil_add ha) hkeyed
    (hroom.mono (Nat.add_le_add_right htiles.length_le n))
  rw [fwdReencodeNLRIs_of_rewrites h ha]
  exact ⟨_, m', gives_bind.2 ⟨out, m', hout, gives_pure.2 ⟨rfl, rfl⟩⟩, hroom'⟩

end Framing

/-! ## One attribute -/

def nextHopField (value : List Octet) : List Octet := (value.drop 4).take (value.getD 3 0#8).toNat

/-- The framing and the NLRI field of an attribute that carries one. -/
def carried (srcCtx destCtx : Family → Bool) (a : Attr) : Option (Framing × List Octet) :=
  if a.code = attrMPReachNLRI then
    (parseMPReachNLRI a.value).toOption.map fun mp =>
      (framing srcCtx destCtx mp.fam false, mp.nlri)
  else if a.code = attrMPUnreachNLRI then
    (parseMPUnreachNLRI a.value).toOption.map fun mp =>
      (framing srcCtx destCtx mp.fam true, mp.nlri)
  else none

/-- The octets before an NLRI field are those of the attribute: the AFI, the SAFI and, in
MP_REACH_NLRI, the next hops with their length. The reserved octet behind these may be another. -/
def SameLead (a : Attr) (lead : List Octet) : Prop :=
  if a.code = attrMPReachNLRI then
    ∃ reserved, lead = a.value.take (4 + (nextHopField a.value).length) ++ [reserved]
  else lead = a.value.take 3

/-- What becomes of an attribute. One that carries no NLRI stays as it is; in the others the native
NLRI are in the framing of the destination, and what stands before them is the same. -/
structure Kept (srcCtx destCtx : Family → Bool) (a b : Attr) : Prop where
  code : b.code = a.code
  flags : b.flags &&& 0xef#8 = a.flags &&& 0xef#8
  other : carried srcCtx destCtx a = none → b = a
  nlri : ∀ f data, carried srcCtx destCtx a = some (f, data) →
    ∃ lead field, b.value = lead ++ field ∧ SameLead a lead ∧ f.Reframed data field

/-- An MP attribute can be read, and the splitter of its family accepts its NLRI field. -/
def WellFormed (srcCtx destCtx : Family → Bool) (a : Attr) : Prop :=
  a.code = attrMPReachNLRI ∨ a.code = attrMPUnreachNLRI →
    ∃ f data, carried srcCtx destCtx a = some (f, data) ∧ f.Accepts data

/-- An attribute that is not written again, or that can be: its next hops are in the form that the
encoder gives them, its new value has a length of sixteen bits, and its NLRI have the keys that they
need. -/
def Fit (srcCtx destCtx : Family → Bool) (a : Attr) : Prop :=
  ∀ f data, carried srcCtx destCtx a = some (f, data) → f.Rewrites data →
    (a.code = attrMPReachNLRI → CanonicalNextHop f.fam (nextHopField a.value)) ∧
      f.resize a.value.length (f.slices data).length ≤ 65535 ∧
      f.Keyed (f.natives (f.slices data))

variable (Src) in
/-- An attribute is `lead` and an NLRI field, and is written again as `lead'` and a field. -/
structure Leads (srcCtx destCtx : Family → Bool) (a : Attr) (f : Framing) (data : List Octet)
    (lead lead' : List Octet) : Prop where
  value : a.value = lead ++ data
  same : SameLead a lead
  length : ∀ l, SameLead a l → l.length = lead.length
  short : lead.length ≤ 260
  short' : lead'.length ≤ 53
  canonical : SameLead a lead' ↔
    (a.code = attrMPReachNLRI → CanonicalNextHop f.fam (nextHopField a.value))
  run : (newValue srcCtx destCtx a.code a.value : FwdM Src _) =
    fwdReencodeNLRIs data f >>= fun new => pure (new.map (lead' ++ ·))

section

variable {srcCtx destCtx : Family → Bool} {a b : Attr} {f : Framing} {data : List Octet}

lemma leads_of_reach {mp : MPReachNLRI} (hcode : a.code = attrMPReachNLRI)
    (hparse : parseMPReachNLRI a.value = .ok mp) :
    ∃ lead lead', Leads Src srcCtx destCtx a (framing srcCtx destCtx mp.fam false) mp.nlri
      lead lead' := by
  obtain ⟨nh, reserved, hops, hlt, hvalue, hhops, hnext⟩ := exists_octets_of_parse hparse
  obtain ⟨hwritten, hshort⟩ := writeNextHops_eq_iff hhops
  rw [← hnext] at hwritten hshort
  set nh' := writeNextHops mp.fam mp.nextHops with hnh'
  have hlen : (ofNat 8 nh.length).toNat = nh.length := by
    rw [toNat_ofNat, mod_eq_of_lt hlt]
  have hfamily : (writeFamily mp.fam).length = 3 := rfl
  have hfield : nextHopField a.value = nh := by
    have hget : a.value.getD 3 0#8 = ofNat 8 nh.length := by
      rw [hvalue]
      rfl
    have hdrop : a.value.drop 4 = nh ++ reserved :: mp.nlri := by
      rw [hvalue]
      rfl
    rw [nextHopField, hget, hlen, hdrop, take_left]
  have htake : a.value.take (4 + (nextHopField a.value).length) =
      writeFamily mp.fam ++ ofNat 8 nh.length :: nh := by
    rw [hfield, hvalue]
    apply take_left'
    rw [length_append, length_cons, hfamily]
    omega
  have hsame : ∀ l, SameLead a l ↔
      ∃ r, l = writeFamily mp.fam ++ ofNat 8 nh.length :: nh ++ [r] := by
    intro l
    rw [SameLead, if_pos hcode, htake]
  refine ⟨writeFamily mp.fam ++ ofNat 8 nh.length :: nh ++ [reserved],
    writeFamily mp.fam ++ ofNat 8 mp.nextHopLen :: nh' ++ [0#8], ?_, ?_, ?_, ?_, ?_, ?_, ?_⟩
  · simp only [hvalue, append_assoc, cons_append, nil_append]
  · exact (hsame _).2 ⟨reserved, rfl⟩
  · intro l hl
    obtain ⟨r, rfl⟩ := (hsame l).1 hl
    simp only [length_append, length_cons, length_nil]
  · simp only [length_append, length_cons, length_nil, hfamily]
    omega
  · simp only [length_append, length_cons, length_nil, hfamily]
    omega
  · rw [hsame, hfield]
    constructor
    · rintro ⟨r, hr⟩ _
      have hcons := append_cancel_left (append_inj_left' hr rfl)
      exact hwritten.1 (cons.inj hcons).2
    · intro hc
      have := hwritten.2 (hc hcode)
      refine ⟨0#8, ?_⟩
      rw [nextHopLen_eq, ← hnh', this]
  · unfold newValue
    rw [if_pos hcode, hparse]
    dsimp only
    congr 1
    funext new
    congr 2
    funext field
    simp only [MPReachNLRI.writeTo, append_assoc, cons_append, nil_append, ← hnh']
    rfl

lemma leads_of_unreach {mp : MPUnreachNLRI} (hcode : a.code = attrMPUnreachNLRI)
    (hparse : parseMPUnreachNLRI a.value = .ok mp) :
    ∃ lead lead', Leads Src srcCtx destCtx a (framing srcCtx destCtx mp.fam true) mp.nlri
      lead lead' := by
  have hvalue := eq_of_parseMPUnreachNLRI hparse
  have hne : a.code ≠ attrMPReachNLRI := by
    rw [hcode]
    decide
  have hsame : ∀ l, SameLead a l ↔ l = writeFamily mp.fam := by
    intro l
    rw [SameLead, if_neg hne, hvalue]
    rfl
  refine ⟨writeFamily mp.fam, writeFamily mp.fam, hvalue, (hsame _).2 rfl, ?_, ?_, ?_, ?_, ?_⟩
  · intro l hl
    rw [(hsame l).1 hl]
  · exact Nat.le_add_right 3 257
  · exact Nat.le_add_right 3 50
  · exact iff_of_true ((hsame _).2 rfl) (fun h => absurd h hne)
  · unfold newValue
    rw [if_neg hne, if_pos hcode, hparse]
    rfl

lemma exists_leads (h : carried srcCtx destCtx a = some (f, data)) :
    ∃ lead lead', Leads Src srcCtx destCtx a f data lead lead' := by
  unfold carried at h
  by_cases hreach : a.code = attrMPReachNLRI
  · rw [if_pos hreach] at h
    rcases hparse : parseMPReachNLRI a.value with err | mp
    · rw [hparse] at h
      cases h
    · rw [hparse] at h
      cases h
      exact leads_of_reach hreach hparse
  · rw [if_neg hreach] at h
    by_cases hunreach : a.code = attrMPUnreachNLRI
    · rw [if_pos hunreach] at h
      rcases hparse : parseMPUnreachNLRI a.value with err | mp
      · rw [hparse] at h
        cases h
      · rw [hparse] at h
        cases h
        exact leads_of_unreach hunreach hparse
    · rw [if_neg hunreach] at h
      cases h

/-- The octets that take the place of an attribute. -/
def chunk (a : Attr) : Option (List Octet) → List Octet
  | none => a.octets
  | some value => writeHeader a.flags a.code (value.length % 65536) ++ value

lemma resize_append {lead : List Octet} (ha : f.Accepts data) :
    f.resize (lead ++ data).length (f.slices data).length =
      lead.length + f.resize data.length (f.slices data).length := by
  have htiles := Framing.tiles_slices ha
  have hnatives := Framing.length_flatten_natives htiles.long
  rw [htiles.flatten] at hnatives
  unfold Framing.resize
  rw [length_append]
  omega

lemma newValue_of_carried_eq_none (h : carried srcCtx destCtx a = none)
    (hwell : WellFormed srcCtx destCtx a) :
    (newValue srcCtx destCtx a.code a.value : FwdM Src _) = pure none := by
  have hcode : ¬ (a.code = attrMPReachNLRI ∨ a.code = attrMPUnreachNLRI) := by
    intro hc
    obtain ⟨f, data, hsome, -⟩ := hwell hc
    rw [h] at hsome
    cases hsome
  rw [not_or] at hcode
  unfold newValue
  rw [if_neg hcode.1, if_neg hcode.2]

lemma accepts_of_carried (h : carried srcCtx destCtx a = some (f, data))
    (hwell : WellFormed srcCtx destCtx a) : f.Accepts data := by
  have hcode : a.code = attrMPReachNLRI ∨ a.code = attrMPUnreachNLRI := by
    by_contra hc
    rw [not_or] at hc
    rw [carried, if_neg hc.1, if_neg hc.2] at h
    cases h
  obtain ⟨f', data', hsome, ha⟩ := hwell hcode
  rw [h] at hsome
  cases hsome
  exact ha

lemma or_and_flags (flags : Octet) : (flags ||| 0x10#8) &&& 0xef#8 = flags &&& 0xef#8 := by
  revert flags
  decide

lemma exists_newValue (hwell : WellFormed srcCtx destCtx a) (hfit : Fit srcCtx destCtx a)
    (hroom : Room m (a.value.length + n)) :
    ∃ new m' b, Gives (newValue srcCtx destCtx a.code a.value) m new m' ∧ Room m' n ∧
      chunk a new = b.octets ∧ Kept srcCtx destCtx a b := by
  rcases hc : carried srcCtx destCtx a with _ | ⟨f, data⟩
  · refine ⟨none, m, a, ?_, hroom.mono (Nat.le_add_left n _), rfl, rfl, rfl, fun _ => rfl, ?_⟩
    · rw [newValue_of_carried_eq_none hc hwell]
      exact gives_pure.2 ⟨rfl, rfl⟩
    · intro f data hsome
      rw [hc] at hsome
      cases hsome
  have ha := accepts_of_carried hc hwell
  obtain ⟨lead, lead', hleads⟩ : ∃ lead lead', Leads Src srcCtx destCtx a f data lead lead' :=
    exists_leads hc
  have hnone : carried srcCtx destCtx a = none → ∀ b, b = a := by
    intro hnone
    rw [hc] at hnone
    cases hnone
  by_cases hrw : f.Rewrites data
  · obtain ⟨hcanonical, hlen, hkeyed⟩ := hfit f data hc hrw
    have hsame := hleads.canonical.2 hcanonical
    have hroom' : Room m (data.length + n) := by
      apply hroom.mono
      rw [hleads.value, length_append]
      omega
    obtain ⟨new, m', hnew, hroom'⟩ := Framing.exists_fwdReencodeNLRIs hrw ha hkeyed hroom'
    obtain ⟨⟨field, rfl, hframed⟩, -⟩ := Framing.reframed_of_fwdReencodeNLRIs hrw ha hnew
    have hshort : (lead' ++ field).length < 65536 := by
      rw [hleads.value, resize_append ha] at hlen
      rw [length_append, hleads.length _ hsame, Framing.length_reframed ha hframed]
      omega
    refine ⟨some (lead' ++ field), m', Attr.written a.flags a.code (lead' ++ field), ?_, hroom', ?_,
      rfl, ?_, fun h => hnone h _, ?_⟩
    · rw [hleads.run, gives_bind]
      exact ⟨_, m', hnew, gives_pure.2 ⟨rfl, rfl⟩⟩
    · rw [chunk, mod_eq_of_lt hshort, Attr.octets_written hshort]
    · simp only [Attr.written]
      split_ifs
      · exact or_and_flags a.flags
      · rfl
    · intro f' data' hsome
      rw [hc] at hsome
      cases hsome
      exact ⟨lead', field, Attr.value_written hshort, hsame, hframed⟩
  · refine ⟨none, m, a, ?_, hroom.mono (Nat.le_add_left n _), rfl, rfl, rfl, fun _ => rfl, ?_⟩
    · rw [hleads.run, Framing.fwdReencodeNLRIs_of_not_rewrites hrw, gives_bind]
      exact ⟨none, m, gives_pure.2 ⟨rfl, rfl⟩, gives_pure.2 ⟨rfl, rfl⟩⟩
    · intro f' data' hsome
      rw [hc] at hsome
      cases hsome
      exact ⟨lead, data, hleads.value, hleads.same, Framing.reframed_self ha hrw⟩

lemma parseHeader_writeHeader (flags code : Octet) {k : ℕ} (hk : k < 65536) (rest : List Octet) :
    ∃ flags', parseHeader (writeHeader flags code k ++ rest) =
      some (flags', code, k, (writeHeader flags code k).length) := by
  unfold writeHeader
  dsimp only
  set flags' := if 255 < k then flags ||| 0x10#8 else flags with hflags'
  refine ⟨flags', ?_⟩
  by_cases hext : isExtLength flags'
  · simp only [if_pos hext, AsPath.putUint16, cons_append, nil_append, parseHeader,
      AsPath.uint16_ofNat, mod_eq_of_lt hk, length_cons, length_nil]
  · have hsmall : k < 256 := by
      by_contra hlong
      rw [hflags', if_pos (by omega), AsPath.isExtLength_or] at hext
      exact hext rfl
    simp only [if_neg hext, cons_append, nil_append, length_cons, length_nil]
    rw [parseHeader_short hext, toNat_ofNat, mod_eq_of_lt hsmall]

variable {rest pre octets : List Octet} {attrs : List Attr} {turns : ℕ}

lemma eq_of_header_append {flags code : Octet} {value rest' : List Octet}
    (hnear : value.length < b.value.length + 65536)
    (h : writeHeader flags code (value.length % 65536) ++ value ++ rest = b.octets ++ rest') :
    value = b.value ∧ rest = rest' := by
  obtain ⟨flags', hparse⟩ := parseHeader_writeHeader flags code
    (Nat.mod_lt value.length (show 0 < 65536 by decide)) (value ++ rest)
  rw [← append_assoc, h, parseHeader_octets_append] at hparse
  obtain ⟨-, -, hlen, hhdr⟩ : b.flags = flags' ∧ b.code = code ∧
      b.value.length = value.length % 65536 ∧
      b.hdrLen = (writeHeader flags code (value.length % 65536)).length := by
    simpa only [Option.some.injEq, Prod.mk.injEq] using hparse
  have hvalue : value.length = b.value.length := by omega
  have hright : (b.octets ++ rest').drop b.hdrLen = b.value ++ rest' := by
    rw [drop_append_of_le_length (by rw [b.length_octets]; omega), drop_hdrLen_octets]
  have htails : value ++ rest = b.value ++ rest' := by
    rw [← hright, ← h, hhdr, append_assoc, drop_left]
  exact append_inj htails hvalue

lemma fit_of_newValue {new : Option (List Octet)} {rest' : List Octet}
    (hwell : WellFormed srcCtx destCtx a)
    (hg : Gives (newValue srcCtx destCtx a.code a.value) m new m') (hkept : Kept srcCtx destCtx a b)
    (h : chunk a new ++ rest = b.octets ++ rest') : Fit srcCtx destCtx a ∧ rest = rest' := by
  -- An attribute that is not written again is the attribute that the octets begin with.
  have hsame : new = none → rest = rest' := by
    rintro rfl
    have hab : a = b := by
      have ha := nextAttr_octets_append a rest
      rw [show a.octets ++ rest = b.octets ++ rest' from h, nextAttr_octets_append] at ha
      exact (Option.some.inj ha).symm
    subst hab
    exact append_cancel_left h
  rcases hc : carried srcCtx destCtx a with _ | ⟨f, data⟩
  · rw [newValue_of_carried_eq_none hc hwell] at hg
    refine ⟨fun f data hsome => ?_, hsame (gives_pure.1 hg).1.symm⟩
    rw [hc] at hsome
    cases hsome
  have ha := accepts_of_carried hc hwell
  obtain ⟨lead, lead', hleads⟩ : ∃ lead lead', Leads Src srcCtx destCtx a f data lead lead' :=
    exists_leads hc
  rw [hleads.run, gives_bind] at hg
  obtain ⟨field?, m₁, hfield, hg⟩ := hg
  obtain ⟨rfl, -⟩ := gives_pure.1 hg
  by_cases hrw : f.Rewrites data
  · obtain ⟨⟨field, rfl, hframed⟩, hkeyed⟩ := Framing.reframed_of_fwdReencodeNLRIs hrw ha hfield
    obtain ⟨l, field', hvalue, hl, hframed'⟩ := hkept.nlri f data hc
    have hlen := Framing.length_reframed ha hframed
    have hlen' := Framing.length_reframed ha hframed'
    have hbound := b.fits
    have hshort := hleads.short
    have hshort' := hleads.short'
    have hllen := hleads.length l hl
    have hnear : (lead' ++ field).length < b.value.length + 65536 := by
      rw [hvalue, length_append, length_append]
      omega
    obtain ⟨heq, hrest⟩ := eq_of_header_append hnear h
    rw [hvalue] at heq
    have hlead : lead' = l :=
      append_inj_left' heq (hlen.trans hlen'.symm)
    refine ⟨fun f' data' hsome _ => ?_, hrest⟩
    rw [hc] at hsome
    cases hsome
    refine ⟨hleads.canonical.1 (hlead ▸ hl), ?_, hkeyed⟩
    rw [hleads.value, resize_append ha, ← hlen', ← hllen, ← length_append, ← hvalue]
    split_ifs at hbound <;> omega
  · rw [Framing.fwdReencodeNLRIs_of_not_rewrites hrw] at hfield
    obtain ⟨rfl, -⟩ := gives_pure.1 hfield
    refine ⟨fun f' data' hsome hrw' => ?_, hsame rfl⟩
    rw [hc] at hsome
    cases hsome
    exact absurd hrw' hrw

/-! ## The section -/

lemma reencodeFrom_octets {attrs : List Octet} (turns : ℕ)
    (out : Option (List Octet)) (h : attrs = pre ++ a.octets ++ rest) :
    (reencodeFrom srcCtx destCtx attrs (turns + 1) pre.length out : FwdM Src _) =
      newValue srcCtx destCtx a.code a.value >>= fun new =>
        reencodeFrom srcCtx destCtx attrs turns (pre ++ a.octets).length
          (match new with
            | none => out.map (· ++ a.octets)
            | some _ => some (out.getD pre ++ chunk a new)) := by
  have hthree := three_le_length_octets a
  have hdrop : attrs.drop pre.length = a.octets ++ rest := by
    rw [h, append_assoc, drop_left]
  have hlen := a.length_octets
  have hattrs : attrs.length = pre.length + a.octets.length + rest.length := by
    rw [h, length_append, length_append]
  have hstop : pre.length + a.hdrLen + a.value.length = (pre ++ a.octets).length := by
    rw [length_append]
    omega
  have hvalue : slice attrs (pre.length + a.hdrLen, (pre ++ a.octets).length) = a.value := by
    rw [slice, ← drop_drop, hdrop, drop_append_of_le_length (by omega), drop_hdrLen_octets]
    apply take_left'
    rw [length_append]
    omega
  have hoctets : slice attrs (pre.length, (pre ++ a.octets).length) = a.octets := by
    rw [slice, hdrop]
    apply take_left'
    rw [length_append]
    omega
  have htake : attrs.take pre.length = pre := by
    rw [h, append_assoc, take_left]
  rw [reencodeFrom, if_neg (by omega), hdrop, parseHeader_octets_append]
  dsimp only
  rw [hstop, if_neg (by rw [length_append]; omega), hvalue, hoctets, htake]
  congr 1
  funext new
  cases new <;> rfl

lemma getD_next (out new : Option (List Octet)) :
    (match new with
      | none => out.map (· ++ a.octets)
      | some _ => some (out.getD pre ++ chunk a new)).getD (pre ++ a.octets) =
        out.getD pre ++ chunk a new := by
  cases new with
  | none => cases out <;> rfl
  | some value => rfl

lemma exists_append_of_reencodeFrom
    {out o : Option (List Octet)}
    (hoctets : octets = pre ++ attrs.flatMap Attr.octets) (hturns : attrs.length < turns)
    (h : Gives (reencodeFrom srcCtx destCtx octets turns pre.length out) m o m') :
    ∃ t, o.getD octets = out.getD pre ++ t := by
  induction attrs generalizing pre turns out m with
  | nil =>
    rw [flatMap_nil, append_nil] at hoctets
    obtain ⟨turns, rfl⟩ := Nat.exists_eq_succ_of_ne_zero (Nat.ne_of_gt hturns)
    rw [reencodeFrom, if_pos (by rw [hoctets])] at h
    obtain ⟨rfl, -⟩ := gives_pure.1 h
    exact ⟨[], by rw [hoctets, append_nil]⟩
  | cons a attrs ih =>
    obtain ⟨turns, rfl⟩ := Nat.exists_eq_succ_of_ne_zero (Nat.ne_of_gt (Nat.zero_lt_of_lt hturns))
    rw [flatMap_cons, ← append_assoc] at hoctets
    rw [reencodeFrom_octets turns out hoctets, gives_bind] at h
    obtain ⟨new, m₁, -, h⟩ := h
    obtain ⟨t, ht⟩ := ih hoctets (Nat.lt_of_succ_lt_succ hturns) h
    rw [getD_next, append_assoc] at ht
    exact ⟨_, ht⟩

lemma exists_reencodeFrom
    (out : Option (List Octet))
    (hoctets : octets = pre ++ attrs.flatMap Attr.octets) (hturns : attrs.length < turns)
    (hwell : ∀ a ∈ attrs, WellFormed srcCtx destCtx a) (hfit : ∀ a ∈ attrs, Fit srcCtx destCtx a)
    (hroom : Room m (attrs.flatMap Attr.octets).length) :
    ∃ o m' bs, Gives (reencodeFrom srcCtx destCtx octets turns pre.length out) m o m' ∧
      o.getD octets = out.getD pre ++ bs.flatMap Attr.octets ∧
      List.Forall₂ (Kept srcCtx destCtx) attrs bs := by
  induction attrs generalizing pre turns out m with
  | nil =>
    rw [flatMap_nil, append_nil] at hoctets
    obtain ⟨turns, rfl⟩ := Nat.exists_eq_succ_of_ne_zero (Nat.ne_of_gt hturns)
    refine ⟨out, m, [], ?_, ?_, .nil⟩
    · rw [reencodeFrom, if_pos (by rw [hoctets])]
      exact gives_pure.2 ⟨rfl, rfl⟩
    · rw [hoctets, flatMap_nil, append_nil]
  | cons a attrs ih =>
    obtain ⟨turns, rfl⟩ := Nat.exists_eq_succ_of_ne_zero (Nat.ne_of_gt (Nat.zero_lt_of_lt hturns))
    rw [flatMap_cons, ← append_assoc] at hoctets
    have hroom' : Room m (a.value.length + (attrs.flatMap Attr.octets).length) := by
      apply hroom.mono
      rw [flatMap_cons, length_append, a.length_octets]
      omega
    obtain ⟨new, m₁, b, hnew, hroom₁, hchunk, hkept⟩ := exists_newValue
      (hwell a mem_cons_self) (hfit a mem_cons_self) hroom'
    obtain ⟨o, m', bs, hgives, hgetD, hall⟩ := ih _ hoctets (Nat.lt_of_succ_lt_succ hturns)
      (fun x hx => hwell x (mem_cons_of_mem _ hx))
      (fun x hx => hfit x (mem_cons_of_mem _ hx)) hroom₁
    refine ⟨o, m', b :: bs, ?_, ?_, .cons hkept hall⟩
    · rw [reencodeFrom_octets turns out hoctets, gives_bind]
      exact ⟨new, m₁, hnew, hgives⟩
    · rw [hgetD, getD_next, hchunk, flatMap_cons, append_assoc]

lemma fit_of_reencodeFrom {bs : List Attr} {out o : Option (List Octet)}
    (hoctets : octets = pre ++ attrs.flatMap Attr.octets) (hturns : attrs.length < turns)
    (hwell : ∀ a ∈ attrs, WellFormed srcCtx destCtx a)
    (h : Gives (reencodeFrom srcCtx destCtx octets turns pre.length out) m o m')
    (hgetD : o.getD octets = out.getD pre ++ bs.flatMap Attr.octets)
    (hall : List.Forall₂ (Kept srcCtx destCtx) attrs bs) : ∀ a ∈ attrs, Fit srcCtx destCtx a := by
  induction hall generalizing pre turns out m with
  | nil => exact fun a ha => absurd ha not_mem_nil
  | @cons a b attrs bs hkept hall ih =>
    obtain ⟨turns, rfl⟩ := Nat.exists_eq_succ_of_ne_zero (Nat.ne_of_gt (Nat.zero_lt_of_lt hturns))
    rw [flatMap_cons, ← append_assoc] at hoctets
    rw [reencodeFrom_octets turns out hoctets, gives_bind] at h
    obtain ⟨new, m₁, hnew, h⟩ := h
    obtain ⟨t, ht⟩ := exists_append_of_reencodeFrom hoctets (Nat.lt_of_succ_lt_succ hturns) h
    have htails : chunk a new ++ t = b.octets ++ bs.flatMap Attr.octets := by
      refine (append_right_inj (out.getD pre)).1 ?_
      rw [← append_assoc, ← getD_next, ← ht, hgetD, flatMap_cons]
    obtain ⟨hfit, rfl⟩ := fit_of_newValue (hwell a mem_cons_self) hnew hkept htails
    intro x hx
    rcases mem_cons.1 hx with rfl | hx
    · exact hfit
    · exact ih hoctets (Nat.lt_of_succ_lt_succ hturns)
        (fun y hy => hwell y (mem_cons_of_mem _ hy)) h ht x hx

lemma length_le_length_flatMap (attrs : List Attr) :
    attrs.length ≤ (attrs.flatMap Attr.octets).length := by
  induction attrs with
  | nil => exact Nat.le_refl 0
  | cons a attrs ih =>
    have hthree := three_le_length_octets a
    rw [flatMap_cons, length_append, length_cons]
    omega

lemma fit_of_kept {bs : List Attr} {out : List Octet}
    (hwell : ∀ a ∈ attrs, WellFormed srcCtx destCtx a)
    (h : Gives (fwdReencodeMPAttributes srcCtx destCtx (attrs.flatMap Attr.octets)) m out m')
    (hout : out = bs.flatMap Attr.octets) (hall : List.Forall₂ (Kept srcCtx destCtx) attrs bs) :
    ∀ a ∈ attrs, Fit srcCtx destCtx a := by
  unfold fwdReencodeMPAttributes at h
  rw [gives_bind] at h
  obtain ⟨o, m₁, ho, h⟩ := h
  obtain ⟨rfl, -⟩ := gives_pure.1 h
  have hgetD : o.getD (attrs.flatMap Attr.octets) =
      (none : Option (List Octet)).getD [] ++ bs.flatMap Attr.octets := hout
  exact fit_of_reencodeFrom (nil_append _).symm
    (Nat.lt_succ_of_le (length_le_length_flatMap attrs)) hwell ho hgetD hall

end

end

/-- The re-encoding of a section of well-formed attributes gives a section of attributes that are
kept, in their order, exactly when every one of them is fit, as long as identifiers are free. -/
theorem reencode_keeps_iff [DecidableEq Src] (srcCtx destCtx : Family → Bool)
    (m : FwdPathIDMemo Src) (attrs : List Attr) (hwell : ∀ a ∈ attrs, WellFormed srcCtx destCtx a)
    (hroom : Room m (attrs.flatMap Attr.octets).length) :
    (∃ out m' bs,
        Gives (fwdReencodeMPAttributes srcCtx destCtx (attrs.flatMap Attr.octets)) m out m' ∧
          out = bs.flatMap Attr.octets ∧ List.Forall₂ (Kept srcCtx destCtx) attrs bs) ↔
      ∀ a ∈ attrs, Fit srcCtx destCtx a := by
  constructor
  · rintro ⟨out, m', bs, hgives, hout, hall⟩
    exact fit_of_kept hwell hgives hout hall
  · intro hfit
    obtain ⟨o, m', bs, hgives, hgetD, hall⟩ := exists_reencodeFrom none (nil_append _).symm
      (Nat.lt_succ_of_le (length_le_length_flatMap attrs)) hwell hfit hroom
    refine ⟨_, m', bs, gives_bind.2 ⟨o, m', hgives, gives_pure.2 ⟨rfl, rfl⟩⟩, ?_, hall⟩
    rw [hgetD]
    rfl

def exampleMemo : FwdPathIDMemo Unit := ⟨(), none, FwdPathIDTable.new⟩

lemma room_exampleMemo {n : ℕ} (h : n ≤ 2 ^ 32) : Room exampleMemo n := by
  refine ⟨(range n).map (ofNat 32), ?_, ?_, fun _ _ => rfl⟩
  · refine nodup_range.map_on ?_
    intro x hx y hy hxy
    rw [mem_range] at hx hy
    have := congrArg toNat hxy
    rw [toNat_ofNat, toNat_ofNat] at this
    omega
  · rw [length_map, length_range]

/-- ORIGIN, and 2001:db8::/32 by a global next hop. -/
def exampleAttrs : List Attr :=
  [⟨0x40#8, 1#8, [0#8], by decide⟩, ⟨0x80#8, 14#8, [0#8, 2#8, 1#8, 16#8] ++ replicate 16 1#8 ++
      [0#8, 32#8, 0x20#8, 1#8, 0x0d#8, 0xb8#8], by decide⟩]

theorem reencode_keeps_example :
    (∃ out m' bs,
        Gives (fwdReencodeMPAttributes (fun _ => false) (fun _ => true)
          (exampleAttrs.flatMap Attr.octets)) exampleMemo out m' ∧
          out = bs.flatMap Attr.octets ∧
          List.Forall₂ (Kept (fun _ => false) (fun _ => true)) exampleAttrs bs) := by
  have hsecond : carried (fun _ => false) (fun _ => true) (exampleAttrs.getD 1 exampleAttrs[0]) =
      some (⟨⟨2, 1⟩, false, true, false⟩, [32#8, 0x20#8, 1#8, 0x0d#8, 0xb8#8]) := by decide
  refine (reencode_keeps_iff (fun _ => false) (fun _ => true) exampleMemo exampleAttrs ?_
    (room_exampleMemo (by decide))).2 ?_
  · intro a ha hcode
    rcases mem_cons.1 ha with rfl | ha
    · exact absurd hcode (by decide)
    · obtain rfl := mem_singleton.1 ha
      exact ⟨_, _, hsecond, splitCIDR, rfl, rfl⟩
  · intro a ha f data hcarried hrw
    rcases mem_cons.1 ha with rfl | ha
    · cases hcarried
    · obtain rfl := mem_singleton.1 ha
      obtain ⟨rfl, rfl⟩ := Prod.mk.inj (Option.some.inj (hsecond.symm.trans hcarried))
      refine ⟨fun _ => ?_, by decide, fun hs => absurd hs (by decide)⟩
      unfold CanonicalNextHop
      decide

/-- An MP_UNREACH_NLRI that withdraws `::/0` so many times. -/
def longUnreach (n : ℕ) (h : n < 65533) : Attr where
  flags := 0x90#8
  code := 15#8
  value := [0#8, 2#8, 1#8] ++ replicate n 0#8
  fits := by
    rw [length_append, length_replicate, if_pos (by decide)]
    exact Nat.add_lt_of_lt_sub' h

lemma exists_walk_of_units {len : ℕ} {entryEnd : ℕ → Except SplitError ℕ}
    (hunit : ∀ start < len, entryEnd start = .ok (start + 1)) {turns offset : ℕ}
    (hturns : len - offset < turns) (visited : List (ℕ × ℕ)) :
    ∃ rs, walk len entryEnd Visitor.goOn turns offset visited = ⟨visited ++ rs, none⟩ ∧
      rs.length = len - offset := by
  induction turns generalizing offset visited with
  | zero => omega
  | succ turns ih =>
    by_cases hend : len ≤ offset
    · refine ⟨[], ?_, ?_⟩
      · rw [walk_done hend, append_nil]
      · rw [length_nil]
        omega
    · have hless : len - (offset + 1) < turns := by omega
      obtain ⟨rs, hrs, hlen⟩ := ih hless (visited ++ [(offset, offset + 1)])
      refine ⟨(offset, offset + 1) :: rs, ?_, ?_⟩
      · rw [walk_goOn (Nat.lt_of_not_le hend) (hunit offset (Nat.lt_of_not_le hend)), hrs,
          append_assoc]
        rfl
      · rw [length_cons, hlen]
        omega

lemma exists_splitCIDR_replicate (n : ℕ) :
    ∃ rs, splitCIDR (replicate n 0#8) false Visitor.goOn = ⟨rs, none⟩ ∧ rs.length = n := by
  have hunit : ∀ start < (replicate n 0#8).length,
      bitLengthEntry (replicate n 0#8) (head false) maxPrefixBits start = .ok (start + 1) := by
    intro start hstart
    rw [length_replicate] at hstart
    have hstop : bitLengthEntryEnd (replicate n 0#8) start (head false) maxPrefixBits =
        start + 1 := by
      simp [bitLengthEntryEnd, head, hstart, maxPrefixBits]
    rw [bitLengthEntry, hstop, length_replicate, if_neg (by omega)]
  obtain ⟨rs, hrs, hlen⟩ := exists_walk_of_units hunit (Nat.lt_succ_self _) []
  refine ⟨rs, hrs, ?_⟩
  rw [hlen, length_replicate, Nat.sub_zero]

lemma carried_longUnreach {n : ℕ} (h : n < 65533) :
    carried (fun _ => false) (fun _ => true) (longUnreach n h) =
      some (⟨⟨2, 1⟩, false, true, true⟩, replicate n 0#8) := by
  have hparse : parseMPUnreachNLRI (longUnreach n h).value = .ok ⟨⟨2, 1⟩, replicate n 0#8⟩ := by
    have hfam : readFamily (longUnreach n h).value = ⟨2, 1⟩ := by
      simp only [readFamily, longUnreach, cons_append, getD_cons_zero, getD_cons_succ]
      decide
    rw [parseMPUnreachNLRI, if_neg (by simp [longUnreach]), hfam]
    rfl
  have hcode : (longUnreach n h).code = attrMPUnreachNLRI := rfl
  rw [carried, if_neg (by rw [hcode]; decide), if_pos hcode, hparse]
  rfl

lemma wellFormed_longUnreach {n : ℕ} (h : n < 65533) :
    WellFormed (fun _ => false) (fun _ => true) (longUnreach n h) := by
  obtain ⟨rs, hrs, -⟩ := exists_splitCIDR_replicate n
  intro _
  refine ⟨_, _, carried_longUnreach h, splitCIDR, rfl, ?_⟩
  rw [hrs]

lemma not_fit_longUnreach {n : ℕ} (h : n < 65533) (hlong : 65535 < 5 * n + 3) :
    ¬ Fit (fun _ => false) (fun _ => true) (longUnreach n h) := by
  intro hfit
  obtain ⟨rs, hrs, hcount⟩ := exists_splitCIDR_replicate n
  have hslices : (Framing.slices ⟨⟨2, 1⟩, false, true, true⟩ (replicate n 0#8)).length = n := by
    change ((splitCIDR (replicate n 0#8) false Visitor.goOn).visited.map _).length = _
    rw [hrs, length_map, hcount]
  have hne : replicate n 0#8 ≠ [] := by
    rw [Ne, replicate_eq_nil_iff]
    omega
  have hlen := (hfit _ _ (carried_longUnreach h) ⟨hne, .inr rfl⟩).2.1
  rw [hslices] at hlen
  simp only [longUnreach, length_append, length_replicate, length_cons,
    length_nil, Framing.resize, head, if_true, Bool.false_eq_true, if_false] at hlen
  omega

/-- With the Path Identifiers the withdrawn routes take more octets than the length counts. -/
theorem long_value_not_kept :
    WellFormed (fun _ => false) (fun _ => true) (longUnreach 14000 (by decide)) ∧
      Room exampleMemo (([longUnreach 14000 (by decide)].flatMap Attr.octets).length) ∧
      ¬ ∃ out m' bs,
        Gives (fwdReencodeMPAttributes (fun _ => false) (fun _ => true)
          ([longUnreach 14000 (by decide)].flatMap Attr.octets)) exampleMemo out m' ∧
          out = bs.flatMap Attr.octets ∧
          List.Forall₂ (Kept (fun _ => false) (fun _ => true)) [longUnreach 14000 (by decide)]
            bs := by
  have h : 14000 < 65533 := by decide
  refine ⟨wellFormed_longUnreach h, room_exampleMemo ?_, ?_⟩
  · have hfits := (longUnreach 14000 h).fits
    rw [flatMap_singleton, Attr.length_octets]
    unfold Attr.hdrLen
    split_ifs at hfits ⊢ <;> omega
  · rintro ⟨out, m', bs, hgives, hout, hall⟩
    exact not_fit_longUnreach h (by decide) (fit_of_kept
      (fun a ha => mem_singleton.1 ha ▸ wellFormed_longUnreach h) hgives hout hall _
      mem_cons_self)

end Ze.Forward
