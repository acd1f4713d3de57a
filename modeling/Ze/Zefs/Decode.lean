import Ze.Zefs.Store

/-!
# Decoding the entries of a container

A file is accepted exactly when it is a magic frame, a container of raw entries, and anything:
`decodeInto_octets` and `exists_of_decodeInto`. Both read the loop of `decodeEntries` by induction,
one raw entry a turn.
-/

namespace Ze.Zefs

open List

/-! ## Raw entries -/

/-- The octets of an entry, and what they hold. Source: store.go decodeInto. -/
structure RawEntry where
  nameRaw : List Octet
  key : Name
  nameCap : ℕ
  dataRaw : List Octet
  data : List Octet
  dataCap : ℕ
  nameFrame : IsFrame nameRaw key nameCap
  dataFrame : IsFrame dataRaw data dataCap

namespace RawEntry

/-- Source: store.go decodeInto. -/
def octets (e : RawEntry) : List Octet := e.nameRaw ++ e.dataRaw

/-- An entry joins what was decoded. Source: store.go decodeInto, the loop body. -/
def add (base off : ℕ) (e : RawEntry) (acc : Decoded) : Except StoreError Decoded :=
  addEntry base off ⟨e.key, e.nameCap, e.nameRaw.length⟩ ⟨e.data, e.dataCap, e.dataRaw.length⟩ acc

/-- The slot that decoding gives an entry at an offset of the container. Source: store.go
decodeInto. -/
def slotAt (base off : ℕ) (e : RawEntry) : SlotInfo where
  name := ⟨base + off, e.nameCap, e.key.length⟩
  data := ⟨base + (off + e.nameRaw.length), e.dataCap, e.data.length⟩

end RawEntry

/-- The entries of a container join what was decoded. Source: store.go decodeInto, the loop. -/
def addAll (base : ℕ) : ℕ → List RawEntry → Decoded → Except StoreError Decoded
  | _, [], acc => .ok acc
  | off, e :: es, acc => (e.add base off acc).bind (addAll base (off + e.octets.length) es)

/-- The octets behind the entries are none, or begin with one that ends them. Source: store.go
decodeInto. -/
def Stopped (tail : List Octet) : Prop := ∀ c ∈ tail.head?, stops c = true

/-! ## The first octet of a frame -/

variable {buf raw data tail : List Octet} {capacity fuel : ℕ}

lemma digit_of_decimal {n : ℕ} (h : netcapstringDecimal buf = .ok n) :
    ∃ c rest, buf = c :: rest ∧ 48#8 ≤ c ∧ c ≤ 57#8 := by
  rcases buf with _ | ⟨c, rest⟩
  · cases h
  · refine ⟨c, rest, rfl, ?_⟩
    rw [netcapstringDecimal, if_neg (by simp), foldlM_cons] at h
    rcases hd : decimalDigit 0 c with e | v <;> rw [hd] at h
    · cases h
    · obtain ⟨hlow, hd⟩ := ite_error_eq_ok.1 hd
      obtain ⟨hhigh, -⟩ := ite_error_eq_ok.1 hd
      exact ⟨BitVec.not_lt.1 hlow, BitVec.not_lt.1 hhigh⟩

lemma stops_of_digit {c : Octet} (hlow : 48#8 ≤ c) : stops c = false := by
  have hne : ∀ d : Octet, d < 48#8 → (c == d) = false := by
    intro d hd
    rw [beq_eq_false_iff_ne]
    rintro rfl
    exact absurd hlow (BitVec.not_le.2 hd)
  simp [stops, newline, space, hne]

lemma IsFrame.exists_cons (h : IsFrame raw data capacity) :
    ∃ c rest, raw = c :: rest ∧ stops c = false := by
  obtain ⟨hdr, pad, rfl, -, field, cd, ud, kd, width, rfl, -, -, hwidth, -⟩ := h
  obtain ⟨c, rest, rfl, hlow, -⟩ := digit_of_decimal hwidth
  exact ⟨c, _, rfl, stops_of_digit hlow⟩

/-! ## The loop reads raw entries -/

lemma decodeEntries_entry (base fuel off : ℕ) (e : RawEntry) (rest : List Octet) (acc : Decoded) :
    decodeEntries base (fuel + 1) off (e.octets ++ rest) acc =
      (e.add base off acc).bind (decodeEntries base fuel (off + e.octets.length) rest) := by
  obtain ⟨c, cs, hraw, hstop⟩ := e.nameFrame.exists_cons
  have hbuf : e.octets ++ rest = c :: (cs ++ (e.dataRaw ++ rest)) := by
    rw [RawEntry.octets, hraw]
    simp only [cons_append, append_assoc]
  have hname : decodeNetcapstringRef (c :: (cs ++ (e.dataRaw ++ rest))) =
      .ok ⟨e.key, e.nameCap, e.nameRaw.length⟩ := by
    have := e.nameFrame.decodeNetcapstringRef (e.dataRaw ++ rest)
    rwa [← append_assoc, ← RawEntry.octets, hbuf] at this
  have hdrop : (c :: (cs ++ (e.dataRaw ++ rest))).drop e.nameRaw.length = e.dataRaw ++ rest := by
    rw [← hbuf, RawEntry.octets, append_assoc, drop_left]
  have hdrop' : (c :: (cs ++ (e.dataRaw ++ rest))).drop (e.nameRaw.length + e.dataRaw.length) =
      rest := by
    rw [← drop_drop, hdrop, drop_left]
  rw [hbuf, decodeEntries, hstop, hname]
  simp only [Bool.false_eq_true, if_false]
  rw [hdrop, e.dataFrame.decodeNetcapstringRef rest]
  simp only
  rw [hdrop', RawEntry.add, RawEntry.octets, length_append, Nat.add_assoc]
  rcases addEntry base off ⟨e.key, e.nameCap, e.nameRaw.length⟩ ⟨e.data, e.dataCap,
    e.dataRaw.length⟩ acc with
    err | acc' <;> rfl

/-- The loop reads raw entries up to an octet that ends them. -/
lemma decodeEntries_octets (base : ℕ) (htail : Stopped tail)
    (es : List RawEntry) (hfuel : es.length ≤ fuel) (off : ℕ) (acc : Decoded) :
    decodeEntries base fuel off (es.flatMap RawEntry.octets ++ tail) acc =
      addAll base off es acc := by
  induction es generalizing fuel off acc with
  | nil =>
    rw [flatMap_nil, nil_append, addAll]
    rcases fuel with _ | fuel
    · rfl
    · rcases tail with _ | ⟨c, tail⟩
      · rfl
      · rw [decodeEntries, htail c rfl, if_pos rfl]
  | cons e es ih =>
    rcases fuel with _ | fuel
    · exact absurd hfuel (by simp)
    · rw [flatMap_cons, append_assoc, decodeEntries_entry, addAll]
      congr 1
      funext acc'
      exact ih (by simpa using hfuel) _ acc'

/-- The loop accepts nothing but raw entries up to an octet that ends them. -/
lemma exists_of_decodeEntries (base : ℕ) {off : ℕ} {acc acc' : Decoded}
    (hfuel : buf.length ≤ fuel) (h : decodeEntries base fuel off buf acc = .ok acc') :
    ∃ es tail, buf = flatMap RawEntry.octets es ++ tail ∧ Stopped tail ∧
      addAll base off es acc = .ok acc' := by
  induction fuel generalizing off buf acc with
  | zero =>
    obtain rfl := eq_nil_of_length_eq_zero (Nat.le_zero.1 hfuel)
    exact ⟨[], [], rfl, fun c hc => (by cases hc), h⟩
  | succ fuel ih =>
    rcases buf with _ | ⟨c, rest⟩
    · exact ⟨[], [], rfl, fun c hc => (by cases hc), h⟩
    rcases hstop : stops c with _ | _
    · have hrun := h
      rw [decodeEntries, hstop] at hrun
      rcases hname : decodeNetcapstringRef (c :: rest) with e | name <;> rw [hname] at hrun
      · cases hrun
      simp only at hrun
      rcases hdata : decodeNetcapstringRef ((c :: rest).drop name.next) with e | data <;>
        rw [hdata] at hrun
      · cases hrun
      obtain ⟨nameRaw, post, hbuf, hnext, hnameFrame⟩ := decodeNetcapstringRef_eq_ok.1 hname
      rw [hbuf, hnext, drop_left] at hdata
      obtain ⟨dataRaw, post', rfl, -, hdataFrame⟩ := decodeNetcapstringRef_eq_ok.1 hdata
      let e : RawEntry :=
        ⟨nameRaw, name.data, name.capacity, dataRaw, data.data, data.capacity, hnameFrame,
        hdataFrame⟩
      have hocts : c :: rest = e.octets ++ post' := by
        rw [hbuf]
        exact (append_assoc _ _ _).symm
      rw [hocts, decodeEntries_entry] at h
      rcases hadd : e.add base off acc with err | acc₁ <;> rw [hadd] at h
      · cases h
      have hshort : post'.length ≤ fuel := by
        obtain ⟨_, _, hraw, -⟩ := hnameFrame.exists_cons
        have hlen := congrArg length hocts
        have hpos : 0 < e.octets.length := by
          rw [RawEntry.octets, length_append, show e.nameRaw = _ from hraw]
          simp
        rw [length_append] at hlen
        omega
      obtain ⟨es, tail, rfl, htail, hall⟩ := ih hshort h
      refine ⟨e :: es, tail, ?_, htail, ?_⟩
      · rw [hocts, flatMap_cons, append_assoc]
      · rw [addAll, hadd]
        exact hall
    · rw [decodeEntries, hstop, if_pos rfl] at h
      refine ⟨[], c :: rest, rfl, fun x hx => ?_, h⟩
      cases hx
      exact hstop

/-! ## What raw entries give -/

/-- The last entry of a name, with its offset. Source: store.go decodeInto. -/
def lastOf (n : Name) : ℕ → List RawEntry → Option (ℕ × RawEntry)
  | _, [] => none
  | off, e :: es =>
    (lastOf n (off + e.octets.length) es).or (if e.key = n then some (off, e) else none)

lemma RawEntry.add_eq_ok {base off : ℕ} {e : RawEntry} {acc acc' : Decoded} :
    e.add base off acc = .ok acc' ↔ (validPath e.key ∧ e.key ≠ dot) ∧
      ∃ root, Dir.set e.data acc.root (split e.key).1 (split e.key).2 = .ok root ∧
        acc.keys.length + 1 ≤ maxEntryCount ∧
        acc' = ⟨root, acc.keys ++ [e.key], acc.slots.put e.key (e.slotAt base off)⟩ := by
  rw [RawEntry.add, addEntry, ite_error_eq_ok, not_or, Bool.not_eq_false]
  refine and_congr_right fun _ => ?_
  rcases hset : Dir.set e.data acc.root (split e.key).1 (split e.key).2 with err | root
  · simp
  · simp only [Except.ok.injEq, exists_eq_left']
    rw [ite_error_eq_ok, Nat.not_lt, Except.ok.injEq]
    exact and_congr_right fun _ => eq_comm

lemma bind_eq_ok {ε α β : Type*} {x : Except ε α} {f : α → Except ε β} {b : β} :
    x.bind f = .ok b ↔ ∃ a, x = .ok a ∧ f a = .ok b := by
  rcases x with e | a
  · exact ⟨fun h => (by cases h), fun ⟨a, h, _⟩ => (by cases h)⟩
  · exact ⟨fun h => ⟨a, rfl, h⟩, fun ⟨a', h, h'⟩ => (by cases h; exact h')⟩

section

variable {base off : ℕ} {es : List RawEntry} {acc acc' : Decoded}

lemma keys_of_addAll (h : addAll base off es acc = .ok acc') :
    acc'.keys = acc.keys ++ es.map RawEntry.key := by
  induction es generalizing off acc with
  | nil =>
    cases h
    rw [map_nil, append_nil]
  | cons e es ih =>
    obtain ⟨acc₁, hadd, hrest⟩ := bind_eq_ok.1 h
    obtain ⟨-, root, -, -, rfl⟩ := RawEntry.add_eq_ok.1 hadd
    rw [ih hrest, map_cons, append_assoc, singleton_append]

lemma length_keys_of_addAll (hacc : acc.keys.length ≤ maxEntryCount)
    (h : addAll base off es acc = .ok acc') : acc'.keys.length ≤ maxEntryCount := by
  induction es generalizing off acc with
  | nil =>
    cases h
    exact hacc
  | cons e es ih =>
    obtain ⟨acc₁, hadd, hrest⟩ := bind_eq_ok.1 h
    obtain ⟨-, root, -, hroom, rfl⟩ := RawEntry.add_eq_ok.1 hadd
    refine ih ?_ hrest
    rwa [length_append, length_singleton]

lemma valid_of_addAll (h : addAll base off es acc = .ok acc') :
    ∀ e ∈ es, validPath e.key ∧ e.key ≠ dot := by
  induction es generalizing off acc with
  | nil =>
    intro e he
    cases he
  | cons e es ih =>
    obtain ⟨acc₁, hadd, hrest⟩ := bind_eq_ok.1 h
    obtain ⟨hvalid, -⟩ := RawEntry.add_eq_ok.1 hadd
    intro x hx
    rcases mem_cons.1 hx with rfl | hx
    · exact hvalid
    · exact ih hrest x hx

lemma get_of_addAll (h : addAll base off es acc = .ok acc') (n : Name) :
    acc'.root.get n = ((lastOf n off es).map fun p => p.2.data).or (acc.root.get n) := by
  induction es generalizing off acc with
  | nil =>
    cases h
    rfl
  | cons e es ih =>
    obtain ⟨acc₁, hadd, hrest⟩ := bind_eq_ok.1 h
    obtain ⟨-, root, hset, -, rfl⟩ := RawEntry.add_eq_ok.1 hadd
    rw [ih hrest, lastOf]
    simp only [Dir.get_of_set hset]
    rcases lastOf n (off + e.octets.length) es with _ | p
    · by_cases hn : n = e.key
      · rw [if_pos hn, if_pos hn.symm]
        rfl
      · rw [if_neg hn, if_neg (Ne.symm hn)]
        rfl
    · rfl

lemma slots_of_addAll (h : addAll base off es acc = .ok acc') (n : Name) :
    acc'.slots n = ((lastOf n off es).map fun p => p.2.slotAt base p.1).getD (acc.slots n) := by
  induction es generalizing off acc with
  | nil =>
    cases h
    rfl
  | cons e es ih =>
    obtain ⟨acc₁, hadd, hrest⟩ := bind_eq_ok.1 h
    obtain ⟨-, root, hset, -, rfl⟩ := RawEntry.add_eq_ok.1 hadd
    rw [ih hrest, lastOf]
    rcases lastOf n (off + e.octets.length) es with _ | p
    · by_cases hn : e.key = n
      · rw [if_pos hn]
        simp [Slots.put, hn]
      · rw [if_neg hn]
        simp [Slots.put, Ne.symm hn]
    · rfl

variable {n : Name}

lemma lastOf_isSome (off : ℕ) {es : List RawEntry} :
    (lastOf n off es).isSome ↔ n ∈ es.map RawEntry.key := by
  induction es generalizing off with
  | nil => simp [lastOf]
  | cons e es ih =>
    rw [lastOf, Option.isSome_or, Bool.or_eq_true, ih, map_cons, mem_cons]
    by_cases hn : e.key = n
    · simp [hn]
    · simp [hn, Ne.symm hn]

lemma addAll_of_refines {t : Dir} (hacc : Dir.Refines acc.root t)
    (hfiles : ∀ e ∈ es, (t.get e.key).isSome)
    (hvalid : ∀ e ∈ es, validPath e.key ∧ e.key ≠ dot)
    (hroom : acc.keys.length + es.length ≤ maxEntryCount) :
    ∃ acc', addAll base off es acc = .ok acc' := by
  induction es generalizing off acc with
  | nil => exact ⟨acc, rfl⟩
  | cons e es ih =>
    have hfile : ∃ d, t.walk (split e.key).1 (split e.key).2 = some (.file d) := by
      have hsome := hfiles e mem_cons_self
      rw [Dir.get] at hsome
      rcases hw : t.walk (split e.key).1 (split e.key).2 with _ | d | c <;> rw [hw] at hsome
      · cases hsome
      · exact ⟨d, rfl⟩
      · cases hsome
    obtain ⟨d, hd⟩ := hfile
    obtain ⟨root, hset, hrefines⟩ := Dir.set_of_refines e.data hacc hd
    rw [length_cons] at hroom
    have hnext : (acc.keys ++ [e.key]).length + es.length ≤ maxEntryCount := by
      rw [length_append, length_singleton]
      omega
    obtain ⟨acc', hall⟩ := @ih (off + e.octets.length)
      ⟨root, acc.keys ++ [e.key], acc.slots.put e.key (e.slotAt base off)⟩ hrefines
      (fun x hx => hfiles x (mem_cons_of_mem _ hx))
      (fun x hx => hvalid x (mem_cons_of_mem _ hx)) hnext
    refine ⟨acc', bind_eq_ok.2 ⟨_, ?_, hall⟩⟩
    exact RawEntry.add_eq_ok.2 ⟨hvalid e mem_cons_self, root, hset, by omega, rfl⟩

lemma mem_of_lastOf {off : ℕ} {es : List RawEntry} {p : ℕ × RawEntry}
    (h : lastOf n off es = some p) : p.2 ∈ es ∧ p.2.key = n := by
  induction es generalizing off with
  | nil => cases h
  | cons e es ih =>
    rw [lastOf] at h
    rcases hrest : lastOf n (off + e.octets.length) es with _ | q <;> rw [hrest] at h
    · rw [Option.none_or] at h
      split_ifs at h with hn
      cases h
      exact ⟨mem_cons_self, hn⟩
    · cases h
      obtain ⟨hmem, hkey⟩ := ih hrest
      exact ⟨mem_cons_of_mem _ hmem, hkey⟩

end

/-! ## Files -/

/-- A file of a magic frame, a container of raw entries, and anything is decoded into the entries.
-/
lemma decodeInto_octets {magicRaw containerRaw : List Octet} {magicCap cap : ℕ}
    {es : List RawEntry} (hmagic : IsFrame magicRaw magic magicCap)
    (hcontainer : IsFrame containerRaw (es.flatMap RawEntry.octets ++ tail) cap)
    (htail : Stopped tail) (post : List Octet) :
    decodeInto (magicRaw ++ (containerRaw ++ post)) =
      addAll (magicRaw.length + netcapstringHeaderLen cap) 0 es {} := by
  have hfuel : es.length ≤ (es.flatMap RawEntry.octets ++ tail).length := by
    have hone : ∀ l : List RawEntry, l.length ≤ (l.flatMap RawEntry.octets).length := by
      intro l
      induction l with
      | nil => exact Nat.zero_le _
      | cons e l ih =>
        obtain ⟨c, rest, hraw, -⟩ := e.nameFrame.exists_cons
        rw [flatMap_cons, length_append, RawEntry.octets, length_append, hraw,
          length_cons, length_cons]
        omega
    rw [length_append]
    exact Nat.le_trans (hone es) (Nat.le_add_right _ _)
  rw [decodeInto, hmagic.decodeNetcapstringRef]
  simp only
  rw [if_neg (not_not.2 rfl), drop_left, hcontainer.decodeNetcapstringRef]
  exact decodeEntries_octets _ htail es hfuel 0 {}

/-- A file that is accepted has that form. -/
lemma exists_of_decodeInto {file : List Octet} {d : Decoded} (h : decodeInto file = .ok d) :
    ∃ magicRaw magicCap containerRaw cap post es tail,
      file = magicRaw ++ (containerRaw ++ post) ∧ IsFrame magicRaw magic magicCap ∧
      IsFrame containerRaw (flatMap RawEntry.octets es ++ tail) cap ∧ Stopped tail ∧
      addAll (magicRaw.length + netcapstringHeaderLen cap) 0 es {} = .ok d := by
  rw [decodeInto] at h
  rcases hm : decodeNetcapstringRef file with e | m <;> rw [hm] at h
  · cases h
  obtain ⟨hmagic, hloop⟩ := ite_error_eq_ok.1 h
  rw [not_not] at hmagic
  rcases hc : decodeNetcapstringRef (file.drop m.next) with e | container <;> rw [hc] at hloop
  · cases hloop
  obtain ⟨magicRaw, rest, rfl, hnext, hmframe⟩ := decodeNetcapstringRef_eq_ok.1 hm
  rw [hnext, drop_left] at hc
  obtain ⟨containerRaw, post, rfl, -, hcframe⟩ := decodeNetcapstringRef_eq_ok.1 hc
  obtain ⟨es, tail, hdata, htail, hall⟩ := exists_of_decodeEntries _ (Nat.le_refl _) hloop
  rw [hmagic] at hmframe
  rw [hdata] at hcframe
  rw [hnext] at hall
  exact ⟨magicRaw, _, containerRaw, _, post, es, tail, rfl, hmframe, hcframe, htail, hall⟩

lemma IsFrame.length_le (h : IsFrame raw data capacity) : data.length ≤ capacity := by
  obtain ⟨hdr, pad, -, hcap, -⟩ := h
  omega

end Ze.Zefs
