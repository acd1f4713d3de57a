import Ze.Zefs.Netcapstring
import Ze.Lib.Holders

/-!
# The tree of a blob store

The names of a store and the tree that holds its files (`pkg/zefs/tree.go`).
-/

namespace Ze.Zefs

open Ze.Lib List
open Prod (ext mk)

/-! ## Names -/

/-- The name of a file, as octets. Source: string. -/
abbrev Name := List Octet

/-- A segment of a name. Source: the parts of strings.Split. -/
abbrev Segment := List Octet

/-- Source: "/". -/
def slash : Octet := 47#8

/-- Source: ".". -/
def dot : Name := [46#8]

/-- The segments of a name: the first, and the others. Source: strings.Split(key, "/"). -/
def split : Name → Segment × List Segment
  | [] => ([], [])
  | c :: cs =>
    let parts := split cs
    if c = slash then ([], parts.1 :: parts.2) else (c :: parts.1, parts.2)

lemma split_injective {a b : Name} (h : split a = split b) : a = b := by
  induction a generalizing b with
  | nil =>
    rcases b with _ | ⟨c, cs⟩
    · rfl
    · rw [split, split] at h
      split_ifs at h <;> simp at h
  | cons x xs ih =>
    rcases b with _ | ⟨c, cs⟩
    · rw [split, split] at h
      split_ifs at h <;> simp at h
    · rw [split, split] at h
      split_ifs at h with hx hc hc
      · simp only [mk.injEq, cons.injEq, true_and] at h
        rw [hx, hc, ih (ext h.1 h.2)]
      · simp at h
      · simp at h
      · simp only [mk.injEq, cons.injEq] at h
        rw [h.1.1, ih (ext h.1.2 h.2)]

lemma split_append_slash (a b : Name) :
    split (a ++ slash :: b) = ((split a).1, (split a).2 ++ (split b).1 :: (split b).2) := by
  induction a with
  | nil =>
    rw [nil_append, split.eq_2, if_pos rfl]
    rfl
  | cons c cs ih =>
    rw [cons_append, split, split, ih]
    split_ifs <;> rfl

variable {x : Name} {qs : List Segment}

lemma exists_of_split_nil {q : Segment}
    (h : split x = ([], q :: qs)) : ∃ rest, x = slash :: rest ∧ split rest = (q, qs) := by
  rcases x with _ | ⟨c, cs⟩
  · cases h
  · rw [split] at h
    split_ifs at h with hc
    · simp only [mk.injEq, cons.injEq, true_and] at h
      exact ⟨cs, by rw [hc], ext h.1 h.2⟩
    · cases h

lemma exists_of_split_append {a : Name} {q : Segment}
    (h : split x = ((split a).1, (split a).2 ++ q :: qs)) : ∃ rest, x = a ++ slash :: rest := by
  induction a generalizing x with
  | nil =>
    obtain ⟨rest, hx, -⟩ := exists_of_split_nil h
    exact ⟨rest, hx⟩
  | cons c cs ih =>
    rw [split] at h
    split_ifs at h with hc
    · obtain ⟨rest, rfl, hrest⟩ := exists_of_split_nil h
      obtain ⟨rest', rfl⟩ := ih hrest
      exact ⟨rest', by rw [hc, cons_append]⟩
    · rcases x with _ | ⟨d, ds⟩
      · cases h
      · rw [split] at h
        split_ifs at h with hd
        · cases h
        · simp only [mk.injEq, cons.injEq] at h
          obtain ⟨rest, rfl⟩ := ih (ext h.1.2 h.2)
          exact ⟨rest, by rw [h.1.1, cons_append]⟩

/-- A name below another: it goes on behind a slash. Source: collect. -/
def Below (name x : Name) : Prop := name ++ [slash] <+: x

/-- A name that is another or stands below it. Source: removeRecursive. -/
def Within (name x : Name) : Prop := x = name ∨ Below name x

instance (name x : Name) : Decidable (Below name x) := inferInstanceAs (Decidable (_ <+: _))

instance (name x : Name) : Decidable (Within name x) := inferInstanceAs (Decidable (_ ∨ _))

lemma Below.ne {name : Name} (h : Below name x) : x ≠ name := by
  rintro rfl
  have hlen := h.length_le
  rw [length_append, length_singleton] at hlen
  omega

lemma within_iff (name x : Name) :
    Within name x ↔ (split x).1 = (split name).1 ∧ (split name).2 <+: (split x).2 := by
  constructor
  · rintro (rfl | ⟨rest, rfl⟩)
    · exact ⟨rfl, prefix_rfl⟩
    · rw [append_assoc, singleton_append, split_append_slash]
      exact ⟨rfl, prefix_append _ _⟩
  · rintro ⟨hfirst, rest, hrest⟩
    rcases rest with _ | ⟨q, qs⟩
    · rw [append_nil] at hrest
      exact .inl (split_injective (ext hfirst hrest.symm))
    · obtain ⟨rest, rfl⟩ := exists_of_split_append (ext hfirst hrest.symm)
      exact .inr ⟨rest, by rw [append_assoc, singleton_append]⟩

lemma exists_above {name : Name} {rs : List Segment} {r : Segment}
    (h : (split name).2 = qs ++ r :: rs) :
    ∃ x, split x = ((split name).1, qs) ∧ Below x name := by
  induction name generalizing qs with
  | nil => simp [split] at h
  | cons c cs ih =>
    rw [split] at h ⊢
    split_ifs at h ⊢ with hc
    · rcases qs with _ | ⟨q, qs⟩
      · refine ⟨[], rfl, ?_⟩
        rw [hc, Below, nil_append, cons_prefix_cons]
        exact ⟨rfl, nil_prefix⟩
      · obtain ⟨rfl, hrest⟩ := cons.inj h
        obtain ⟨x, hx, hbelow⟩ := ih hrest
        refine ⟨slash :: x, ?_, ?_⟩
        · rw [split, if_pos rfl, hx]
        · rw [hc, Below, cons_append, cons_prefix_cons]
          exact ⟨rfl, hbelow⟩
    · obtain ⟨x, hx, hbelow⟩ := ih h
      refine ⟨c :: x, ?_, ?_⟩
      · rw [split, if_neg hc, hx]
      · rw [Below, cons_append, cons_prefix_cons]
        exact ⟨rfl, hbelow⟩

/-- An octet that continues a character. Source: unicode/utf8. -/
def continues (low high c : Octet) : Bool := low ≤ c && c ≤ high

/-- Whether octets are UTF-8. Source: utf8.ValidString. -/
def validUTF8 : List Octet → Bool
  | [] => true
  | c :: cs =>
    if c < 0x80#8 then validUTF8 cs
    else
      match cs with
      | [] => false
      | d :: cs =>
        if 0xc2#8 ≤ c && c ≤ 0xdf#8 then continues 0x80#8 0xbf#8 d && validUTF8 cs
        else
          match cs with
          | [] => false
          | e :: cs =>
            if 0xe0#8 ≤ c && c ≤ 0xef#8 then
              continues (if c = 0xe0#8 then 0xa0#8 else 0x80#8)
                (if c = 0xed#8 then 0x9f#8 else 0xbf#8) d &&
                continues 0x80#8 0xbf#8 e && validUTF8 cs
            else
              match cs with
              | [] => false
              | f :: cs =>
                0xf0#8 ≤ c && c ≤ 0xf4#8 &&
                  continues (if c = 0xf0#8 then 0x90#8 else 0x80#8)
                    (if c = 0xf4#8 then 0x8f#8 else 0xbf#8) d &&
                  continues 0x80#8 0xbf#8 e && continues 0x80#8 0xbf#8 f && validUTF8 cs

/-- A segment that a path may have. Source: fs.ValidPath. -/
def validSegment (s : Segment) : Bool := s != [] && s != dot && s != [46#8, 46#8]

def validPath (name : Name) : Bool :=
  validUTF8 name &&
    (name == dot || (validSegment (split name).1 && (split name).2.all validSegment))

/-! ## Nodes -/

inductive Node
  | file (data : List Octet)
  | dir (children : List (Segment × Node))

/-- The children of a directory. Source: node.children. -/
abbrev Dir := List (Segment × Node)

/-- Why a file is not set. Source: set. -/
inductive SetError
  | segmentIsFile (segment : Segment)
  | isDirectory
  deriving DecidableEq, Repr

namespace Dir

/-- Source: delete(n.children, p). -/
def erase (cs : Dir) (p : Segment) : Dir := cs.filter fun child => child.1 ≠ p

/-- Source: n.children[p] = child. -/
def put (cs : Dir) (p : Segment) (child : Node) : Dir := (p, child) :: erase cs p

def walk : Dir → Segment → List Segment → Option Node
  | cs, p, [] => cs.lookup p
  | cs, p, q :: ps =>
    match cs.lookup p with
    | some (.dir children) => walk children q ps
    | _ => none

def set (data : List Octet) : Dir → Segment → List Segment → Except SetError Dir
  | cs, leaf, [] =>
    match cs.lookup leaf with
    | some (.dir _) => .error .isDirectory
    | _ => .ok (put cs leaf (.file data))
  | cs, p, q :: ps =>
    match cs.lookup p with
    | none => (set data [] q ps).map fun child => put cs p (.dir child)
    | some (.file _) => .error (.segmentIsFile p)
    | some (.dir children) => (set data children q ps).map fun child => put cs p (.dir child)

/-- A name removed below a directory, with the directories that this empties; `none` if it does not
exist. -/
def removeRecursive : Dir → Segment → List Segment → Option Dir
  | cs, p, [] => if (cs.lookup p).isSome then some (erase cs p) else none
  | cs, p, q :: ps =>
    match cs.lookup p with
    | some (.dir children) =>
      (removeRecursive children q ps).map fun child =>
        if child.isEmpty then erase cs p else put cs p (.dir child)
    | _ => none

/-- The data of a node that is a file. Source: get. -/
def fileData : Option Node → Option (List Octet)
  | some (.file data) => some data
  | _ => none

def get (cs : Dir) (name : Name) : Option (List Octet) :=
  fileData (walk cs (split name).1 (split name).2)

def has (cs : Dir) (name : Name) : Bool := (get cs name).isSome

/-! ## Reading a tree after a change -/

lemma map_eq_ok {ε α β : Type*} {x : Except ε α} {f : α → β} {b : β} (h : x.map f = .ok b) :
    ∃ a, x = .ok a ∧ b = f a := by
  rcases x with e | a
  · cases h
  · exact ⟨a, rfl, (Except.ok.inj h).symm⟩

lemma lookup_erase (cs : Dir) (p x : Segment) :
    (erase cs p).lookup x = if x = p then none else cs.lookup x :=
  Table.lookup_drop cs p x

lemma lookup_put (cs : Dir) (p x : Segment) (child : Node) :
    (put cs p child).lookup x = if x = p then some child else cs.lookup x :=
  Table.lookup_put cs p x child

variable {cs cs' r t : Dir} {p : Segment} {ps : List Segment} {data d : List Octet} {name : Name}

lemma walk_dir {children : Dir} (h : cs.lookup p = some (.dir children)) (q : Segment)
    (ps : List Segment) : walk cs p (q :: ps) = walk children q ps := by
  rw [walk, h]

lemma lookup_of_walk {q : Segment} {n : Node} (h : walk cs p (q :: ps) = some n) :
    ∃ children, cs.lookup p = some (.dir children) ∧ walk children q ps = some n := by
  rw [walk] at h
  rcases hp : cs.lookup p with _ | _ | children <;> rw [hp] at h
  · cases h
  · cases h
  · exact ⟨children, rfl, h⟩

lemma walk_put_of_ne {x : Segment} (hx : x ≠ p) (child : Node) (xs : List Segment) :
    walk (put cs p child) x xs = walk cs x xs := by
  rcases xs with _ | ⟨y, ys⟩
  · rw [walk, walk, lookup_put, if_neg hx]
  · rw [walk, walk, lookup_put, if_neg hx]

lemma fileData_walk_of_set
    (h : set data cs p ps = .ok cs') (x : Segment) (xs : List Segment) :
    fileData (walk cs' x xs) = if x = p ∧ xs = ps then some data else fileData (walk cs x xs) := by
  induction ps generalizing cs cs' p x xs with
  | nil =>
    have hleaf : cs' = put cs p (.file data) ∧ ∀ c, cs.lookup p ≠ some (.dir c) := by
      rw [set] at h
      rcases hp : cs.lookup p with _ | _ | c <;> rw [hp] at h
      · exact ⟨(Except.ok.inj h).symm, fun c => by simp⟩
      · exact ⟨(Except.ok.inj h).symm, fun c => by simp⟩
      · cases h
    obtain ⟨rfl, hdir⟩ := hleaf
    by_cases hx : x = p
    · subst hx
      rcases xs with _ | ⟨y, ys⟩
      · rw [walk, lookup_put, if_pos rfl, if_pos ⟨rfl, rfl⟩]
        rfl
      · rw [if_neg (by simp), walk, lookup_put, if_pos rfl, walk]
        rcases hp : cs.lookup x with _ | _ | c
        · rfl
        · rfl
        · exact absurd hp (hdir c)
    · rw [walk_put_of_ne hx, if_neg (fun hc => hx hc.1)]
  | cons q ps ih =>
    have hchild : ∃ children child, set data children q ps = .ok child ∧
        cs' = put cs p (.dir child) ∧
        fileData (walk cs p []) = none ∧
        ∀ y ys, fileData (walk cs p (y :: ys)) = fileData (walk children y ys) := by
      rw [set] at h
      rcases hp : cs.lookup p with _ | _ | c <;> rw [hp] at h
      · obtain ⟨child, hchild, rfl⟩ := map_eq_ok h
        refine ⟨[], child, hchild, rfl, by rw [walk, hp]; rfl, fun y ys => ?_⟩
        rw [walk, hp]
        rcases ys with _ | ⟨z, zs⟩ <;> rfl
      · cases h
      · obtain ⟨child, hchild, rfl⟩ := map_eq_ok h
        exact ⟨c, child, hchild, rfl, by rw [walk, hp]; rfl, fun y ys => by rw [walk_dir hp]⟩
    obtain ⟨children, child, hset, rfl, hnone, hread⟩ := hchild
    by_cases hx : x = p
    · subst hx
      rcases xs with _ | ⟨y, ys⟩
      · rw [if_neg (by simp), hnone, walk, lookup_put, if_pos rfl]
        rfl
      · rw [walk_dir (by rw [lookup_put, if_pos rfl]), ih hset, hread]
        simp only [cons.injEq, true_and]
    · rw [walk_put_of_ne hx, if_neg (fun hc => hx hc.1)]

lemma get_of_set
    (h : set data cs (split name).1 (split name).2 = .ok cs') (x : Name) :
    get cs' x = if x = name then some data else get cs x := by
  rw [get, fileData_walk_of_set h]
  by_cases hx : x = name
  · rw [if_pos hx, if_pos ⟨by rw [hx], by rw [hx]⟩]
  · rw [if_neg hx, if_neg fun hc => hx (split_injective (ext hc.1 hc.2))]
    rfl

lemma walk_erase_of_ne {x : Segment} (hx : x ≠ p) (xs : List Segment) :
    walk (erase cs p) x xs = walk cs x xs := by
  rcases xs with _ | ⟨y, ys⟩ <;> rw [walk, walk, lookup_erase, if_neg hx]

lemma walk_erase_self (cs : Dir) (p : Segment) (xs : List Segment) :
    walk (erase cs p) p xs = none := by
  rcases xs with _ | ⟨y, ys⟩ <;> rw [walk, lookup_erase, if_pos rfl]

lemma set_eq_error_iff :
    (∃ e, set data cs p ps = .error e) ↔ (∃ c, walk cs p ps = some (.dir c)) ∨
      ∃ qs r rs d, ps = qs ++ r :: rs ∧ walk cs p qs = some (.file d) := by
  induction ps generalizing cs p with
  | nil =>
    rw [set, walk]
    rcases cs.lookup p with _ | d | c <;> simp
  | cons q ps ih =>
    rw [set, walk]
    rcases hp : cs.lookup p with _ | d | c
    · -- below a new directory nothing is in the way
      have hfree : ¬ ∃ e, set data [] q ps = .error e := by
        rw [ih]
        have hnone : ∀ rs, walk [] q rs = none := by
          intro rs
          rcases rs with _ | ⟨r, rs⟩ <;> rfl
        simp [hnone]
      rcases hset : set data [] q ps with e | child
      · exact absurd ⟨e, hset⟩ hfree
      · refine iff_of_false ?_ ?_
        · rintro ⟨e, he⟩
          cases he
        · rintro (⟨c, hc⟩ | ⟨_ | ⟨r, qs⟩, s, rs, d, hqs, hwalk⟩)
          · cases hc
          · rw [walk, hp] at hwalk
            cases hwalk
          · obtain ⟨rfl, -⟩ := cons.inj hqs
            rw [walk, hp] at hwalk
            cases hwalk
    · refine iff_of_true ⟨_, rfl⟩ (.inr ⟨[], q, ps, d, rfl, ?_⟩)
      rw [walk, hp]
    · have hmap : (∃ e, (set data c q ps).map (fun child => put cs p (.dir child)) = .error e) ↔
          ∃ e, set data c q ps = .error e := by
        rcases set data c q ps with e | child
        · exact iff_of_true ⟨e, rfl⟩ ⟨e, rfl⟩
        · refine iff_of_false ?_ ?_ <;> (rintro ⟨e, he⟩; cases he)
      simp only [hmap, ih]
      apply or_congr Iff.rfl
      constructor
      · rintro ⟨qs, r, rs, d, rfl, hwalk⟩
        exact ⟨q :: qs, r, rs, d, rfl, by rw [walk_dir hp, hwalk]⟩
      · rintro ⟨_ | ⟨r, qs⟩, s, rs, d, hqs, hwalk⟩
        · rw [walk, hp] at hwalk
          cases hwalk
        · obtain ⟨rfl, hrest⟩ := cons.inj hqs
          rw [walk_dir hp] at hwalk
          exact ⟨qs, s, rs, d, hrest, hwalk⟩

lemma fileData_walk_of_remove
    (h : removeRecursive cs p ps = some cs') (x : Segment) (xs : List Segment) :
    fileData (walk cs' x xs) =
      if x = p ∧ ps <+: xs then none else fileData (walk cs x xs) := by
  induction ps generalizing cs cs' p x xs with
  | nil =>
    rw [removeRecursive] at h
    split_ifs at h
    cases h
    by_cases hx : x = p
    · rw [if_pos ⟨hx, nil_prefix⟩, hx, walk_erase_self]
      rfl
    · rw [if_neg fun hc => hx hc.1, walk_erase_of_ne hx]
  | cons q ps ih =>
    rw [removeRecursive] at h
    rcases hp : cs.lookup p with _ | _ | children <;> rw [hp] at h
    · cases h
    · cases h
    obtain ⟨child, hchild, rfl⟩ := Option.map_eq_some_iff.1 h
    by_cases hx : x = p
    · subst hx
      rcases xs with _ | ⟨y, ys⟩
      · -- the directory above the name is no file, pruned or not
        have hnone : fileData (walk cs x []) = none := by
          rw [walk, hp]
          rfl
        have hshort : ¬ (x = x ∧ q :: ps <+: []) := by simp
        rw [if_neg hshort, hnone]
        split_ifs
        · rw [walk_erase_self]
          rfl
        · rw [walk, lookup_put, if_pos rfl]
          rfl
      · have hbelow : fileData (walk (if child.isEmpty = true then erase cs x
            else put cs x (.dir child)) x (y :: ys)) = fileData (walk child y ys) := by
          split_ifs with hempty
          · rw [isEmpty_iff.1 hempty, walk_erase_self]
            rcases ys with _ | ⟨z, zs⟩ <;> rfl
          · rw [walk_dir (by rw [lookup_put, if_pos rfl])]
        rw [hbelow, ih hchild, walk_dir hp]
        simp only [cons_prefix_cons, true_and]
        by_cases hy : y = q
        · simp only [hy, true_and]
        · rw [if_neg fun hc => hy hc.1, if_neg fun hc => hy hc.1.symm]
    · have hout : ¬ (x = p ∧ q :: ps <+: xs) := fun hc => hx hc.1
      rw [if_neg hout]
      split_ifs
      · rw [walk_erase_of_ne hx]
      · rw [walk_put_of_ne hx]

lemma exists_file_of_has (h : has cs name) :
    ∃ d, walk cs (split name).1 (split name).2 = some (.file d) := by
  rw [has, get] at h
  rcases hw : walk cs (split name).1 (split name).2 with _ | d | c <;> rw [hw] at h
  · cases h
  · exact ⟨d, rfl⟩
  · cases h

lemma isSome_removeRecursive (cs : Dir) (p : Segment) (ps : List Segment) :
    (removeRecursive cs p ps).isSome = (walk cs p ps).isSome := by
  induction ps generalizing cs p with
  | nil =>
    rw [removeRecursive, walk]
    split_ifs with h
    · exact h.symm
    · exact (Bool.eq_false_iff.2 h).symm
  | cons q ps ih =>
    rw [removeRecursive, walk]
    rcases cs.lookup p with _ | _ | children
    · rfl
    · rfl
    · rw [Option.isSome_map]
      exact ih children q

lemma get_of_remove
    (h : removeRecursive cs (split name).1 (split name).2 = some cs') (x : Name) :
    get cs' x = if Within name x then none else get cs x := by
  rw [get, fileData_walk_of_remove h]
  by_cases hx : Within name x
  · rw [if_pos hx, if_pos ((within_iff name x).1 hx)]
  · rw [if_neg hx, if_neg fun hc => hx ((within_iff name x).2 hc)]
    rfl

lemma walk_of_append {q : Segment} {qs : List Segment} {n : Node}
    (h : walk cs p (ps ++ q :: qs) = some n) : ∃ c, walk cs p ps = some (.dir c) := by
  induction ps generalizing cs p with
  | nil =>
    obtain ⟨children, hlookup, -⟩ := lookup_of_walk h
    exact ⟨children, hlookup⟩
  | cons r ps ih =>
    obtain ⟨children, hlookup, hwalk⟩ := lookup_of_walk h
    rw [walk_dir hlookup]
    exact ih hwalk

lemma walk_append_of_file
    (h : walk cs p ps = some (.file d)) (q : Segment) (qs : List Segment) :
    walk cs p (ps ++ q :: qs) = none := by
  rcases hbelow : walk cs p (ps ++ q :: qs) with _ | n
  · rfl
  · obtain ⟨c, hc⟩ := walk_of_append hbelow
    rw [h] at hc
    cases hc

lemma get_below_file {x : Name} (h : has cs name) (hx : Below name x) : get cs x = none := by
  obtain ⟨d, hd⟩ := exists_file_of_has h
  obtain ⟨rest, rfl⟩ := hx
  rw [append_assoc, singleton_append, get, split_append_slash, walk_append_of_file hd]
  rfl

lemma get_of_remove_file (hfile : has cs name)
    (h : removeRecursive cs (split name).1 (split name).2 = some cs') (x : Name) :
    get cs' x = if x = name then none else get cs x := by
  rw [get_of_remove h]
  by_cases hx : x = name
  · rw [if_pos (.inl hx), if_pos hx]
  · rw [if_neg hx]
    by_cases hbelow : Below name x
    · rw [if_pos (.inr hbelow), get_below_file hfile hbelow]
    · rw [if_neg fun hc => hc.elim hx hbelow]

/-! ## Trees within trees -/

/-- Every file of a tree is a file of another, and every directory a directory. Source: node. -/
def Refines (r t : Dir) : Prop :=
  ∀ p ps, (∀ d, walk r p ps = some (.file d) → ∃ d', walk t p ps = some (.file d')) ∧
    ∀ c, walk r p ps = some (.dir c) → ∃ c', walk t p ps = some (.dir c')

lemma refines_nil (t : Dir) : Refines [] t := by
  intro p ps
  have hnone : walk [] p ps = none := by
    rcases ps with _ | ⟨q, ps⟩ <;> rfl
  rw [hnone]
  exact ⟨fun d h => (by cases h), fun c h => (by cases h)⟩

lemma get_nil (n : Name) : get [] n = none := by
  rw [get]
  rcases (split n).2 with _ | ⟨q, qs⟩ <;> rfl

lemma Refines.put_file (h : Refines r t)
    (hp : t.lookup p = some (.file d)) : Refines (put r p (.file data)) t := by
  intro x xs
  by_cases hx : x = p
  · subst hx
    rcases xs with _ | ⟨y, ys⟩
    · rw [walk, lookup_put, if_pos rfl]
      exact ⟨fun _ _ => ⟨d, hp⟩, fun c hc => (by cases hc)⟩
    · rw [walk, lookup_put, if_pos rfl]
      exact ⟨fun d hd => (by cases hd), fun c hc => (by cases hc)⟩
  · rw [walk_put_of_ne hx]
    exact h x xs

lemma Refines.put_dir {child children : Dir} (h : Refines r t)
    (hp : t.lookup p = some (.dir children)) (hchild : Refines child children) :
    Refines (put r p (.dir child)) t := by
  intro x xs
  by_cases hx : x = p
  · subst hx
    rcases xs with _ | ⟨y, ys⟩
    · rw [walk, lookup_put, if_pos rfl]
      exact ⟨fun d hd => (by cases hd), fun _ _ => ⟨children, hp⟩⟩
    · rw [walk_dir (by rw [lookup_put, if_pos rfl]), walk_dir hp]
      exact hchild y ys
  · rw [walk_put_of_ne hx]
    exact h x xs

lemma set_of_refines (data : List Octet) (h : Refines r t) (hp : walk t p ps = some (.file d)) :
    ∃ r', set data r p ps = .ok r' ∧ Refines r' t := by
  induction ps generalizing r t p with
  | nil =>
    have hdir : ∀ c, r.lookup p ≠ some (.dir c) := by
      intro c hc
      obtain ⟨c', hc'⟩ := (h p []).2 c hc
      rw [hp] at hc'
      cases hc'
    refine ⟨put r p (.file data), ?_, h.put_file hp⟩
    rw [set]
    rcases hr : r.lookup p with _ | _ | c
    · rfl
    · rfl
    · exact absurd hr (hdir c)
  | cons q ps ih =>
    obtain ⟨children, hlookup, hwalk⟩ := lookup_of_walk hp
    rw [set]
    rcases hr : r.lookup p with _ | e | c
    · obtain ⟨child, hset, hchild⟩ := ih (refines_nil children) hwalk
      refine ⟨put r p (.dir child), ?_, h.put_dir hlookup hchild⟩
      simp only [hset]
      rfl
    · obtain ⟨d', hd'⟩ := (h p []).1 e hr
      rw [walk, hlookup] at hd'
      cases hd'
    · have hsub : Refines c children := by
        intro y ys
        rw [← walk_dir hr, ← walk_dir hlookup]
        exact h p (y :: ys)
      obtain ⟨child, hset, hchild⟩ := ih hsub hwalk
      refine ⟨put r p (.dir child), ?_, h.put_dir hlookup hchild⟩
      simp only [hset]
      rfl

end Dir

end Ze.Zefs
