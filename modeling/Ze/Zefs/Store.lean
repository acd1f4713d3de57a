import Mathlib.Algebra.Order.Ring.Int
import Ze.Zefs.Tree
import Ze.Lib.Run

/-!
# The blob store

The store of `pkg/zefs/store.go` and `lock.go`: its tree, its key list and slots, the encoding and
decoding of a file, the two ways to flush, and what a caller can do.

File-system calls succeed. A map that is only read, written and deleted from is a function; the map
`dirty` is a list, and `range` is the order in which a loop meets it.

Default file: `store.go`.
-/

namespace Ze.Zefs

/-! ## Data -/

/-- Where a frame stands in the file. Source: netcapstring.go. -/
structure NetcapSlot where
  offset : ℕ := 0
  capacity : ℕ := 0
  used : ℕ := 0
  deriving DecidableEq, Repr, Inhabited

structure SlotInfo where
  name : NetcapSlot := {}
  data : NetcapSlot := {}
  deriving DecidableEq, Repr, Inhabited

def NetcapSlot.totalLen (s : NetcapSlot) : ℕ := netcapstringTotalLen s.capacity

/-- The slots of a store; a name without one has the zero value. Source: map[string]slotInfo. -/
abbrev Slots := Name → SlotInfo

/-- Source: s.slots[name] = sl. -/
def Slots.put (slots : Slots) (name : Name) (sl : SlotInfo) : Slots :=
  fun n => if n = name then sl else slots n

/-- What decoding a file gives. Source: the results of decodeInto. -/
structure Decoded where
  root : Dir := []
  keys : List Name := []
  slots : Slots := fun _ => {}

/-- A store. `lock` is the write lock that is held, with its flag `dirty`. Source: store.go
BlobStore; lock.go WriteLock. -/
structure BlobStore extends Decoded where
  backing : Option (List Octet) := none
  dirty : List Name := []
  added : List Name := []
  layoutChanged : Bool := false
  sparePercent : ℕ := 10
  lock : Option Bool := none

def magic : List Octet := [90#8, 101#8, 70#8, 83#8]

def maxEntryCount : ℕ := 100000

def maxImportSize : ℕ := 256 * 1024 * 1024

/-- Why an operation is refused.
Source: decodeInto, writeFileNoFlush, removeNoFlush, Import, flushInPlace. -/
inductive StoreError
  | magicFrame (e : FrameError)
  | invalidMagic
  | containerFrame (e : FrameError)
  | entryName (off : ℕ) (e : FrameError)
  | entryData (off : ℕ) (e : FrameError)
  | invalidKey (key : Name)
  | tree (e : SetError)
  | entryCount
  | invalidName
  | notExist
  | importSize
  | shortFile
  | length
  deriving DecidableEq, Repr

/-! ## Decoding -/

/-- The octets that end the entries. Source: decodeInto, the loop's first check. -/
def stops (c : Octet) : Bool := c == newline || c == 0#8 || c == space || c == 44#8

/-- One entry joins what was decoded. Source: decodeInto, the end of the loop body. -/
def addEntry (base nameOff : ℕ) (name data : Frame) (acc : Decoded) : Except StoreError Decoded :=
  let key := name.data
  if validPath key = false ∨ key = dot then .error (.invalidKey key)
  else
    match Dir.set data.data acc.root (split key).1 (split key).2 with
    | .error e => .error (.tree e)
    | .ok root =>
      if maxEntryCount < acc.keys.length + 1 then .error .entryCount
      else .ok
        { root := root
          keys := acc.keys ++ [key]
          slots := acc.slots.put key
            { name := ⟨base + nameOff, name.capacity, key.length⟩
              data := ⟨base + (nameOff + name.next), data.capacity, data.data.length⟩ } }

/-- The entries of a container from `off` on; `fuel` bounds the loop.
Source: decodeInto, the loop. -/
def decodeEntries (base : ℕ) : ℕ → ℕ → List Octet → Decoded → Except StoreError Decoded
  | 0, _, _, acc => .ok acc
  | _ + 1, _, [], acc => .ok acc
  | fuel + 1, off, c :: rest, acc =>
    if stops c then .ok acc
    else
      match decodeNetcapstringRef (c :: rest) with
      | .error e => .error (.entryName off e)
      | .ok name =>
        match decodeNetcapstringRef ((c :: rest).drop name.next) with
        | .error e => .error (.entryData (off + name.next) e)
        | .ok data =>
          match addEntry base off name data acc with
          | .error e => .error e
          | .ok acc => decodeEntries base fuel (off + name.next + data.next)
              ((c :: rest).drop (name.next + data.next)) acc

def decodeInto (data : List Octet) : Except StoreError Decoded :=
  match decodeNetcapstringRef data with
  | .error e => .error (.magicFrame e)
  | .ok m =>
    if m.data ≠ magic then .error .invalidMagic
    else
      match decodeNetcapstringRef (data.drop m.next) with
      | .error e => .error (.containerFrame e)
      | .ok container =>
        decodeEntries (m.next + netcapstringHeaderLen container.capacity) container.data.length 0
          container.data {}

/-! ## Encoding -/

/-- An entry that is written: a name with its data and its slot. Source: encode. -/
structure Entry where
  key : Name
  data : List Octet
  slot : SlotInfo

/-- The octets of an entry. Source: encode, the entry loop. -/
def Entry.octets (e : Entry) : List Octet :=
  netcapstring e.key e.slot.name.capacity ++ netcapstring e.data e.slot.data.capacity

namespace BlobStore

variable (s : BlobStore)

/-- The entries of the key list that the tree holds. Source: encode. -/
def entries : List Entry :=
  s.keys.filterMap fun key => (s.root.get key).map fun data => ⟨key, data, s.slots key⟩

/-- The octets of the entries and of the newline behind them, by the capacities of the slots.
Source: containerCapacity, and encode, phase 1. -/
def containerCapacity : ℕ :=
  (s.entries.map fun e => e.slot.name.totalLen + e.slot.data.totalLen).sum + 1

/-- The content of the container. Source: encode. -/
def container : List Octet := s.entries.flatMap Entry.octets ++ [newline]

/-- Source: encode, totalSize. -/
def totalSize : ℕ := netcapstringTotalLen magic.length + netcapstringTotalLen s.containerCapacity

/-- The file of a store; `none` if its size is no `int`, where `make` panics. -/
def encode : Option (List Octet) :=
  if maxInt < s.totalSize then none
  else some (netcapstring magic magic.length ++
    (netcapstringHeaderOf s.containerCapacity s.containerCapacity (checksum s.container) ++
      (s.container ++ [newline])))

/-! ## Flushing -/

/-- Source: install, decode. -/
def install (file : List Octet) (d : Decoded) : BlobStore :=
  { s with toDecoded := d, backing := some file }

def resetDirty : BlobStore := { s with dirty := [], added := [], layoutChanged := false }

def flushFull : Except StoreError BlobStore :=
  match s.encode with
  | none => .error .length
  | some file =>
    match decodeInto file with
    | .error e => .error e
    | .ok d => .ok (s.install file d).resetDirty

/-- Octets written over a file at an offset; a gap behind its end is filled with zeros. Source:
syscall.Pwrite. -/
def pwrite (file : List Octet) (off : ℕ) (data : List Octet) : List Octet :=
  (file ++ List.replicate (off - file.length) 0#8).take off ++
    (data ++ file.drop (off + data.length))

/-- A dirty name's data frame, rewritten in its slot. Source: store.go flushInPlace, the region
loop; pwrite_unix.go pwriteRegions. -/
def patch (file : List Octet) (name : Name) : List Octet :=
  match s.root.get name with
  | none => file
  | some data =>
    pwrite file (s.slots name).data.offset (netcapstring data (s.slots name).data.capacity)

/-- The file after the dirty names, in the order `names`, and the container header were rewritten in
place.
Source: flushInPlace. -/
def patched (names : List Name) (file : List Octet) : Except StoreError (List Octet) :=
  let file := names.foldl s.patch file
  let containerHdrOff := netcapstringTotalLen magic.length
  let containerDataOff := containerHdrOff + netcapstringHeaderLen s.containerCapacity
  if file.length < containerDataOff + s.containerCapacity then .error .shortFile
  else
    let crc := checksum ((file.drop containerDataOff).take s.containerCapacity)
    .ok (pwrite file containerHdrOff
      (netcapstringHeaderOf s.containerCapacity s.containerCapacity crc))

def flushInPlace (names : List Name) (file : List Octet) : Except StoreError BlobStore :=
  match s.patched names file with
  | .error e => .error e
  | .ok file =>
    match decodeInto file with
    | .error e => .error e
    | .ok d => .ok (s.install file d)

/-- Source: flush; a file that could not be patched is restored and rewritten. -/
def flush (range : List Name → List Name) : Except StoreError BlobStore :=
  match s.backing with
  | none => s.flushFull
  | some file =>
    if s.layoutChanged = false ∧ s.added = [] ∧ s.dirty ≠ [] then
      match s.flushInPlace (range s.dirty) file with
      | .ok s' => .ok s'.resetDirty
      | .error _ => s.flushFull
    else s.flushFull

/-! ## Operations -/

/-- The capacity of a slot for `used` octets. Source: spare.go. -/
def capacity (used : ℕ) : ℕ := used + used * s.sparePercent / 100

/-- The key list, slots and marks for a write.
Source: writeFileNoFlush, before the tree is set. -/
def place (name : Name) (data : List Octet) : BlobStore :=
  if s.root.has name then
    let grown := { s with dirty := if name ∈ s.dirty then s.dirty else s.dirty ++ [name] }
    if (s.slots name).data.capacity < data.length then
      { grown with
        slots := s.slots.put name { s.slots name with
          data := { (s.slots name).data with capacity := s.capacity data.length } }
        layoutChanged := true }
    else grown
  else
    { s with
      keys := s.keys ++ [name]
      slots := s.slots.put name
        { name := { capacity := s.capacity name.length }
          data := { capacity := s.capacity data.length } }
      added := s.added ++ [name] }

def writeFileNoFlush (name : Name) (data : List Octet) : Except StoreError BlobStore :=
  if validPath name = false ∨ name = dot then .error .invalidName
  else
    match Dir.set data s.root (split name).1 (split name).2 with
    | .error e => .error (.tree e)
    | .ok root => .ok { s.place name data with root := root }

def removeNoFlush (name : Name) : Except StoreError BlobStore :=
  match Dir.removeRecursive s.root (split name).1 (split name).2 with
  | none => .error .notExist
  | some root => .ok
    { s with
      root := root
      keys := s.keys.erase name
      slots := s.slots.put name {}
      dirty := s.dirty.erase name
      layoutChanged := true }

/-- Source: Import, before the flush. -/
def importNoFlush (data : List Octet) : Except StoreError BlobStore :=
  if maxImportSize < data.length then .error .importSize
  else
    match decodeInto data with
    | .error e => .error e
    | .ok d => .ok { s with toDecoded := d, backing := none }.resetDirty

end BlobStore

/-- What a caller can do. Source: store.go WriteFile, Remove, Import; lock.go Lock and
the methods of WriteLock. -/
inductive Op
  | writeFile (name : Name) (data : List Octet)
  | remove (name : Name)
  | importFrom (data : List Octet)
  | lock
  | lockWriteFile (name : Name) (data : List Octet)
  | lockRemove (name : Name)
  | release

/-- One accepted operation; `none` if it returns an error, or has to wait for the lock or needs it.
Source: store.go, lock.go. -/
def step (range : List Name → List Name) (s : BlobStore) (op : Op) : Option BlobStore :=
  match op, s.lock with
  | .writeFile name data, none => ((s.writeFileNoFlush name data).bind (·.flush range)).toOption
  | .remove name, none => ((s.removeNoFlush name).bind (·.flush range)).toOption
  | .importFrom data, none => ((s.importNoFlush data).bind (·.flush range)).toOption
  | .lock, none => some { s with lock := some false }
  | .lockWriteFile name data, some _ =>
    ((s.writeFileNoFlush name data).map ({ · with lock := some true })).toOption
  | .lockRemove name, some _ => ((s.removeNoFlush name).map ({ · with lock := some true })).toOption
  | .release, some true => ((s.flush range).map ({ · with lock := none })).toOption
  | .release, some false => some { s with lock := none }
  | _, _ => none

/-- A new empty store, with a policy for the spare room. Source: Create, newBlobIn. -/
def create (sparePercent : ℕ) (range : List Name → List Name) : Option BlobStore :=
  (BlobStore.flush { sparePercent := sparePercent } range).toOption

end Ze.Zefs
