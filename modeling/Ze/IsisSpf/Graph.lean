import Ze.Isis.Lsdb

/-!
# The graph of a level

`BuildGraph` of `internal/plugins/isis/spf/graph.go`: the LSPs of one level are merged into a map
of nodes, each with the adjacencies it advertises and its overload bit. The adjacencies come from
two TLVs, the narrow one (2) and the extended one (22), which are decoded here from their octets as
`packet/tlv_neighbours.go` and `packet/tlv_core.go` do.
-/

namespace Ze.IsisSpf

open Ze.Lib List

/-! ## Identifiers -/

abbrev SystemId := Fin (2 ^ 48)

abbrev SourceId := Fin (2 ^ 56)

/-- Source: sourceid.go. -/
def newSourceID (sys : SystemId) (pseudonode : Fin (2 ^ 8)) : SourceId :=
  ⟨sys.val * 2 ^ 8 + pseudonode.val, by omega⟩

/-- Source: sourceid.go. -/
def systemID (id : SourceId) : SystemId := ⟨id.val / 2 ^ 8, by omega⟩

/-- Source: sourceid.go. -/
def isPseudonode (id : SourceId) : Bool := decide (id.val % 2 ^ 8 ≠ 0)

/-! ## Nodes and edges -/

/-- Source: graph.go. -/
structure Edge where
  toId : SourceId
  metric : UInt32
  deriving DecidableEq

/-- Source: graph.go. -/
structure Node where
  edges : List Edge := []
  overload : Bool := false

/-- Source: graph.go. -/
abbrev Graph := SortedMap SourceId Node

/-! ## The two TLVs -/

/-- Octets, most significant first. Source: Go, shifts and ors. -/
def bigEndian (bytes : List UInt8) : ℕ := bytes.foldl (fun n b => n * 256 + b.toNat) 0

/-- Source: sourceid.go. -/
def sourceIDFromBytes (b : List UInt8) : Option SourceId :=
  if b.length = 7 then some (Fin.ofNat _ (bigEndian b)) else none

def metricFromBytes (b : List UInt8) : Option UInt32 :=
  if b.length = 3 then some (UInt32.ofNat (bigEndian b)) else none

/-- Whether a block of sub-TLVs can be read to its end; the first argument counts the sub-TLVs that
can be left. Source: packet/tlv.go decodeSubTLVs, Next. -/
def decodeSubTLVs : ℕ → List UInt8 → Bool
  | 0, block => block.isEmpty
  | _ + 1, [] => true
  | _ + 1, [_] => false
  | n + 1, _ :: len :: rest =>
    if rest.length < len.toNat then false else decodeSubTLVs n (rest.drop len.toNat)

/-- The entries of an extended TLV, `none` where it is cut short; the first argument counts the
entries that can be left. Source: tlv_core.go. -/
def decodeExtendedISReachTLV : ℕ → List UInt8 → Option (List Edge)
  | 0, value => if value.isEmpty then some [] else none
  | n + 1, value =>
    if value.isEmpty then some []
    else if value.length < 11 then none
    else do
      let neigh ← sourceIDFromBytes (value.take 7)
      let metric ← metricFromBytes ((value.drop 7).take 3)
      let subLen := (value.getD 10 0).toNat
      let rest := value.drop 11
      if rest.length < subLen then none
      else if decodeSubTLVs subLen (rest.take subLen) = false then none
      else do
        let entries ← decodeExtendedISReachTLV n (rest.drop subLen)
        some (⟨neigh, metric⟩ :: entries)

/-- The entries after the leading octet of a narrow TLV, eleven octets each. Source:
tlv_neighbours.go DecodeNarrowISReachTLV, the loop. -/
def narrowEntries : ℕ → List UInt8 → Option (List Edge)
  | 0, _ => some []
  | n + 1, rest => do
    let neigh ← sourceIDFromBytes ((rest.drop 4).take 7)
    let entries ← narrowEntries n (rest.drop 11)
    some (⟨neigh, ((rest.getD 0 0) &&& 0x3f).toUInt32⟩ :: entries)

def decodeNarrowISReachTLV (value : List UInt8) : Option (List Edge) :=
  if value.length < 1 then none
  else if (value.length - 1) % 11 ≠ 0 then none
  else narrowEntries ((value.length - 1) / 11) (value.drop 1)

/-! ## The merge of the LSPs -/

/-- Source: tlv.go. -/
structure Tlv where
  typ : UInt8
  value : List UInt8

/-- Source: graph.go. -/
structure LspRecord where
  source : SourceId
  overload : Bool
  tlvs : List Tlv

/-- The adjacencies of one TLV, none where it cannot be decoded. Source: graph.go addTLVs, the
two cases that append edges. -/
def tlvEdges (tlv : Tlv) : List Edge :=
  if tlv.typ = 2 then (decodeNarrowISReachTLV tlv.value).getD []
  else if tlv.typ = 22 then (decodeExtendedISReachTLV tlv.value.length tlv.value).getD []
  else []

/-- Source: graph.go. -/
def addTLVs (n : Node) (tlvs : List Tlv) : Node :=
  tlvs.foldl (fun n tlv => { n with edges := n.edges ++ tlvEdges tlv }) n

/-- One LSP enters its originator's node, which it creates where there is none. Source: graph.go
BuildGraph, the body of the loop, with node. -/
def addRecord (g : Graph) (rec : LspRecord) : Graph :=
  let n := (g.lookup rec.source).getD {}
  g.put rec.source (addTLVs { n with overload := n.overload || rec.overload } rec.tlvs)

/-- The graph of a level from its LSPs in the order they are handed over. Source: graph.go. -/
def buildGraph (records : List LspRecord) : Graph := records.foldl addRecord .empty

/-! ## What the merge leaves -/

def LspRecord.edges (rec : LspRecord) : List Edge := rec.tlvs.flatMap tlvEdges

lemma addTLVs_eq (n : Node) (tlvs : List Tlv) :
    addTLVs n tlvs = { n with edges := n.edges ++ tlvs.flatMap tlvEdges } := by
  induction tlvs generalizing n with
  | nil => simp [addTLVs]
  | cons tlv tlvs ih =>
    have hstep : addTLVs n (tlv :: tlvs)
        = addTLVs { n with edges := n.edges ++ tlvEdges tlv } tlvs := rfl
    rw [hstep, ih, flatMap_cons, append_assoc]

def recordsOf (records : List LspRecord) (id : SourceId) : List LspRecord :=
  records.filter fun rec => rec.source = id

lemma lookup_addRecord (g : Graph) (rec : LspRecord) (id : SourceId) :
    (addRecord g rec).lookup id =
      if id = rec.source then
        some
          { edges := ((g.lookup id).getD {}).edges ++ rec.edges
            overload := ((g.lookup id).getD {}).overload || rec.overload }
      else g.lookup id := by
  unfold addRecord
  rw [SortedMap.lookup_put]
  by_cases h : id = rec.source
  · rw [if_pos h, if_pos h, addTLVs_eq, h]
    rfl
  · rw [if_neg h, if_neg h]

/-- A node of the graph is the merge of the LSPs of its originator, in their order; a system with no
LSP has no node. -/
lemma lookup_buildGraph (records : List LspRecord) (id : SourceId) :
    (buildGraph records).lookup id =
      if recordsOf records id = [] then none
      else some
        { edges := (recordsOf records id).flatMap LspRecord.edges
          overload := (recordsOf records id).any LspRecord.overload } := by
  induction records using reverseRecOn with
  | nil => rfl
  | append_singleton records rec ih =>
    have hfold : buildGraph (records ++ [rec]) = addRecord (buildGraph records) rec := by
      simp [buildGraph]
    rw [hfold, lookup_addRecord, ih]
    unfold recordsOf
    rw [filter_append]
    by_cases h : id = rec.source
    · rw [if_pos h]
      have hone : [rec].filter (fun rec => rec.source = id) = [rec] := by simp [h]
      rw [hone]
      by_cases hnil : records.filter (fun rec => rec.source = id) = []
      · rw [hnil]
        simp
      · rw [if_neg hnil, if_neg (by simp)]
        simp
    · rw [if_neg h]
      have hnone : [rec].filter (fun rec => rec.source = id) = [] := by simp [Ne.symm h]
      rw [hnone, append_nil]

end Ze.IsisSpf
