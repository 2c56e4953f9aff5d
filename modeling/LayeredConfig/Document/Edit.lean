import LayeredConfig.Document.Basic

/-!
# Looking up and changing a document

A key is found by its text, and of several entries with one key only the first can be reached. A
value is overwritten in place, so that comments and order stay; a new entry comes last.
-/

namespace LayeredConfig

/-- What a node cannot be used as. -/
inductive NodeExpectation where
  | mapping
  | scalar
deriving DecidableEq, Repr

/-- The value under `key` has another shape than the edit needs. -/
structure ShapeError where
  key : String
  expected : NodeExpectation
deriving DecidableEq, Repr

def NodeExpectation.label : NodeExpectation → String
  | mapping => "mapping"
  | scalar => "scalar"

def ShapeError.message (e : ShapeError) : String :=
  "cannot set " ++ e.key ++ ": existing value is not a " ++ e.expected.label

namespace Document

structure Entry where
  key : NodeId
  value : NodeId
  index : Nat
deriving DecidableEq, Repr

/-! ## Lookup -/

def scalar? (d : Document) (id : NodeId) : Option String :=
  match d.node? id with
  | some ⟨.scalar text _, _⟩ => some text
  | _ => none

def isMapping (d : Document) (id : NodeId) : Bool :=
  match d.node? id with
  | some ⟨.mapping _, _⟩ => true
  | _ => false

/-- The entries of a mapping; nothing else has any. -/
def entries (d : Document) (id : NodeId) : List (NodeId × NodeId) :=
  match d.node? id with
  | some ⟨.mapping entries, _⟩ => entries
  | _ => []

/-- The keys of a mapping in file order. -/
def keys (d : Document) (id : NodeId) : List String :=
  (d.entries id).filterMap fun (key, _) => d.scalar? key

/-- The first entry whose key has the text `key`. -/
def findEntry? (d : Document) (map : NodeId) (key : String) : Option Entry := do
  let index ← (d.entries map).findIdx? fun entry => d.scalar? entry.1 = some key
  let entry ← (d.entries map)[index]?
  return ⟨entry.1, entry.2, index⟩

/-- The scalar under `key`. -/
def get? (d : Document) (map : NodeId) (key : String) : Option String := do
  d.scalar? (← d.findEntry? map key).value

/-! ## New nodes -/

def addNode (d : Document) (kind : NodeKind) : Document × NodeId :=
  ({ d with nodes := d.nodes.push ⟨kind, {}⟩ }, ⟨d.nodes.size⟩)

/-- A new scalar, plain if its text allows it. -/
def addScalar (d : Document) (text : String) : Document × NodeId :=
  d.addNode (.scalar text (Scalar.styleFor text.toList .plain))

def addMapping (d : Document) : Document × NodeId :=
  d.addNode (.mapping [])

def addSequence (d : Document) : Document × NodeId :=
  d.addNode (.sequence [])

/-! ## Edits -/

def setHeadComment (d : Document) (id : NodeId) (lines : List String) : Document :=
  d.modify id fun node => { node with comments.head := lines }

def setKind (d : Document) (id : NodeId) (kind : NodeKind) : Document :=
  d.modify id fun node => { node with kind }

/-- Adds an entry at the end of a mapping. -/
def appendEntry (d : Document) (map key value : NodeId) : Document :=
  d.modify map fun node =>
    match node.kind with
    | .mapping entries => { node with kind := .mapping (entries ++ [(key, value)]) }
    | _ => node

/-- Overwrites the text under `key` in place, or adds an entry at the end. -/
def setText (d : Document) (map : NodeId) (key text : String) :
    Except ShapeError (Document × Entry) :=
  if !d.isMapping map then .error ⟨key, .mapping⟩
  else match d.findEntry? map key with
  | some entry =>
    match d.node? entry.value with
    | some ⟨.scalar _ style, _⟩ =>
      .ok (d.setKind entry.value (.scalar text (Scalar.styleFor text.toList style)), entry)
    | _ => .error ⟨key, .scalar⟩
  | none =>
    let (d, keyId) := d.addScalar key
    let (d, valueId) := d.addScalar text
    let d := d.appendEntry map keyId valueId
    .ok (d, ⟨keyId, valueId, (d.entries map).length - 1⟩)

/-- Removes the first entry under `key`. -/
def removeEntry (d : Document) (map : NodeId) (key : String) : Option (Document × Entry) := do
  let entry ← d.findEntry? map key
  return (d.setKind map (.mapping ((d.entries map).eraseIdx entry.index)), entry)

/-- The mapping under `key`, added at the end when there is none. An empty plain value turns into
an empty mapping. -/
def ensureMapping (d : Document) (map : NodeId) (key : String) :
    Except ShapeError (Document × NodeId) :=
  if !d.isMapping map then .error ⟨key, .mapping⟩
  else match d.findEntry? map key with
  | some entry =>
    match d.node? entry.value with
    | some ⟨.mapping _, _⟩ => .ok (d, entry.value)
    | some ⟨.scalar "" .plain, _⟩ => .ok (d.setKind entry.value (.mapping []), entry.value)
    | _ => .error ⟨key, .mapping⟩
  | none =>
    let (d, keyId) := d.addScalar key
    let (d, valueId) := d.addMapping
    .ok (d.appendEntry map keyId valueId, valueId)

/-- Hangs a node under `key`: in place of the old value, or as a new entry at the end. -/
def spliceValue (d : Document) (map : NodeId) (key : String) (value : NodeId) : Document :=
  if !d.isMapping map || (d.node? value).isNone then d
  else match d.findEntry? map key with
  | some entry =>
    d.setKind map (.mapping ((d.entries map).set entry.index (entry.key, value)))
  | none =>
    let (d, keyId) := d.addScalar key
    d.appendEntry map keyId value

/-- The scalar entries of a mapping in file order; of repeated keys the first counts. -/
def snapshot (d : Document) (map : NodeId) : List (String × String) :=
  (d.entries map).foldl (fun found (key, value) =>
    match d.scalar? key, d.scalar? value with
    | some key, some value =>
      if found.any (·.1 = key) then found else found ++ [(key, value)]
    | _, _ => found) []

end Document

end LayeredConfig
