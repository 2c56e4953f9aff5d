import LayeredConfig.Document.Reader
import LayeredConfig.Document.Writer

/-!
# Documents

A document keeps the nodes of its tree in a table and names them by their position, so that a
node can be changed in place wherever it hangs. Its tree is what unfolds from the root. Nodes
that hang nowhere stay in the table and are not part of the tree; a node that is contained in
itself has no tree.
-/

namespace LayeredConfig

structure NodeId where
  index : Nat
deriving DecidableEq, Repr

inductive NodeKind where
  | scalar (text : String) (style : ScalarStyle)
  | mapping (entries : List (NodeId × NodeId))
  | sequence (items : List NodeId)
deriving DecidableEq, Repr

structure Node where
  kind : NodeKind
  comments : Comments := {}
deriving DecidableEq, Repr

structure Document where
  nodes : Array Node
  root : NodeId
deriving DecidableEq, Repr

namespace Document

/-- One empty mapping. -/
def empty : Document := ⟨#[⟨.mapping [], {}⟩], ⟨0⟩⟩

def node? (d : Document) (id : NodeId) : Option Node :=
  d.nodes[id.index]?

/-! ## The tree of a node -/

/-- Unfolds a node to at most `depth` levels. -/
def unfold (nodes : Array Node) : Nat → NodeId → Option Tree
  | 0, _ => none
  | depth + 1, id => do
    let ⟨kind, comments⟩ ← nodes[id.index]?
    match kind with
    | .scalar text style => return .scalar comments text style
    | .mapping entries =>
      let trees ← entries.mapM fun (key, value) => do
        return (← unfold nodes depth key, ← unfold nodes depth value)
      return .mapping comments trees
    | .sequence items => return .sequence comments (← items.mapM (unfold nodes depth))

/-- The tree that hangs from a node. No path through it is longer than the table. -/
def treeAt? (d : Document) (id : NodeId) : Option Tree :=
  unfold d.nodes d.nodes.size id

def tree? (d : Document) : Option Tree :=
  d.treeAt? d.root

/-- Two documents are the same when their trees are. -/
def same (d e : Document) : Bool :=
  d.tree? == e.tree?

/-! ## Adding a tree -/

mutual

/-- The nodes of a tree whose root gets the position `base`, each node before those below it. -/
def layout (base : Nat) : Tree → List Node
  | .scalar c text style => [⟨.scalar text style, c⟩]
  | .mapping c entries => ⟨.mapping (entryIds (base + 1) entries), c⟩ :: entryLayout (base + 1) entries
  | .sequence c items => ⟨.sequence (itemIds (base + 1) items), c⟩ :: itemLayout (base + 1) items

def entryLayout (base : Nat) : List (Tree × Tree) → List Node
  | [] => []
  | (key, value) :: rest =>
    layout base key ++ layout (base + key.size) value ++
      entryLayout (base + key.size + value.size) rest

def entryIds (base : Nat) : List (Tree × Tree) → List (NodeId × NodeId)
  | [] => []
  | (key, value) :: rest =>
    (⟨base⟩, ⟨base + key.size⟩) :: entryIds (base + key.size + value.size) rest

def itemLayout (base : Nat) : List Tree → List Node
  | [] => []
  | item :: rest => layout base item ++ itemLayout (base + item.size) rest

def itemIds (base : Nat) : List Tree → List NodeId
  | [] => []
  | item :: rest => ⟨base⟩ :: itemIds (base + item.size) rest

end

/-- Adds a copy of a tree, which hangs nowhere yet. -/
def addTree (d : Document) (t : Tree) : Document × NodeId :=
  ({ d with nodes := d.nodes ++ (layout d.nodes.size t).toArray }, ⟨d.nodes.size⟩)

/-- Changes one node in place. -/
def modify (d : Document) (id : NodeId) (f : Node → Node) : Document :=
  { d with nodes := d.nodes.modify id.index f }

/-! ## Reading and writing -/

/-- The document of a text. A text without content is the empty document with its comments. -/
def parse (text : String) : Except SyntaxError Document := do
  let content ← Reader.read text.toList
  match content.root with
  | none => return empty.modify empty.root fun node => { node with comments.foot := content.foot }
  | some tree =>
    let (d, root) := empty.addTree (tree.withFoot content.foot)
    return { d with root }

/-- The file that holds the tree of a node, without the top-level keys in `exclude`. -/
def encode (d : Document) (id : NodeId) (exclude : List String) : String :=
  match d.treeAt? id with
  | some t => t.encode exclude
  | none => ""

end Document

end LayeredConfig
