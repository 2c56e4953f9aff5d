import LayeredConfig.Yaml.Token

/-!
# Nodes of a YAML text

A text stands for a tree of nodes, in which an alias points to a node by a number. The numbers are
given to anchors as they come; the node that a number stands for is the last one in the text that
got it.
-/

namespace LayeredConfig.Yaml

/-- What every node has besides its content. -/
structure Properties where
  mark : Mark
  anchor : Option Nat := none
  tag : Option TagName := none

inductive Node where
  | reference (anchor : Nat)
  | scalar (properties : Properties) (text : String) (plain : Bool)
  | sequence (properties : Properties) (items : List Node)
  | mapping (properties : Properties) (entries : List (Node × Node))

namespace Node

/-- The empty scalar that stands where a node was left out. -/
def empty (properties : Properties) : Node := .scalar properties "" true

/-- An anchor with its node in front of others. -/
def addAnchor (properties : Properties) (node : Node) (others : List (Nat × Node)) :
    List (Nat × Node) :=
  match properties.anchor with
  | some anchor => (anchor, node) :: others
  | none => others

mutual

/-- The anchored nodes in the order of the text, in front of others. -/
def anchored (others : List (Nat × Node)) : Node → List (Nat × Node)
  | reference _ => others
  | scalar p text plain => addAnchor p (scalar p text plain) others
  | sequence p items => addAnchor p (sequence p items) (anchoredItems others items)
  | mapping p entries => addAnchor p (mapping p entries) (anchoredEntries others entries)

def anchoredItems (others : List (Nat × Node)) : List Node → List (Nat × Node)
  | [] => others
  | node :: rest => anchored (anchoredItems others rest) node

def anchoredEntries (others : List (Nat × Node)) : List (Node × Node) → List (Nat × Node)
  | [] => others
  | (key, value) :: rest => anchored (anchored (anchoredEntries others rest) value) key

end

/-- The node of an anchor in a list in the order of the text: the last one counts. -/
def target? (targets : List (Nat × Node)) (anchor : Nat) : Option Node :=
  targets.reverse.lookup anchor

mutual

/-- How many steps it takes to tell the node: one for a scalar or an alias, and two for a
collection besides its parts. -/
def size : Node → Nat
  | reference _ => 1
  | scalar _ _ _ => 1
  | sequence _ items => sizeItems items + 2
  | mapping _ entries => sizeEntries entries + 2

def sizeItems : List Node → Nat
  | [] => 0
  | node :: rest => node.size + sizeItems rest

def sizeEntries : List (Node × Node) → Nat
  | [] => 0
  | (key, value) :: rest => key.size + value.size + sizeEntries rest

end

end Node

end LayeredConfig.Yaml
