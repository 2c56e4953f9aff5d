/-!
# Tables of settings

A table maps names to texts and keeps the order in which names were first stored. Storing under a
known name keeps its place.
-/

namespace LayeredConfig

structure Table where
  entries : List (String × String) := []
deriving DecidableEq, Repr

namespace Table

def get? (t : Table) (name : String) : Option String :=
  t.entries.lookup name

def contains (t : Table) (name : String) : Bool :=
  t.entries.any (·.1 == name)

def insert (t : Table) (name text : String) : Table :=
  if t.contains name then
    ⟨t.entries.map fun entry => if entry.1 = name then (name, text) else entry⟩
  else ⟨t.entries ++ [(name, text)]⟩

def erase (t : Table) (name : String) : Table :=
  ⟨t.entries.filter (·.1 ≠ name)⟩

def isEmpty (t : Table) : Bool :=
  t.entries.isEmpty

def names (t : Table) : List String :=
  t.entries.map (·.1)

/-- Stores the pairs from left to right. -/
def ofList (pairs : List (String × String)) : Table :=
  pairs.foldl (fun t (name, text) => t.insert name text) {}

end Table

end LayeredConfig
