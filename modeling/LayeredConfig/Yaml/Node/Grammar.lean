import LayeredConfig.Yaml.Node

/-!
# From tokens to nodes

The grammar of nodes by recursive descent. Each rule answers what it read together with the tokens
behind it, which are never more than it was given; so the recursion ends.
-/

namespace LayeredConfig.Yaml.Node

/-! ## Results -/

/-- What a rule read of `tokens`. -/
structure Parsed (α : Type) (tokens : List Token) where
  value : α
  rest : List Token
  bound : rest.length ≤ tokens.length

namespace Parsed

variable {α β : Type} {tokens others : List Token}

def map (f : α → β) (p : Parsed α tokens) : Parsed β tokens :=
  ⟨f p.value, p.rest, p.bound⟩

def weaken (p : Parsed α tokens) (h : tokens.length ≤ others.length) : Parsed α others :=
  ⟨p.value, p.rest, Nat.le_trans p.bound h⟩

end Parsed

/-- The anchors so far with their numbers. -/
abbrev Anchors := List (String × Nat)

/-- The meaning of tag handles. -/
abbrev Handles := List (String × TagName)

abbrev Rule := ReaderT Handles (StateT Anchors (Except Error))

def fail {α : Type} (mark : Mark) : Rule α := throw (.malformed mark)

/-! ## Anchors and tags -/

/-- Gives an anchor its number: how many names were known before it. -/
def declare (name : String) : Rule Nat := do
  let anchors ← getThe Anchors
  let number := anchors.length
  set ((name, number) :: anchors.filter (·.1 != name))
  return number

def referTo (name : String) (mark : Mark) : Rule Node := do
  match (← getThe Anchors).lookup name with
  | some number => return .reference number
  | none => fail mark

/-- The whole tag that a handle and a suffix stand for. -/
def resolveTag (handle : String) (suffix : TagName) (mark : Mark) : Rule TagName := do
  if handle.isEmpty then return suffix
  else match (← readThe Handles).lookup handle with
  | some expansion => return expansion ++ suffix
  | none => fail mark

def startsProperties : TokenKind → Bool
  | .anchor _ => true
  | .tag _ _ => true
  | _ => false

/-- An anchor and a tag in either order, the first of them being token `t`. -/
def properties (t : Token) (ts : List Token) : Rule (Parsed Properties ts) :=
  match t.kind, ts with
  | .anchor name, ⟨.tag handle suffix, mark⟩ :: us => do
    let anchor ← declare name
    let tag ← resolveTag handle suffix mark
    return ⟨⟨t.mark, some anchor, some tag⟩, us, by simp⟩
  | .anchor name, us => do
    return ⟨⟨t.mark, some (← declare name), none⟩, us, Nat.le_refl _⟩
  | .tag handle suffix, ⟨.anchor name, _⟩ :: us => do
    let tag ← resolveTag handle suffix t.mark
    let anchor ← declare name
    return ⟨⟨t.mark, some anchor, some tag⟩, us, by simp⟩
  | .tag handle suffix, us => do
    return ⟨⟨t.mark, none, some (← resolveTag handle suffix t.mark)⟩, us, Nat.le_refl _⟩
  | _, _ => fail t.mark

/-! ## Nodes -/

/-- Where a node may stand: only outside brackets it may be a block collection, and only as a part
of a mapping a sequence whose dashes are not indented. -/
structure Place where
  block : Bool
  indentless : Bool := false

def Place.flow : Place := ⟨false, false⟩

def Place.startsContent (place : Place) : TokenKind → Bool
  | .scalar _ _ => true
  | .flowSequenceStart => true
  | .flowMappingStart => true
  | .blockSequenceStart => place.block
  | .blockMappingStart => place.block
  | .blockEntry => place.indentless
  | _ => false

/-- The tokens in front of which a node of a block mapping was left out. -/
def endsBlockPart (kind : TokenKind) : Bool :=
  kind == .key || kind == .value || kind == .blockEnd

def endsFlowPair (kind : TokenKind) : Bool :=
  kind == .value || kind == .flowEntry || kind == .flowSequenceEnd

def endsFlowPart (kind : TokenKind) : Bool :=
  kind == .value || kind == .flowEntry || kind == .flowMappingEnd

mutual

/-- A node that starts with token `t`. -/
def node (place : Place) (t : Token) (ts : List Token) : Rule (Parsed Node ts) := do
  match t.kind with
  | .reference name => return ⟨← referTo name t.mark, ts, Nat.le_refl _⟩
  | kind =>
    if startsProperties kind then
      let ⟨p, us, h⟩ ← properties t ts
      return (← content place p us).weaken h
    else bare place { mark := t.mark } t ts
termination_by 4 * ts.length + 3
decreasing_by all_goals omega

/-- The content behind an anchor or a tag, which may be left out. -/
def content (place : Place) (p : Properties) (ts : List Token) : Rule (Parsed Node ts) :=
  match ts with
  | [] => fail p.mark
  | t :: us => do
    if place.startsContent t.kind then return (← bare place p t us).weaken (by simp)
    else return ⟨.empty p, t :: us, Nat.le_refl _⟩
termination_by 4 * ts.length + 2

/-- Content that starts with token `t`. -/
def bare (place : Place) (p : Properties) (t : Token) (ts : List Token) :
    Rule (Parsed Node ts) := do
  if !place.startsContent t.kind then fail t.mark
  else match t.kind with
  | .scalar text plain => return ⟨.scalar p text plain, ts, Nat.le_refl _⟩
  | .flowSequenceStart => return (← flowItems ts).map (.sequence p)
  | .flowMappingStart => return (← flowEntries ts).map (.mapping p)
  | .blockSequenceStart => return (← blockItems ts).map (.sequence p)
  | .blockMappingStart => return (← blockEntries ts).map (.mapping p)
  | .blockEntry => return (← indentlessItems ts).map (.sequence p)
  | _ => fail t.mark
termination_by 4 * ts.length + 2

/-- A node that is left out if the next token satisfies `stops`. -/
def nodeUnless (stops : TokenKind → Bool) (place : Place) (ts : List Token) :
    Rule (Parsed Node ts) :=
  match ts with
  | [] => fail ⟨0, 0⟩
  | t :: us => do
    if stops t.kind then return ⟨.empty { mark := t.mark }, t :: us, Nat.le_refl _⟩
    else return (← node place t us).weaken (by simp)
termination_by 4 * ts.length

-- Block collections

def blockItems (ts : List Token) : Rule (Parsed (List Node) ts) :=
  match ts with
  | ⟨.blockEntry, _⟩ :: us => do
    let ⟨item, vs, h⟩ ← nodeUnless (fun k => k == .blockEntry || k == .blockEnd) ⟨true, false⟩ us
    return ((← blockItems vs).map (item :: ·)).weaken (Nat.le_succ_of_le h)
  | ⟨.blockEnd, _⟩ :: us => do return ⟨[], us, by simp⟩
  | t :: _ => fail t.mark
  | [] => fail ⟨0, 0⟩
termination_by 4 * ts.length + 1
decreasing_by all_goals (simp only [List.length_cons] at *; omega)

/-- The items behind a dash that is not indented. -/
def indentlessItems (ts : List Token) : Rule (Parsed (List Node) ts) := do
  let ⟨item, us, h⟩ ← nodeUnless (fun k => k == .blockEntry || endsBlockPart k) ⟨true, false⟩ ts
  match us, h with
  | ⟨.blockEntry, _⟩ :: vs, h =>
    return ((← indentlessItems vs).map (item :: ·)).weaken (Nat.le_of_succ_le h)
  | us, h => return ⟨[item], us, h⟩
termination_by 4 * ts.length + 1
decreasing_by
  · omega
  · simp only [List.length_cons] at *
    omega

def blockEntries (ts : List Token) : Rule (Parsed (List (Node × Node)) ts) :=
  match ts with
  | ⟨.key, _⟩ :: us => do
    let ⟨key, vs, h⟩ ← nodeUnless endsBlockPart ⟨true, true⟩ us
    let ⟨value, ws, h'⟩ ← blockValue vs
    return ((← blockEntries ws).map ((key, value) :: ·)).weaken
      (Nat.le_succ_of_le (Nat.le_trans h' h))
  | ⟨.blockEnd, _⟩ :: us => do return ⟨[], us, by simp⟩
  | t :: _ => fail t.mark
  | [] => fail ⟨0, 0⟩
termination_by 4 * ts.length + 1
decreasing_by all_goals (simp only [List.length_cons] at *; omega)

def blockValue (ts : List Token) : Rule (Parsed Node ts) :=
  match ts with
  | ⟨.value, _⟩ :: us => do return (← nodeUnless endsBlockPart ⟨true, true⟩ us).weaken (by simp)
  | t :: us => do return ⟨.empty { mark := t.mark }, t :: us, Nat.le_refl _⟩
  | [] => fail ⟨0, 0⟩
termination_by 4 * ts.length + 1
decreasing_by all_goals (simp only [List.length_cons] at *; omega)

-- Flow collections

/-- The items behind an opening bracket or a comma. -/
def flowItems (ts : List Token) : Rule (Parsed (List Node) ts) :=
  match ts with
  | ⟨.flowSequenceEnd, _⟩ :: us => do return ⟨[], us, by simp⟩
  | ⟨.key, mark⟩ :: us => do
    let ⟨key, vs, h⟩ ← pairKey us
    let ⟨value, ws, h'⟩ ← pairValue vs
    let pair : Node := .mapping { mark } [(key, value)]
    return ((← moreItems ws).map (pair :: ·)).weaken (Nat.le_succ_of_le (Nat.le_trans h' h))
  | t :: us => do
    let ⟨item, vs, h⟩ ← node .flow t us
    return ((← moreItems vs).map (item :: ·)).weaken (Nat.le_succ_of_le h)
  | [] => fail ⟨0, 0⟩
termination_by 4 * ts.length + 1
decreasing_by all_goals (simp only [List.length_cons] at *; omega)

/-- The items behind an item. -/
def moreItems (ts : List Token) : Rule (Parsed (List Node) ts) :=
  match ts with
  | ⟨.flowSequenceEnd, _⟩ :: us => do return ⟨[], us, by simp⟩
  | ⟨.flowEntry, _⟩ :: us => do return (← flowItems us).weaken (by simp)
  | t :: _ => fail t.mark
  | [] => fail ⟨0, 0⟩
termination_by 4 * ts.length + 1
decreasing_by all_goals (simp only [List.length_cons] at *; omega)

/-- The key of a single pair among the items of a sequence. Where it is left out, the token that
says so is passed over. -/
def pairKey (ts : List Token) : Rule (Parsed Node ts) :=
  match ts with
  | [] => fail ⟨0, 0⟩
  | t :: us => do
    if endsFlowPair t.kind then return ⟨.empty { mark := t.mark }, us, by simp⟩
    else return (← node .flow t us).weaken (by simp)
termination_by 4 * ts.length + 1
decreasing_by all_goals (simp only [List.length_cons] at *; omega)

def pairValue (ts : List Token) : Rule (Parsed Node ts) :=
  match ts with
  | ⟨.value, _⟩ :: us => do
    return (← nodeUnless (fun k => k == .flowEntry || k == .flowSequenceEnd) .flow us).weaken
      (by simp)
  | t :: us => do return ⟨.empty { mark := t.mark }, t :: us, Nat.le_refl _⟩
  | [] => fail ⟨0, 0⟩
termination_by 4 * ts.length + 1
decreasing_by all_goals (simp only [List.length_cons] at *; omega)

/-- The entries behind an opening brace or a comma. -/
def flowEntries (ts : List Token) : Rule (Parsed (List (Node × Node)) ts) :=
  match ts with
  | ⟨.flowMappingEnd, _⟩ :: us => do return ⟨[], us, by simp⟩
  | ⟨.key, _⟩ :: us => do
    let ⟨key, vs, h⟩ ← nodeUnless endsFlowPart .flow us
    let ⟨value, ws, h'⟩ ← flowValue vs
    return ((← moreEntries ws).map ((key, value) :: ·)).weaken
      (Nat.le_succ_of_le (Nat.le_trans h' h))
  | t :: us => do
    let ⟨key, vs, h⟩ ← node .flow t us
    let value : Node := .empty { mark := t.mark }
    return ((← moreEntries vs).map ((key, value) :: ·)).weaken (Nat.le_succ_of_le h)
  | [] => fail ⟨0, 0⟩
termination_by 4 * ts.length + 1
decreasing_by all_goals (simp only [List.length_cons] at *; omega)

/-- The entries behind an entry. -/
def moreEntries (ts : List Token) : Rule (Parsed (List (Node × Node)) ts) :=
  match ts with
  | ⟨.flowMappingEnd, _⟩ :: us => do return ⟨[], us, by simp⟩
  | ⟨.flowEntry, _⟩ :: us => do return (← flowEntries us).weaken (by simp)
  | t :: _ => fail t.mark
  | [] => fail ⟨0, 0⟩
termination_by 4 * ts.length + 1
decreasing_by all_goals (simp only [List.length_cons] at *; omega)

def flowValue (ts : List Token) : Rule (Parsed Node ts) :=
  match ts with
  | ⟨.value, _⟩ :: us => do
    return (← nodeUnless (fun k => k == .flowEntry || k == .flowMappingEnd) .flow us).weaken
      (by simp)
  | t :: us => do return ⟨.empty { mark := t.mark }, t :: us, Nat.le_refl _⟩
  | [] => fail ⟨0, 0⟩
termination_by 4 * ts.length + 1
decreasing_by all_goals (simp only [List.length_cons] at *; omega)

end

/-! ## Documents -/

def isDirective : TokenKind → Bool
  | .version _ _ => true
  | .tagDirective _ _ => true
  | _ => false

/-- The handles that are known without a directive. -/
def defaultHandles : Handles :=
  [("!", "!".toUTF8.toList), ("!!", "tag:yaml.org,2002:".toUTF8.toList)]

/-- The handles of directives. A version may be given once and has to be 1.1 or 1.2. -/
def handles (versioned : Bool) (known : Handles) : List Token → Except Error Handles
  | [] => .ok known
  | ⟨.version major minor, mark⟩ :: rest =>
    if versioned || major ≠ 1 || (minor ≠ 1 && minor ≠ 2) then .error (.malformed mark)
    else handles true known rest
  | ⟨.tagDirective handle expansion, mark⟩ :: rest =>
    if (known.lookup handle).isSome then .error (.malformed mark)
    else handles versioned (known ++ [(handle, expansion)]) rest
  | ⟨_, mark⟩ :: _ => .error (.malformed mark)

/-- The tokens in front of which a document is empty. -/
def endsDocument (kind : TokenKind) : Bool :=
  isDirective kind || kind == .documentStart || kind == .documentEnd || kind == .streamEnd

/-- The root of a document, with or without directives and a start marker. -/
def document (tokens : List Token) : Except Error (Parsed Node tokens) := do
  let directives := tokens.takeWhile (isDirective ·.kind)
  let known ← handles false [] directives
  let read {ts : List Token} (rule : Rule (Parsed Node ts)) : Except Error (Parsed Node ts) := do
    return (← (rule.run (known ++ defaultHandles)).run []).1
  match h : tokens.drop directives.length with
  | ⟨.documentStart, _⟩ :: ts =>
    let p ← read (nodeUnless endsDocument ⟨true, false⟩ ts)
    return p.weaken (by have := congrArg List.length h; simp at this; omega)
  | t :: ts =>
    if !directives.isEmpty then throw (.malformed t.mark)
    let p ← read (node ⟨true, false⟩ t ts)
    return p.weaken (by have := congrArg List.length h; simp at this; omega)
  | [] => throw (.malformed ⟨0, 0⟩)

/-- The root of the only document of a text. A text without a document has none. -/
def ofTokens : List Token → Except Error (Option Node)
  | [⟨.streamEnd, _⟩] => .ok none
  | tokens => do
    let p ← document tokens
    match p.rest.dropWhile (·.kind == .documentEnd) with
    | [⟨.streamEnd, _⟩] => return some p.value
    | t :: _ => throw (.malformed t.mark)
    | [] => throw (.malformed ⟨0, 0⟩)

end LayeredConfig.Yaml.Node
