import LayeredConfig.Document.Inline
import LayeredConfig.Document.Line

/-!
# Reading a tree

The lines of a file are read into a tree. A block is the run of lines with one indentation and
the deeper lines between them; comments before a line belong to that line, and those behind the
last line belong to the file. Every step uses up lines or shortens one, so reading ends.
-/

namespace LayeredConfig.Reader

/-- The lines still to be read, each with its number in the file. -/
abbrev Source := List (Nat × Line)

/-- Content counts for more the longer it is, so that a line without its dash counts for less. -/
def lineWeight : Line → Nat
  | .comment .. => 1
  | .content _ text => 1 + 2 * text.length

def weight : Source → Nat
  | [] => 0
  | (_, line) :: rest => lineWeight line + weight rest

/-! ## The next line of content -/

/-- A line of content with the comments before it and the lines behind it. -/
structure Step where
  comments : List String
  number : Nat
  indent : Nat
  text : List Char
  rest : Source

def next? : Source → Option Step
  | [] => none
  | (_, .comment _ text) :: rest =>
    (next? rest).map fun step => { step with comments := String.ofList text :: step.comments }
  | (number, .content indent text) :: rest => some ⟨[], number, indent, text, rest⟩

theorem weight_of_next? {src : Source} {step : Step} (h : next? src = some step) :
    weight step.rest + 2 * step.text.length < weight src := by
  induction src generalizing step with
  | nil => simp [next?] at h
  | cons first rest ih =>
    obtain ⟨number, line⟩ := first
    cases line with
    | comment indent text =>
      obtain ⟨inner, hinner, rfl⟩ := Option.map_eq_some_iff.1 h
      have := ih hinner
      simp only [weight, lineWeight]
      omega
    | content indent text =>
      obtain rfl := Option.some.inj h
      simp only [weight, lineWeight]
      omega

/-- The comments at the start, which are all that is left when no content follows. -/
def leadingComments : Source → List String
  | (_, .comment _ text) :: rest => String.ofList text :: leadingComments rest
  | _ => []

/-! ## Blocks -/

/-- Something read from the start of lines that weigh at most `bound`, with the lines behind it. -/
structure Parsed (α : Type) (bound : Nat) where
  value : α
  rest : Source
  le : weight rest ≤ bound

/-- A value and the comment on the line of its key. -/
abbrev Commented := Tree × Option String

def emptyScalar : Tree := .scalar {} "" .plain

/-- A value that stands on the line of its key or dash. -/
def inlineValue (text : List Char) : Except SyntaxFault Commented :=
  match text with
  | '\x7b' :: '\x7d' :: tail => return (.mapping {} [], ← Inline.trailingComment tail)
  | '\x7b' :: _ => .error .flowMapping
  | '[' :: ']' :: tail => return (.sequence {} [], ← Inline.trailingComment tail)
  | '[' :: _ => .error .flowSequence
  | '|' :: _ => .error .blockScalar
  | '>' :: _ => .error .blockScalar
  | '&' :: _ => .error .anchorOrAlias
  | '*' :: _ => .error .anchorOrAlias
  | '!' :: _ => .error .tag
  | _ => do
    let read ← Inline.scalar text
    return (.scalar {} (String.ofList read.text) read.style, ← Inline.trailingComment read.rest)

/-- Places a fault on a line. -/
def onLine {α : Type} (number : Nat) (result : Except SyntaxFault α) : Except SyntaxError α :=
  result.mapError (⟨number, ·⟩)

/-- Where the value of a key or an item stands. -/
inductive Placement where
  /-- On the lines below: its own line holds nothing but perhaps a comment. -/
  | below (comment : Option String)
  | inline

def placement (text : List Char) : Placement :=
  match text with
  | [] => .below none
  | '#' :: _ => .below (some (String.ofList text))
  | _ => .inline

/-- How an item goes on behind its dash. -/
inductive ItemStart where
  | below (comment : Option String)
  /-- The first key of a mapping stands on the line of the dash. -/
  | key
  | inline (value : Commented)

def itemStart (body : List Char) : Except SyntaxFault ItemStart :=
  match placement body with
  | .below comment => .ok (.below comment)
  | .inline =>
    if Inline.isItem body then .error .nestedInlineSequence
    else do
      match ← Inline.splitKey body with
      | some _ => return .key
      | none => return .inline (← inlineValue body)

mutual

/-- The entries of a mapping whose keys stand at `indent`. -/
def entries (indent : Nat) (src : Source) :
    Except SyntaxError (Parsed (List (Tree × Tree)) (weight src)) :=
  match hstep : next? src with
  | none => .ok ⟨[], src, Nat.le_refl _⟩
  | some step =>
    if step.indent < indent then .ok ⟨[], src, Nat.le_refl _⟩
    else if indent < step.indent then .error ⟨step.number, .unexpectedIndentation⟩
    else if Inline.isItem step.text then .error ⟨step.number, .itemAmongKeys⟩
    else do
      match ← onLine step.number (Inline.splitKey step.text) with
      | none => .error ⟨step.number, .missingKey⟩
      | some key =>
        have hlt := weight_of_next? hstep
        let ⟨(tree, comment), rest, hle⟩ ←
          value indent (Text.trimStart key.rest) step.number step.rest
        let ⟨more, rest', hle'⟩ ← entries indent rest
        let key := .scalar ⟨step.comments, comment, []⟩ (String.ofList key.text) key.style
        return ⟨(key, tree) :: more, rest', by omega⟩
termination_by (weight src, 0)

/-- The value behind the colon of a key that stands at `indent`. A sequence may stand there too. -/
def value (indent : Nat) (text : List Char) (number : Nat) (src : Source) :
    Except SyntaxError (Parsed Commented (weight src)) :=
  match placement text with
  | .inline => do
    return ⟨← onLine number (inlineValue text), src, Nat.le_refl _⟩
  | .below comment =>
    match next? src with
    | some step =>
      if Inline.isItem step.text && indent ≤ step.indent then do
        let ⟨items, rest, hle⟩ ← items step.indent src
        return ⟨(.sequence {} items, comment), rest, hle⟩
      else do
        let ⟨tree, rest, hle⟩ ← nested indent src
        return ⟨(tree, comment), rest, hle⟩
    | none => .ok ⟨(emptyScalar, comment), src, Nat.le_refl _⟩
termination_by (weight src, 2)

/-- The block under a line at `indent` that has no value of its own. -/
def nested (indent : Nat) (src : Source) : Except SyntaxError (Parsed Tree (weight src)) :=
  match next? src with
  | some step =>
    if step.indent ≤ indent then .ok ⟨emptyScalar, src, Nat.le_refl _⟩
    else if Inline.isItem step.text then do
      let ⟨items, rest, hle⟩ ← items step.indent src
      return ⟨.sequence {} items, rest, hle⟩
    else do
      let ⟨entries, rest, hle⟩ ← entries step.indent src
      return ⟨.mapping {} entries, rest, hle⟩
  | none => .ok ⟨emptyScalar, src, Nat.le_refl _⟩
termination_by (weight src, 1)

/-- The items of a sequence whose dashes stand at `indent`. -/
def items (indent : Nat) (src : Source) : Except SyntaxError (Parsed (List Tree) (weight src)) :=
  match hstep : next? src with
  | none => .ok ⟨[], src, Nat.le_refl _⟩
  | some step =>
    if step.indent < indent then .ok ⟨[], src, Nat.le_refl _⟩
    else match hbody : Inline.itemBody? step.text with
    | none =>
      if indent < step.indent then .error ⟨step.number, .unexpectedIndentation⟩
      else .ok ⟨[], src, Nat.le_refl _⟩
    | some body => do
      if indent < step.indent then .error ⟨step.number, .unexpectedIndentation⟩
      else
        have hlt := weight_of_next? hstep
        let ⟨tree, rest, hle⟩ ← item indent step body (Inline.length_of_itemBody? hbody)
        let ⟨more, rest', hle'⟩ ← items indent rest
        return ⟨tree.withHead step.comments :: more, rest', by omega⟩
termination_by (weight src, 0)

/-- One item from the line of its dash, `body` being what stands behind it. The keys of a mapping
that starts there line up with the first one. -/
def item (indent : Nat) (step : Step) (body : List Char) (h : body.length < step.text.length) :
    Except SyntaxError (Parsed Tree (weight step.rest + 2 * step.text.length)) := do
  match ← onLine step.number (itemStart body) with
  | .below comment =>
    let ⟨tree, rest, hle⟩ ← nested indent step.rest
    return ⟨tree.withLine comment, rest, by omega⟩
  | .key =>
    let column := indent + (step.text.length - body.length)
    let ⟨entries, rest, hle⟩ ←
      entries column ((step.number, .content column body) :: step.rest)
    return ⟨.mapping {} entries, rest, by simp only [weight, lineWeight] at hle; omega⟩
  | .inline (tree, comment) => return ⟨tree.withLine comment, step.rest, by omega⟩
termination_by (weight step.rest + 2 * step.text.length, 0)
decreasing_by
  · exact Prod.Lex.left _ _ (by omega)
  · exact Prod.Lex.left _ _ (by simp only [weight, lineWeight]; omega)

end

/-! ## Files -/

/-- The lines that a text holds, numbered from `number`. -/
def sourceOf (number : Nat) : List (List Char) → Except SyntaxError Source
  | [] => .ok []
  | raw :: rest =>
    match Line.read raw with
    | .tabIndentation => .error ⟨number, .tabIndentation⟩
    | .marker => sourceOf (number + 1) rest
    | .line line => do return (number, line) :: (← sourceOf (number + 1) rest)

/-- What a file holds: perhaps a mapping, and the comments behind it. -/
structure Content where
  root : Option Tree
  foot : List String

/-- The top-level mapping with the lines behind it. An empty mapping may be written as a pair of
braces. -/
def root (step : Step) (src : Source) : Except SyntaxError (Tree × Source) :=
  if Inline.isItem step.text then .error ⟨step.number, .topLevelNotMapping⟩
  else match step.text with
  | '\x7b' :: _ => do
    let (tree, comment) ← onLine step.number (inlineValue step.text)
    return (tree.withComments ⟨step.comments, comment, []⟩, step.rest)
  | _ => do
    let parsed ← entries step.indent src
    return (.mapping {} parsed.value, parsed.rest)

def read (text : List Char) : Except SyntaxError Content := do
  let src ← sourceOf 1 (Text.lines text)
  match next? src with
  | none => return ⟨none, leadingComments src⟩
  | some step =>
    let (tree, rest) ← root step src
    match next? rest with
    | some step => .error ⟨step.number, .unexpectedIndentation⟩
    | none => return ⟨some tree, leadingComments rest⟩

end LayeredConfig.Reader
