/-!
# Commands

A command line of the shell is a tree of commands, the leaves of which hold words. A word is a
list of parts, and a part is a text as it stands or something that a text is put in the place of
when the command runs. What is quoted is neither split into several words nor matched with the
names of files.
-/

namespace LayeredConfig.Shell

/-- What has a value that a word can ask for. -/
inductive Parameter where
  | named (name : String)
  | positional (number : Nat)
  /-- The positional parameters, each for itself. -/
  | each
  /-- The positional parameters as one text. -/
  | joined
  | count
  | status
  | process
  | background
  | flags
deriving DecidableEq, Repr, Inhabited

inductive RedirectionKind where
  | input
  /-- The contents of the file are dropped. -/
  | output
  | append
  | inputAndOutput
  | sameInput
  | sameOutput
  /-- The target itself is the text to read. -/
  | text
deriving DecidableEq, Repr

mutual

inductive Part where
  | text (quoted : Bool) (text : String)
  | home
  | parameter (quoted : Bool) (parameter : Parameter) (use : Use)
  /-- What a command writes. -/
  | output (quoted : Bool) (command : Command)
  /-- The value of an arithmetic expression. -/
  | value (quoted : Bool) (expression : List Part)

/-- What becomes of the value of a parameter. An empty value counts as missing if `orEmpty`. -/
inductive Use where
  | plain
  | length
  | orElse (orEmpty : Bool) (word : List Part)
  | assign (orEmpty : Bool) (word : List Part)
  | require (orEmpty : Bool) (word : List Part)
  | instead (orEmpty : Bool) (word : List Part)
  /-- Takes away the part at one end that matches a pattern. -/
  | trim (atEnd longest : Bool) (pattern : List Part)
  | invalid

inductive Redirection where
  | mk (descriptor : Nat) (kind : RedirectionKind) (target : List Part)

inductive Command where
  | nothing
  | simple (line : Nat) (assignments : List (String × List Part)) (words : List (List Part))
      (redirections : List Redirection)
  | redirected (line : Nat) (command : Command) (redirections : List Redirection)
  | negated (command : Command)
  | sequence (first second : Command)
  /-- The second command runs when the first one succeeds. -/
  | both (first second : Command)
  /-- The second command runs when the first one fails. -/
  | either (first second : Command)
  /-- Each command reads what the one before it writes. -/
  | pipeline (commands : List Command)
  | background (command : Command)
  | subshell (command : Command)
  | group (command : Command)
  | conditional (test yes no : Command)
  /-- Goes on as long as the test succeeds, or fails if `untilSuccess`. -/
  | loop (untilSuccess : Bool) (test body : Command)
  | forEach (line : Nat) (name : String) (words : List (List Part)) (body : Command)
  | choice (line : Nat) (word : List Part) (cases : List (List (List Part) × Command))
  | define (name : String) (body : Command)

end

abbrev Word := List Part

instance : Inhabited Command := ⟨.nothing⟩

/-- Puts an optional command in front of another. -/
def Command.after (first : Option Command) (second : Command) : Command :=
  match first with
  | none => second
  | some first => .sequence first second

namespace Word

/-- Puts a part in front of a word. Texts that are quoted alike become one. -/
def cons : Part → Word → Word
  | .text quoted text, .text quoted' text' :: rest =>
    if quoted = quoted' then .text quoted (text ++ text') :: rest
    else .text quoted text :: .text quoted' text' :: rest
  | part, word => part :: word

/-- The text of a word in which nothing is quoted and nothing has to be put in. -/
def plainText? : Word → Option String
  | [.text false text] => some text
  | _ => none

end Word

end LayeredConfig.Shell
