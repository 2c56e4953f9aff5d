/-!
# Paths

A path is a text of names between slashes. Empty names and single dots in it say nothing, apart
from a dot at the very start; a path keeps them as they were written. Nothing here looks at files.
-/

namespace LayeredConfig

structure Path where
  text : String
deriving DecidableEq, Repr

namespace Path

def chars (p : Path) : List Char :=
  p.text.toList

def isEmpty (p : Path) : Bool :=
  p.text.isEmpty

def isAbsolute (p : Path) : Bool :=
  p.chars.head? = some '/'

/-- The path of `part` as seen from `p`. An absolute part stands for itself. -/
def join (p : Path) (part : String) : Path :=
  if part.toList.head? = some '/' then ⟨part⟩
  else if p.isEmpty || p.chars.getLast? = some '/' then ⟨p.text ++ part⟩
  else ⟨p.text ++ "/" ++ part⟩

/-! ## Parents -/

/-- The start of a path that no parent can take away, and the names behind it. -/
def splitLead : List Char → List Char × List Char
  | '/' :: rest => (['/'], rest)
  | ['.'] => (['.'], [])
  | '.' :: '/' :: rest => (['.'], '/' :: rest)
  | names => ([], names)

/-- Drops what says nothing from the end of a text of names, which is given in reverse. -/
def dropEmptyNames : List Char → List Char
  | '/' :: rest => dropEmptyNames rest
  | ['.'] => []
  | '.' :: '/' :: rest => dropEmptyNames rest
  | names => names

/-- The text without its last name. The root and the empty path have no parent. -/
def parentChars? (text : List Char) : Option (List Char) :=
  let (lead, names) := splitLead text
  match dropEmptyNames names.reverse with
  | [] => if lead = ['.'] then some [] else none
  | last => some (lead ++ (dropEmptyNames (last.dropWhile (· != '/'))).reverse)

theorem length_splitLead (text : List Char) :
    (splitLead text).1.length + (splitLead text).2.length = text.length := by
  unfold splitLead
  split <;> simp <;> omega

theorem length_dropEmptyNames_le (names : List Char) :
    (dropEmptyNames names).length ≤ names.length := by
  fun_induction dropEmptyNames names with
  | case1 rest ih => simp only [List.length_cons]; omega
  | case2 => simp
  | case3 rest ih => simp only [List.length_cons]; omega
  | case4 => exact Nat.le_refl _

theorem head_dropEmptyNames {names rest : List Char} (c : Char)
    (h : dropEmptyNames names = c :: rest) : c ≠ '/' := by
  fun_induction dropEmptyNames names with
  | case1 _ ih => exact ih h
  | case2 => simp at h
  | case3 _ ih => exact ih h
  | case4 names hslash _ _ =>
    subst h
    intro hc
    exact hslash rest (by rw [hc])

theorem length_of_parentChars? {text parent : List Char} (h : parentChars? text = some parent) :
    parent.length < text.length := by
  unfold parentChars? at h
  have hlead := length_splitLead text
  rcases hl : splitLead text with ⟨lead, names⟩
  rw [hl] at h hlead
  have hnames := length_dropEmptyNames_le names.reverse
  simp only [List.length_reverse] at hnames
  simp only at h hlead
  split at h
  · split at h
    · rename_i hdot
      obtain rfl := Option.some.inj h
      rw [hdot] at hlead
      simp at hlead ⊢
      omega
    · simp at h
  · rename_i last hne
    obtain rfl := Option.some.inj h
    cases hd : dropEmptyNames names.reverse with
    | nil => exact absurd hd hne
    | cons c rest =>
      have hc := head_dropEmptyNames c hd
      have hdrop : ((c :: rest).dropWhile (· != '/')).length ≤ rest.length := by
        simp only [List.dropWhile_cons, bne_iff_ne, ne_eq, hc, not_false_eq_true, if_true]
        exact (List.dropWhile_sublist _).length_le
      have := length_dropEmptyNames_le ((c :: rest).dropWhile (· != '/'))
      rw [hd] at hnames
      simp only [List.length_append, List.length_reverse, List.length_cons] at *
      omega

def parent? (p : Path) : Option Path :=
  (parentChars? p.chars).map fun text => ⟨String.ofList text⟩

/-- The path itself, its parent, the parent of that one and so on. -/
def ancestors (p : Path) : List Path :=
  match hparent : parentChars? p.chars with
  | some parent =>
    have := length_of_parentChars? hparent
    p :: ancestors ⟨String.ofList parent⟩
  | none => [p]
termination_by p.chars.length
decreasing_by simpa [chars] using this

/-- The directory that holds the entry of a path, the working directory for a plain name. -/
def directory (p : Path) : Path :=
  match p.parent? with
  | none => ⟨"."⟩
  | some parent => if parent.isEmpty then ⟨"."⟩ else parent

/-! ## Steps -/

/-- The names between slashes. -/
def splitNames (current : List Char) : List Char → List (List Char)
  | [] => [current.reverse]
  | '/' :: rest => current.reverse :: splitNames [] rest
  | c :: rest => splitNames (c :: current) rest

def names (p : Path) : List String :=
  ((splitNames [] p.chars).filter fun name => !name.isEmpty).map String.ofList

def hasTrailingSlash (p : Path) : Bool :=
  p.chars.getLast? = some '/'

/-- The names to walk along. A slash at the end asks for a directory, as a dot does. -/
def steps (p : Path) : List String :=
  p.names ++ if p.hasTrailingSlash then ["."] else []

end Path

end LayeredConfig
