import LayeredConfig.Files.Disk

/-!
# Walks along names

A walk depends on the entries that it looks at and on nothing else. What a walk to a directory
looked at on its way leads to directories.
-/

namespace LayeredConfig.Disk

/-- The locations that a walk looks at. -/
def trail (d : Disk) (links : Nat) (directory : Location) (steps : List String) : List Location :=
  match steps with
  | [] => []
  | "." :: rest => d.trail links directory rest
  | ".." :: rest => d.trail links directory.dropLast rest
  | name :: rest =>
    (directory ++ [name]) ::
      match d.node? (directory ++ [name]) with
      | some .directory => d.trail links (directory ++ [name]) rest
      | some (.link target) =>
        match links with
        | 0 => []
        | links + 1 =>
          d.trail links (if target.isAbsolute then [] else directory) (target.steps ++ rest)
      | _ => []
termination_by (links, steps.length)

/-- Names without the single dots among them. -/
def undotted (steps : List String) : List String :=
  steps.filter (· ≠ ".")

/-- A location in a tree of directories. -/
def HasDirectory (d : Disk) (directory : Location) : Prop :=
  ∀ l, l <+: directory → d.node? l = some .directory

variable {d d' : Disk} {follow : Bool} {links : Nat} {directory goal : Location} {name : String}
  {steps rest : List String}

/-! ## Single dots -/

theorem undotted_cons (h : name ≠ ".") (rest : List String) :
    undotted (name :: rest) = name :: undotted rest := by
  rw [undotted, undotted, List.filter_cons, if_pos (decide_eq_true h)]

theorem undotted_append (steps steps' : List String) :
    undotted (steps ++ steps') = undotted steps ++ undotted steps' :=
  List.filter_append ..

theorem undotted_eq_cons (h : undotted steps = name :: undotted rest) :
    ∃ before rest', steps = before ++ name :: rest' ∧ undotted before = [] ∧
      undotted rest' = undotted rest := by
  obtain ⟨before, rest', rfl, hbefore, -, hrest⟩ := List.filter_eq_cons_iff.1 h
  exact ⟨before, rest', rfl, List.filter_eq_nil_iff.2 hbefore, hrest⟩

/-! ## Steps of a walk -/

/-- Walks go from names to shorter lists of names, or over a link of which there are fewer left. -/
@[elab_as_elim]
theorem walk_induction {motive : Nat → Location → List String → Prop}
    (nil : ∀ links directory, motive links directory [])
    (dot : ∀ links directory rest, motive links directory rest →
      motive links directory ("." :: rest))
    (up : ∀ links directory rest, motive links directory.dropLast rest →
      motive links directory (".." :: rest))
    (name : ∀ links directory name rest, name ≠ "." → name ≠ ".." →
      motive links (directory ++ [name]) rest →
      (∀ left base target, links = left + 1 → motive left base (Path.steps target ++ rest)) →
      motive links directory (name :: rest))
    (links : Nat) (directory : Location) (steps : List String) : motive links directory steps :=
  match steps with
  | [] => nil links directory
  | step :: rest => by
    by_cases hdot : step = "."
    · subst hdot
      exact dot links directory rest (walk_induction nil dot up name links directory rest)
    by_cases hup : step = ".."
    · subst hup
      exact up links directory rest (walk_induction nil dot up name links directory.dropLast rest)
    · refine name links directory step rest hdot hup
        (walk_induction nil dot up name links (directory ++ [step]) rest) ?_
      intro left base target hlinks
      exact walk_induction nil dot up name left base (target.steps ++ rest)
termination_by (links, steps.length)
decreasing_by
  · exact Prod.Lex.right _ (Nat.lt_succ_self _)
  · exact Prod.Lex.right _ (Nat.lt_succ_self _)
  · exact Prod.Lex.right _ (Nat.lt_succ_self _)
  · exact Prod.Lex.left _ _ (by omega)

theorem walk_nil : d.walk follow links directory [] = .ok (.found directory .directory) := by
  rw [walk]

theorem walk_dot : d.walk follow links directory ("." :: rest) = d.walk follow links directory rest := by
  rw [walk]

theorem walk_up :
    d.walk follow links directory (".." :: rest) = d.walk follow links directory.dropLast rest := by
  rw [walk]

/-- What a walk does at a proper name. -/
theorem walk_name (hdot : name ≠ ".") (hup : name ≠ "..") :
    d.walk follow links directory (name :: rest) =
      if name.utf8ByteSize > maxNameBytes then .error .nameTooLong
      else match d.node? (directory ++ [name]) with
      | none => if rest.isEmpty then .ok (.free directory name) else .error .notFound
      | some .directory => d.walk follow links (directory ++ [name]) rest
      | some (.file contents executable) =>
        if rest.isEmpty then .ok (.found (directory ++ [name]) (.file contents executable))
        else .error .notDirectory
      | some (.link target) =>
        if rest.isEmpty && !follow then .ok (.found (directory ++ [name]) (.link target))
        else match links with
        | 0 => .error .tooManyLinks
        | links + 1 =>
          d.walk follow links (if target.isAbsolute then [] else directory) (target.steps ++ rest) := by
  rw [walk]
  all_goals first | rfl | exact hdot | exact hup

theorem trail_name (hdot : name ≠ ".") (hup : name ≠ "..") :
    d.trail links directory (name :: rest) = (directory ++ [name]) ::
      match d.node? (directory ++ [name]) with
      | some .directory => d.trail links (directory ++ [name]) rest
      | some (.link target) =>
        match links with
        | 0 => []
        | links + 1 =>
          d.trail links (if target.isAbsolute then [] else directory) (target.steps ++ rest)
      | _ => [] := by
  rw [trail]
  · exact hdot
  · exact hup

/-- A walk depends on what it looks at. -/
theorem walk_congr (h : ∀ l ∈ d.trail links directory steps, d'.node? l = d.node? l) :
    d'.walk follow links directory steps = d.walk follow links directory steps := by
  induction links, directory, steps using walk_induction with
  | nil => rw [walk_nil, walk_nil]
  | dot links directory rest ih =>
    rw [trail] at h
    rw [walk_dot, walk_dot, ih h]
  | up links directory rest ih =>
    rw [trail] at h
    rw [walk_up, walk_up, ih h]
  | name links directory name rest hdot hup ih ihLink =>
    rw [trail_name hdot hup] at h
    obtain ⟨hhere, h⟩ := List.forall_mem_cons.1 h
    rw [walk_name hdot hup, walk_name hdot hup, hhere]
    split
    · rfl
    · split
      · rfl
      · rename_i hnode
        rw [hnode] at h
        exact ih h
      · rfl
      · rename_i target hnode
        rw [hnode] at h
        split
        · rfl
        · cases links with
          | zero => rfl
          | succ left => exact ihLink left _ target rfl h

/-! ## Walks to directories -/

theorem HasDirectory.dropLast (h : d.HasDirectory directory) : d.HasDirectory directory.dropLast :=
  fun l hl ↦ h l (hl.trans (List.dropLast_prefix directory))

theorem HasDirectory.root : d.HasDirectory [] := by
  intro l hl
  rw [List.prefix_nil.1 hl]
  rfl

theorem HasDirectory.concat (h : d.HasDirectory directory)
    (hnode : d.node? (directory ++ [name]) = some .directory) :
    d.HasDirectory (directory ++ [name]) := by
  intro l hl
  rcases List.prefix_concat_iff.1 hl with rfl | hl
  · exact hnode
  · exact h l hl

/-- What stands above an entry of a directory is a directory. -/
theorem HasDirectory.node?_of_above {above l : Location} (h : d.HasDirectory l.dropLast)
    (habove : above <+: l) (hne : l ≠ above) : d.node? above = some .directory := by
  rcases List.eq_nil_or_concat l with rfl | ⟨parents, last, rfl⟩
  · exact absurd (List.prefix_nil.1 habove).symm hne
  · rw [List.concat_eq_append] at h habove hne
    rw [List.dropLast_concat] at h
    rcases List.prefix_concat_iff.1 habove with heq | habove
    · exact absurd heq.symm hne
    · exact h above habove

/-- A walk looks at entries of directories only. -/
theorem hasDirectory_of_mem_trail (hdirectory : d.HasDirectory directory) {l : Location}
    (h : l ∈ d.trail links directory steps) : d.HasDirectory l.dropLast := by
  induction links, directory, steps using walk_induction with
  | nil => 
    rw [trail] at h
    cases h
  | dot links directory rest ih =>
    rw [trail] at h
    exact ih hdirectory h
  | up links directory rest ih =>
    rw [trail] at h
    exact ih hdirectory.dropLast h
  | name links directory name rest hdot hup ih ihLink =>
    rw [trail_name hdot hup] at h
    rcases List.mem_cons.1 h with rfl | h
    · rw [List.dropLast_concat]
      exact hdirectory
    · split at h
      · rename_i hnode
        exact ih (hdirectory.concat hnode) h
      · rename_i target hnode
        cases links with
        | zero => cases h
        | succ left =>
          refine ihLink left _ target rfl ?_ h
          split
          · exact .root
          · exact hdirectory
      · cases h

/-- A walk that ends in a directory, with the number of links that are then left. -/
inductive Arrives (d : Disk) : Nat → Location → List String → Nat → Location → Prop
  | done (links : Nat) (directory : Location) : Arrives d links directory [] links directory
  | dot {links left : Nat} {directory goal : Location} {rest : List String}
      (h : Arrives d links directory rest left goal) : Arrives d links directory ("." :: rest) left goal
  | up {links left : Nat} {directory goal : Location} {rest : List String}
      (h : Arrives d links directory.dropLast rest left goal) :
      Arrives d links directory (".." :: rest) left goal
  | enter {links left : Nat} {directory goal : Location} {name : String} {rest : List String}
      (hdot : name ≠ ".") (hup : name ≠ "..") (hsize : ¬ name.utf8ByteSize > maxNameBytes)
      (hnode : d.node? (directory ++ [name]) = some .directory)
      (h : Arrives d links (directory ++ [name]) rest left goal) :
      Arrives d links directory (name :: rest) left goal
  | follow {links left : Nat} {directory goal : Location} {name : String} {rest : List String}
      {target : Path} (hdot : name ≠ ".") (hup : name ≠ "..")
      (hsize : ¬ name.utf8ByteSize > maxNameBytes)
      (hnode : d.node? (directory ++ [name]) = some (.link target))
      (h : Arrives d links (if target.isAbsolute then [] else directory) (target.steps ++ rest) left
        goal) :
      Arrives d (links + 1) directory (name :: rest) left goal

theorem arrives_of_walk (h : d.walk true links directory steps = .ok (.found goal .directory)) :
    ∃ left, d.Arrives links directory steps left goal := by
  induction links, directory, steps using walk_induction with
  | nil links directory =>
    rw [walk_nil] at h
    cases h
    exact ⟨links, .done links _⟩
  | dot links directory rest ih =>
    rw [walk_dot] at h
    obtain ⟨left, h⟩ := ih h
    exact ⟨left, .dot h⟩
  | up links directory rest ih =>
    rw [walk_up] at h
    obtain ⟨left, h⟩ := ih h
    exact ⟨left, .up h⟩
  | name links directory name rest hdot hup ih ihLink =>
    rw [walk_name hdot hup] at h
    split at h
    · cases h
    rename_i hsize
    split at h
    · split at h <;> cases h
    · rename_i hnode
      obtain ⟨left, h⟩ := ih h
      exact ⟨left, .enter hdot hup hsize hnode h⟩
    · split at h <;> cases h
    · rename_i target hnode
      rw [Bool.not_true, Bool.and_false, if_neg Bool.false_ne_true] at h
      cases links with
      | zero => cases h
      | succ links =>
        obtain ⟨left, h⟩ := ihLink links _ target rfl h
        exact ⟨left, .follow hdot hup hsize hnode h⟩

/-- A walk that goes on behind some names has arrived in a directory there. -/
theorem arrives_of_walk_append {place : Place}
    (h : d.walk follow links directory (steps ++ name :: rest) = .ok place) :
    ∃ left goal, d.Arrives links directory steps left goal := by
  induction links, directory, steps using walk_induction with
  | nil links directory => exact ⟨_, _, .done links directory⟩
  | dot links directory more ih =>
    rw [List.cons_append, walk_dot] at h
    obtain ⟨left, goal, h⟩ := ih h
    exact ⟨left, goal, .dot h⟩
  | up links directory more ih =>
    rw [List.cons_append, walk_up] at h
    obtain ⟨left, goal, h⟩ := ih h
    exact ⟨left, goal, .up h⟩
  | name links directory first more hdot hup ih ihLink =>
    have hmore : (more ++ name :: rest).isEmpty = false := by
      cases more <;> rfl
    rw [List.cons_append, walk_name hdot hup] at h
    simp only [hmore, Bool.false_and, if_neg Bool.false_ne_true] at h
    split at h
    · cases h
    rename_i hsize
    split at h
    · cases h
    · rename_i hnode
      obtain ⟨left, goal, h⟩ := ih h
      exact ⟨left, goal, .enter hdot hup hsize hnode h⟩
    · cases h
    · rename_i target hnode
      cases links with
      | zero => cases h
      | succ links =>
        dsimp only at h
        rw [← List.append_assoc] at h
        obtain ⟨left, goal, h⟩ := ihLink links _ target rfl h
        exact ⟨left, goal, .follow hdot hup hsize hnode h⟩

namespace Arrives

variable {left : Nat}

/-- Behind the names that lead to a directory, the walk goes on from there. -/
theorem walk_append (h : d.Arrives links directory steps left goal) (follow : Bool) (name : String)
    (rest : List String) :
    d.walk follow links directory (steps ++ name :: rest) = d.walk follow left goal (name :: rest) := by
  induction h with
  | done => rfl
  | dot _ ih => rw [List.cons_append, walk_dot, ih]
  | up _ ih => rw [List.cons_append, walk_up, ih]
  | enter hdot hup hsize hnode _ ih =>
    rw [List.cons_append, walk_name hdot hup, if_neg hsize, hnode]
    exact ih
  | @follow links left directory goal first more target hdot hup hsize hnode _ ih =>
    have hmore : ((more ++ name :: rest).isEmpty && !follow) = false := by
      cases more <;> rfl
    rw [List.cons_append, walk_name hdot hup, if_neg hsize, hnode]
    simp only [hmore]
    rw [if_neg Bool.false_ne_true, ← List.append_assoc]
    exact ih

theorem walk_eq (h : d.Arrives links directory steps left goal) :
    d.walk true links directory steps = .ok (.found goal .directory) := by
  induction h with
  | done => exact walk_nil
  | dot _ ih => rw [walk_dot, ih]
  | up _ ih => rw [walk_up, ih]
  | enter hdot hup hsize hnode _ ih =>
    rw [walk_name hdot hup, if_neg hsize, hnode]
    exact ih
  | follow hdot hup hsize hnode _ ih =>
    rw [walk_name hdot hup, if_neg hsize, hnode]
    simp only [Bool.not_true, Bool.and_false]
    exact ih

/-- The first names on the way to a directory lead to a directory. -/
theorem of_append (h : d.Arrives links directory (steps ++ rest) left goal) :
    ∃ left goal, d.Arrives links directory steps left goal := by
  cases rest with
  | nil =>
    rw [List.append_nil] at h
    exact ⟨_, _, h⟩
  | cons name rest => exact arrives_of_walk_append h.walk_eq

/-- Files are of no use on the way to a directory. -/
theorem mono (h : d.Arrives links directory steps left goal)
    (hnodes : ∀ l node, d.node? l = some node → (∀ contents executable,
      node ≠ .file contents executable) → d'.node? l = some node) :
    d'.Arrives links directory steps left goal := by
  induction h with
  | done links directory => exact .done links directory
  | dot _ ih => exact .dot ih
  | up _ ih => exact .up ih
  | enter hdot hup hsize hnode _ ih =>
    exact .enter hdot hup hsize (hnodes _ _ hnode fun _ _ heq ↦ by cases heq) ih
  | follow hdot hup hsize hnode _ ih =>
    exact .follow hdot hup hsize (hnodes _ _ hnode fun _ _ heq ↦ by cases heq) ih

/-- Where the last link is not followed, there is something all the same. -/
theorem exists_found (h : d.Arrives links directory steps left goal) :
    ∃ l node, d.walk false links directory steps = .ok (.found l node) := by
  induction h with
  | done => exact ⟨_, _, walk_nil⟩
  | dot _ ih =>
    rw [walk_dot]
    exact ih
  | up _ ih =>
    rw [walk_up]
    exact ih
  | enter hdot hup hsize hnode _ ih =>
    rw [walk_name hdot hup, if_neg hsize, hnode]
    exact ih
  | @follow links left directory goal name rest target hdot hup hsize hnode _ ih =>
    rw [walk_name hdot hup, if_neg hsize, hnode]
    cases rest with
    | nil => exact ⟨_, _, rfl⟩
    | cons => exact ih

theorem dots (h : d.Arrives links directory steps left goal) {before : List String}
    (hdots : undotted before = []) : d.Arrives links directory (before ++ steps) left goal := by
  induction before with
  | nil => exact h
  | cons step before ih =>
    obtain ⟨hstep, hrest⟩ := List.forall_mem_cons.1 (List.filter_eq_nil_iff.1 hdots)
    obtain rfl : step = "." := by simpa using hstep
    exact .dot (ih (List.filter_eq_nil_iff.2 hrest))

/-- Single dots say nothing on the way to a directory. -/
theorem of_undotted {steps' : List String} (h : d.Arrives links directory steps left goal)
    (heq : undotted steps' = undotted steps) : d.Arrives links directory steps' left goal := by
  induction h generalizing steps' with
  | done links directory =>
    rw [← List.append_nil steps']
    exact (Arrives.done links directory).dots heq
  | dot _ ih => exact ih heq
  | up _ ih =>
    obtain ⟨before, rest, rfl, hbefore, hrest⟩ := undotted_eq_cons heq
    exact (Arrives.up (ih hrest)).dots hbefore
  | enter hdot hup hsize hnode _ ih =>
    rw [undotted_cons hdot] at heq
    obtain ⟨before, rest, rfl, hbefore, hrest⟩ := undotted_eq_cons heq
    exact (Arrives.enter hdot hup hsize hnode (ih hrest)).dots hbefore
  | follow hdot hup hsize hnode _ ih =>
    rw [undotted_cons hdot] at heq
    obtain ⟨before, rest, rfl, hbefore, hrest⟩ := undotted_eq_cons heq
    refine (Arrives.follow hdot hup hsize hnode (ih ?_)).dots hbefore
    rw [undotted_append, undotted_append, hrest]

/-- Every entry that is looked at on the way to a directory leads to a directory. -/
theorem of_mem_trail (h : d.Arrives links directory steps left goal) {l : Location}
    (hl : l ∈ d.trail links directory steps) :
    ∃ l' name links' left' goal', l = l' ++ [name] ∧ d.Arrives links' l' [name] left' goal' := by
  induction h with
  | done =>
    rw [trail] at hl
    cases hl
  | dot _ ih =>
    rw [trail] at hl
    exact ih hl
  | up _ ih =>
    rw [trail] at hl
    exact ih hl
  | enter hdot hup hsize hnode _ ih =>
    rw [trail_name hdot hup, hnode] at hl
    rcases List.mem_cons.1 hl with rfl | hl
    · exact ⟨_, _, _, _, _, rfl, .enter hdot hup hsize hnode (.done 0 _)⟩
    · exact ih hl
  | follow hdot hup hsize hnode h ih =>
    rw [trail_name hdot hup, hnode] at hl
    rcases List.mem_cons.1 hl with rfl | hl
    · obtain ⟨middle, l, htarget⟩ := h.of_append
      rw [← List.append_nil (Path.steps _)] at htarget
      exact ⟨_, _, _, _, _, rfl, .follow hdot hup hsize hnode htarget⟩
    · exact ih hl

/-- The way to a directory goes along directories. -/
theorem hasDirectory (h : d.Arrives links directory steps left goal)
    (hdirectory : d.HasDirectory directory) : d.HasDirectory goal := by
  induction h with
  | done => exact hdirectory
  | dot _ ih => exact ih hdirectory
  | up _ ih => exact ih hdirectory.dropLast
  | enter _ _ _ hnode _ ih => exact ih (hdirectory.concat hnode)
  | follow _ _ _ _ _ ih =>
    apply ih
    split
    · exact .root
    · exact hdirectory

/-- The way to a directory depends on what is looked at. -/
theorem congr (h : d.Arrives links directory steps left goal)
    (hsame : ∀ l ∈ d.trail links directory steps, d'.node? l = d.node? l) :
    d'.Arrives links directory steps left goal := by
  induction h with
  | done links directory => exact .done links directory
  | dot _ ih =>
    rw [trail] at hsame
    exact .dot (ih hsame)
  | up _ ih =>
    rw [trail] at hsame
    exact .up (ih hsame)
  | enter hdot hup hsize hnode _ ih =>
    rw [trail_name hdot hup, hnode] at hsame
    obtain ⟨hentry, hrest⟩ := List.forall_mem_cons.1 hsame
    exact .enter hdot hup hsize (hentry.trans hnode) (ih hrest)
  | follow hdot hup hsize hnode _ ih =>
    rw [trail_name hdot hup, hnode] at hsame
    obtain ⟨hentry, hrest⟩ := List.forall_mem_cons.1 hsame
    exact .follow hdot hup hsize (hentry.trans hnode) (ih hrest)

end Arrives

/-! ## Walks that find something -/

/-- From every entry that is looked at, the walk goes on to what it finds. -/
theorem walk_of_mem_trail {node : FileNode}
    (h : d.walk true links directory steps = .ok (.found goal node)) {l : Location}
    (hl : l ∈ d.trail links directory steps) :
    ∃ l' name links' rest, l = l' ++ [name] ∧ name ≠ "." ∧ name ≠ ".." ∧ links' ≤ links ∧
      d.walk true links' l' (name :: rest) = .ok (.found goal node) := by
  induction links, directory, steps using walk_induction with
  | nil =>
    rw [trail] at hl
    cases hl
  | dot links directory rest ih =>
    rw [walk_dot] at h
    rw [trail] at hl
    exact ih h hl
  | up links directory rest ih =>
    rw [walk_up] at h
    rw [trail] at hl
    exact ih h hl
  | name links directory name rest hdot hup ih ihLink =>
    rw [trail_name hdot hup] at hl
    rcases List.mem_cons.1 hl with rfl | hl
    · exact ⟨directory, name, links, rest, rfl, hdot, hup, Nat.le_refl _, h⟩
    · rw [walk_name hdot hup] at h
      split at h
      · cases h
      split at hl
      · rename_i hnode
        rw [hnode] at h
        exact ih h hl
      · rename_i target hnode
        rw [hnode] at h
        simp only [Bool.not_true, Bool.and_false] at h
        cases links with
        | zero => cases hl
        | succ links =>
          obtain ⟨l', name', links', rest', hl', hdot', hup', hle, hwalk⟩ := ihLink links _ target rfl h hl
          exact ⟨l', name', links', rest', hl', hdot', hup', Nat.le_succ_of_le hle, hwalk⟩
      · cases hl

/-- What is looked at on the way to something is there. -/
theorem node?_of_mem_trail {node : FileNode}
    (h : d.walk true links directory steps = .ok (.found goal node)) {l : Location}
    (hl : l ∈ d.trail links directory steps) : d.node? l ≠ none := by
  obtain ⟨l', name, links', rest, rfl, hdot, hup, -, hwalk⟩ := walk_of_mem_trail h hl
  intro hnone
  rw [walk_name hdot hup, hnone] at hwalk
  split at hwalk
  · cases hwalk
  · dsimp only at hwalk
    split at hwalk
    · cases hwalk
    · cases hwalk

/-- More links change nothing about a walk that did not run out of them. -/
theorem walk_more {outcome : Except FileError Place}
    (h : d.walk follow links directory steps = outcome) (hends : outcome ≠ .error .tooManyLinks)
    (more : Nat) : d.walk follow (links + more) directory steps = outcome := by
  induction links, directory, steps using walk_induction with
  | nil =>
    rw [walk_nil] at h
    rw [walk_nil, h]
  | dot links directory rest ih =>
    rw [walk_dot] at h
    rw [walk_dot, ih h]
  | up links directory rest ih =>
    rw [walk_up] at h
    rw [walk_up, ih h]
  | name links directory name rest hdot hup ih ihLink =>
    rw [walk_name hdot hup] at h
    rw [walk_name hdot hup]
    split at h
    · rename_i hsize
      rw [if_pos hsize]
      exact h
    rename_i hsize
    rw [if_neg hsize]
    split at h
    · exact h
    · exact ih h
    · exact h
    · rename_i target hnode
      split at h
      · rename_i hlast
        rw [if_pos hlast]
        exact h
      · rename_i hlast
        rw [if_neg hlast]
        cases links with
        | zero => exact absurd h.symm hends
        | succ links =>
          rw [Nat.succ_add]
          exact ihLink links _ target rfl h

/-- Where a walk ends does not depend on the number of links that it may follow. -/
theorem walk_unique {links' : Nat} {place place' : Place}
    (h : d.walk follow links directory steps = .ok place)
    (h' : d.walk follow links' directory steps = .ok place') : place' = place := by
  have hmore := walk_more h nofun links'
  have hmore' := walk_more h' nofun links
  rw [Nat.add_comm, hmore] at hmore'
  exact (Except.ok.inj hmore').symm

end LayeredConfig.Disk
