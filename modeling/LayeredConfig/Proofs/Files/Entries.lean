import Mathlib.Data.List.Nodup
import LayeredConfig.Proofs.Files.Names

/-!
# Entries behind an operation

Putting an entry at a location changes nothing at other locations. Moving an entry leaves nothing
in its old place, and the name of a temporary file is always a free one.
-/

namespace LayeredConfig.Disk

variable {d d' : Disk} {location l : Location} {node : FileNode}
  {nodes : List (Location × FileNode)}

/-! ## New entries -/

theorem node?_of_ne_nil (h : l ≠ []) (d : Disk) : d.node? l = d.nodes.lookup l := by
  rw [node?, if_neg h]

theorem lookup_filter_ne (h : l ≠ location) :
    (nodes.filter (·.1 ≠ location)).lookup l = nodes.lookup l := by
  induction nodes with
  | nil => rfl
  | cons entry nodes ih =>
    by_cases hentry : entry.1 = location
    · have hl : (l == entry.1) = false := beq_eq_false_iff_ne.2 (hentry ▸ h)
      rw [List.filter_cons, if_neg (by simpa using hentry), ih, List.lookup_cons, hl]
    · rw [List.filter_cons, if_pos (by simpa using hentry), List.lookup_cons, List.lookup_cons, ih]

theorem lookup_filter_self : (nodes.filter (·.1 ≠ location)).lookup location = none := by
  rw [List.lookup_eq_none_iff]
  intro entry hmem
  have hne : entry.1 ≠ location := of_decide_eq_true (List.mem_filter.1 hmem).2
  exact bne_iff_ne.2 (Ne.symm hne)

theorem node?_insert_self (h : location ≠ []) : (d.insert location node).node? location = some node := by
  rw [node?_of_ne_nil h, insert, List.lookup_append, lookup_filter_self, List.lookup_cons, beq_self_eq_true]
  rfl

theorem node?_insert_of_ne (h : l ≠ location) : (d.insert location node).node? l = d.node? l := by
  by_cases hnil : l = []
  · rw [node?, node?, if_pos hnil, if_pos hnil]
  · rw [node?_of_ne_nil hnil, node?_of_ne_nil hnil, insert, List.lookup_append, lookup_filter_ne h,
      List.lookup_cons, beq_eq_false_iff_ne.2 h]
    cases d.nodes.lookup l <;> rfl

theorem node?_erase_of_ne (h : l ≠ location) : (d.erase location).node? l = d.node? l := by
  by_cases hnil : l = []
  · rw [node?, node?, if_pos hnil, if_pos hnil]
  · rw [node?_of_ne_nil hnil, node?_of_ne_nil hnil, erase, lookup_filter_ne h]

/-! ## Moved entries -/

/-- Where an entry stands when all that is at or below `source` was moved to `target`. -/
def moved (source target l : Location) : Location :=
  if source.isPrefixOf l then target ++ l.drop source.length else l

theorem moved_below {source target : Location} (h : source <+: l) :
    moved source target l = target ++ l.drop source.length :=
  if_pos (List.isPrefixOf_iff_prefix.2 h)

theorem moved_of_not_below {source target : Location} (h : ¬ source <+: l) :
    moved source target l = l :=
  if_neg fun hprefix ↦ h (List.isPrefixOf_iff_prefix.1 hprefix)

theorem nodes_move (d : Disk) (source target : Location) :
    (d.move source target).nodes =
      (d.nodes.filter (·.1 ≠ target)).map fun entry ↦ (moved source target entry.1, entry.2) := by
  apply List.map_congr_left
  rintro ⟨l, node⟩ -
  dsimp only [moved]
  split <;> rfl

theorem lookup_map_moved {source target l' : Location}
    (h : ∀ entry ∈ nodes, moved source target entry.1 = l ↔ entry.1 = l') :
    (nodes.map fun entry ↦ (moved source target entry.1, entry.2)).lookup l = nodes.lookup l' := by
  induction nodes with
  | nil => rfl
  | cons entry nodes ih =>
    obtain ⟨hentry, hrest⟩ := List.forall_mem_cons.1 h
    have hbeq : (l == moved source target entry.1) = (l' == entry.1) := by
      rw [Bool.eq_iff_iff, beq_iff_eq, beq_iff_eq, eq_comm, hentry, eq_comm]
    rw [List.map_cons, List.lookup_cons, List.lookup_cons, ih hrest, hbeq]

variable {source target : Location}

theorem node?_move_target (hsource : source ≠ []) (htarget : target ≠ []) (hne : source ≠ target) :
    (d.move source target).node? target = d.node? source := by
  have hmoved : ∀ entry ∈ d.nodes.filter (·.1 ≠ target),
      moved source target entry.1 = target ↔ entry.1 = source := by
    intro entry hmem
    have hentry : entry.1 ≠ target := of_decide_eq_true (List.mem_filter.1 hmem).2
    by_cases hprefix : source <+: entry.1
    · obtain ⟨below, hbelow⟩ := hprefix
      rw [← hbelow, moved_below (List.prefix_append ..), List.drop_left,
        List.append_right_eq_self, List.append_right_eq_self]
    · rw [moved_of_not_below hprefix]
      exact iff_of_false hentry fun heq ↦ hprefix (heq ▸ List.prefix_refl _)
  rw [node?_of_ne_nil htarget, node?_of_ne_nil hsource, nodes_move, lookup_map_moved hmoved,
    lookup_filter_ne hne]

theorem node?_move_of_not_below (hsource : ¬ source <+: l) (htarget : ¬ target <+: l) :
    (d.move source target).node? l = d.node? l := by
  have hmoved : ∀ entry ∈ d.nodes.filter (·.1 ≠ target),
      moved source target entry.1 = l ↔ entry.1 = l := by
    intro entry _
    by_cases hprefix : source <+: entry.1
    · rw [moved_below hprefix]
      exact iff_of_false (fun heq ↦ htarget (heq ▸ List.prefix_append ..))
        fun heq ↦ hsource (heq ▸ hprefix)
    · rw [moved_of_not_below hprefix]
  have hne : l ≠ target := fun heq ↦ htarget (heq ▸ List.prefix_refl _)
  by_cases hnil : l = []
  · rw [node?, node?, if_pos hnil, if_pos hnil]
  · rw [node?_of_ne_nil hnil, node?_of_ne_nil hnil, nodes_move, lookup_map_moved hmoved,
      lookup_filter_ne hne]

/-- What was moved away is gone. -/
theorem node?_move_source (hne : source ≠ []) (htarget : ¬ target <+: source) :
    (d.move source target).node? source = none := by
  rw [node?_of_ne_nil hne, nodes_move, List.lookup_eq_none_iff]
  intro entry hmem
  obtain ⟨old, -, rfl⟩ := List.mem_map.1 hmem
  rw [bne_iff_ne]
  intro heq
  by_cases hprefix : source <+: old.1
  · rw [moved_below hprefix] at heq
    exact htarget (heq ▸ List.prefix_append ..)
  · rw [moved_of_not_below hprefix] at heq
    exact hprefix (heq ▸ List.prefix_refl _)

/-! ## Fresh names -/

theorem toList_temporaryName (number : Nat) :
    (temporaryName number).toList = ['.', 't', 'm', 'p'] ++ Nat.toDigits 10 number := by
  rw [temporaryName, String.toList_append, Nat.toString_eq_ofList_toDigits]
  exact congrArg _ String.toList_ofList

theorem temporaryName_injective {number number' : Nat}
    (h : temporaryName number = temporaryName number') : number = number' := by
  have hchars := congrArg String.toList h
  rw [toList_temporaryName, toList_temporaryName] at hchars
  have hdigits : Nat.toDigits 10 number = Nat.toDigits 10 number' := List.append_cancel_left hchars
  rw [← Nat.ofDigitChars_toDigits (n := number) (b := 10) (by decide) (by decide), hdigits,
    Nat.ofDigitChars_toDigits (by decide) (by decide)]

theorem isName_temporaryName (number : Nat) : Path.IsName (temporaryName number) := by
  have hdigit : ∀ c ∈ Nat.toDigits 10 number, c.isDigit = true :=
    fun c hc ↦ Nat.isDigit_of_mem_toDigits (by decide) (by decide) hc
  refine ⟨?_, ?_, ?_⟩
  · rw [toList_temporaryName]
    exact List.cons_ne_nil _ _
  · rw [toList_temporaryName, List.mem_append]
    rintro (hmem | hmem)
    · revert hmem
      decide
    · exact absurd (hdigit _ hmem) (by decide)
  · rw [toList_temporaryName, List.getLast?_append_of_ne_nil _ Nat.toDigits_ne_nil]
    rintro c hc rfl
    exact absurd (hdigit _ (List.mem_of_getLast? hc)) (by decide)

theorem freshName_eq (d : Disk) (directory : Location) :
    ∃ number, d.freshName directory = temporaryName number := by
  unfold freshName
  dsimp only
  split
  · exact ⟨_, rfl⟩
  · exact ⟨_, rfl⟩

theorem isName_freshName (d : Disk) (directory : Location) :
    Path.IsName (d.freshName directory) := by
  obtain ⟨number, hnumber⟩ := freshName_eq d directory
  rw [hnumber]
  exact isName_temporaryName number

/-- There are more names than entries. -/
theorem node?_freshName (d : Disk) (directory : Location) :
    d.node? (directory ++ [d.freshName directory]) = none := by
  unfold freshName
  dsimp only
  split
  · rename_i number hfound
    have hnone := List.find?_some hfound
    exact Option.isNone_iff_eq_none.1 hnone
  · rename_i hnone
    exfalso
    have htaken : (List.range (d.nodes.length + 1)).map
        (fun number ↦ directory ++ [temporaryName number]) ⊆ d.nodes.map Prod.fst := by
      intro l hl
      obtain ⟨number, hmem, rfl⟩ := List.mem_map.1 hl
      have htaken := List.find?_eq_none.1 hnone number hmem
      rw [Option.isNone_iff_eq_none, node?_of_ne_nil (List.concat_ne_nil _ _), ← ne_eq,
        Option.ne_none_iff_isSome, List.lookup_isSome_iff] at htaken
      obtain ⟨entry, hentry, hkey⟩ := htaken
      exact List.mem_map.2 ⟨entry, hentry, (beq_iff_eq.1 hkey).symm⟩
    have hnodup : ((List.range (d.nodes.length + 1)).map
        fun number ↦ directory ++ [temporaryName number]).Nodup := by
      refine List.nodup_range.map fun number number' heq ↦ ?_
      exact temporaryName_injective (List.cons.inj (List.append_cancel_left heq)).1
    have hlength := hnodup.length_le_of_subset htaken
    rw [List.length_map, List.length_map, List.length_range] at hlength
    omega

end LayeredConfig.Disk
