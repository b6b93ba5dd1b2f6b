import Mathlib.Data.List.DropRight
import TurnEngine.Text.Blank

/-!
# What trimming leaves

A trimmed text neither begins nor ends with a blank, and such a text is left as it is
(`trim_eq_self_iff`). Blanks around a text leave no trace in it (`trim_around`), and blanks around
what is left are all that a text loses (`exists_blanks`).
-/

namespace TurnEngine.Text

/-- Whether a text begins with a blank. -/
def beginsBlank (cs : List Char) : Bool :=
  cs.head?.any isBlank

/-- Whether a text ends with a blank. -/
def endsBlank (cs : List Char) : Bool :=
  cs.getLast?.any isBlank

/-- Whether a text has nothing but blanks. -/
def allBlank (cs : List Char) : Bool :=
  cs.all isBlank

variable {cs before after : List Char}

/-! ## One end -/

theorem trimStart_eq_self_iff : trimStart cs = cs ↔ beginsBlank cs = false := by
  rw [trimStart, List.dropWhile_eq_self_iff]
  cases cs <;> simp [beginsBlank]

theorem trimEnd_eq_self_iff : trimEnd cs = cs ↔ endsBlank cs = false := by
  have hright : trimEnd cs = cs.rdropWhile isBlank := rfl
  rw [hright, List.rdropWhile_eq_self_iff]
  by_cases hcs : cs = []
  · simp [hcs, endsBlank]
  · simp [hcs, endsBlank, List.getLast?_eq_some_getLast hcs]

theorem beginsBlank_of_prefix (h : before <+: cs) (hcs : beginsBlank cs = false) :
    beginsBlank before = false := by
  obtain ⟨rest, rfl⟩ := h
  cases before with
  | nil => rfl
  | cons c before => exact hcs

theorem trimEnd_append (h : allBlank after = true) : trimEnd (cs ++ after) = trimEnd cs := by
  have hall : ∀ c ∈ after.reverse, isBlank c = true := by simpa [allBlank] using h
  rw [trimEnd, List.reverse_append, List.dropWhile_append_of_pos hall, ← trimEnd]

/-! ## Both ends -/

theorem beginsBlank_trim (cs : List Char) : beginsBlank (trim cs) = false := by
  have hstart : beginsBlank (trimStart cs) = false :=
    trimStart_eq_self_iff.1 (List.dropWhile_idempotent isBlank cs)
  exact beginsBlank_of_prefix (List.rdropWhile_prefix isBlank _) hstart

theorem endsBlank_trim (cs : List Char) : endsBlank (trim cs) = false :=
  trimEnd_eq_self_iff.1 (List.rdropWhile_idempotent isBlank _)

theorem trim_eq_self_iff : trim cs = cs ↔ beginsBlank cs = false ∧ endsBlank cs = false := by
  constructor
  · intro h
    rw [← h]
    exact ⟨beginsBlank_trim cs, endsBlank_trim cs⟩
  · rintro ⟨hbegin, hend⟩
    rw [trim, trimStart_eq_self_iff.2 hbegin, trimEnd_eq_self_iff.2 hend]

/-- Blanks around a text are trimmed off. -/
theorem trim_around (hbefore : allBlank before = true) (hafter : allBlank after = true)
    (cs : List Char) : trim (before ++ cs ++ after) = trim cs := by
  have hall : ∀ c ∈ before, isBlank c = true := List.all_eq_true.1 hbefore
  have hstart : trimStart (before ++ cs ++ after) = trimStart (cs ++ after) := by
    rw [trimStart, List.append_assoc, List.dropWhile_append_of_pos hall, ← trimStart]
  rw [trim, hstart, trimStart, List.dropWhile_append, ← trimStart, ← trimStart]
  split
  · -- Nothing but blanks: the ones after the text are now at its start.
    rename_i hempty
    have hnone : trimStart after = [] := List.dropWhile_eq_nil_iff.2 (List.all_eq_true.1 hafter)
    rw [hnone, trim, List.isEmpty_iff.1 hempty]
  · rw [trimEnd_append hafter, trim]

/-- All that a text loses are blanks around what is left. -/
theorem exists_blanks (cs : List Char) :
    ∃ before after, allBlank before = true ∧ allBlank after = true ∧
      cs = before ++ trim cs ++ after := by
  refine ⟨cs.takeWhile isBlank, (trimStart cs).rtakeWhile isBlank, ?_, ?_, ?_⟩
  · exact List.all_eq_true.2 fun c => List.mem_takeWhile_imp
  · exact List.all_eq_true.2 fun c => List.mem_rtakeWhile_imp
  · have hend : trim cs ++ (trimStart cs).rtakeWhile isBlank = trimStart cs :=
      List.rdropWhile_append_rtakeWhile
    rw [List.append_assoc, hend]
    exact List.takeWhile_append_dropWhile.symm

end TurnEngine.Text
