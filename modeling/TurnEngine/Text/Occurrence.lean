/-!
# Occurrences of a pattern in a text

`occurs pat text` holds when the characters of `pat` stand side by side somewhere in `text`; it
is the infix relation of lists (`occurs_iff`), so more text around `text` never loses one
(`occurs_append`).
-/

namespace TurnEngine.Text

/-- Whether `pat` stands somewhere in a text. -/
def occurs (pat : List Char) : List Char → Bool
  | [] => pat.isEmpty
  | c :: cs => pat.isPrefixOf (c :: cs) || occurs pat cs

/-- A pattern occurs exactly in the texts that surround it. -/
theorem occurs_iff {pat text : List Char} :
    occurs pat text = true ↔ ∃ before after, text = before ++ pat ++ after := by
  induction text with
  | nil =>
    simp only [occurs, List.isEmpty_iff]
    constructor
    · rintro rfl
      exact ⟨[], [], rfl⟩
    · rintro ⟨b, a, h⟩
      have h := h.symm
      simp only [List.append_eq_nil_iff] at h
      exact h.1.2
  | cons c cs ih =>
    simp only [occurs, Bool.or_eq_true, List.isPrefixOf_iff_prefix, ih]
    constructor
    · rintro (⟨a, h⟩ | ⟨b, a, rfl⟩)
      · exact ⟨[], a, by simpa using h.symm⟩
      · exact ⟨c :: b, a, by simp⟩
    · rintro ⟨b, a, h⟩
      cases b with
      | nil => exact .inl ⟨a, by simpa using h.symm⟩
      | cons x xs =>
        simp only [List.cons_append, List.cons.injEq] at h
        exact .inr ⟨xs, a, by simpa using h.2⟩

/-- Text put around a text keeps every occurrence in it. -/
theorem occurs_append {pat text : List Char} (before after : List Char)
    (h : occurs pat text = true) : occurs pat (before ++ text ++ after) = true := by
  obtain ⟨b, a, rfl⟩ := occurs_iff.1 h
  exact occurs_iff.2 ⟨before ++ b, a ++ after, by simp⟩

end TurnEngine.Text
