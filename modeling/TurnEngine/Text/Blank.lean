/-!
# Blank characters

The characters of Unicode property White_Space, and trimming them off the ends of a text.
-/

namespace TurnEngine.Text

/-- The code point ranges of property White_Space, in ascending order. -/
def blankRanges : List (Nat × Nat) :=
  [(0x09, 0x0D), (0x20, 0x20), (0x85, 0x85), (0xA0, 0xA0), (0x1680, 0x1680), (0x2000, 0x200A),
   (0x2028, 0x2029), (0x202F, 0x202F), (0x205F, 0x205F), (0x3000, 0x3000)]

/-- Whether a character is blank. -/
def isBlank (c : Char) : Bool :=
  blankRanges.any fun r => r.1 ≤ c.toNat && c.toNat ≤ r.2

/-- The text from its first character that is not blank. -/
def trimStart (cs : List Char) : List Char :=
  cs.dropWhile isBlank

/-- The text up to its last character that is not blank. -/
def trimEnd (cs : List Char) : List Char :=
  (cs.reverse.dropWhile isBlank).reverse

/-- The text without blanks at either end. -/
def trim (cs : List Char) : List Char :=
  trimEnd (trimStart cs)

/-! ## Small facts -/

/-- Trimming takes blanks away and nothing else. -/
theorem mem_trim {c : Char} (hc : isBlank c = false) {cs : List Char} : c ∈ trim cs ↔ c ∈ cs := by
  have hdrop (ds : List Char) : c ∈ ds.dropWhile isBlank ↔ c ∈ ds := by
    constructor
    · exact fun h => (List.dropWhile_sublist isBlank).subset h
    · intro h
      induction ds with
      | nil => cases h
      | cons d ds ih =>
        by_cases hd : isBlank d = true
        · rw [List.dropWhile_cons_of_pos hd]
          rcases List.mem_cons.1 h with rfl | h
          · simp [hc] at hd
          · exact ih h
        · rwa [List.dropWhile_cons_of_neg hd]
  unfold trim trimEnd trimStart
  rw [List.mem_reverse, hdrop, List.mem_reverse, hdrop]

end TurnEngine.Text
