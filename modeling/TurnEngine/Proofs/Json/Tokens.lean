import TurnEngine.Json.Printer
import TurnEngine.Json.Reader

/-!
# Numbers and strings, written and read

What the printer writes for a whole number and for a string is read back by the reader, with
whatever stands behind it left over: `readUnsigned_digitsOf` with `value?_numeral`, and
`readString_escaped` with `string?_pieces`.
-/

namespace TurnEngine.Json

/-- What may stand behind a value: nothing, a comma, or the end of an array or an object. -/
def Stops (rest : List Char) : Prop :=
  ∀ c, rest.head? = some c → c = ',' ∨ c = ']' ∨ c = '}'

theorem stops_nil : Stops [] := by
  intro c h
  cases h

theorem stops_cons {c : Char} (h : c = ',' ∨ c = ']' ∨ c = '}') (rest : List Char) :
    Stops (c :: rest) := by
  intro d hd
  rwa [← Option.some.inj hd]

/-! ## Whole numbers -/

/-- The digits of a natural number, as numbers. -/
def digits (n : Nat) : List Nat :=
  (Decimal.digitsOf n).map fun c => c.toNat - '0'.toNat

/-- A whole number as it is written. -/
def numeral (n : Int) : Numeral :=
  ⟨n < 0, digits n.natAbs, none, none⟩

theorem isDigit_of_mem_digitsOf {n : Nat} {c : Char} (h : c ∈ Decimal.digitsOf n) :
    c.isDigit = true :=
  Nat.isDigit_of_mem_toDigits (by decide) (by decide) h

theorem ofDigits_digits (n : Nat) : ofDigits (digits n) = n := by
  have hvalue : Nat.ofDigitChars 10 (Decimal.digitsOf n) 0 = n := Nat.ofDigitChars_ten_toDigits
  rw [Nat.ofDigitChars_eq_foldl] at hvalue
  rw [ofDigits, digits, List.foldl_map]
  exact hvalue

theorem digit?_of_stops {c : Char} {cs : List Char} (h : Stops (c :: cs)) : digit? c = none := by
  rcases h c rfl with rfl | rfl | rfl <;> decide

theorem readDigits_append {cs rest : List Char} (hcs : ∀ c ∈ cs, c.isDigit = true)
    (hrest : Stops rest) :
    readDigits (cs ++ rest) = (cs.map fun c => c.toNat - '0'.toNat, rest) := by
  induction cs with
  | nil =>
    cases rest with
    | nil => rfl
    | cons c rest =>
      have hdigit := digit?_of_stops hrest
      simp [readDigits, hdigit]
  | cons c cs ih =>
    have hdigit : digit? c = some (c.toNat - '0'.toNat) := by
      simp [digit?, hcs c List.mem_cons_self]
    have hmore := ih fun d hd => hcs d (List.mem_cons_of_mem c hd)
    simp [readDigits, hdigit, hmore]

theorem digits_of_lt {n : Nat} (h : n < 10) : digits n = [n] := by
  have hdigit : n.digitChar.toNat - '0'.toNat = n := Nat.toNat_digitChar_sub_48_of_lt_ten h
  rw [digits, Decimal.digitsOf, Nat.toDigits_of_lt_base h, List.map_singleton, hdigit]

theorem digits_of_le {n : Nat} (h : 10 ≤ n) : digits n = digits (n / 10) ++ [n % 10] := by
  have hlast : n % 10 < 10 := Nat.mod_lt n (by decide)
  rw [digits, Decimal.digitsOf, Nat.toDigits_of_base_le (by decide) h, List.map_append]
  exact congrArg (digits (n / 10) ++ [·]) (Nat.toNat_digitChar_sub_48_of_lt_ten hlast)

theorem digits_ne_nil (n : Nat) : digits n ≠ [] := by
  simp [digits, Decimal.digitsOf]

/-- Only zero is written with a leading zero. -/
theorem eq_zero_of_leading_zero {n : Nat} {ds : List Nat} (h : digits n = 0 :: ds) : n = 0 := by
  induction n using Nat.strongRecOn generalizing ds with
  | ind n ih =>
    by_cases hsmall : n < 10
    · rw [digits_of_lt hsmall] at h
      simp only [List.cons.injEq] at h
      exact h.1
    · rw [digits_of_le (by omega)] at h
      cases hmore : digits (n / 10) with
      | nil => exact absurd hmore (digits_ne_nil _)
      | cons d more =>
        rw [hmore, List.cons_append, List.cons.injEq] at h
        have hzero := ih (n / 10) (by omega) (hmore.trans (by rw [h.1]))
        omega

theorem readWhole_digitsOf (n : Nat) {rest : List Char} (hrest : Stops rest) :
    readWhole (Decimal.digitsOf n ++ rest) = .ok (digits n, rest) := by
  have hdigits : readDigits (Decimal.digitsOf n ++ rest) = (digits n, rest) :=
    readDigits_append (fun _ => isDigit_of_mem_digitsOf) hrest
  unfold readWhole
  rw [hdigits]
  match hds : digits n with
  | [] => exact absurd hds (digits_ne_nil n)
  | 0 :: d :: ds =>
    -- The reader would refuse digits behind a zero, but zero is written with one digit.
    obtain rfl := eq_zero_of_leading_zero hds
    simp [digits_of_lt] at hds
  | [0] => rfl
  | (_ + 1) :: _ => rfl

theorem readUnsigned_digitsOf (negative : Bool) (n : Nat) {rest : List Char} (hrest : Stops rest) :
    readUnsigned negative (Decimal.digitsOf n ++ rest) =
      .ok (⟨negative, digits n, none, none⟩, rest) := by
  have hfraction : readFraction rest = .ok (none, rest) := by
    unfold readFraction
    split
    · have hdot := hrest '.' rfl
      simp at hdot
    · rfl
  have hexponent : readExponent rest = .ok (none, rest) := by
    cases rest with
    | nil => rfl
    | cons c cs =>
      unfold readExponent
      rcases hrest c rfl with rfl | rfl | rfl <;> rfl
  unfold readUnsigned
  simp [readWhole_digitsOf n hrest, hfraction, hexponent, bind, Except.bind, pure, Except.pure]

/-- A whole number in the range of a word is what its digits say. -/
theorem value?_numeral {n : Int} (h : isWord n = true) : (numeral n).value? = some (.int n) := by
  have hwhole : (if n < 0 then -((n.natAbs : Nat) : Int) else (n.natAbs : Int)) = n := by
    split <;> omega
  simp only [Numeral.value?, numeral, ofDigits_digits, decide_eq_true_eq, hwhole]
  simp [h]
  omega

/-! ## Strings -/

theorem hexValue?_hexDigit {n : Nat} (h : n < 16) : hexValue? (hexDigit n) = some n := by
  have hall : ∀ n < 16, hexValue? (hexDigit n) = some n := by decide
  exact hall n h

/-- How a character of a string is taken apart again: a control character without a letter of its
own stands as a code unit. -/
def piece (c : Char) : Piece :=
  if c.toNat < 0x20 ∧ c ∉ ['\x08', '\x0c', '\n', '\r', '\t'] then .unit c.toNat else .char c

/-- A string as it is written. -/
def pieces (s : String) : List Piece :=
  s.toList.map piece

/-- The characters that are written as a backslash and a letter. -/
def shortEscaped : List Char := ['"', '\\', '\x08', '\x0c', '\n', '\r', '\t']

/-- A character is written with a letter of its own, as a code unit, or as it is. -/
theorem escape_cases (c : Char) :
    (∃ e, escape c = ['\\', e] ∧ shortEscape? e = some c ∧ piece c = .char c) ∨
    (c.toNat < 0x20 ∧ piece c = .unit c.toNat ∧
      escape c = ['\\', 'u', '0', '0', hexDigit (c.toNat / 16), hexDigit (c.toNat % 16)]) ∨
    (¬ c.toNat < 0x20 ∧ c ≠ '"' ∧ c ≠ '\\' ∧ piece c = .char c ∧ escape c = [c]) := by
  by_cases hshort : c ∈ shortEscaped
  · left
    simp only [shortEscaped, List.mem_cons, List.not_mem_nil, or_false] at hshort
    rcases hshort with rfl | rfl | rfl | rfl | rfl | rfl | rfl <;> exact ⟨_, rfl, rfl, rfl⟩
  · right
    simp only [shortEscaped, List.mem_cons, List.not_mem_nil, or_false, not_or] at hshort
    by_cases hcontrol : c.toNat < 0x20
    · left
      exact ⟨hcontrol, by simp [piece, hcontrol, hshort], by simp [escape, hcontrol, hshort]⟩
    · right
      exact ⟨hcontrol, hshort.1, hshort.2.1, by simp [piece, hcontrol],
        by simp [escape, hcontrol, hshort]⟩

/-- The reader takes what is written for a character as one piece. -/
theorem readString_escape (c : Char) {cs rest : List Char} {ps : List Piece}
    (h : readString cs = .ok (ps, rest)) :
    readString (escape c ++ cs) = .ok (piece c :: ps, rest) := by
  rcases escape_cases c with ⟨e, he, hshort, hpiece⟩ | ⟨hcontrol, hpiece, he⟩ |
    ⟨hprintable, hquote, hback, hpiece, he⟩
  · have hunit : e ≠ 'u' := by
      rintro rfl
      cases hshort
    rw [he, hpiece, List.cons_append, List.singleton_append, readString.eq_def]
    simp [hunit, hshort, h, bind, Except.bind, pure, Except.pure]
  · have hhigh := hexValue?_hexDigit (show c.toNat / 16 < 16 by omega)
    have hlow := hexValue?_hexDigit (show c.toNat % 16 < 16 by omega)
    have hzero : hexValue? '0' = some 0 := rfl
    have hunit : hexUnit? '0' '0' (hexDigit (c.toNat / 16)) (hexDigit (c.toNat % 16)) =
        some c.toNat := by
      simp [hexUnit?, hzero, hhigh, hlow]
      omega
    rw [he, hpiece]
    simp [readString, hunit, h, bind, Except.bind, pure, Except.pure]
  · rw [he, hpiece, List.singleton_append, readString.eq_def]
    simp [hprintable, hback, h, bind, Except.bind, pure, Except.pure]

theorem readString_escaped (cs rest : List Char) :
    readString (cs.flatMap escape ++ '"' :: rest) = .ok (cs.map piece, rest) := by
  induction cs with
  | nil => rfl
  | cons c cs ih =>
    rw [List.flatMap_cons, List.append_assoc]
    exact readString_escape c ih

theorem characters?_map_piece (cs : List Char) : characters? (cs.map piece) = some cs := by
  induction cs with
  | nil => rfl
  | cons c cs ih =>
    rw [List.map_cons]
    by_cases hunit : c.toNat < 0x20 ∧ c ∉ ['\x08', '\x0c', '\n', '\r', '\t']
    · have hleading : isLeading c.toNat = false := by
        simp only [isLeading, Bool.and_eq_false_iff, decide_eq_false_iff_not]
        omega
      have htrailing : isTrailing c.toNat = false := by
        simp only [isTrailing, Bool.and_eq_false_iff, decide_eq_false_iff_not]
        omega
      rw [piece, if_pos hunit, characters?.eq_def]
      simp [hleading, htrailing, ih]
    · rw [piece, if_neg hunit, characters?, ih]
      rfl

theorem string?_pieces (s : String) : string? (pieces s) = some s := by
  rw [string?, pieces, characters?_map_piece, Option.map_some, String.ofList_toList]

end TurnEngine.Json
