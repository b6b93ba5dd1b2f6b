import TurnEngine.Proofs.Json.Tokens

/-!
# Values, written and read

The text of a value without fractions, taken apart again, is the document of that value
(`readValue_chars`, by induction on the value), and a document of a plain value stands for that
value (`Plain.value?_document`). Together, printing and parsing a plain value gives it back
(`parse_render`). The reader's countdown is met by the length of the text: nothing it descends
into is longer than what stood there.
-/

namespace TurnEngine.Json

/-- A value in which all numbers are whole. -/
inductive Whole : Json → Prop
  | null : Whole .null
  | bool (b : Bool) : Whole (.bool b)
  | int (n : Int) : Whole (.int n)
  | str (s : String) : Whole (.str s)
  | arr {items : List Json} : (∀ v ∈ items, Whole v) → Whole (.arr items)
  | obj {fields : List (String × Json)} : (∀ f ∈ fields, Whole f.2) → Whole (.obj fields)

/-- A free-form value that nests at most some number of arrays and objects, with numbers that are
words: the keys of its objects ascend. -/
inductive Plain : Nat → Json → Prop
  | null (depth : Nat) : Plain depth .null
  | bool (depth : Nat) (b : Bool) : Plain depth (.bool b)
  | int (depth : Nat) {n : Int} : isWord n = true → Plain depth (.int n)
  | str (depth : Nat) (s : String) : Plain depth (.str s)
  | arr {depth : Nat} {items : List Json} : (∀ v ∈ items, Plain depth v) →
      Plain (depth + 1) (.arr items)
  | obj {depth : Nat} {fields : List (String × Json)} : fields.Pairwise (fun f g => f.1 < g.1) →
      (∀ f ∈ fields, Plain depth f.2) → Plain (depth + 1) (.obj fields)

theorem Plain.whole {depth : Nat} {v : Json} (h : Plain depth v) : Whole v := by
  induction h with
  | null => exact .null
  | bool _ b => exact .bool b
  | int _ _ => exact .int _
  | str _ s => exact .str s
  | arr _ ih => exact .arr ih
  | obj _ _ ih => exact .obj ih

mutual

/-- A value as it is written. Other numbers than whole ones are left out. -/
def document : Json → Document
  | .null => .null
  | .bool b => .bool b
  | .int n => .number (numeral n)
  | .float _ => .null
  | .str s => .text (pieces s)
  | .arr items => .array (itemDocuments items)
  | .obj fields => .object (fieldDocuments fields)

/-- The items of an array as they are written. -/
def itemDocuments : List Json → List Document
  | [] => []
  | v :: vs => document v :: itemDocuments vs

/-- The fields of an object as they are written. -/
def fieldDocuments : List (String × Json) → List (List Piece × Document)
  | [] => []
  | (k, v) :: fs => (pieces k, document v) :: fieldDocuments fs

end

/-! ## Taking a text apart -/

theorem skipSpace_cons {c : Char} (h : isSpace c = false) (cs : List Char) :
    skipSpace (c :: cs) = c :: cs :=
  List.dropWhile_cons_of_neg (by simp [h])

theorem isSpace_of_isDigit {c : Char} (h : c.isDigit = true) : isSpace c = false := by
  simp only [isSpace, Bool.or_eq_false_iff, decide_eq_false_iff_not]
  refine ⟨⟨⟨?_, ?_⟩, ?_⟩, ?_⟩ <;> rintro rfl <;> simp at h

/-- A text begins with the first character of a value. -/
def Begins (cs : List Char) : Prop :=
  ∃ c, cs.head? = some c ∧ isSpace c = false ∧ c ≠ ']' ∧ c ≠ '}'

theorem begins_chars {v : Json} (h : Whole v) (rest : List Char) : Begins (v.chars ++ rest) := by
  cases h with
  | null => exact ⟨'n', rfl, by decide⟩
  | bool b => cases b <;> exact ⟨_, rfl, by decide⟩
  | int n =>
    rw [chars, intText]
    split
    · exact ⟨'-', rfl, by decide⟩
    · cases hdigits : Decimal.digitsOf n.natAbs with
      | nil => simp [Decimal.digitsOf] at hdigits
      | cons c cs =>
        have hdigit := isDigit_of_mem_digitsOf (hdigits ▸ List.mem_cons_self)
        refine ⟨c, rfl, isSpace_of_isDigit hdigit, ?_, ?_⟩ <;> rintro rfl <;> simp at hdigit
  | str s => exact ⟨'"', rfl, by decide⟩
  | @arr items _ => cases items <;> exact ⟨'[', rfl, by decide⟩
  | @obj fields _ => cases fields <;> exact ⟨'{', rfl, by decide⟩

theorem stops_itemChars (items : List Json) (rest : List Char) :
    Stops (itemChars items ++ rest) := by
  cases items <;> exact stops_cons (by simp) _

theorem stops_fieldChars (fields : List (String × Json)) (rest : List Char) :
    Stops (fieldChars fields ++ rest) := by
  cases fields with
  | nil => exact stops_cons (by simp) _
  | cons f fs => exact stops_cons (by simp) _

/-- The reader finds a value at the start of a text. -/
def ReadsBack (v : Json) : Prop :=
  ∀ (n : Nat) (rest : List Char), v.chars.length ≤ n → Stops rest →
    readValue n (v.chars ++ rest) = .ok (document v, rest)

theorem readValue_int (i : Int) : ReadsBack (.int i) := by
  intro n rest hn hrest
  have hdigits := fun negative => readUnsigned_digitsOf negative i.natAbs hrest
  cases n with
  | zero =>
    rw [chars, intText] at hn
    split at hn <;> simp [Decimal.digitsOf] at hn
  | succ n =>
    rw [chars, intText, document, numeral]
    by_cases hneg : i < 0
    · rw [if_pos hneg, List.cons_append, readValue, skipSpace_cons (by decide)]
      simp [hdigits, hneg, bind, Except.bind, pure, Except.pure]
    · rw [if_neg hneg]
      have hread := hdigits false
      cases hcs : Decimal.digitsOf i.natAbs with
      | nil => simp [Decimal.digitsOf] at hcs
      | cons c cs =>
        have hdigit : c.isDigit = true := isDigit_of_mem_digitsOf (hcs ▸ List.mem_cons_self)
        rw [hcs, List.cons_append] at hread
        rw [List.cons_append, readValue, skipSpace_cons (isSpace_of_isDigit hdigit)]
        -- A digit is none of the characters by which the other kinds of values are known.
        split
        all_goals simp_all [bind, Except.bind, pure, Except.pure]

/-! What the reader does where another value or field begins. -/

section
variable {cs : List Char} (h : Begins cs) (n : Nat)
include h

theorem skipSpace_of_begins : skipSpace cs = cs := by
  obtain ⟨c, hhead, hspace, -, -⟩ := h
  obtain ⟨cs, rfl⟩ := List.head?_eq_some_iff.1 hhead
  exact skipSpace_cons hspace cs

theorem readValue_bracket :
    readValue (n + 1) ('[' :: cs) = do
      let (v, cs) ← readValue n cs
      let (vs, cs) ← readItems n cs
      return (.array (v :: vs), cs) := by
  have hskip := skipSpace_of_begins h
  obtain ⟨c, hhead, -, hbracket, -⟩ := h
  obtain ⟨cs, rfl⟩ := List.head?_eq_some_iff.1 hhead
  simp only [readValue, skipSpace_cons (show isSpace '[' = false by decide), hskip]
  split
  · simp_all
  · simp_all
  · rfl

theorem readItems_comma :
    readItems (n + 1) (',' :: cs) = do
      let (v, cs) ← readValue n cs
      let (vs, cs) ← readItems n cs
      return (v :: vs, cs) := by
  have hskip := skipSpace_of_begins h
  obtain ⟨c, hhead, -, hbracket, -⟩ := h
  obtain ⟨cs, rfl⟩ := List.head?_eq_some_iff.1 hhead
  simp only [readItems, skipSpace_cons (show isSpace ',' = false by decide), hskip]
  split
  · simp_all
  · simp_all
  · rfl

theorem readValue_brace :
    readValue (n + 1) ('{' :: cs) = do
      let (f, cs) ← readField n cs
      let (fs, cs) ← readFields n cs
      return (.object (f :: fs), cs) := by
  have hskip := skipSpace_of_begins h
  obtain ⟨c, hhead, -, -, hbrace⟩ := h
  obtain ⟨cs, rfl⟩ := List.head?_eq_some_iff.1 hhead
  simp only [readValue, skipSpace_cons (show isSpace '{' = false by decide), hskip]
  split
  · simp_all
  · simp_all
  · rfl

theorem readFields_comma :
    readFields (n + 1) (',' :: cs) = do
      let (f, cs) ← readField n cs
      let (fs, cs) ← readFields n cs
      return (f :: fs, cs) := by
  have hskip := skipSpace_of_begins h
  obtain ⟨c, hhead, -, -, hbrace⟩ := h
  obtain ⟨cs, rfl⟩ := List.head?_eq_some_iff.1 hhead
  simp only [readFields, skipSpace_cons (show isSpace ',' = false by decide), hskip]
  split
  · simp_all
  · simp_all
  · rfl

end

theorem begins_quoted (k : String) (rest : List Char) : Begins (quoted k.toList ++ rest) :=
  ⟨'"', rfl, by decide⟩

theorem readString_quoted (k : String) (rest : List Char) :
    readString (k.toList.flatMap escape ++ ['"'] ++ rest) = .ok (pieces k, rest) := by
  rw [List.append_assoc]
  exact readString_escaped k.toList rest

theorem length_quoted (cs : List Char) : 2 ≤ (quoted cs).length := by
  simp [quoted]

/-- A field whose value is read back is read back. -/
theorem readField_quoted {v : Json} (hv : ReadsBack v) (k : String) {n : Nat} {rest : List Char}
    (hn : v.chars.length < n) (hrest : Stops rest) :
    readField n (quoted k.toList ++ ':' :: (v.chars ++ rest)) =
      .ok ((pieces k, document v), rest) := by
  cases n with
  | zero => omega
  | succ n =>
    have hkey := readString_quoted k (':' :: (v.chars ++ rest))
    have hvalue := hv n rest (by omega) hrest
    rw [quoted, List.cons_append, readField]
    simp only [hkey, skipSpace_cons (show isSpace ':' = false by decide), bind, Except.bind, hvalue]
    rfl

theorem readItems_itemChars {items : List Json} (hwhole : ∀ v ∈ items, Whole v)
    (h : ∀ v ∈ items, ReadsBack v) {n : Nat} (hn : (itemChars items).length ≤ n)
    (rest : List Char) :
    readItems n (itemChars items ++ rest) = .ok (itemDocuments items, rest) := by
  induction items generalizing n with
  | nil =>
    obtain ⟨n, rfl⟩ := Nat.exists_eq_add_one.2 (show 0 < n by simp [itemChars] at hn; omega)
    simp [itemChars, readItems, skipSpace_cons (show isSpace ']' = false by decide),
      itemDocuments]
  | cons v vs ih =>
    simp only [itemChars, List.length_cons, List.length_append] at hn
    obtain ⟨n, rfl⟩ := Nat.exists_eq_add_one.2 (show 0 < n by omega)
    have hbegins := begins_chars (hwhole v List.mem_cons_self) (itemChars vs ++ rest)
    have hvalue := h v List.mem_cons_self n (itemChars vs ++ rest) (by omega)
      (stops_itemChars vs rest)
    have hmore := ih (fun u hu => hwhole u (List.mem_cons_of_mem v hu))
      (fun u hu => h u (List.mem_cons_of_mem v hu)) (n := n) (by omega)
    rw [itemChars, List.cons_append, List.append_assoc, readItems_comma hbegins]
    simp only [hvalue, hmore, bind, Except.bind, itemDocuments]
    rfl

theorem readFields_fieldChars {fields : List (String × Json)}
    (h : ∀ f ∈ fields, ReadsBack f.2) {n : Nat} (hn : (fieldChars fields).length ≤ n)
    (rest : List Char) :
    readFields n (fieldChars fields ++ rest) = .ok (fieldDocuments fields, rest) := by
  induction fields generalizing n with
  | nil =>
    obtain ⟨n, rfl⟩ := Nat.exists_eq_add_one.2 (show 0 < n by simp [fieldChars] at hn; omega)
    simp [fieldChars, readFields, skipSpace_cons (show isSpace '}' = false by decide),
      fieldDocuments]
  | cons f fs ih =>
    obtain ⟨k, v⟩ := f
    have hquoted := length_quoted k.toList
    simp only [fieldChars, List.length_cons, List.length_append] at hn
    obtain ⟨n, rfl⟩ := Nat.exists_eq_add_one.2 (show 0 < n by omega)
    have hbegins := begins_quoted k (':' :: (v.chars ++ (fieldChars fs ++ rest)))
    have hv : ReadsBack v := h (k, v) List.mem_cons_self
    have hfield := readField_quoted hv k (n := n) (by omega)
      (stops_fieldChars fs rest)
    have hmore := ih (fun u hu => h u (List.mem_cons_of_mem _ hu)) (n := n) (by omega)
    simp only [fieldChars, List.cons_append, List.append_assoc]
    rw [readFields_comma hbegins]
    simp only [hfield, hmore, bind, Except.bind, fieldDocuments]
    rfl

/-- Every value without fractions is read back from its text. -/
theorem readValue_chars {v : Json} (h : Whole v) : ReadsBack v := by
  induction h with
  | null =>
    intro n rest hn _
    obtain ⟨n, rfl⟩ := Nat.exists_eq_add_one.2 (show 0 < n by simp [chars] at hn; omega)
    rfl
  | bool b =>
    intro n rest hn _
    cases b <;>
      · obtain ⟨n, rfl⟩ := Nat.exists_eq_add_one.2 (show 0 < n by simp [chars] at hn; omega)
        rfl
  | int n => exact readValue_int n
  | str s =>
    intro n rest hn _
    obtain ⟨n, rfl⟩ := Nat.exists_eq_add_one.2 (show 0 < n by simp [chars, quoted] at hn; omega)
    rw [chars, quoted, List.cons_append, readValue, skipSpace_cons (by decide)]
    simp only [readString_quoted, bind, Except.bind, document]
    rfl
  | @arr items hitems ih =>
    intro n rest hn _
    cases items with
    | nil =>
      obtain ⟨n, rfl⟩ := Nat.exists_eq_add_one.2 (show 0 < n by simp [chars] at hn; omega)
      rfl
    | cons v vs =>
      simp only [chars, List.length_cons, List.length_append] at hn
      obtain ⟨n, rfl⟩ := Nat.exists_eq_add_one.2 (show 0 < n by omega)
      have hbegins := begins_chars (hitems v List.mem_cons_self) (itemChars vs ++ rest)
      have hvalue := ih v List.mem_cons_self n (itemChars vs ++ rest) (by omega)
        (stops_itemChars vs rest)
      have hmore := readItems_itemChars (fun u hu => hitems u (List.mem_cons_of_mem v hu))
        (fun u hu => ih u (List.mem_cons_of_mem v hu)) (n := n) (by omega) rest
      rw [chars, List.cons_append, List.append_assoc, readValue_bracket hbegins]
      simp only [hvalue, hmore, bind, Except.bind, document, itemDocuments]
      rfl
  | @obj fields hfields ih =>
    intro n rest hn _
    cases fields with
    | nil =>
      obtain ⟨n, rfl⟩ := Nat.exists_eq_add_one.2 (show 0 < n by simp [chars] at hn; omega)
      rfl
    | cons f fs =>
      obtain ⟨k, v⟩ := f
      have hquoted := length_quoted k.toList
      simp only [chars, List.length_cons, List.length_append] at hn
      obtain ⟨n, rfl⟩ := Nat.exists_eq_add_one.2 (show 0 < n by omega)
      have hbegins := begins_quoted k (':' :: (v.chars ++ (fieldChars fs ++ rest)))
      have hv : ReadsBack v := ih (k, v) List.mem_cons_self
      have hfield := readField_quoted hv k (n := n) (by omega)
        (stops_fieldChars fs rest)
      have hmore := readFields_fieldChars (fun u hu => ih u (List.mem_cons_of_mem _ hu))
        (n := n) (by omega) rest
      simp only [chars, List.cons_append, List.append_assoc]
      rw [readValue_brace hbegins]
      simp only [hfield, hmore, bind, Except.bind, document, fieldDocuments]
      rfl

/-- The text of a value without fractions is taken apart into the document of the value. -/
theorem read_chars {v : Json} (h : Whole v) : read v.chars = .ok (document v) := by
  have hvalue := readValue_chars h (v.chars.length + 1) [] (by omega) stops_nil
  rw [List.append_nil] at hvalue
  simp only [read, hvalue, bind, Except.bind]
  rfl

/-! ## The value of a document -/

/-- A field whose key comes after all others is put at the end. -/
theorem insertField_last {key : String} {value : Json} {fields : List (String × Json)}
    (h : ∀ f ∈ fields, f.1 < key) : insertField key value fields = fields ++ [(key, value)] := by
  induction fields with
  | nil => rfl
  | cons f fs ih =>
    obtain ⟨k, v⟩ := f
    have hlt : k < key := h (k, v) List.mem_cons_self
    have hne : key ≠ k := by
      rintro rfl
      exact String.lt_irrefl _ hlt
    rw [insertField, if_neg (String.lt_asymm hlt), if_neg hne,
      ih fun f hf => h f (List.mem_cons_of_mem _ hf)]
    rfl

/-- Ascending fields are sorted as they are. -/
theorem sortFields_of_ascending {fields : List (String × Json)}
    (h : fields.Pairwise fun f g => f.1 < g.1) : sortFields fields = fields := by
  have hfold (done : List (String × Json)) (hall : (done ++ fields).Pairwise fun f g => f.1 < g.1) :
      fields.foldl (fun acc f => insertField f.1 f.2 acc) done = done ++ fields := by
    clear h
    induction fields generalizing done with
    | nil => simp
    | cons f fs ih =>
      have hlast : ∀ g ∈ done, g.1 < f.1 := fun g hg =>
        (List.pairwise_append.1 hall).2.2 g hg f List.mem_cons_self
      rw [List.foldl_cons, insertField_last hlast, ih _ (by simpa using hall)]
      simp
  exact hfold [] h

theorem itemValues?_itemDocuments {depth : Nat} {items : List Json}
    (h : ∀ v ∈ items, (document v).value? depth = some v) :
    Document.itemValues? depth (itemDocuments items) = some items := by
  induction items with
  | nil => rfl
  | cons v vs ih =>
    have hvalue := h v List.mem_cons_self
    have hmore := ih fun u hu => h u (List.mem_cons_of_mem v hu)
    simp [itemDocuments, Document.itemValues?, hvalue, hmore]

theorem fieldValues?_fieldDocuments {depth : Nat} {fields : List (String × Json)}
    (h : ∀ f ∈ fields, (document f.2).value? depth = some f.2) :
    Document.fieldValues? depth (fieldDocuments fields) = some fields := by
  induction fields with
  | nil => rfl
  | cons f fs ih =>
    obtain ⟨k, v⟩ := f
    have hvalue := h (k, v) List.mem_cons_self
    have hmore := ih fun u hu => h u (List.mem_cons_of_mem _ hu)
    simp only at hvalue
    simp [fieldDocuments, Document.fieldValues?, string?_pieces, hvalue, hmore]

theorem Plain.value?_document {depth : Nat} {v : Json} (h : Plain depth v) :
    (document v).value? depth = some v := by
  induction h with
  | null => simp [document, Document.value?]
  | bool => simp [document, Document.value?]
  | int _ hn => simp [document, Document.value?, value?_numeral hn]
  | str => simp [document, Document.value?, string?_pieces]
  | arr _ ih => simp [document, Document.value?, itemValues?_itemDocuments ih]
  | obj hascending _ ih =>
    simp [document, Document.value?, fieldValues?_fieldDocuments ih, object,
      sortFields_of_ascending hascending]

/-- The text of a plain value within the nesting limit stands for that value. -/
theorem parse_render {v : Json} (h : Plain nestingLimit v) : parse v.render = some v := by
  rw [parse, render, String.toList_ofList, read_chars h.whole]
  exact h.value?_document

end TurnEngine.Json
