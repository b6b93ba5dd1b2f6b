import TurnEngine.Proofs.Json.Values
import TurnEngine.Wire.Usage

/-!
# Records, written and read

What a reader finds in a document that was written: plain values (`word64_ofWord64`, `text_str`,
`named_str`), and the fields of a record, which are those that were written, each under its name
(`record_obj`, with `required_self` and its siblings). `Form.Lawful` says that a form reads what
it writes, wherever there is room for it. Such a form reads back the texts that it prints
(`Form.Lawful.roundTrips`).
-/

namespace TurnEngine.Wire

open Json

/-! ## Plain values -/

theorem isWord_of_lt {n : Nat} (h : n < UInt64.size) : isWord n = true := by
  have hleast : Int64.minValue.toInt ≤ 0 := by decide
  rw [isWord, Bool.and_eq_true, decide_eq_true_eq, decide_eq_true_eq]
  refine ⟨Int.le_trans hleast (Int.natCast_nonneg n), ?_⟩
  exact_mod_cast h

theorem below?_nat {n bound : Nat} (h : n < bound) (hword : bound ≤ UInt64.size) :
    below? bound (document (nat n)) = some n := by
  have hvalue := value?_numeral (isWord_of_lt (Nat.lt_of_lt_of_le h hword))
  have hrange : (decide (0 ≤ (n : Int)) && decide ((n : Int) < bound)) = true := by simpa using h
  rw [nat, document, below?, whole?, hvalue, Option.bind_some, if_pos hrange, Int.toNat_natCast]

theorem whole_ofWord64 (n : UInt64) : (ofWord64 n).Whole := .int _

theorem whole_ofWord32 (n : UInt32) : (ofWord32 n).Whole := .int _

theorem whole_ofOption (o : Option String) : (Json.ofOption .str o).Whole := by
  cases o with
  | none => exact .null
  | some s => exact .str s

section
variable (depth : Nat)

@[simp]
theorem word64_ofWord64 (n : UInt64) : word64 depth (document (ofWord64 n)) = some n := by
  rw [word64, ofWord64, below?_nat n.toNat_lt (Nat.le_refl _), Option.map_some, UInt64.ofNat_toNat]

@[simp]
theorem word32_ofWord32 (n : UInt32) : word32 depth (document (ofWord32 n)) = some n := by
  rw [word32, ofWord32, below?_nat n.toNat_lt (by decide), Option.map_some, UInt32.ofNat_toNat]

@[simp]
theorem text_str (s : String) : text depth (document (.str s)) = some s := by
  rw [document, text, string?_pieces]

@[simp]
theorem flag_bool (b : Bool) : flag depth (document (.bool b)) = some b := by
  rw [document, flag]

@[simp]
theorem maybe_ofOption (o : Option String) :
    maybe text depth (document (ofOption .str o)) = some o := by
  cases o with
  | none => simp [ofOption, document, maybe]
  | some s =>
    have htext := text_str depth s
    rw [document] at htext
    simp [ofOption, document, maybe, htext]

/-- A name is read as the value it was written for, if no two values share it. -/
theorem named_str {α : Type} {name : α → String} {all : List α} (a : α)
    (h : (all.find? fun b => name b = name a) = some a) :
    named name all depth (document (.str (name a))) = some a := by
  rw [document, named, named?, string?_pieces]
  exact h

end

/-! ## Fields -/

/-- The document of a field. -/
def fieldDocument (f : String × Json) : String × Document := (f.1, document f.2)

namespace Fields

/-- The fields of a record that was written. -/
def written (depth : Nat) (fields : List (String × Json)) : Fields :=
  ⟨false, depth, fields.map fieldDocument⟩

theorem ofObject?_written {known : List String} {fields : List (String × Json)}
    (hnodup : (fields.map Prod.fst).Nodup) (hknown : fields.map Prod.fst ⊆ known) :
    ofObject? known (fieldDocuments fields) = some (fields.map fieldDocument) := by
  induction fields with
  | nil => rfl
  | cons f fs ih =>
    obtain ⟨key, v⟩ := f
    rw [List.map_cons, List.nodup_cons] at hnodup
    rw [List.map_cons, List.cons_subset] at hknown
    have hnew : (fs.map fieldDocument).lookup key = none := by
      refine List.lookup_eq_none_iff.2 fun p hp => bne_iff_ne.2 ?_
      obtain ⟨g, hg, rfl⟩ := List.mem_map.1 hp
      rintro rfl
      exact hnodup.1 (List.mem_map.2 ⟨g, hg, rfl⟩)
    simp [fieldDocuments, ofObject?, string?_pieces, ih hnodup.2 hknown.2, hknown.1, hnew,
      fieldDocument]

/-! A field that was written is read as its value, whatever stands before it. -/

section
variable {α : Type} {depth : Nat} {fields : List (String × Json)} {key name : String} {v : Json}
  {r : Reader α}

theorem lookup_written_self :
    (written depth ((name, v) :: fields)).found.lookup name = some (document v) :=
  List.lookup_cons_self

theorem lookup_written_of_ne (h : key ≠ name) :
    (written depth ((key, v) :: fields)).found.lookup name =
      (written depth fields).found.lookup name := by
  have hne : (name == key) = false := beq_false_of_ne h.symm
  rw [written, List.map_cons, fieldDocument, List.lookup_cons, hne]
  rfl

@[simp]
theorem required_self :
    (written depth ((name, v) :: fields)).required name r = r depth (document v) := by
  rw [required, lookup_written_self, Option.bind_some]
  rfl

@[simp]
theorem required_of_ne (h : key ≠ name) :
    (written depth ((key, v) :: fields)).required name r =
      (written depth fields).required name r := by
  rw [required, lookup_written_of_ne h]
  rfl

@[simp]
theorem optional_self :
    (written depth ((name, v) :: fields)).optional name r = maybe r depth (document v) := by
  rw [optional, lookup_written_self]
  rfl

@[simp]
theorem optional_of_ne (h : key ≠ name) :
    (written depth ((key, v) :: fields)).optional name r =
      (written depth fields).optional name r := by
  rw [optional, lookup_written_of_ne h]
  rfl

@[simp]
theorem withDefault_self (default : α) :
    (written depth ((name, v) :: fields)).withDefault name r default = r depth (document v) := by
  rw [withDefault, lookup_written_self]
  rfl

@[simp]
theorem withDefault_of_ne (h : key ≠ name) (default : α) :
    (written depth ((key, v) :: fields)).withDefault name r default =
      (written depth fields).withDefault name r default := by
  rw [withDefault, lookup_written_of_ne h]
  rfl

@[simp]
theorem withDefault_nil (default : α) :
    (written depth []).withDefault name r default = some default :=
  rfl

end

end Fields

/-- A record is built from the fields that were written for it. -/
theorem record_obj {α : Type} {known : List String} {fields : List (String × Json)}
    (build : Fields → Option α) (depth : Nat) (hnodup : (fields.map Prod.fst).Nodup)
    (hknown : fields.map Prod.fst ⊆ known) :
    record known build (depth + 1) (document (.obj fields)) =
      build (Fields.written depth fields) := by
  rw [record, document, Fields.open?, Fields.ofObject?_written hnodup hknown]
  rfl

/-! ## Forms -/

namespace Form

variable {α : Type} {f : Form α}

/-- A form that reads what it writes, wherever some number of arrays and objects may still be
nested. -/
structure Lawful (f : Form α) (levels : Nat) : Prop where
  whole : ∀ a, (f.write a).Whole
  reads : ∀ a depth, f.read (depth + levels) (document (f.write a)) = some a

/-- Printing loses nothing: the text of a value is read as that value, and whatever a text is read
as is also what its reprint is read as. -/
def RoundTrips (f : Form α) : Prop :=
  (∀ a, f.parse (f.print a) = some a) ∧ ∀ text, (f.reprint text).bind f.parse = f.parse text

theorem Lawful.parse_print {levels : Nat} (h : f.Lawful levels) (hroom : levels ≤ nestingLimit)
    (a : α) : f.parse (f.print a) = some a := by
  have hreads := h.reads a (nestingLimit - levels)
  rw [Nat.sub_add_cancel hroom] at hreads
  rw [parse, print, render, String.toList_ofList, read_chars (h.whole a)]
  exact hreads

theorem Lawful.roundTrips {levels : Nat} (h : f.Lawful levels) (hroom : levels ≤ nestingLimit) :
    f.RoundTrips := by
  refine ⟨h.parse_print hroom, fun text => ?_⟩
  cases hparse : f.parse text with
  | none => rw [reprint, hparse]; rfl
  | some a =>
    rw [reprint, hparse]
    exact h.parse_print hroom a

end Form

end TurnEngine.Wire
