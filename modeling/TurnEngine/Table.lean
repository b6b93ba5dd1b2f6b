/-!
# Tables

A table holds one value under each of its keys, in the order in which the keys came.

* `get?_insert`, `get?_erase`: what a table has under a key after a change.
-/

namespace TurnEngine

/-- Values under keys. -/
structure Table (β : Type) where
  entries : List (String × β) := []

namespace Table

variable {β : Type}

/-- The value under a key in a list of entries. -/
def findIn (key : String) : List (String × β) → Option β
  | [] => none
  | (k, v) :: rest => if k = key then some v else findIn key rest

/-- The value under a key. -/
def get? (t : Table β) (key : String) : Option β :=
  findIn key t.entries

/-- Puts a value under a key in a list of entries. -/
def insertIn (key : String) (value : β) : List (String × β) → List (String × β)
  | [] => [(key, value)]
  | (k, v) :: rest =>
    if k = key then (key, value) :: rest else (k, v) :: insertIn key value rest

/-- Puts a value under a key, in the place of one that is there. -/
def insert (t : Table β) (key : String) (value : β) : Table β :=
  ⟨insertIn key value t.entries⟩

/-- Removes a key. -/
def erase (t : Table β) (key : String) : Table β :=
  ⟨t.entries.filter fun e => e.1 ≠ key⟩

/-- The keys. -/
def keys (t : Table β) : List String :=
  t.entries.map (·.1)

/-- Keeps the entries with a property. -/
def filter (t : Table β) (p : String → β → Bool) : Table β :=
  ⟨t.entries.filter fun e => p e.1 e.2⟩

theorem get?_insert (t : Table β) (key other : String) (value : β) :
    (t.insert key value).get? other = if other = key then some value else t.get? other := by
  obtain ⟨es⟩ := t
  simp only [get?, insert]
  induction es with
  | nil => simp only [insertIn, findIn]; grind
  | cons e es ih =>
    obtain ⟨k, v⟩ := e
    simp only [insertIn]
    split <;> simp only [findIn, ih] <;> grind

theorem insert_insert (t : Table β) (key : String) (value other : β) :
    (t.insert key value).insert key other = t.insert key other := by
  obtain ⟨es⟩ := t
  simp only [insert, mk.injEq]
  induction es with
  | nil => simp [insertIn]
  | cons e es ih =>
    obtain ⟨k, v⟩ := e
    by_cases hk : k = key <;> simp [insertIn, hk, ih]

theorem get?_erase (t : Table β) (key other : String) :
    (t.erase key).get? other = if other = key then none else t.get? other := by
  obtain ⟨es⟩ := t
  simp only [get?, erase]
  induction es with
  | nil => simp [findIn]
  | cons e es ih =>
    obtain ⟨k, v⟩ := e
    simp only [List.filter_cons, findIn]
    split <;> simp only [findIn, ih] <;> grind

end Table

end TurnEngine
