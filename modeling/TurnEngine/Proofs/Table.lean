import Mathlib.Data.List.Nodup
import TurnEngine.Table

/-!
# Tables with distinct keys

A table that is changed only by `insert`, `erase` and `filter` has each key once. Such a table
holds exactly its entries (`get?_of_mem`, `mem_of_get?`), and a change of all its values shows in
every look-up (`get?_map`, `get?_filter`).
-/

namespace TurnEngine.Table

variable {β γ : Type}

/-! ## The keys after a change -/

theorem mem_keys_insertIn {key k : String} {v : β} :
    ∀ {es : List (String × β)}, k ∈ (insertIn key v es).map (·.1) → k = key ∨ k ∈ es.map (·.1)
  | [], h => by simpa [insertIn] using h
  | (k', v') :: es, h => by
    unfold insertIn at h
    split at h
    · rename_i hk
      rcases List.mem_cons.1 h with h | h
      · exact .inl h
      · exact .inr (List.mem_cons_of_mem _ h)
    · rcases List.mem_cons.1 h with h | h
      · exact .inr (h ▸ List.mem_cons_self)
      · exact (mem_keys_insertIn h).imp_right (List.mem_cons_of_mem _)

theorem nodup_keys_insert {t : Table β} (h : t.keys.Nodup) (key : String) (v : β) :
    (t.insert key v).keys.Nodup := by
  obtain ⟨es⟩ := t
  simp only [keys, insert] at h ⊢
  induction es with
  | nil => simp [insertIn]
  | cons e es ih =>
    obtain ⟨k, w⟩ := e
    obtain ⟨hk, hes⟩ := List.nodup_cons.1 h
    unfold insertIn
    split
    · rename_i he
      exact List.nodup_cons.2 ⟨he ▸ hk, hes⟩
    · rename_i he
      refine List.nodup_cons.2 ⟨fun hm => ?_, ih hes⟩
      exact (mem_keys_insertIn hm).elim he hk

theorem nodup_keys_filter {t : Table β} (h : t.keys.Nodup) (p : String → β → Bool) :
    (t.filter p).keys.Nodup :=
  h.sublist (List.filter_sublist.map _)

theorem nodup_keys_erase {t : Table β} (h : t.keys.Nodup) (key : String) :
    (t.erase key).keys.Nodup :=
  h.sublist (List.filter_sublist.map _)

/-! ## Look-ups and entries -/

theorem mem_of_findIn {key : String} {v : β} :
    ∀ {es : List (String × β)}, findIn key es = some v → (key, v) ∈ es
  | [], h => by cases h
  | (k, w) :: es, h => by
    unfold findIn at h
    split at h
    · rename_i hk
      cases h
      exact hk ▸ List.mem_cons_self
    · exact List.mem_cons_of_mem _ (mem_of_findIn h)

theorem mem_of_get? {t : Table β} {key : String} {v : β} (h : t.get? key = some v) :
    (key, v) ∈ t.entries :=
  mem_of_findIn h

theorem get?_of_mem {t : Table β} (hn : t.keys.Nodup) {key : String} {v : β}
    (h : (key, v) ∈ t.entries) : t.get? key = some v := by
  obtain ⟨es⟩ := t
  simp only [keys, get?] at hn h ⊢
  induction es with
  | nil => cases h
  | cons e es ih =>
    obtain ⟨k, w⟩ := e
    obtain ⟨hk, hes⟩ := List.nodup_cons.1 hn
    unfold findIn
    rcases List.mem_cons.1 h with h | h
    · cases h
      exact if_pos rfl
    · rw [if_neg fun he : k = key => hk (List.mem_map.2 ⟨_, h, he.symm⟩)]
      exact ih hes h

theorem get?_map (t : Table β) (f : β → γ) (key : String) :
    (Table.mk (t.entries.map fun e => (e.1, f e.2))).get? key = (t.get? key).map f := by
  obtain ⟨es⟩ := t
  simp only [get?]
  induction es with
  | nil => rfl
  | cons e es ih =>
    simp only [List.map_cons, findIn, ih]
    split <;> rfl

theorem keys_map (t : Table β) (f : β → γ) :
    (Table.mk (t.entries.map fun e => (e.1, f e.2))).keys = t.keys := by
  simp [keys]

theorem get?_filter {t : Table β} (hn : t.keys.Nodup) (p : String → β → Bool) (key : String) :
    (t.filter p).get? key = (t.get? key).filter (p key) := by
  cases h : t.get? key with
  | none =>
    cases h' : (t.filter p).get? key with
    | none => rfl
    | some v =>
      have := get?_of_mem hn (List.mem_of_mem_filter (mem_of_get? h'))
      rw [h] at this
      cases this
  | some v =>
    cases hp : p key v with
    | true =>
      rw [Option.filter_some_pos hp]
      exact get?_of_mem (nodup_keys_filter hn p) (List.mem_filter.2 ⟨mem_of_get? h, hp⟩)
    | false =>
      rw [Option.filter_some_neg (by simp [hp])]
      cases h' : (t.filter p).get? key with
      | none => rfl
      | some w =>
        obtain ⟨hm, hw⟩ := List.mem_filter.1 (mem_of_get? h')
        rw [get?_of_mem hn hm] at h
        cases h
        exact absurd hw (by simp [hp])

end TurnEngine.Table
