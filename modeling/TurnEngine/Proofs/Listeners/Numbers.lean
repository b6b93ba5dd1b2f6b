import TurnEngine.Listeners.Hub
import TurnEngine.Proofs.Keyed

/-!
# The numbers of a hub

A hub gives its numbers out in ascending order and none of them twice: `Hub.Numbered` is kept by
registering (`Hub.Numbered.register`) and by unregistering (`Hub.Numbered.unregister`,
`Hub.Numbered.unregisterAll`).
-/

namespace TurnEngine.Hub

variable {κ : Type} {h : Hub κ}

/-- The numbers of the registered callbacks. -/
def numbers (h : Hub κ) : List Nat := h.entries.map (·.1)

/-- Every number was given out, and stands for one callback. -/
structure Numbered (h : Hub κ) : Prop where
  nodup : h.numbers.Nodup
  given : ∀ e ∈ h.entries, e.1 < h.nextId

theorem numbered_new : ({} : Hub κ).Numbered where
  nodup := List.nodup_nil
  given _ he := nomatch he

theorem Numbered.register (hn : h.Numbered) (c : κ) : (h.register c).2.Numbered where
  nodup := Keyed.nodup_concat hn.nodup hn.given
  given _ he := Keyed.lt_of_mem_concat hn.given he

theorem Numbered.unregister (hn : h.Numbered) (n : Nat) : (h.unregister n).Numbered where
  nodup := Keyed.nodup_remove hn.nodup n
  given e he := hn.given e (List.mem_of_mem_filter he)

theorem Numbered.lt_of_mem (hn : h.Numbered) {n : Nat} (hmem : n ∈ h.numbers) : n < h.nextId := by
  obtain ⟨e, he, rfl⟩ := List.mem_map.1 hmem
  exact hn.given e he

theorem mem_numbers_register {n : Nat} {c : κ} :
    n ∈ (h.register c).2.numbers ↔ n ∈ h.numbers ∨ n = h.nextId := by
  simp [numbers, Hub.register]

theorem mem_numbers_unregister {n k : Nat} :
    k ∈ (h.unregister n).numbers ↔ k ∈ h.numbers ∧ k ≠ n := by
  simp [numbers, Hub.unregister]

/-! ## Removing several callbacks -/

theorem unregisterAll_eq (h : Hub κ) (ns : List Nat) :
    ns.foldl unregister h = { h with entries := h.entries.filter fun e => e.1 ∉ ns } := by
  induction ns generalizing h with
  | nil => simp
  | cons n ns ih => simp [ih, unregister, List.filter_filter, Bool.and_comm]

theorem Numbered.unregisterAll (hn : h.Numbered) (ns : List Nat) :
    (ns.foldl Hub.unregister h).Numbered :=
  List.foldlRecOn ns _ hn fun _ hn n _ => hn.unregister n

theorem mem_numbers_unregisterAll {ns : List Nat} {k : Nat} :
    k ∈ (ns.foldl unregister h).numbers ↔ k ∈ h.numbers ∧ k ∉ ns := by
  rw [unregisterAll_eq]
  simp [numbers]

end TurnEngine.Hub
