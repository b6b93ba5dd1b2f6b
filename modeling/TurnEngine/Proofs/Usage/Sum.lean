import Mathlib.Algebra.BigOperators.Group.List.Basic
import Mathlib.Algebra.Ring.Nat
import TurnEngine.Usage.Basic

/-!
# Sums of usage

Words that stay at their largest value form a commutative monoid, and so do token counts: a sum of
deltas does not depend on their order or on how they were grouped. Each count of it is the exact
sum of that count over all deltas, or the largest word (`Usage.isTotal_sum`).
-/

theorem UInt64.addSat_assoc (a b c : UInt64) :
    (a.addSat b).addSat c = a.addSat (b.addSat c) := by
  apply UInt64.toNat_inj.1
  simp only [toNat_addSat]
  omega

theorem UInt64.addSat_comm (a b : UInt64) : a.addSat b = b.addSat a := by
  apply UInt64.toNat_inj.1
  simp only [toNat_addSat]
  omega

theorem UInt64.zero_addSat (a : UInt64) : addSat 0 a = a := by
  have ha := a.toNat_lt
  apply UInt64.toNat_inj.1
  simp only [toNat_addSat, size, UInt64.toNat_zero]
  omega

namespace TurnEngine.Usage

instance : Zero Usage := ⟨{}⟩

theorem add_def (u v : Usage) : u + v = u.add v := rfl

protected theorem add_comm (u v : Usage) : u + v = v + u := by
  simp only [add_def, add, UInt64.addSat_comm]

protected theorem zero_add (u : Usage) : 0 + u = u := by
  show add {} u = u
  simp only [add, UInt64.zero_addSat]

instance : AddCommMonoid Usage where
  add_assoc u v w := by simp only [add_def, add, UInt64.addSat_assoc]
  zero_add := Usage.zero_add
  add_zero u := (Usage.add_comm u 0).trans (Usage.zero_add u)
  add_comm := Usage.add_comm
  nsmul := nsmulRec

/-! ## Counts -/

/-- What is counted. -/
def counts : List (Usage → UInt64) := [input, output, cacheRead, cacheWrite]

/-- Every count is exact over some deltas, as far as a word can hold it. -/
def IsTotal (u : Usage) (deltas : List Usage) : Prop :=
  ∀ count ∈ counts,
    (count u).toNat = min (deltas.map fun d => (count d).toNat).sum (UInt64.size - 1)

theorem count_zero {count : Usage → UInt64} (hc : count ∈ counts) : count 0 = 0 := by
  simp only [counts, List.mem_cons, List.not_mem_nil, or_false] at hc
  rcases hc with rfl | rfl | rfl | rfl <;> rfl

theorem count_add {count : Usage → UInt64} (hc : count ∈ counts) (u v : Usage) :
    count (u + v) = (count u).addSat (count v) := by
  simp only [counts, List.mem_cons, List.not_mem_nil, or_false] at hc
  rcases hc with rfl | rfl | rfl | rfl <;> rfl

theorem isTotal_sum (deltas : List Usage) : deltas.sum.IsTotal deltas := by
  intro count hc
  induction deltas with
  | nil =>
    rw [List.sum_nil, count_zero hc]
    rfl
  | cons d deltas ih =>
    -- what the later deltas lost at the largest word is lost for good
    rw [List.sum_cons, count_add hc, UInt64.toNat_addSat, ih, List.map_cons, List.sum_cons]
    omega

end TurnEngine.Usage
