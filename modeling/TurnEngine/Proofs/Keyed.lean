import Mathlib.Data.List.Perm.Lattice
import Mathlib.Data.List.Nodup

/-!
# Lists of numbered items

Items of a list that carry numbers of their own, as callers carry tickets: finding the item of a
number, and counting items after one of them was changed (`countP_change`) or taken out
(`countP_remove`).
-/

namespace TurnEngine.Keyed

variable {α : Type _} {num : α → Nat} {xs : List α} {x : α}

/-- The item of a number is the one that is found. -/
theorem find?_of_mem (hn : (xs.map num).Nodup) (hx : x ∈ xs) :
    xs.find? (fun y => num y = num x) = some x := by
  cases hf : xs.find? (fun y => num y = num x) with
  | none => exact absurd (List.find?_eq_none.1 hf x hx) (by simp)
  | some y =>
    have hy : num y = num x := by simpa using List.find?_some hf
    rw [List.inj_on_of_nodup_map hn (List.mem_of_find?_eq_some hf) hx hy]

/-- One more item, with a number above all others. -/
theorem nodup_concat (hn : (xs.map num).Nodup) (hx : ∀ y ∈ xs, num y < num x) :
    ((xs ++ [x]).map num).Nodup := by
  rw [List.map_append, List.nodup_append]
  refine ⟨hn, List.nodup_singleton _, fun n hm m hs => ?_⟩
  obtain ⟨y, hy, rfl⟩ := List.mem_map.1 hm
  rw [List.map_singleton, List.mem_singleton] at hs
  subst hs
  exact Nat.ne_of_lt (hx y hy)

theorem lt_of_mem_concat (hx : ∀ y ∈ xs, num y < num x) {y : α} (hy : y ∈ xs ++ [x]) :
    num y < num x + 1 := by
  rcases List.mem_append.1 hy with hy | hy
  · exact Nat.lt_succ_of_lt (hx y hy)
  · rw [List.mem_singleton.1 hy]
    exact Nat.lt_succ_self _

/-- The items without those of one number. -/
theorem nodup_remove (hn : (xs.map num).Nodup) (n : Nat) :
    ((xs.filter fun y => num y ≠ n).map num).Nodup :=
  hn.sublist (List.filter_sublist.map num)

/-- The items of the number of one of them. -/
theorem filter_eq_singleton (hn : (xs.map num).Nodup) (hx : x ∈ xs) :
    (xs.filter fun y => num y = num x) = [x] := by
  induction xs with
  | nil => cases hx
  | cons y ys ih =>
    obtain ⟨hy, hys⟩ := List.nodup_cons.1 hn
    rcases List.mem_cons.1 hx with rfl | hx
    · rw [List.filter_cons_of_pos (by simp), List.filter_eq_nil_iff.2 fun z hz => ?_]
      simpa using fun he : num z = num x => hy (he ▸ List.mem_map_of_mem hz)
    · have hne : num y ≠ num x := fun he => hy (he ▸ List.mem_map_of_mem hx)
      rw [List.filter_cons_of_neg (by simpa using hne), ih hys hx]

/-- A change of the items of one number keeps the numbers. -/
theorem map_num_change {f : α → α} (hf : ∀ y, num (f y) = num y) (n : Nat) :
    (xs.map fun y => if num y = n then f y else y).map num = xs.map num := by
  rw [List.map_map]
  refine List.map_congr_left fun y _ => ?_
  simp only [Function.comp_apply]
  split
  · exact hf y
  · rfl

/-- Counting after one item was taken out. -/
theorem countP_remove (hn : (xs.map num).Nodup) (hx : x ∈ xs) (p : α → Bool) :
    (xs.filter fun y => num y ≠ num x).countP p + (if p x then 1 else 0) = xs.countP p := by
  induction xs with
  | nil => cases hx
  | cons y ys ih =>
    obtain ⟨hy, hys⟩ := List.nodup_cons.1 hn
    rcases List.mem_cons.1 hx with rfl | hx
    · have hkeep : (ys.filter fun z => num z ≠ num x) = ys :=
        List.filter_eq_self.2 fun z hz => by
          simpa using fun he : num z = num x => hy (he ▸ List.mem_map_of_mem hz)
      rw [List.filter_cons_of_neg (by simp), hkeep, List.countP_cons]
    · have hne : num y ≠ num x := fun he => hy (he ▸ List.mem_map_of_mem hx)
      rw [List.filter_cons_of_pos (by simpa using hne), List.countP_cons, List.countP_cons,
        ← ih hys hx]
      omega

/-- Counting after one item was changed. -/
theorem countP_change (hn : (xs.map num).Nodup) (hx : x ∈ xs) (f : α → α) (p : α → Bool) :
    (xs.map fun y => if num y = num x then f y else y).countP p + (if p x then 1 else 0) =
      xs.countP p + if p (f x) then 1 else 0 := by
  induction xs with
  | nil => cases hx
  | cons y ys ih =>
    obtain ⟨hy, hys⟩ := List.nodup_cons.1 hn
    rw [List.map_cons, List.countP_cons, List.countP_cons]
    rcases List.mem_cons.1 hx with rfl | hx
    · have hkeep : (ys.map fun z => if num z = num x then f z else z) = ys := by
        refine (List.map_congr_left fun z hz => ?_).trans (List.map_id ys)
        exact if_neg fun he : num z = num x => hy (he ▸ List.mem_map_of_mem hz)
      rw [hkeep, if_pos rfl]
      omega
    · have hne : num y ≠ num x := fun he => hy (he ▸ List.mem_map_of_mem hx)
      have := ih hys hx
      rw [if_neg hne]
      omega

/-- Counting by two properties that never meet. -/
theorem countP_eq_add {p q s : α → Bool}
    (h : ∀ y ∈ xs, (if p y then 1 else 0) = (if q y then 1 else 0) + if s y then 1 else 0) :
    xs.countP p = xs.countP q + xs.countP s := by
  induction xs with
  | nil => rfl
  | cons y ys ih =>
    have hy := h y List.mem_cons_self
    have hys := ih fun z hz => h z (List.mem_cons_of_mem _ hz)
    simp only [List.countP_cons] at hys ⊢
    omega

/-- As many items are listed as the list has numbers. -/
theorem countP_listed {ts : List Nat} (hn : (xs.map num).Nodup) (ht : ts.Nodup)
    (hm : ∀ t ∈ ts, ∃ x ∈ xs, num x = t) :
    xs.countP (fun x => decide (num x ∈ ts)) = ts.length := by
  have hp : ((xs.map num).filter fun t => decide (t ∈ ts)).Perm ts := by
    refine (List.perm_ext_iff_of_nodup (hn.filter _) ht).2 fun t => ?_
    rw [List.mem_filter, List.mem_map, decide_eq_true_eq]
    exact ⟨fun h => h.2, fun h => ⟨hm t h, h⟩⟩
  rw [← hp.length_eq, ← List.countP_eq_length_filter, List.countP_map]
  rfl

end TurnEngine.Keyed
