import Mathlib.Data.List.Nodup
import TurnEngine.Run.Pairing

/-!
# Whether calls get their own results

A batch that answers its calls one by one, in their order, leaves the pairing nothing to do but to
hand every result to the call that it was produced for. It does so for calls with ids of their own,
but not for all: the last result left fills the gap of the one that was taken, so results from the
end of the batch come to its front, and a call there takes the first result with its id.

`own_results_iff` says for which calls all is well. Whatever the ids are, the calls get the results
of the batch and no others, in some order; and they get them in the order of the calls, each its
own, exactly if any two calls with one id are `KeptApart`: their places, counted from zero, add up
to less than the number of calls.

The proof follows the results that are left. After some calls they are what was moved to the front,
the end of the batch in reverse, and the untouched middle (`pairResults_moved`).
-/

namespace TurnEngine.Run

/-- A batch produced one result for every call, in the order of the calls. -/
def Answers (calls : List ToolCall) (produced : List ToolResult) : Prop :=
  produced.map (·.callId) = calls.map (·.id)

/-- No two places of a list of ids hold the same one, unless the places add up to less than the
length, both counted from `moved`. -/
def KeptApartFrom (moved : Nat) (ids : List String) : Prop :=
  ∀ j < ids.length, ∀ i < j, ids[i]? = ids[j]? → moved + i + j < ids.length

instance (moved : Nat) (ids : List String) : Decidable (KeptApartFrom moved ids) :=
  inferInstanceAs (Decidable (∀ j < ids.length, ∀ i < j, _))

/-- Calls with one id have places that add up to less than the number of calls. -/
def KeptApart (ids : List String) : Prop := KeptApartFrom 0 ids

instance (ids : List String) : Decidable (KeptApart ids) :=
  inferInstanceAs (Decidable (KeptApartFrom 0 ids))

/-- A call may share its id with none of the last `moved` ones after it. -/
theorem keptApartFrom_cons (moved : Nat) (id : String) (ids : List String) :
    KeptApartFrom moved (id :: ids) ↔
      id ∉ ids.drop (ids.length - moved) ∧ KeptApartFrom (moved + 1) ids := by
  constructor
  · intro h
    refine ⟨fun hid => ?_, fun j hj i hij he => ?_⟩
    · obtain ⟨p, hp⟩ := List.mem_iff_getElem?.1 hid
      rw [List.getElem?_drop] at hp
      have hlt : ids.length - moved + p < ids.length := (List.getElem?_eq_some_iff.1 hp).1
      have := h (ids.length - moved + p + 1) (by simpa using hlt) 0 (by omega) (by simp [hp])
      simp only [List.length_cons] at this
      omega
    · have := h (j + 1) (by simpa using hj) (i + 1) (by omega) (by simpa using he)
      simp only [List.length_cons] at this
      omega
  · rintro ⟨hid, h⟩ j hj i hij he
    obtain ⟨j, rfl⟩ : ∃ j', j = j' + 1 := ⟨j - 1, by omega⟩
    rw [List.length_cons] at hj ⊢
    cases i with
    | zero =>
      apply Classical.byContradiction
      intro hfar
      refine hid (List.mem_iff_getElem?.2 ⟨j - (ids.length - moved), ?_⟩)
      rw [List.getElem?_drop, Nat.add_sub_cancel' (by omega)]
      simpa using he.symm
    | succ i =>
      have := h j (by omega) i (by omega) (by simpa using he)
      omega

/-! ## Taking one result -/

/-- The last item fills the gap. -/
theorem swapRemove_middle {α : Type} (xs ys : List α) (y : α) :
    swapRemove (xs ++ y :: ys) xs.length = xs ++ (ys.getLast?.toList ++ ys.dropLast) := by
  unfold swapRemove
  rcases List.eq_nil_or_concat ys with rfl | ⟨zs, z, rfl⟩
  · simp
  · have hsplit : xs ++ y :: zs.concat z = (xs ++ y :: zs) ++ [z] := by simp
    have hgap : ((xs ++ y :: zs) ++ [z]).set xs.length z = (xs ++ z :: zs) ++ [z] := by simp
    rw [hsplit, List.getLast?_concat]
    dsimp only
    rw [hgap, List.dropLast_concat]
    simp

/-- A call takes the first result with its id. -/
theorem takeResult_middle {call : ToolCall} {xs : List ToolResult} {y : ToolResult}
    (hy : y.callId = call.id) (hxs : ∀ x ∈ xs, x.callId ≠ call.id) (ys : List ToolResult) :
    takeResult call (xs ++ y :: ys) = (y, xs ++ (ys.getLast?.toList ++ ys.dropLast)) := by
  have hfound : (xs ++ y :: ys).findIdx? (fun r => r.callId = call.id) = some xs.length := by
    have hnone : xs.findIdx? (fun r => r.callId = call.id) = none := by
      simpa [List.findIdx?_eq_none_iff] using hxs
    simp [List.findIdx?_append, hnone, hy, List.findIdx?_cons]
  unfold takeResult
  rw [hfound]
  simp [swapRemove_middle]

/-- The results with the id of a call, if there are any: the first one stands alone. -/
theorem exists_first {call : ToolCall} :
    ∀ {produced : List ToolResult}, call.id ∈ produced.map (·.callId) →
      ∃ xs y ys, produced = xs ++ y :: ys ∧ y.callId = call.id ∧ ∀ x ∈ xs, x.callId ≠ call.id
  | [], h => by simp at h
  | r :: rs, h => by
    by_cases hr : r.callId = call.id
    · exact ⟨[], r, rs, rfl, hr, by simp⟩
    · have hrest : call.id ∈ rs.map (·.callId) := by
        rw [List.map_cons, List.mem_cons] at h
        exact h.resolve_left fun he => hr he.symm
      obtain ⟨xs, y, ys, rfl, hy, hxs⟩ := exists_first hrest
      refine ⟨r :: xs, y, ys, rfl, hy, ?_⟩
      intro x hx
      rcases List.mem_cons.1 hx with rfl | hx
      · exact hr
      · exact hxs x hx

theorem perm_getLast_dropLast {α : Type} (ys : List α) :
    (ys.getLast?.toList ++ ys.dropLast).Perm ys := by
  rcases List.eq_nil_or_concat ys with rfl | ⟨zs, z, rfl⟩
  · simp
  · simpa using (List.perm_append_singleton z zs).symm

/-- No result is lost or made up, whatever the order in which the calls come. -/
theorem pairResults_perm {calls : List ToolCall} {produced : List ToolResult}
    (h : (produced.map (·.callId)).Perm (calls.map (·.id))) :
    (pairResults calls produced).Perm produced := by
  induction calls generalizing produced with
  | nil =>
    have hnone : produced = [] := by simpa using h
    rw [hnone]
    rfl
  | cons call calls ih =>
    have hmem : call.id ∈ produced.map (·.callId) := h.mem_iff.2 (by simp)
    obtain ⟨xs, y, ys, rfl, hy, hxs⟩ := exists_first hmem
    have hleft := (perm_getLast_dropLast ys).append_left xs
    have hcalls : (((xs ++ (ys.getLast?.toList ++ ys.dropLast))).map (·.callId)).Perm
        (calls.map (·.id)) := by
      refine (hleft.map _).trans ?_
      have hmiddle : ((y :: (xs ++ ys)).map (·.callId)).Perm ((call :: calls).map (·.id)) :=
        (List.perm_middle.symm.map _).trans h
      simp only [List.map_cons, hy] at hmiddle
      exact hmiddle.cons_inv
    rw [pairResults, takeResult_middle hy hxs]
    have hrest := (ih hcalls).trans hleft
    exact (hrest.cons y).trans List.perm_middle.symm

/-! ## Where the results are after some calls -/

/-- After `calls` calls, `front` was moved to the front of the results left and `middle` stands
behind it. The calls to come are those of the middle, then those of the front from its end. -/
structure Moved (calls : Nat) (front middle : List ToolResult) : Prop where
  le : front.length ≤ calls
  eq : middle ≠ [] → front.length = calls

/-- The result of the next call is the first one of the middle, or the last one of the front if
nothing is left in the middle; then the last one of the middle moves to the front. -/
theorem Moved.next {n : Nat} {xs ys : List ToolResult} (h : Moved n xs ys)
    (hne : ys ++ xs.reverse ≠ []) :
    ∃ xs' y ys', xs ++ ys = xs' ++ y :: ys' ∧ ys ++ xs.reverse = y :: (ys' ++ xs'.reverse) ∧
      ys'.length + xs'.length - n = ys'.length ∧
      Moved (n + 1) (xs' ++ ys'.getLast?.toList) ys'.dropLast := by
  have hle := h.le
  cases ys with
  | cons y ys =>
    have heq := h.eq (by simp)
    refine ⟨xs, y, ys, rfl, rfl, by omega, ?_⟩
    rcases List.eq_nil_or_concat ys with rfl | ⟨zs, z, rfl⟩
    · exact ⟨by simp; omega, by simp⟩
    · exact ⟨by simp; omega, fun _ => by simp; omega⟩
  | nil =>
    rcases List.eq_nil_or_concat xs with rfl | ⟨zs, z, rfl⟩
    · simp at hne
    · simp only [List.concat_eq_append, List.length_append, List.length_singleton] at hle
      exact ⟨zs, z, [], by simp, by simp, by simp; omega, ⟨by simp; omega, by simp⟩⟩

/-- Moving the last one of the middle to the front leaves the order of the calls to come. -/
theorem dropLast_moved (xs ys : List ToolResult) :
    ys.dropLast ++ (xs ++ ys.getLast?.toList).reverse = ys ++ xs.reverse := by
  rcases List.eq_nil_or_concat ys with rfl | ⟨zs, z, rfl⟩ <;> simp

/-- The calls to come get their own results if their ids are kept apart, and, where no two results
are alike, not otherwise. -/
theorem pairResults_moved {calls : List ToolCall} {n : Nat} {xs ys : List ToolResult}
    (hm : Moved n xs ys) (hids : Answers calls (ys ++ xs.reverse)) :
    (KeptApartFrom n (calls.map (·.id)) →
      pairResults calls (xs ++ ys) = ys ++ xs.reverse) ∧
    ((ys ++ xs.reverse).Nodup → pairResults calls (xs ++ ys) = ys ++ xs.reverse →
      KeptApartFrom n (calls.map (·.id))) := by
  induction calls generalizing n xs ys with
  | nil =>
    have hnone : ys ++ xs.reverse = [] := by simpa [Answers] using hids
    exact ⟨fun _ => hnone.symm, fun _ _ j hj => absurd hj (by simp)⟩
  | cons call calls ih =>
    have hne : ys ++ xs.reverse ≠ [] := by
      intro he
      simp [Answers, he] at hids
    obtain ⟨xs', y, ys', hleft, horder, hcut, hnext⟩ := hm.next hne
    rw [horder, Answers, List.map_cons, List.map_cons, List.cons.injEq] at hids
    obtain ⟨hy, hrest⟩ := hids
    have hlast : (calls.map (·.id)).drop ((calls.map (·.id)).length - n) =
        xs'.reverse.map (·.callId) := by
      rw [← hrest, List.length_map, List.length_append, List.length_reverse, hcut, List.map_append]
      simp
    rw [hleft, horder, List.map_cons, keptApartFrom_cons, hlast]
    by_cases hfront : call.id ∈ xs'.reverse.map (·.callId)
    · -- the call takes a result from the front, which is another call's
      refine ⟨fun h => absurd hfront h.1, fun hdistinct hown => ?_⟩
      have hmem : call.id ∈ xs'.map (·.callId) := by simpa using hfront
      obtain ⟨as, x, bs, rfl, hx, has⟩ := exists_first hmem
      have htaken : (as ++ x :: bs) ++ y :: ys' = as ++ x :: (bs ++ y :: ys') := by simp
      rw [htaken, pairResults, takeResult_middle hx has] at hown
      have hxy : x = y := (List.cons.inj hown).1
      simp [hxy] at hdistinct
    · have hfirst : ∀ x ∈ xs', x.callId ≠ call.id := by
        intro x hx he
        exact hfront (he ▸ List.mem_map_of_mem (List.mem_reverse.2 hx))
      have hmoved := dropLast_moved xs' ys'
      have hlater := ih hnext (by rw [hmoved]; exact hrest)
      rw [hmoved] at hlater
      rw [pairResults, takeResult_middle hy hfirst, ← List.append_assoc]
      refine ⟨fun h => ?_, fun hdistinct hown => ⟨hfront, ?_⟩⟩
      · exact congrArg (y :: ·) (hlater.1 h.2)
      · exact hlater.2 hdistinct.of_cons (List.cons.inj hown).2

/-! ## All calls -/

/-- Results for some ids, no two of which are alike: each has as many marks as stand before it. -/
def numbered (ids : List String) : List ToolResult :=
  ids.zipIdx.map fun (id, n) => ⟨id, String.ofList (List.replicate n '|'), false⟩

theorem callId_numbered (ids : List String) : (numbered ids).map (·.callId) = ids := by
  rw [numbered, List.map_map]
  exact List.zipIdx_map_fst 0 ids

theorem nodup_numbered (ids : List String) : (numbered ids).Nodup := by
  have hmarks : (numbered ids).map (·.content.length) = List.range ids.length := by
    rw [numbered, List.map_map, List.range_eq_range', ← List.zipIdx_map_snd 0 ids]
    refine List.map_congr_left fun e _ => ?_
    simp
  exact List.Nodup.of_map (·.content.length) (hmarks ▸ List.nodup_range)

/-- The calls of a batch that answers them in order get its results and no others. They get them
in that order, whatever they are, exactly if calls with one id are kept apart. -/
theorem own_results_iff (calls : List ToolCall) :
    (∀ produced, Answers calls produced → (pairResults calls produced).Perm produced) ∧
    ((∀ produced, Answers calls produced → pairResults calls produced = produced) ↔
      KeptApart (calls.map (·.id))) := by
  refine ⟨fun produced h => pairResults_perm (by rw [h]), fun hown => ?_, fun hapart => ?_⟩
  · have hids : Answers calls (numbered (calls.map (·.id))) := callId_numbered _
    have hunmoved : Moved 0 [] (numbered (calls.map (·.id))) := ⟨Nat.le_refl _, fun _ => rfl⟩
    have hkept := pairResults_moved hunmoved (by simpa using hids)
    exact hkept.2 (by simpa using nodup_numbered _) (by simpa using hown _ hids)
  · intro produced hids
    have hunmoved : Moved 0 [] produced := ⟨Nat.le_refl _, fun _ => rfl⟩
    have hkept := pairResults_moved hunmoved (by simpa using hids)
    simpa using hkept.1 hapart

/-- Of three calls, the last two with one id, the second one gets the result of the third. -/
theorem results_of_one_id_swapped :
    let calls : List ToolCall := [⟨"a", "t", .null⟩, ⟨"b", "t", .null⟩, ⟨"b", "t", .null⟩]
    let produced : List ToolResult := [⟨"a", "1", false⟩, ⟨"b", "2", false⟩, ⟨"b", "3", false⟩]
    Answers calls produced ∧
      pairResults calls produced = [⟨"a", "1", false⟩, ⟨"b", "3", false⟩, ⟨"b", "2", false⟩] ∧
      ¬ ∀ (calls : List ToolCall) (produced : List ToolResult),
        Answers calls produced → pairResults calls produced = produced := by
  intro calls produced
  have hids : Answers calls produced := rfl
  have hpaired : pairResults calls produced =
      [⟨"a", "1", false⟩, ⟨"b", "3", false⟩, ⟨"b", "2", false⟩] := by decide +kernel
  refine ⟨hids, hpaired, fun hown => ?_⟩
  have hsame := hown calls produced hids
  rw [hpaired] at hsame
  exact absurd hsame (by decide +kernel)

/-- Two calls with one id in the first half keep their results. -/
example : KeptApart ["a", "a", "b", "c"] ∧ ¬ KeptApart ["a", "b", "c", "b"] := by decide +kernel

end TurnEngine.Run
