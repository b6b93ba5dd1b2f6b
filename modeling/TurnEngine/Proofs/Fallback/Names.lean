import TurnEngine.Proofs.Fallback.Notices
import TurnEngine.Proofs.Fallback.Timeline
import TurnEngine.Proofs.References

/-!
# The names of a candidate

A run names a candidate in three places: the notice of the candidate before it announces it, its
entries in the audit trail bear its name, and the notice of its own giving up does. The last two
agree with each other, but the announcement is the reference as it stands in the list
(`NotifiedTour.named`). So a notice connects to the next one, and to the entries in between, exactly
where the reference is written as a qualified name or names no model (`names_run`); a bare id is
announced under one name and given up under another (`announced_under_another_name`).
-/

namespace TurnEngine.Fallback

variable {σ α : Type} {c : Chain} {w : World σ α} {listeners : Subscribers σ}
  {candidates : List String}

/-- The names that a run gives to its candidates, with references read as a default provider has
it. -/
structure Named (defaultProvider : String) (c : Chain) (w : World σ α)
    (visits : List (Visit σ α)) (course : List Event) : Prop where
  recorded : ∀ v ∈ visits, ∀ a ∈ v.entries c w, a.model = Model.named defaultProvider v.reference
  abandoned : ∀ (i : Nat) (v : Visit σ α) (n : Notice), visits[i]? = some v →
    (notices course)[i]? = some n → n.previousModel = Model.named defaultProvider v.reference
  announced : ∀ (i : Nat) (v : Visit σ α) (n : Notice), visits[i + 1]? = some v →
    (notices course)[i]? = some n → n.nextModel = v.reference
  /-- A notice connects to the one that follows. -/
  connected : ∀ (i : Nat) (n n' : Notice), (notices course)[i]? = some n →
    (notices course)[i + 1]? = some n' →
    (n.nextModel = n'.previousModel ↔ Model.Proper defaultProvider n.nextModel)
  /-- It also connects to the entries in between. -/
  agreed : ∀ (i : Nat) (v : Visit σ α) (n : Notice), visits[i + 1]? = some v →
    (notices course)[i]? = some n → ∀ a ∈ v.entries c w,
    (n.nextModel = a.model ↔ Model.Proper defaultProvider n.nextModel)

theorem Try.model_of_mem_entries {name : String} {t : Try σ α} :
    ∀ a ∈ t.entries w name, a.model = name := by
  intro a ha
  unfold Try.entries at ha
  dsimp only at ha
  split at ha
  · cases ha
  · rw [List.mem_singleton.1 ha]
    rfl
  · split at ha
    · cases ha
    · rw [List.mem_singleton.1 ha]
      rfl

/-- All entries of a candidate bear its name. -/
theorem Visit.model_of_mem_entries (v : Visit σ α) :
    ∀ a ∈ v.entries c w, a.model = v.name c := by
  intro a ha
  unfold Visit.entries at ha
  unfold Visit.name
  cases hm : c.resolve v.reference with
  | none =>
    simp only [hm, List.mem_singleton] at ha
    rw [ha]
    rfl
  | some m =>
    simp only [hm] at ha
    split at ha
    · rw [List.mem_singleton.1 ha]
      rfl
    · obtain ⟨t, -, ha⟩ := List.mem_flatMap.1 ha
      exact t.model_of_mem_entries a ha

/-- No notice is told without its candidate. -/
theorem notices_courseOf (c : Chain) (w : World σ α) (index : Nat) (visits : List (Visit σ α))
    (ns : List Notice) : notices (courseOf c w index visits ns) = ns.take visits.length := by
  induction visits generalizing index ns with
  | nil => rfl
  | cons v vs ih =>
    cases ns with
    | nil =>
      rw [courseOf, notices_visit_append, ih, List.take_nil, List.take_nil]
    | cons n ns =>
      rw [courseOf, notices_visit_append]
      exact congrArg (n :: ·) (ih (index + 1) ns)

theorem NotifiedTour.trail {index : Nat} {rest : List String} {r after : Notified σ}
    {visits : List (Visit σ α)} {course : List Event} {ending : Option (Ending α)}
    (h : NotifiedTour c w listeners candidates index rest r visits course ending after) :
    trail course = visits.flatMap (·.entries c w) := by
  induction h with
  | allSpent => rfl
  | fired => rfl
  | ended _ _ hgoes => simp [hgoes.told.1]
  | @next index v reason vs rest course ending r after _ _ hgoes _ ih =>
    have hsilent := (advance_silent candidates index (v.name c) reason).1
    simp [hgoes.told.1, hsilent, ih]

theorem NotifiedTour.named {defaultProvider : String}
    (hc : c.resolve = Model.resolve defaultProvider) {r after : Notified σ}
    {visits : List (Visit σ α)} {course : List Event} {ending : Option (Ending α)}
    (h : NotifiedTour c w listeners candidates 0 candidates r visits course ending after) :
    Named defaultProvider c w visits course := by
  have hname (v : Visit σ α) : v.name c = Model.named defaultProvider v.reference := by
    rw [Visit.name, hc]
    rfl
  obtain ⟨⟨rest, horder⟩, hcourse, hhandovers⟩ := h.told List.drop_zero
  simp only [Nat.zero_add] at hhandovers
  -- Every notice has its candidate, for the notices are those after the visits.
  have hvisited (i : Nat) (n : Notice) (hn : (notices course)[i]? = some n) :
      ∃ v, visits[i]? = some v := by
    have hcount : (notices course).length ≤ visits.length := by
      have hcourseOf := congrArg notices hcourse
      rw [notices_courseOf] at hcourseOf
      have hlength := congrArg List.length hcourseOf
      rw [List.length_take] at hlength
      omega
    obtain ⟨hi, -⟩ := List.getElem?_eq_some_iff.1 hn
    exact ⟨visits[i], List.getElem?_eq_getElem (by omega)⟩
  have hannounced (i : Nat) (v : Visit σ α) (n : Notice) (hv : visits[i + 1]? = some v)
      (hn : (notices course)[i]? = some n) : n.nextModel = v.reference := by
    obtain ⟨u, hu⟩ := hvisited i n hn
    have hnext := (hhandovers i u n hu hn).next
    have hreference : candidates[i + 1]? = some v.reference := by
      obtain ⟨hi, -⟩ := List.getElem?_eq_some_iff.1 hv
      rw [← horder, List.getElem?_append_left (by simpa using hi), List.getElem?_map, hv]
      rfl
    rw [hreference] at hnext
    exact (Option.some.inj hnext).symm
  have habandoned (i : Nat) (v : Visit σ α) (n : Notice) (hv : visits[i]? = some v)
      (hn : (notices course)[i]? = some n) :
      n.previousModel = Model.named defaultProvider v.reference :=
    (hhandovers i v n hv hn).previous.trans (hname v)
  have hrecorded (v : Visit σ α) : ∀ a ∈ v.entries c w,
      a.model = Model.named defaultProvider v.reference := by
    intro a ha
    rw [v.model_of_mem_entries a ha, hname]
  refine ⟨fun v _ => hrecorded v, habandoned, hannounced, ?_, ?_⟩
  · intro i n n' hn hn'
    obtain ⟨v, hv⟩ := hvisited (i + 1) n' hn'
    rw [habandoned (i + 1) v n' hv hn', hannounced i v n hv hn, eq_comm]
    exact Model.named_eq_iff defaultProvider v.reference
  · intro i v n hv hn a ha
    rw [hrecorded v a ha, hannounced i v n hv hn, eq_comm]
    exact Model.named_eq_iff defaultProvider v.reference

/-- Every run of a chain that reads its references with a default provider names its candidates as
`Named` says, in its notices and in its audit trail. -/
theorem names_run (c : Chain) (defaultProvider : String) (w : World σ α) (listeners : Subscribers σ)
    (candidates : List String) (r : Notified σ) :
    let chain : Chain := { c with resolve := Model.resolve defaultProvider }
    let (course, _, after) := chain.runWith w listeners candidates r
    ∃ visits e, NotifiedTour chain w listeners candidates 0 candidates r visits course e after ∧
      trail course = visits.flatMap (·.entries chain w) ∧
      Named defaultProvider chain w visits course := by
  intro chain
  by_cases hne : candidates = []
  · subst hne
    have hnowhere : NotifiedTour chain w listeners [] 0 [] r [] [] none r := .allSpent
    exact ⟨[], none, hnowhere, rfl, hnowhere.named rfl⟩
  · obtain ⟨visits, e, htour, -⟩ := runWith_tour chain w listeners hne r
    exact ⟨visits, e, htour, htour.trail, htour.named rfl⟩

/-- It is not so that the model which a notice announces is the one that the next notice gives up,
or the one to which the entries in between belong. -/
theorem announced_under_another_name :
    let c : Chain :=
      { config := { maxRetriesPerModel := 0 }, resolve := Model.resolve "anthropic" }
    let overloaded : Except Failure Nat := .error (.provider (some 503) "overloaded" none)
    let run := c.run scripted ["a/m1", "m2", "b/m3"] ({}, [overloaded, overloaded, .ok 7])
    let first : Notice := ⟨"a/m1", "m2", .modelUnavailable⟩
    let second : Notice := ⟨"anthropic/m2", "b/m3", .modelUnavailable⟩
    (¬ ∀ candidates s (i : Nat) (n n' : Notice),
      (notices (c.run scripted candidates s).1)[i]? = some n →
      (notices (c.run scripted candidates s).1)[i + 1]? = some n' →
      n.nextModel = n'.previousModel) ∧
    notices run.1 = [first, second] ∧
    (trail run.1).map (·.model) = ["a/m1", "anthropic/m2", "b/m3"] := by
  intro c overloaded run first second
  have hnotices : notices run.1 = [first, second] := by decide +kernel
  refine ⟨fun h => ?_, hnotices, by decide +kernel⟩
  have hconnected := h ["a/m1", "m2", "b/m3"] ({}, [overloaded, overloaded, .ok 7]) 0 first second
  have hdifferent : first.nextModel ≠ second.previousModel := by decide
  change (notices run.1)[0]? = some first → (notices run.1)[0 + 1]? = some second → _ at hconnected
  rw [hnotices] at hconnected
  exact hdifferent (hconnected rfl rfl)

end TurnEngine.Fallback
