import TurnEngine.Proofs.Fallback.Tours

/-!
# The timeline of a run

A `Moment` is an event of a run together with the world in which it happens: a call begins in the
world before it, its entry of the audit trail is made in the world after it, and a candidate is
given up in the world that its last call left. `Timeline` is a tour with all its moments and the
ending that it comes to, and every run has one (`run_timeline`), whatever the signal does. What the
course of a run tells of its tour is read off the timeline (`run_recount`).
-/

namespace TurnEngine.Fallback

variable {σ α : Type}

/-- An event of a run, and the world in which it happens. -/
structure Moment (σ : Type) where
  world : σ
  event : Event

/-- The moments of a call. -/
def Try.moments (w : World σ α) (m : Model) (t : Try σ α) : List (Moment σ) :=
  (if t.invoked then [⟨t.before, .call m⟩] else []) ++
    (t.entries w m.qualifiedName).map fun a => ⟨t.after, .attempt a⟩

/-- The moments of a candidate, from the look at its circuit on. -/
def Visit.moments (c : Chain) (w : World σ α) (v : Visit σ α) : List (Moment σ) :=
  match c.resolve v.reference with
  | none => (v.entries c w).map fun a => ⟨v.left, .attempt a⟩
  | some m =>
    if v.skipped c w then (v.entries c w).map fun a => ⟨v.left, .attempt a⟩
    else v.tries.flatMap (·.moments w m)

/-- What is announced when a candidate is given up. -/
def Visit.handover (c : Chain) (candidates : List String) (index : Nat) (v : Visit σ α)
    (reason : Reason) : List (Moment σ) :=
  (Chain.advance candidates index (v.name c) reason).map fun e => ⟨v.left, e⟩

/-- A run from the candidate at an index on: the visits, the moments, the ending, unless all
candidates are spent, and the world after it. -/
inductive Timeline (c : Chain) (w : World σ α) (candidates : List String) :
    Nat → List String → σ → List (Visit σ α) → List (Moment σ) → Option (Ending α) → σ → Prop
  | allSpent {index : Nat} {s : σ} : Timeline c w candidates index [] s [] [] none s
  | fired {index : Nat} {reference : String} {rest : List String} {s : σ} :
      w.cancelled s = true →
      Timeline c w candidates index (reference :: rest) s [] [] (some (.failed .cancelled)) s
  | ended {index : Nat} {v : Visit σ α} {e : Ending α} {rest : List String} :
      w.cancelled v.found = false → v.Goes c w (.ended e) →
      Timeline c w candidates index (v.reference :: rest) v.found [v]
        (⟨v.found, .visit index⟩ :: v.moments c w) (some e) v.left
  | next {index : Nat} {v : Visit σ α} {reason : Reason} {vs : List (Visit σ α)}
      {rest : List String} {log : List (Moment σ)} {ending : Option (Ending α)} {s : σ} :
      w.cancelled v.found = false → v.Goes c w (.spent reason) →
      Timeline c w candidates (index + 1) rest v.left vs log ending s →
      Timeline c w candidates index (v.reference :: rest) v.found (v :: vs)
        (⟨v.found, .visit index⟩ :: v.moments c w ++ v.handover c candidates index reason ++ log)
        ending s

/-! ## What the moments tell -/

theorem told_flatMap (w : World σ α) (m : Model) (ts : List (Try σ α)) :
    Told w m ts (ts.flatMap (·.events w m)) := by
  induction ts with
  | nil => exact ⟨rfl, rfl, rfl⟩
  | cons t ts ih => exact (told_events w m t).append ih

theorem Try.map_event_moments (w : World σ α) (m : Model) (t : Try σ α) :
    (t.moments w m).map (·.event) = t.events w m := by
  cases hinvoked : t.invoked <;> simp [Try.moments, Try.events, hinvoked]

theorem Visit.map_event_moments (c : Chain) (w : World σ α) (v : Visit σ α) :
    (v.moments c w).map (·.event) = v.events c w := by
  cases hm : c.resolve v.reference with
  | none => simp [Visit.moments, Visit.events, hm, Function.comp_def]
  | some m =>
    cases hskip : v.skipped c w with
    | true => simp [Visit.moments, Visit.events, hm, hskip, Function.comp_def]
    | false =>
      simp [Visit.moments, Visit.events, hm, hskip, List.map_flatMap, Try.map_event_moments]

theorem Visit.map_event_handover (c : Chain) (candidates : List String) (index : Nat)
    (v : Visit σ α) (reason : Reason) :
    (v.handover c candidates index reason).map (·.event) =
      Chain.advance candidates index (v.name c) reason := by
  simp [Visit.handover, Function.comp_def]

/-- What is said about a candidate tells of its calls and entries. -/
theorem Visit.Goes.told {c : Chain} {w : World σ α} {v : Visit σ α} {verdict : Verdict α}
    (h : v.Goes c w verdict) :
    Fallback.trail (v.events c w) = v.entries c w ∧ Fallback.calls (v.events c w) = v.calls c := by
  cases h with
  | unresolved hm _ _ =>
    exact ⟨by simp [Visit.events, Visit.entries, hm, trail],
      by simp [Visit.events, Visit.entries, Visit.calls, hm, Fallback.calls]⟩
  | skipped hm hopen hnone _ =>
    exact ⟨by simp [Visit.events, Visit.entries, Visit.skipped, hm, hopen, trail],
      by simp [Visit.events, Visit.entries, Visit.calls, Visit.skipped, hm, hopen, hnone,
        Fallback.calls]⟩
  | @tried m _ hm hopen _ =>
    have htold := told_flatMap w m v.tries
    simp [Visit.events, Visit.entries, Visit.calls, Visit.skipped, hm, hopen, htold.trail,
      htold.calls]

theorem Timeline.tour {c : Chain} {w : World σ α} {candidates rest : List String} {index : Nat}
    {s after : σ} {visits : List (Visit σ α)} {log : List (Moment σ)} {ending : Option (Ending α)}
    (h : Timeline c w candidates index rest s visits log ending after) :
    Recount c w rest s visits (log.map (·.event)) after := by
  induction h with
  | allSpent => exact ⟨.nil, rfl, rfl⟩
  | fired hfired => exact ⟨.fired hfired, rfl, rfl⟩
  | ended hunfired hgoes =>
    refine ⟨.ended hunfired hgoes, ?_, ?_⟩ <;>
      simp [Visit.map_event_moments, hgoes.told]
  | @next index v reason _ _ _ _ _ hunfired hgoes _ ih =>
    obtain ⟨hnoEntry, hnoCall, -⟩ := advance_silent candidates index (v.name c) reason
    refine ⟨.next hunfired hgoes ih.tour, ?_, ?_⟩
    · simp [Visit.map_event_moments, Visit.map_event_handover, hgoes.told, hnoEntry, ih.trail]
    · simp [Visit.map_event_moments, Visit.map_event_handover, hgoes.told, hnoCall, ih.calls]

/-! ## Every run has a timeline -/

theorem runFrom_timeline (c : Chain) (w : World σ α) (candidates : List String) (index : Nat)
    (rest : List String) (done : List Event) (s : σ) :
    let (course, ending, after) := c.runFrom w candidates index rest done s
    ∃ visits log e, Timeline c w candidates index rest s visits log e after ∧
      course = done ++ log.map (·.event) ∧
      ending = e.getD (.failed (.exhausted (trail course))) := by
  induction rest generalizing index done s with
  | nil => exact ⟨[], [], none, .allSpent, by simp, rfl⟩
  | cons reference rest ih =>
    have hvisit := tryCandidate_goes c w reference s
    unfold Chain.runFrom
    by_cases hfired : w.cancelled s = true
    · rw [if_pos hfired]
      exact ⟨[], [], _, .fired hfired, by simp, rfl⟩
    · rw [if_neg hfired]
      cases hcandidate : c.tryCandidate w reference s with
      | mk events answer =>
        obtain ⟨name, verdict, after⟩ := answer
        rw [hcandidate] at hvisit
        obtain ⟨v, rfl, rfl, rfl, hgoes, rfl, rfl⟩ := hvisit
        have hunfired := Bool.eq_false_iff.2 hfired
        dsimp only
        cases verdict with
        | ended e =>
          refine ⟨[v], _, some e, .ended hunfired hgoes, ?_, rfl⟩
          simp [Visit.map_event_moments]
        | spent reason =>
          obtain ⟨visits, log, e, htimeline, hcourse, hending⟩ := ih (index + 1)
            (done ++ .visit index :: v.events c w ++
              Chain.advance candidates index (v.name c) reason) v.left
          refine ⟨v :: visits, _, e, .next hunfired hgoes htimeline, ?_, hending⟩
          rw [hcourse]
          simp [Visit.map_event_moments, Visit.map_event_handover]

/-- The timeline of a run. -/
theorem run_timeline (c : Chain) (w : World σ α) {candidates : List String}
    (hne : candidates ≠ []) (s : σ) :
    let (course, ending, after) := c.run w candidates s
    ∃ visits log e, Timeline c w candidates 0 candidates s visits log e after ∧
      log.map (·.event) = course ∧ ending = e.getD (.failed (.exhausted (trail course))) := by
  have hrun : c.run w candidates s = c.runFrom w candidates 0 candidates [] s := by
    rw [Chain.run, if_neg (by simpa using hne)]
  obtain ⟨visits, log, e, htimeline, hcourse, hending⟩ :=
    runFrom_timeline c w candidates 0 candidates [] s
  rw [hrun]
  exact ⟨visits, log, e, htimeline, by simpa using hcourse.symm, hending⟩

/-- Every run is a tour of its candidates, in the order of the list. -/
theorem run_recount (c : Chain) (w : World σ α) (candidates : List String) (s : σ) :
    ∃ visits : List (Visit σ α),
      Recount c w candidates s visits (c.run w candidates s).1 (c.run w candidates s).2.2 := by
  by_cases hne : candidates = []
  · rw [hne]
    exact ⟨[], .nil, rfl, rfl⟩
  · obtain ⟨visits, log, e, htimeline, hcourse, -⟩ := run_timeline c w hne s
    exact ⟨visits, hcourse ▸ htimeline.tour⟩

end TurnEngine.Fallback
