import TurnEngine.Proofs.Run.RoundTrips
import TurnEngine.Proofs.Stream.Answer

/-!
# Executions take answers as they were said

A stream that no text spoils says by its events alone what its round trip comes to (`ReadsAs`), and
an execution makes of every answer what its events say: whatever it has read when the last item
arrives, it goes on with just that (`answers_run`).
-/

namespace TurnEngine.Run

open RoundTrip (Arrival Progress IsLast NoTextInCall Thinned answer course cut ofStream outcome)

/-- The round trip of a stream is what its events say. -/
structure ReadsAs (items : List (Except Failure StreamEvent)) : Prop where
  course_eq : course (ofStream items) = outcome (cut items).1 (cut items).2
  /-- Nothing after the end of the answer, or after a failure, matters. -/
  append : (cut items).2 ≠ .item none →
    ∀ later, course (ofStream (items ++ later)) = course (ofStream items)
  /-- Stray fragments and closes do not matter, nor do calls that never end. -/
  thinned : ∀ es, Thinned (cut items).1 es →
    ∀ stopReason, answer (cut items).1 stopReason = answer es stopReason

theorem readsAs {items : List (Except Failure StreamEvent)} (htext : NoTextInCall (cut items).1) :
    ReadsAs items := by
  have hcourse := RoundTrip.course_eq_outcome items htext
  refine ⟨hcourse, fun hlast later => ?_, fun es hes => hes.answer_eq⟩
  have hcut := RoundTrip.cut_append hlast later
  rw [hcourse, RoundTrip.course_eq_outcome (items ++ later) (by rwa [hcut]), hcut]

/-- The last item of a stream reaches an execution in the middle of a round trip. -/
theorem Execution.on_last {x : Execution} {r : RoundTrip} (hp : x.phase = .reading r)
    {es : List StreamEvent} (h : r.Holds es) {i : Option (Except Failure StreamEvent)}
    (hi : IsLast i) (now : Nat) : x.on now (.item i) = x.actOn now (outcome es (.item i)) := by
  have hsaid : reports r (.item i) = [] := by
    rcases i with _ | f | e
    · rfl
    · rfl
    · cases e with
      | done stopReason => rfl
      | _ => cases hi _ rfl
  rw [show Stimulus.item i = stimulus (.item i) from rfl, on_reading hp]
  simp only [follow, hsaid, List.map_nil, noting]
  rw [h.meet_last hi]
  rfl

/-- A stream with no text in a call comes to what its events say. An execution in the middle of a
round trip has read some events, and when their stream ends, or the answer, or the stream fails, it
goes on with what these events come to. -/
theorem answers_run (now : Nat) (setup : Setup) (history : List Message) (cancelled : Bool)
    (happenings : List (Nat × Stimulus)) (items : List (Except Failure StreamEvent))
    (htext : NoTextInCall (cut items).1) :
    ReadsAs items ∧
      let x := (Record.run now setup history cancelled happenings).execution
      ∀ r, x.phase = .reading r → ∃ es : List StreamEvent,
        course (es.map .event) = .underWay r ∧
          ∀ now' i, IsLast i → x.on now' (.item i) = x.actOn now' (outcome es (.item i)) := by
  have h : Execution.OnCourse
      (Record.run now setup history cancelled happenings).execution.phase :=
    Record.run_induct (P := fun r => Execution.OnCourse r.execution.phase)
      (Execution.start_onCourse now setup history cancelled)
      (fun r now s hr => Execution.on_onCourse hr now s) happenings
  refine ⟨readsAs htext, ?_⟩
  intro x r hp
  rw [show (Record.run now setup history cancelled happenings).execution = x from rfl, hp] at h
  obtain ⟨es, hr⟩ := h
  exact ⟨es, hr, fun now' i hi => Execution.on_last hp (RoundTrip.holds_of_course hr) hi now'⟩

/-- A call that is superseded, one that is closed, a fragment and a close that come too late, a call
that is left open, and a failure after the end of the answer; and an execution in the middle of such
an answer. -/
theorem answers_run_one_of_three_calls :
    let items : List (Except Failure StreamEvent) :=
      [.ok (.usage { input := 3 }), .ok (.toolCallStart "a" "look"), .ok (.toolCallDelta "a" "["),
        .ok (.toolCallStart "b" "see"), .ok (.toolCallDelta "b" "tr"), .ok (.usage { output := 4 }),
        .ok (.toolCallDelta "b" "ue"), .ok (.toolCallEnd "b"), .ok (.toolCallDelta "b" "!"),
        .ok (.toolCallEnd "b"), .ok (.textDelta "so"), .ok (.toolCallStart "c" "look"),
        .ok (.done (some "tool_use")), .error (.http "gone")]
    let setup : Setup := { config := { usageThresholds := [] }, session := "s", model := "m" }
    let happenings : List (Nat × Stimulus) :=
      [(0, .admitted), (0, .opened (.ok ())), (1, .item (some (.ok (.toolCallStart "a" "look"))))]
    let said : RoundTrip :=
      { stage := .done, assembler := none, text := "so", calls := [⟨"b", "see", .bool true⟩]
        usage := { input := 3, output := 4 }, stopReason := some "tool_use" }
    let x := (Record.run 0 setup [.user "go"] false happenings).execution
    NoTextInCall (cut items).1 ∧ course (ofStream items) = .answered said ∧
      ∃ r, x.phase = .reading r ∧ ∃ es : List StreamEvent, course (es.map .event) = .underWay r ∧
        ∀ now' i, IsLast i → x.on now' (.item i) = x.actOn now' (outcome es (.item i)) := by
  intro items setup happenings said x
  have htext : NoTextInCall (cut items).1 := by decide +kernel
  have hsaid : outcome (cut items).1 (cut items).2 = .answered said := by
    dsimp only [items, said]
    rfl
  have hrun := answers_run 0 setup [.user "go"] false happenings items htext
  exact ⟨htext, hrun.1.course_eq.trans hsaid, _, rfl, hrun.2 _ rfl⟩

end TurnEngine.Run
