import TurnEngine.Proofs.Run.Moves
import TurnEngine.Proofs.Run.Record

/-!
# The round trips of an execution

An attempt of an execution is one course of a round trip: whatever reaches it while its stream is
open, the execution has the round trip meet it and does no more than act on how that went
(`on_reading`). The round trip of a phase has come that far from its beginning (`OnCourse`), which
every move keeps (`on_onCourse`). What is known of courses thereby holds of the round trips of
every run (`lockStep_run`).
-/

namespace TurnEngine.Run

open RoundTrip (Arrival Progress)

/-- What happens to an execution when something reaches its round trip. -/
def stimulus : Arrival → Stimulus
  | .item i => .item i
  | .cancel => .cancel

namespace Execution

variable {x : Execution} {r : RoundTrip}

/-- What the round trip says about an arrival. -/
def reports (r : RoundTrip) : Arrival → List Report
  | .item (some (.ok e)) =>
    match r.accept e with
    | .error _ => []
    | .ok (_, reports) => reports
  | _ => []

/-- The execution once it knows of an arrival. -/
def noting (x : Execution) : Arrival → Execution
  | .item _ => x
  | .cancel => { x with cancelled := true }

/-- Acts on how far the round trip has come. -/
def actOn (now : Nat) (x : Execution) : Progress → Move
  | .underWay r => pullNext now x r
  | .answered r => turnAnswered now x r
  | .failed f => attemptFailed now x f

/-- What an execution does when something reaches its round trip. -/
def follow (now : Nat) (x : Execution) (r : RoundTrip) (a : Arrival) : Move :=
  let (x, heard) := (x.noting a).tellAll ((reports r a).map x.liveReport)
  afterEvents heard (actOn now x (r.meet a))

/-- The end of an answer says nothing. -/
theorem reports_of_answered {r r' : RoundTrip} {a : Arrival}
    (h : r.meet a = .answered r') : reports r a = [] ∧ ∀ x : Execution, x.noting a = x := by
  rcases a with (_ | _ | e) | _
  · exact ⟨rfl, fun x => rfl⟩
  · cases h
  · refine ⟨?_, fun x => rfl⟩
    cases e with
    | done stopReason => rfl
    | _ =>
      simp only [RoundTrip.meet] at h
      split at h
      · cases h
      · cases h
  · cases h

theorem actOn_close (now : Nat) (x : Execution) (r : RoundTrip) :
    actOn now x r.close = streamEnded now x r := by
  unfold RoundTrip.close streamEnded
  cases r.finish <;> rfl

theorem itemArrived_eq (now : Nat) (x : Execution) (r : RoundTrip)
    (i : Option (Except Failure StreamEvent)) :
    itemArrived now x r i = follow now x r (.item i) := by
  rcases i with _ | f | e
  · exact (actOn_close now x r).symm
  · rfl
  · simp only [itemArrived, follow, noting, reports, RoundTrip.meet]
    cases r.accept e with
    | error f => rfl
    | ok p =>
      obtain ⟨r', said⟩ := p
      -- nothing but the end of the answer closes the round trip
      cases e with
      | done stopReason => simp only [StreamEvent.isDone, if_true, actOn_close]
      | _ => rfl

theorem on_reading (hp : x.phase = .reading r) (now : Nat) (a : Arrival) :
    x.on now (stimulus a) = follow now x r a := by
  cases a with
  | cancel =>
    simp only [stimulus, on, signalled, hp]
    rfl
  | item i =>
    simp only [stimulus, on, hp]
    exact itemArrived_eq now x r i

/-! ## On course -/

/-- The round trip of a phase has come that far from its beginning. -/
def OnCourse : Phase → Prop
  | .opening r => RoundTrip.course [] = .underWay r
  | .reading r => ∃ es : List StreamEvent, RoundTrip.course (es.map .event) = .underWay r
  | _ => True

theorem conclude_onCourse (now : Nat) (x : Execution) (status : Status) (error : Option String) :
    OnCourse (conclude now x status error).execution.phase := by
  rw [conclude_phase]
  trivial

theorem attemptFailed_onCourse (now : Nat) (x : Execution) (f : Failure) :
    OnCourse (attemptFailed now x f).execution.phase := by
  rcases attemptFailed_cases now x f with ⟨ms, -, h⟩ | ⟨status, error, -, h⟩
  · rw [h]
    trivial
  · rw [h]
    exact conclude_onCourse now x status error

theorem beginAttempt_onCourse (now : Nat) (x : Execution) :
    OnCourse (beginAttempt now x).execution.phase := by
  cases hc : x.cancelled with
  | true =>
    rw [beginAttempt_of_cancelled hc]
    exact conclude_onCourse _ _ _ _
  | false =>
    rw [beginAttempt_of_not_cancelled hc]
    rfl

theorem beginTurn_onCourse (now : Nat) (x : Execution) :
    OnCourse (beginTurn now x).execution.phase := by
  unfold beginTurn
  split
  · exact conclude_onCourse _ _ _ _
  · split
    · exact conclude_onCourse _ _ _ _
    · exact beginAttempt_onCourse _ _

theorem turnAnswered_onCourse (now : Nat) (x : Execution) (r : RoundTrip) :
    OnCourse (turnAnswered now x r).execution.phase := by
  by_cases hr : r.calls = []
  · rw [turnAnswered_of_nil hr]
    exact conclude_onCourse _ _ _ _
  · rw [turnAnswered_of_ne hr]
    trivial

theorem pullNext_onCourse (now : Nat) (x : Execution) (es : List StreamEvent)
    (hr : RoundTrip.course (es.map .event) = .underWay r) :
    OnCourse (pullNext now x r).execution.phase := by
  unfold pullNext
  split
  · exact attemptFailed_onCourse _ _ _
  · exact ⟨es, hr⟩

theorem follow_onCourse (now : Nat) (x : Execution) {es : List StreamEvent}
    (hr : RoundTrip.course (es.map .event) = .underWay r) (a : Arrival) :
    OnCourse (follow now x r a).execution.phase := by
  simp only [follow, afterEvents_execution]
  cases hm : r.meet a with
  | answered r' => exact turnAnswered_onCourse _ _ _
  | failed f => exact attemptFailed_onCourse _ _ _
  | underWay r' =>
    obtain ⟨e, rfl⟩ := RoundTrip.event_of_meet hm
    refine pullNext_onCourse _ _ (es ++ [e]) ?_
    rw [List.map_append, RoundTrip.course_append hr]
    simp only [List.map_cons, List.map_nil, RoundTrip.through, hm]

theorem on_onCourse (h : OnCourse x.phase) (now : Nat) (s : Stimulus) :
    OnCourse (x.on now s).execution.phase := by
  have hdoes := on_does now x s
  generalize x.on now s = m at hdoes ⊢
  cases hdoes with
  | begin => exact beginTurn_onCourse now x
  | refuse => trivial
  | read hp =>
    rw [hp] at h
    exact pullNext_onCourse now x [] h
  | fail f => exact attemptFailed_onCourse now x f
  | take i hp =>
    rw [hp] at h
    obtain ⟨es, hr⟩ := h
    rw [itemArrived_eq]
    exact follow_onCourse now x hr (.item i)
  | retry => exact beginAttempt_onCourse now x
  | answer => exact beginTurn_onCourse now _
  | abort => exact conclude_onCourse now _ _ _
  | interrupt => exact attemptFailed_onCourse now _ _
  | note => exact h
  | ignore => exact h

theorem start_onCourse (now : Nat) (setup : Setup) (history : List Message) (cancelled : Bool) :
    OnCourse (start now setup history cancelled).execution.phase := by
  unfold start
  dsimp only
  split
  · trivial
  · split
    · trivial
    · split
      · exact conclude_onCourse _ _ _ _
      · trivial

end Execution

/-- The round trip of an execution is under way: the events so far have brought it here, and
whatever reaches it next, the execution acts on how the round trip takes it. -/
structure CarriesOn (x : Execution) (r : RoundTrip) (es : List StreamEvent) : Prop where
  course : RoundTrip.course (es.map .event) = .underWay r
  follows : ∀ now a, x.on now (stimulus a) = x.follow now r a

/-- Every round trip, whatever arrives, keeps the protocol and the assembler in step; and the round
trips of a run are of this kind. -/
theorem lockStep_run (now : Nat) (setup : Setup) (history : List Message) (cancelled : Bool)
    (happenings : List (Nat × Stimulus)) :
    (∀ arrivals, RoundTrip.LockStep arrivals) ∧
      match (Record.run now setup history cancelled happenings).execution.phase with
      | .opening r => RoundTrip.course [] = .underWay r
      | .reading r => ∃ es, CarriesOn
          (Record.run now setup history cancelled happenings).execution r es
      | _ => True := by
  have h : Execution.OnCourse
      (Record.run now setup history cancelled happenings).execution.phase :=
    Record.run_induct (P := fun r => Execution.OnCourse r.execution.phase)
      (Execution.start_onCourse now setup history cancelled)
      (fun r now s hr => Execution.on_onCourse hr now s) happenings
  refine ⟨RoundTrip.lockStep, ?_⟩
  generalize (Record.run now setup history cancelled happenings).execution = x at h ⊢
  cases hp : x.phase with
  | reading r =>
    rw [hp] at h
    obtain ⟨es, hr⟩ := h
    exact ⟨es, hr, fun now a => Execution.on_reading hp now a⟩
  | opening r =>
    rw [hp] at h
    exact h
  | _ => trivial

/-- A stray close, and then a call that another one replaces, which is open: text would break the
round trip now, and the end of the answer would drop the call. -/
theorem lockStep_run_replaced_call :
    let setup : Setup := { config := { usageThresholds := [] }, session := "s", model := "m" }
    let es : List StreamEvent :=
      [.toolCallEnd "a", .toolCallStart "a" "look", .toolCallStart "b" "see",
        .usage { output := 7 }]
    let happenings : List (Nat × Stimulus) :=
      [(0, .admitted), (1, .opened (.ok ()))] ++ es.map fun e => (2, .item (some (.ok e)))
    let x := (Record.run 0 setup [.user "go"] false happenings).execution
    let round : RoundTrip :=
      { stage := .toolUse
        assembler := some { id := "b", name := "see" }
        usage := { output := 7 } }
    x.phase = .reading round ∧ (∃ es', CarriesOn x round es') ∧
      RoundTrip.course (es.map .event ++ [.event (.textDelta "no")]) =
        .failed (.illegalTransition "tool_use" "streaming") ∧
      RoundTrip.course (es.map .event ++ [.event (.done none)]) =
        .answered { round with stage := .done, assembler := none } := by
  intro setup es happenings x round
  obtain ⟨hsteps, hphase⟩ := lockStep_run 0 setup [.user "go"] false happenings
  have hround : x.phase = .reading round := rfl
  rw [show (Record.run 0 setup [.user "go"] false happenings).execution.phase = .reading round
    from hround] at hphase
  have htext : RoundTrip.TextInCall false (es.map .event ++ [.event (.textDelta "no")]) :=
    ⟨es, "no", ⟨by decide, [], rfl⟩, rfl⟩
  exact ⟨hround, hphase, (hsteps _).textInCall htext, rfl⟩

end TurnEngine.Run
