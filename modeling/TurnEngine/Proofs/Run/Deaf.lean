import TurnEngine.Proofs.Run.Bookkeeping

/-!
# Executions without a listener

A listener reaches an execution through the signal and in no other way: what it does when it hears
an event, panics included, is over before the execution goes on. So if it never fires the signal,
the execution is the one without a listener (`Execution.deaf`), move by move (`Execution.on_deaf`)
and over whole runs (`Record.run_deaf`).
-/

namespace TurnEngine.Run

/-- The listener, if there is one, never fires the signal; it may panic. -/
def Setup.IsQuiet (s : Setup) : Prop :=
  ∀ listener, s.listener = some listener → ∀ e, listener.fires e = false

/-- The setup without its listener. -/
def Setup.deaf (s : Setup) : Setup := { s with listener := none }

/-- The execution without its listener. -/
def Execution.deaf (x : Execution) : Execution := { x with setup := x.setup.deaf }

/-- The move of an execution without its listener. -/
def Move.deaf (m : Move) : Move := { m with execution := m.execution.deaf, events := [] }

/-- The record of an execution without its listener. -/
def Record.deaf (r : Record) : Record := { r with execution := r.execution.deaf, events := [] }

namespace Execution

variable {x : Execution}

/-! ## Telling nobody -/

theorem tellAll_deaf (x : Execution) (events : List LiveEvent) :
    x.deaf.tellAll events = (x.deaf, []) := by
  induction events with
  | nil => rfl
  | cons e events ih =>
    have htell : x.deaf.tell e = (x.deaf, []) := rfl
    simp only [tellAll, htell, ih]
    rfl

section
variable (hq : x.setup.IsQuiet)
include hq

theorem tell_of_quiet (e : LiveEvent) : (x.tell e).1 = x := by
  unfold tell
  split
  · rfl
  · rename_i listener hl
    rw [hq listener hl e, Bool.or_false]

theorem tellAll_of_quiet (events : List LiveEvent) : (x.tellAll events).1 = x := by
  induction events with
  | nil => rfl
  | cons e events ih =>
    simp only [tellAll]
    rw [tell_of_quiet hq]
    exact ih

end

/-! ## The parts of a move -/

theorem afterEvents_deaf (events : List LiveEvent) (m : Move) :
    (afterEvents events m).deaf = m.deaf := rfl

variable (now : Nat)

theorem conclude_deaf (hq : x.setup.IsQuiet) (status : Status) (error : Option String) :
    conclude now x.deaf status error = (conclude now x status error).deaf := by
  have hx : (conclude now x status error).execution =
      { x with phase := .ended (.ok (resultNow now x status error)) } :=
    tell_of_quiet (x := { x with phase := .ended (.ok (resultNow now x status error)) }) hq _
  simp only [Move.deaf, hx]
  rfl

theorem attemptFailed_deaf (hq : x.setup.IsQuiet) (f : Failure) :
    attemptFailed now x.deaf f = (attemptFailed now x f).deaf := by
  unfold attemptFailed
  rw [show x.deaf.setup.plan.verdict x.deaf.attempt f = x.setup.plan.verdict x.attempt f from rfl]
  cases x.setup.plan.verdict x.attempt f with
  | giveUp =>
    dsimp only
    split <;> exact conclude_deaf now hq _ _
  | pause ms =>
    dsimp only
    rw [show x.deaf.cancelled = x.cancelled from rfl]
    split
    · exact conclude_deaf now hq _ _
    · rfl

theorem beginAttempt_deaf (hq : x.setup.IsQuiet) :
    beginAttempt now x.deaf = (beginAttempt now x).deaf := by
  cases hc : x.cancelled with
  | true =>
    rw [beginAttempt_of_cancelled hc, beginAttempt_of_cancelled (x := x.deaf) hc]
    exact conclude_deaf now hq _ _
  | false =>
    rw [beginAttempt_of_not_cancelled hc, beginAttempt_of_not_cancelled (x := x.deaf) hc]
    rfl

theorem beginTurn_deaf (hq : x.setup.IsQuiet) :
    beginTurn now x.deaf = (beginTurn now x).deaf := by
  cases hc : x.cancelled with
  | true =>
    rw [beginTurn_of_cancelled hc, beginTurn_of_cancelled (x := x.deaf) hc]
    exact conclude_deaf now hq _ _
  | false =>
    rcases Nat.lt_or_ge x.turns x.setup.turnLimit with hl | hl
    · rw [beginTurn_of_left hc hl, beginTurn_of_left (x := x.deaf) hc hl]
      rfl
    · rw [beginTurn_of_limit hc hl, beginTurn_of_limit (x := x.deaf) hc hl]
      exact conclude_deaf now hq _ _

theorem pullNext_deaf (hq : x.setup.IsQuiet) (r : RoundTrip) :
    pullNext now x.deaf r = (pullNext now x r).deaf := by
  cases hc : x.cancelled with
  | true =>
    rw [pullNext_of_cancelled hc, pullNext_of_cancelled (x := x.deaf) hc]
    exact attemptFailed_deaf now hq _
  | false =>
    rw [pullNext_of_not_cancelled hc, pullNext_of_not_cancelled (x := x.deaf) hc]
    rfl

/-- The thresholds are checked, whoever is warned. -/
theorem counting_of_quiet (hq : x.setup.IsQuiet) (r : RoundTrip) :
    (x.counting r).1 = { x with meter := (x.meter.add r.usage).check.2 } ∧
      x.deaf.counting r = ((x.counting r).1.deaf, []) := by
  have hx : (x.counting r).1 = { x with meter := (x.meter.add r.usage).check.2 } :=
    tellAll_of_quiet (x := { x with meter := (x.meter.add r.usage).check.2 }) hq _
  refine ⟨hx, ?_⟩
  rw [hx]
  exact tellAll_deaf { x with meter := (x.meter.add r.usage).check.2 } _

theorem turnAnswered_deaf (hq : x.setup.IsQuiet) (r : RoundTrip) :
    turnAnswered now x.deaf r = (turnAnswered now x r).deaf := by
  obtain ⟨hx, hdeaf⟩ := counting_of_quiet hq r
  by_cases hr : r.calls = []
  · rw [turnAnswered_of_nil hr, turnAnswered_of_nil hr, afterEvents_deaf, hdeaf, afterEvents_nil]
    refine conclude_deaf now (x := { (x.counting r).1 with
      messages := (x.counting r).1.messages ++ [.assistant r.text] }) ?_ .completed none
    rw [hx]
    exact hq
  · rw [turnAnswered_of_ne hr, turnAnswered_of_ne hr, hdeaf]
    rfl

theorem actOn_deaf (hq : x.setup.IsQuiet) (p : RoundTrip.Progress) :
    actOn now x.deaf p = (actOn now x p).deaf := by
  cases p with
  | underWay r => exact pullNext_deaf now hq r
  | answered r => exact turnAnswered_deaf now hq r
  | failed f => exact attemptFailed_deaf now hq f

theorem itemArrived_deaf (hq : x.setup.IsQuiet) (r : RoundTrip)
    (i : Option (Except Failure StreamEvent)) :
    itemArrived now x.deaf r i = (itemArrived now x r i).deaf := by
  rw [itemArrived_eq, itemArrived_eq]
  simp only [follow, noting]
  rw [tellAll_deaf, tellAll_of_quiet hq, afterEvents_deaf, afterEvents_nil]
  exact actOn_deaf now hq _

/-! ## Whole moves -/

theorem signalled_deaf (hq : x.setup.IsQuiet) : signalled now x.deaf = (signalled now x).deaf := by
  have hended := conclude_deaf now (x := { x with cancelled := true }) hq .aborted none
  have hfailed := attemptFailed_deaf now (x := { x with cancelled := true }) hq .cancelled
  obtain ⟨setup, messages, meter, turns, attempt, cancelled, startedAt, phase⟩ := x
  cases phase with
  | admission => exact hended
  | opening r => exact hfailed
  | reading r => exact hfailed
  | pausing => exact hended
  | dispatching calls => rfl
  | ended outcome => rfl

/-- Whatever happens, an execution does the same without its listener. -/
theorem on_deaf (hq : x.setup.IsQuiet) (s : Stimulus) : x.deaf.on now s = (x.on now s).deaf := by
  cases s with
  | cancel => exact signalled_deaf now hq
  | admitted =>
    simp only [on]
    rw [show x.deaf.phase = x.phase from rfl]
    cases x.phase with
    | admission => exact beginTurn_deaf now hq
    | _ => rfl
  | refused f =>
    simp only [on]
    rw [show x.deaf.phase = x.phase from rfl]
    cases x.phase <;> rfl
  | opened answer =>
    simp only [on]
    rw [show x.deaf.phase = x.phase from rfl]
    cases x.phase with
    | opening r =>
      cases answer with
      | error f => exact attemptFailed_deaf now hq f
      | ok => exact pullNext_deaf now hq r
    | _ => rfl
  | item i =>
    simp only [on]
    rw [show x.deaf.phase = x.phase from rfl]
    cases x.phase with
    | reading r => exact itemArrived_deaf now hq r i
    | _ => rfl
  | awake =>
    simp only [on]
    rw [show x.deaf.phase = x.phase from rfl]
    cases x.phase with
    | pausing => exact beginAttempt_deaf now hq
    | _ => rfl
  | results rs =>
    simp only [on]
    rw [show x.deaf.phase = x.phase from rfl]
    cases x.phase with
    | dispatching calls =>
      exact beginTurn_deaf now
        (x := { x with messages := x.messages ++ [.ofResults (pairResults calls rs)] }) hq
    | _ => rfl

theorem start_deaf (setup : Setup) (hq : setup.IsQuiet) (history : List Message)
    (cancelled : Bool) :
    start now setup.deaf history cancelled = (start now setup history cancelled).deaf := by
  unfold start
  dsimp only
  rw [show setup.deaf.config = setup.config from rfl,
    show setup.deaf.turnLimit = setup.turnLimit from rfl]
  split
  · rfl
  · split
    · rfl
    · split
      · exact conclude_deaf now
          (x := { setup, messages := history, cancelled, startedAt := now
                  meter := Meter.new setup.config.contextWindow setup.config.usageThresholds })
          hq .aborted none
      · rfl

end Execution

/-! ## Runs -/

/-- An execution whose listener never fires the signal runs as it would without one. -/
theorem Record.run_deaf (now : Nat) (setup : Setup) (hq : setup.IsQuiet) (history : List Message)
    (cancelled : Bool) (happenings : List (Nat × Stimulus)) :
    Record.run now setup.deaf history cancelled happenings =
      (Record.run now setup history cancelled happenings).deaf := by
  have hstart : ofMove (Execution.start now setup.deaf history cancelled) =
      (ofMove (Execution.start now setup history cancelled)).deaf := by
    rw [Execution.start_deaf now setup hq]
    rfl
  have hnext (r : Record) (hr : r.execution.setup.IsQuiet) (now : Nat) (s : Stimulus) :
      r.deaf.next now s = (r.next now s).deaf := by
    have hon : r.deaf.execution.on now s = (r.execution.on now s).deaf :=
      Execution.on_deaf now hr s
    simp only [next, hon]
    rfl
  have hafter (r : Record) (hr : r.execution.setup.IsQuiet) :
      r.deaf.after happenings = (r.after happenings).deaf := by
    induction happenings generalizing r with
    | nil => rfl
    | cons h hs ih =>
      have hlater := ih (r.next h.1 h.2) (by
        rw [show (r.next h.1 h.2).execution.setup = r.execution.setup from
          Execution.on_setup h.1 r.execution h.2]
        exact hr)
      rw [← hnext r hr] at hlater
      exact hlater
  unfold run
  rw [hstart]
  refine hafter _ ?_
  rw [show (ofMove (Execution.start now setup history cancelled)).execution.setup = setup from
    (Journal.start_kept now setup history cancelled).agrees.same]
  exact hq

end TurnEngine.Run
