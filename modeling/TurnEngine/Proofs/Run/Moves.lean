import TurnEngine.Proofs.Stream.InStep
import TurnEngine.Run.Execution

/-!
# What the moves of an execution come to

For each part of a move, the moves that it can be, with everything the execution keeps. The proofs
about executions go through these lemmas and leave the parts folded.
-/

namespace TurnEngine.Run.Execution

variable {x : Execution}

/-! ## Telling the listener -/

/-- Telling the listener changes nothing but the signal. -/
theorem tell_eq (x : Execution) (e : LiveEvent) :
    ∃ fired, (x.tell e).1 = { x with cancelled := fired } := by
  unfold tell
  split
  · exact ⟨x.cancelled, rfl⟩
  · exact ⟨_, rfl⟩

theorem tellAll_eq (x : Execution) (events : List LiveEvent) :
    ∃ fired, (x.tellAll events).1 = { x with cancelled := fired } := by
  induction events generalizing x with
  | nil => exact ⟨x.cancelled, rfl⟩
  | cons e events ih =>
    obtain ⟨fired, hx⟩ := tell_eq x e
    obtain ⟨fired', hx'⟩ := ih (x.tell e).1
    refine ⟨fired', ?_⟩
    simp only [tellAll]
    rw [hx', hx]

@[simp] theorem afterEvents_nil (m : Move) : afterEvents [] m = m := rfl

@[simp] theorem afterEvents_execution (events : List LiveEvent) (m : Move) :
    (afterEvents events m).execution = m.execution := rfl

/-! ## The parts of a move -/

/-- The result of an execution that ends as it is. -/
def resultNow (now : Nat) (x : Execution) (status : Status) (error : Option String) :
    Result Message where
  status
  messages := x.messages
  usage := x.meter.usage
  turns := x.turns
  durationMs := now - x.startedAt
  error

/-- An execution that ends keeps all but its phase, and its listener may fire the signal. -/
theorem conclude_eq (now : Nat) (x : Execution) (status : Status) (error : Option String) :
    ∃ fired, (conclude now x status error).execution
      = { x with phase := .ended (.ok (resultNow now x status error)), cancelled := fired } :=
  tell_eq { x with phase := .ended (.ok (resultNow now x status error)) }
    (.done (resultNow now x status error))

theorem conclude_phase (now : Nat) (x : Execution) (status : Status) (error : Option String) :
    (conclude now x status error).execution.phase
      = .ended (.ok (resultNow now x status error)) := by
  obtain ⟨fired, hx⟩ := conclude_eq now x status error
  rw [hx]

/-- After a failed attempt the execution waits for the next one, or it ends. -/
theorem attemptFailed_cases (now : Nat) (x : Execution) (f : Failure) :
    (∃ ms, x.cancelled = false ∧ attemptFailed now x f
      = { execution := { x with phase := .pausing }, command := some (.pause ms) }) ∨
    ∃ status error, (status = .aborted ∨ status = .error) ∧
      attemptFailed now x f = conclude now x status error := by
  unfold attemptFailed
  split
  · right
    split
    · exact ⟨.aborted, none, .inl rfl, rfl⟩
    · exact ⟨.error, some f.message, .inr rfl, rfl⟩
  · rename_i ms _
    split
    · exact .inr ⟨.aborted, none, .inl rfl, rfl⟩
    · rename_i hc
      exact .inl ⟨ms, by simpa using hc, rfl⟩

theorem beginAttempt_of_cancelled (hc : x.cancelled = true) (now : Nat) :
    beginAttempt now x = conclude now x .aborted none := by
  unfold beginAttempt
  rw [if_pos hc]

/-- An attempt asks the model, and its round trip has just started. -/
theorem beginAttempt_of_not_cancelled (hc : x.cancelled = false) (now : Nat) :
    beginAttempt now x
      = { execution := { x with attempt := x.attempt + 1, phase := .opening .started }
          command := some (.openStream x.request) } := by
  unfold beginAttempt
  rw [if_neg (by simp [hc])]
  rfl

theorem beginTurn_of_cancelled (hc : x.cancelled = true) (now : Nat) :
    beginTurn now x = conclude now x .aborted none := by
  unfold beginTurn
  rw [if_pos hc]

theorem beginTurn_of_limit (hc : x.cancelled = false) (hl : x.setup.turnLimit ≤ x.turns)
    (now : Nat) : beginTurn now x = conclude now x .maxTurns none := by
  unfold beginTurn
  rw [if_neg (by simp [hc]), if_pos hl]

theorem beginTurn_of_left (hc : x.cancelled = false) (hl : x.turns < x.setup.turnLimit)
    (now : Nat) :
    beginTurn now x
      = { execution := { x with turns := x.turns + 1, attempt := 1, phase := .opening .started }
          command := some (.openStream x.request) } := by
  unfold beginTurn
  rw [if_neg (by simp [hc]), if_neg (Nat.not_le_of_lt hl)]
  exact beginAttempt_of_not_cancelled (x := { x with turns := x.turns + 1, attempt := 0 }) hc now

theorem pullNext_of_cancelled (hc : x.cancelled = true) (now : Nat) (r : RoundTrip) :
    pullNext now x r = attemptFailed now x .cancelled := by
  unfold pullNext
  rw [if_pos hc]

theorem pullNext_of_not_cancelled (hc : x.cancelled = false) (now : Nat) (r : RoundTrip) :
    pullNext now x r = { execution := { x with phase := .reading r }, command := some .pull } := by
  unfold pullNext
  rw [if_neg (by simp [hc])]

/-- The execution once it has counted the usage of a round trip, and the warnings its listener
heard of. -/
def counting (x : Execution) (r : RoundTrip) : Execution × List LiveEvent :=
  let (warnings, meter) := (x.meter.add r.usage).check
  { x with meter }.tellAll (warnings.map .usageWarning)

/-- The usage of an answer counts, whatever the listener does about the warnings. -/
theorem counting_eq (x : Execution) (r : RoundTrip) :
    ∃ fired, (x.counting r).1
      = { x with meter := (x.meter.add r.usage).check.2, cancelled := fired } :=
  tellAll_eq { x with meter := (x.meter.add r.usage).check.2 } _

/-- An answer without calls ends the execution. -/
theorem turnAnswered_of_nil {r : RoundTrip} (hr : r.calls = []) (now : Nat) (x : Execution) :
    turnAnswered now x r
      = afterEvents (x.counting r).2 (conclude now
          { (x.counting r).1 with messages := (x.counting r).1.messages ++ [.assistant r.text] }
          .completed none) := by
  unfold turnAnswered counting
  dsimp only
  rw [if_pos (List.isEmpty_iff.2 hr)]

/-- An answer with calls has them dispatched. -/
theorem turnAnswered_of_ne {r : RoundTrip} (hr : r.calls ≠ []) (now : Nat) (x : Execution) :
    turnAnswered now x r
      = { execution :=
            { (x.counting r).1 with
                messages := (x.counting r).1.messages ++ [.assistantWithTools r.text r.calls]
                phase := .dispatching r.calls }
          events := (x.counting r).2
          command := some (.dispatch r.calls) } := by
  unfold turnAnswered counting
  dsimp only
  rw [if_neg (fun he => hr (List.isEmpty_iff.1 he))]

/-! ## Whole moves -/

/-- What an execution does on a stimulus: one thing for each phase that the stimulus fits, and
nothing otherwise. -/
inductive Does (now : Nat) (x : Execution) : Stimulus → Move → Prop
  | begin (hp : x.phase = .admission) : Does now x .admitted (beginTurn now x)
  | refuse (f : Failure) (hp : x.phase = .admission) : Does now x (.refused f) (refuse x f)
  | read {r : RoundTrip} (hp : x.phase = .opening r) :
      Does now x (.opened (.ok ())) (pullNext now x r)
  | fail {r : RoundTrip} (f : Failure) (hp : x.phase = .opening r) :
      Does now x (.opened (.error f)) (attemptFailed now x f)
  | take {r : RoundTrip} (i : Option (Except Failure StreamEvent)) (hp : x.phase = .reading r) :
      Does now x (.item i) (itemArrived now x r i)
  | retry (hp : x.phase = .pausing) : Does now x .awake (beginAttempt now x)
  | answer {calls : List ToolCall} (rs : List ToolResult) (hp : x.phase = .dispatching calls) :
      Does now x (.results rs)
        (beginTurn now { x with messages := x.messages ++ [.ofResults (pairResults calls rs)] })
  | abort (hp : x.phase = .admission ∨ x.phase = .pausing) :
      Does now x .cancel (conclude now { x with cancelled := true } .aborted none)
  | interrupt {r : RoundTrip} (hp : x.phase = .opening r ∨ x.phase = .reading r) :
      Does now x .cancel (attemptFailed now { x with cancelled := true } .cancelled)
  | note (hp : (∃ calls, x.phase = .dispatching calls) ∨ ∃ outcome, x.phase = .ended outcome) :
      Does now x .cancel { execution := { x with cancelled := true } }
  | ignore (s : Stimulus) : Does now x s { execution := x }

theorem signalled_does (now : Nat) (x : Execution) : Does now x .cancel (signalled now x) := by
  unfold signalled
  dsimp only
  split
  · exact .abort (.inl ‹_›)
  · exact .interrupt (.inl ‹_›)
  · exact .interrupt (.inr ‹_›)
  · exact .abort (.inr ‹_›)
  · exact .note (.inl ⟨_, ‹_›⟩)
  · exact .note (.inr ⟨_, ‹_›⟩)

theorem on_does (now : Nat) (x : Execution) (s : Stimulus) : Does now x s (x.on now s) := by
  unfold on
  cases s with
  | cancel => exact signalled_does now x
  | opened answer =>
    dsimp only
    split
    · exact .read ‹_›
    · exact .fail _ ‹_›
    · exact .ignore _
  | admitted =>
    dsimp only
    split
    · exact .begin ‹_›
    · exact .ignore _
  | refused f =>
    dsimp only
    split
    · exact .refuse f ‹_›
    · exact .ignore _
  | item i =>
    dsimp only
    split
    · exact .take i ‹_›
    · exact .ignore _
  | awake =>
    dsimp only
    split
    · exact .retry ‹_›
    · exact .ignore _
  | results rs =>
    dsimp only
    split
    · exact .answer rs ‹_›
    · exact .ignore _

end TurnEngine.Run.Execution
