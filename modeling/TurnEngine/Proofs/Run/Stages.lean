import TurnEngine.Proofs.Run.Moves

/-!
# From admission to the end

An execution waits to be admitted, is under way, and is over. A move tells its surroundings that
the execution is over with its last command, and with none before (`Proceeds`), so that whoever
serves the commands need not look at the execution to know.
-/

namespace TurnEngine.Run

/-- Whether an execution is between its admission and its end. -/
def Phase.isUnderWay : Phase → Bool
  | .opening _ => true
  | .reading _ => true
  | .pausing => true
  | .dispatching _ => true
  | .admission => false
  | .ended _ => false

/-- A move of an execution leaves it under way, or ends it with its last command. -/
inductive Proceeds (x : Execution) (m : Move) : Prop
  | underWay (hs : m.execution.setup = x.setup) (hp : m.execution.phase.isUnderWay = true)
      (hc : m.command ≠ some .finish)
  | ended (hs : m.execution.setup = x.setup) {outcome : Except Failure (Result Message)}
      (hp : m.execution.phase = .ended outcome) (hc : m.command = some .finish)

theorem Proceeds.afterEvents {x : Execution} {m : Move} (h : Proceeds x m)
    (events : List LiveEvent) : Proceeds x (Execution.afterEvents events m) := by
  cases h with
  | underWay hs hp hc => exact .underWay hs hp hc
  | ended hs hp hc => exact .ended hs hp hc

theorem Proceeds.setup {x : Execution} {m : Move} (h : Proceeds x m) :
    m.execution.setup = x.setup := by
  cases h with
  | underWay hs => exact hs
  | ended hs => exact hs

/-- What a move did before does not matter if it kept the setup. -/
theorem Proceeds.of_same {x x' : Execution} {m : Move} (h : Proceeds x' m)
    (hx : x'.setup = x.setup) : Proceeds x m := by
  cases h with
  | underWay hs hp hc => exact .underWay (hs.trans hx) hp hc
  | ended hs hp hc => exact .ended (hs.trans hx) hp hc

namespace Execution

variable {x : Execution}

theorem conclude_proceeds (now : Nat) (x : Execution) (status : Status) (error : Option String) :
    Proceeds x (conclude now x status error) := by
  obtain ⟨fired, hx⟩ := conclude_eq now x status error
  exact .ended (by rw [hx]) (conclude_phase now x status error) rfl

theorem attemptFailed_proceeds (now : Nat) (x : Execution) (f : Failure) :
    Proceeds x (attemptFailed now x f) := by
  rcases attemptFailed_cases now x f with ⟨ms, -, hm⟩ | ⟨status, error, -, hm⟩ <;> rw [hm]
  · exact .underWay rfl rfl nofun
  · exact conclude_proceeds now x status error

theorem beginAttempt_proceeds (now : Nat) (x : Execution) : Proceeds x (beginAttempt now x) := by
  cases hc : x.cancelled with
  | true =>
    rw [beginAttempt_of_cancelled hc]
    exact conclude_proceeds now x .aborted none
  | false =>
    rw [beginAttempt_of_not_cancelled hc]
    exact .underWay rfl rfl nofun

theorem beginTurn_proceeds (now : Nat) (x : Execution) : Proceeds x (beginTurn now x) := by
  unfold beginTurn
  split
  · exact conclude_proceeds now x .aborted none
  · split
    · exact conclude_proceeds now x .maxTurns none
    · exact (beginAttempt_proceeds now _).of_same rfl

theorem pullNext_proceeds (now : Nat) (x : Execution) (r : RoundTrip) :
    Proceeds x (pullNext now x r) := by
  unfold pullNext
  split
  · exact attemptFailed_proceeds now x .cancelled
  · exact .underWay rfl rfl nofun

theorem turnAnswered_proceeds (now : Nat) (x : Execution) (r : RoundTrip) :
    Proceeds x (turnAnswered now x r) := by
  obtain ⟨fired, hx⟩ := counting_eq x r
  by_cases hr : r.calls = []
  · rw [turnAnswered_of_nil hr, hx]
    refine .afterEvents (.of_same (conclude_proceeds now _ .completed none) ?_) _
    rfl
  · rw [turnAnswered_of_ne hr, hx]
    exact .underWay rfl rfl nofun

theorem streamEnded_proceeds (now : Nat) (x : Execution) (r : RoundTrip) :
    Proceeds x (streamEnded now x r) := by
  unfold streamEnded
  split
  · exact attemptFailed_proceeds now x _
  · exact turnAnswered_proceeds now x _

theorem itemArrived_proceeds (now : Nat) (x : Execution) (r : RoundTrip)
    (i : Option (Except Failure StreamEvent)) : Proceeds x (itemArrived now x r i) := by
  rcases i with _ | f | e
  · exact streamEnded_proceeds now x r
  · exact attemptFailed_proceeds now x f
  · unfold itemArrived
    dsimp only
    split
    · exact attemptFailed_proceeds now x _
    · rename_i r' said _
      obtain ⟨fired, hx⟩ := tellAll_eq x (said.map x.liveReport)
      have hsame : (x.tellAll (said.map x.liveReport)).1.setup = x.setup := by rw [hx]
      split
      · exact ((streamEnded_proceeds now _ r').of_same hsame).afterEvents _
      · exact ((pullNext_proceeds now _ r').of_same hsame).afterEvents _

/-- An execution that is under way stays so until it says that it is over. -/
theorem on_proceeds (hx : x.phase.isUnderWay = true) (now : Nat) (s : Stimulus) :
    Proceeds x (x.on now s) := by
  have hdoes := on_does now x s
  generalize x.on now s = m at hdoes ⊢
  cases hdoes with
  | begin => exact beginTurn_proceeds now x
  | refuse f => exact .ended rfl rfl rfl
  | read => exact pullNext_proceeds now x _
  | fail f => exact attemptFailed_proceeds now x f
  | take i => exact itemArrived_proceeds now x _ i
  | retry => exact beginAttempt_proceeds now x
  | answer => exact (beginTurn_proceeds now _).of_same rfl
  | abort => exact (conclude_proceeds now _ .aborted none).of_same rfl
  | interrupt => exact (attemptFailed_proceeds now _ .cancelled).of_same rfl
  | note => exact .underWay rfl hx nofun
  | ignore => exact .underWay rfl hx nofun

/-- A round trip that the signal interrupts ends the execution, whatever the retries say. -/
theorem attemptFailed_cancelled (hc : x.cancelled = true) (now : Nat) :
    attemptFailed now x .cancelled = conclude now x .aborted none := by
  unfold attemptFailed
  split
  · rfl
  · exact if_pos hc

/-- The signal ends an execution that waits for anything but its tools. -/
theorem on_cancel (hp : x.phase = .admission ∨ x.phase.isUnderWay = true)
    (hd : ∀ calls, x.phase ≠ .dispatching calls) (now : Nat) :
    x.on now .cancel = conclude now { x with cancelled := true } .aborted none := by
  cases hx : x.phase with
  | admission => simp only [on, signalled, hx]
  | pausing => simp only [on, signalled, hx]
  | opening r =>
    have hm := attemptFailed_cancelled (x := { x with cancelled := true }) rfl now
    simp only [on, signalled, hx] at hm ⊢
    exact hm
  | reading r =>
    have hm := attemptFailed_cancelled (x := { x with cancelled := true }) rfl now
    simp only [on, signalled, hx] at hm ⊢
    exact hm
  | dispatching calls => exact absurd hx (hd calls)
  | ended outcome => simp [hx, Phase.isUnderWay] at hp

theorem on_setup (now : Nat) (x : Execution) (s : Stimulus) :
    (x.on now s).execution.setup = x.setup := by
  have hdoes := on_does now x s
  generalize x.on now s = m at hdoes ⊢
  cases hdoes with
  | begin => exact (beginTurn_proceeds now x).setup
  | refuse => rfl
  | read => exact (pullNext_proceeds now x _).setup
  | fail f => exact (attemptFailed_proceeds now x f).setup
  | take i => exact (itemArrived_proceeds now x _ i).setup
  | retry => exact (beginAttempt_proceeds now x).setup
  | answer => exact (beginTurn_proceeds now _).setup
  | abort => exact (conclude_proceeds now _ .aborted none).setup
  | interrupt => exact (attemptFailed_proceeds now _ .cancelled).setup
  | note => rfl
  | ignore => rfl

theorem on_admitted (hp : x.phase = .admission) (now : Nat) :
    x.on now .admitted = beginTurn now x := by
  simp only [on, hp]

theorem on_refused (hp : x.phase = .admission) (now : Nat) (f : Failure) :
    x.on now (.refused f) = refuse x f := by
  simp only [on, hp]

theorem on_results {calls : List ToolCall} (hp : x.phase = .dispatching calls) (now : Nat)
    (rs : List ToolResult) :
    x.on now (.results rs) =
      beginTurn now { x with messages := x.messages ++ [.ofResults (pairResults calls rs)] } := by
  cases x
  cases hp
  rfl

/-- Once the signal has fired, results are the last thing an execution waits for. -/
theorem on_results_of_cancelled {calls : List ToolCall} (hp : x.phase = .dispatching calls)
    (hc : x.cancelled = true) (now : Nat) (rs : List ToolResult) :
    x.on now (.results rs) = conclude now
      { x with messages := x.messages ++ [.ofResults (pairResults calls rs)] } .aborted none := by
  let y : Execution := { x with messages := x.messages ++ [.ofResults (pairResults calls rs)] }
  have hy : y.cancelled = true := hc
  exact (on_results hp now rs).trans (beginTurn_of_cancelled hy now)

/-- Before it is admitted or refused an execution only hears of the signal. -/
theorem on_admission (hp : x.phase = .admission) (now : Nat) {s : Stimulus} (ha : s ≠ .admitted)
    (hr : ∀ f, s ≠ .refused f) :
    x.on now s = { execution := x } ∨
      x.on now s = conclude now { x with cancelled := true } .aborted none := by
  cases s with
  | admitted => exact absurd rfl ha
  | refused f => exact absurd rfl (hr f)
  | cancel => exact .inr (by simp only [on, signalled, hp])
  | _ => exact .inl (by simp only [on, hp])

/-- An execution that begins asks for a slot, or is over. -/
theorem start_cases (now : Nat) (setup : Setup) (history : List Message) (cancelled : Bool) :
    let m := start now setup history cancelled
    m.execution.setup = setup ∧
      ((m.command = some .acquire ∧ m.execution.phase = .admission) ∨
        (m.command = some .finish ∧ ∃ outcome, m.execution.phase = .ended outcome)) := by
  unfold start
  dsimp only
  split
  · exact ⟨rfl, .inr ⟨rfl, _, rfl⟩⟩
  · split
    · exact ⟨rfl, .inr ⟨rfl, _, rfl⟩⟩
    · split
      · cases conclude_proceeds now _ .aborted none with
        | underWay hs hp hc => exact absurd rfl hc
        | ended hs hp hc => exact ⟨hs, .inr ⟨hc, _, hp⟩⟩
      · exact ⟨rfl, .inl ⟨rfl, rfl⟩⟩

end Execution

end TurnEngine.Run
