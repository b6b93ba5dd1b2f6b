import TurnEngine.Proofs.Run.Moves
import TurnEngine.Proofs.Run.Pairing
import TurnEngine.Proofs.Run.Record

/-!
# What an execution leaves in the conversation

An execution adds whole exchanges to a conversation: what the model said with the calls it asked
for, and one result for each of them (`Exchange`). `Stands setup history exchanges x` says for
every phase what the messages and the turns of `x` are; each move keeps it, and only a batch of
results adds an exchange (`Execution.on_lands`). Hence `transcript_run`: the messages of a result
are the history, the exchanges and, if the execution completed, one last answer, and every request
on the way ended between two exchanges.
-/

namespace TurnEngine.Run

/-- One round of tools: an answer that asks for calls, and the results of the calls. -/
structure Exchange where
  text : String
  calls : List ToolCall
  results : List ToolResult
  /-- The answer asks for at least one call. -/
  calls_ne : calls ≠ []
  /-- Each call has its result, in the order of the calls. -/
  paired : results.map (·.callId) = calls.map (·.id)

/-- The two messages of an exchange. -/
def Exchange.messages (e : Exchange) : List Message :=
  [.assistantWithTools e.text e.calls, .ofResults e.results]

/-- The messages of some exchanges. -/
def transcript (es : List Exchange) : List Message :=
  es.flatMap Exchange.messages

theorem transcript_concat (es : List Exchange) (e : Exchange) :
    transcript (es ++ [e]) = transcript es ++ e.messages := by
  simp [transcript]

/-! ## Where an execution stands -/

section
variable (setup : Setup) (history : List Message) (es : List Exchange)

/-- The execution is between two turns. -/
structure BetweenTurns (x : Execution) : Prop where
  same : x.setup = setup
  messages : x.messages = history ++ transcript es
  turns : x.turns = es.length
  within : x.turns ≤ setup.turnLimit

/-- The execution is in a turn, and the model has not answered yet. -/
structure InTurn (x : Execution) : Prop where
  same : x.setup = setup
  messages : x.messages = history ++ transcript es
  turns : x.turns = es.length + 1
  within : x.turns ≤ setup.turnLimit

/-- The model has asked for calls, and they are running. -/
structure Dispatching (calls : List ToolCall) (x : Execution) : Prop where
  same : x.setup = setup
  calls_ne : calls ≠ []
  messages : ∃ text, x.messages = history ++ transcript es ++ [.assistantWithTools text calls]
  turns : x.turns = es.length + 1
  within : x.turns ≤ setup.turnLimit

/-- What a result says about the exchanges: its messages, and its turns. -/
structure Closes (result : Result Message) : Prop where
  messages : ∃ closing, result.messages = history ++ transcript es ++ closing ∧
    if result.status = .completed then ∃ text, closing = [.assistant text] else closing = []
  turns : match result.status with
    | .completed => result.turns = es.length + 1
    | .error => result.turns = es.length + 1
    | .maxTurns => result.turns = es.length ∧ result.turns = setup.turnLimit
    | .aborted => result.turns = es.length ∨ result.turns = es.length + 1

/-- Where an execution stands in a phase, after some exchanges. -/
def StandsIn (x : Execution) : Phase → Prop
  | .admission => BetweenTurns setup history es x
  | .opening _ => InTurn setup history es x
  | .reading _ => InTurn setup history es x
  | .pausing => InTurn setup history es x
  | .dispatching calls => Dispatching setup history es calls x
  | .ended (.ok result) => Closes setup history es result
  | .ended (.error _) => True

/-- Where an execution stands. -/
def Stands (x : Execution) : Prop :=
  StandsIn setup history es x x.phase

/-- A move that ends where it should, and asks the model only between two exchanges. -/
structure Lands (m : Move) : Prop where
  stands : Stands setup history es m.execution
  request : ∀ q, m.command = some (.openStream q) → q.messages = history ++ transcript es

end

variable {setup : Setup} {history : List Message} {es : List Exchange} {x : Execution}

/-! ## The parts of a move -/

namespace Execution

theorem afterEvents_lands {m : Move} (h : Lands setup history es m) (events : List LiveEvent) :
    Lands setup history es (afterEvents events m) :=
  ⟨h.stands, h.request⟩

theorem conclude_lands {now : Nat} {status : Status} {error : Option String}
    (h : Closes setup history es (resultNow now x status error)) :
    Lands setup history es (conclude now x status error) := by
  refine ⟨?_, fun q hq => by simp [conclude] at hq⟩
  unfold Stands
  rw [conclude_phase]
  exact h

theorem refuse_lands (x : Execution) (f : Failure) : Lands setup history es (refuse x f) :=
  ⟨trivial, fun q hq => by cases hq⟩

theorem aborted_lands (h : InTurn setup history es x) (now : Nat) :
    Lands setup history es (conclude now x .aborted none) :=
  conclude_lands ⟨⟨[], by rw [List.append_nil]; exact h.messages, rfl⟩, .inr h.turns⟩

theorem attemptFailed_lands (h : InTurn setup history es x) (now : Nat) (f : Failure) :
    Lands setup history es (attemptFailed now x f) := by
  obtain ⟨ms, -, hm⟩ | ⟨status, error, rfl | rfl, hm⟩ := attemptFailed_cases now x f <;> rw [hm]
  · exact ⟨⟨h.same, h.messages, h.turns, h.within⟩, fun q hq => by cases hq⟩
  · exact conclude_lands ⟨⟨[], by rw [List.append_nil]; exact h.messages, rfl⟩, .inr h.turns⟩
  · exact conclude_lands ⟨⟨[], by rw [List.append_nil]; exact h.messages, rfl⟩, h.turns⟩

theorem beginAttempt_lands (h : InTurn setup history es x) (now : Nat) :
    Lands setup history es (beginAttempt now x) := by
  cases hc : x.cancelled with
  | true =>
    rw [beginAttempt_of_cancelled hc]
    exact aborted_lands h now
  | false =>
    rw [beginAttempt_of_not_cancelled hc]
    refine ⟨⟨h.same, h.messages, h.turns, h.within⟩, fun q hq => ?_⟩
    cases hq
    exact h.messages

theorem beginTurn_lands (h : BetweenTurns setup history es x) (now : Nat) :
    Lands setup history es (beginTurn now x) := by
  have hmessages : x.messages = history ++ transcript es ++ [] := by
    rw [List.append_nil]
    exact h.messages
  cases hc : x.cancelled with
  | true =>
    rw [beginTurn_of_cancelled hc]
    exact conclude_lands ⟨⟨[], hmessages, rfl⟩, .inl h.turns⟩
  | false =>
    rcases Nat.lt_or_ge x.turns x.setup.turnLimit with hl | hl
    · rw [beginTurn_of_left hc hl]
      rw [h.same] at hl
      refine ⟨⟨h.same, h.messages, congrArg (· + 1) h.turns, hl⟩, fun q hq => ?_⟩
      cases hq
      exact h.messages
    · rw [beginTurn_of_limit hc hl]
      rw [h.same] at hl
      exact conclude_lands ⟨⟨[], hmessages, rfl⟩, h.turns, Nat.le_antisymm h.within hl⟩

theorem turnAnswered_lands (h : InTurn setup history es x) (now : Nat) (round : RoundTrip) :
    Lands setup history es (turnAnswered now x round) := by
  have hmessages (closing : List Message) :
      x.messages ++ closing = history ++ transcript es ++ closing := by
    rw [h.messages]
  -- a warning may fire the signal, which does not undo the answer
  obtain ⟨fired, hx⟩ := counting_eq x round
  by_cases hr : round.calls = []
  · rw [turnAnswered_of_nil hr, hx]
    refine afterEvents_lands (conclude_lands ?_) _
    exact ⟨⟨_, hmessages [.assistant round.text], (if_pos rfl).mpr ⟨_, rfl⟩⟩, h.turns⟩
  · rw [turnAnswered_of_ne hr, hx]
    exact ⟨⟨h.same, hr, ⟨round.text, hmessages _⟩, h.turns, h.within⟩, fun q hq => by cases hq⟩

theorem streamEnded_lands (h : InTurn setup history es x) (now : Nat) (round : RoundTrip) :
    Lands setup history es (streamEnded now x round) := by
  unfold streamEnded
  split
  · exact attemptFailed_lands h now _
  · exact turnAnswered_lands h now _

theorem pullNext_lands (h : InTurn setup history es x) (now : Nat) (round : RoundTrip) :
    Lands setup history es (pullNext now x round) := by
  unfold pullNext
  split
  · exact attemptFailed_lands h now _
  · exact ⟨⟨h.same, h.messages, h.turns, h.within⟩, fun q hq => by cases hq⟩

theorem itemArrived_lands (h : InTurn setup history es x) (now : Nat) (round : RoundTrip)
    (item : Option (Except Failure StreamEvent)) :
    Lands setup history es (itemArrived now x round item) := by
  cases item with
  | none => exact streamEnded_lands h now round
  | some item =>
    cases item with
    | error f => exact attemptFailed_lands h now f
    | ok e =>
      unfold itemArrived
      dsimp only
      split
      · exact attemptFailed_lands h now _
      · rename_i round' reports _
        obtain ⟨fired, hx⟩ := tellAll_eq x (reports.map x.liveReport)
        have h' : InTurn setup history es (x.tellAll (reports.map x.liveReport)).1 := by
          rw [hx]
          exact ⟨h.same, h.messages, h.turns, h.within⟩
        cases e with
        | done stopReason => exact afterEvents_lands (streamEnded_lands h' now round') _
        | _ => exact afterEvents_lands (pullNext_lands h' now round') _

/-! ## Every move -/

theorem standsIn (h : Stands setup history es x) {p : Phase} (hp : x.phase = p) :
    StandsIn setup history es x p :=
  hp ▸ h

/-- The signal does not move an execution by itself. -/
theorem fire_stands (h : Stands setup history es x) (fired : Bool) :
    Stands setup history es { x with cancelled := fired } := by
  unfold Stands at h ⊢
  dsimp only
  generalize x.phase = p at h ⊢
  cases p with
  | admission => exact ⟨h.same, h.messages, h.turns, h.within⟩
  | opening => exact ⟨h.same, h.messages, h.turns, h.within⟩
  | reading => exact ⟨h.same, h.messages, h.turns, h.within⟩
  | pausing => exact ⟨h.same, h.messages, h.turns, h.within⟩
  | dispatching => exact ⟨h.same, h.calls_ne, h.messages, h.turns, h.within⟩
  | ended outcome => cases outcome <;> exact h

theorem stay_lands (h : Stands setup history es x) :
    Lands setup history es { execution := x } :=
  ⟨h, fun q hq => by cases hq⟩

/-- Results close the exchange that the calls opened. -/
theorem results_lands {calls : List ToolCall} (h : Dispatching setup history es calls x)
    (now : Nat) (produced : List ToolResult) :
    ∃ e : Exchange, Lands setup history (es ++ [e])
      (beginTurn now
        { x with messages := x.messages ++ [.ofResults (pairResults calls produced)] }) := by
  obtain ⟨text, hmessages⟩ := h.messages
  let e : Exchange := ⟨text, calls, _, h.calls_ne, map_callId_pairResults calls produced⟩
  have hanswered : x.messages ++ [.ofResults e.results]
      = history ++ transcript (es ++ [e]) := by
    rw [hmessages, transcript_concat, List.append_assoc, List.append_assoc]
    rfl
  have hturns : x.turns = (es ++ [e]).length := by
    rw [List.length_append]
    exact h.turns
  exact ⟨e, beginTurn_lands (x := { x with messages := x.messages ++ [.ofResults e.results] })
    ⟨h.same, hanswered, hturns, h.within⟩ now⟩

/-- A move keeps the exchanges, and may add one. -/
theorem on_lands (h : Stands setup history es x) (now : Nat) (s : Stimulus) :
    ∃ more, Lands setup history (es ++ more) (on now x s) := by
  have hsame {m : Move} (hm : Lands setup history es m) :
      ∃ more, Lands setup history (es ++ more) m :=
    ⟨[], by rw [List.append_nil]; exact hm⟩
  have hfire := fire_stands h true
  have hdoes := on_does now x s
  generalize on now x s = m at hdoes ⊢
  cases hdoes with
  | begin hp => exact hsame (beginTurn_lands (standsIn h hp) now)
  | refuse f => exact hsame (refuse_lands x f)
  | read hp => exact hsame (pullNext_lands (standsIn h hp) now _)
  | fail f hp => exact hsame (attemptFailed_lands (standsIn h hp) now f)
  | take i hp => exact hsame (itemArrived_lands (standsIn h hp) now _ i)
  | retry hp => exact hsame (beginAttempt_lands (standsIn h hp) now)
  | answer rs hp =>
    obtain ⟨e, he⟩ := results_lands (standsIn h hp) now rs
    exact ⟨[e], he⟩
  | abort hp =>
    rcases hp with hp | hp
    · have hx : BetweenTurns setup history es { x with cancelled := true } := standsIn hfire hp
      exact hsame (conclude_lands
        ⟨⟨[], by rw [List.append_nil]; exact hx.messages, rfl⟩, .inl hx.turns⟩)
    · exact hsame (aborted_lands (standsIn hfire hp) now)
  | interrupt hp =>
    rcases hp with hp | hp <;>
      exact hsame (attemptFailed_lands (standsIn hfire hp) now .cancelled)
  | note => exact hsame (stay_lands hfire)
  | ignore => exact hsame (stay_lands h)

theorem start_lands (now : Nat) (setup : Setup) (history : List Message) (cancelled : Bool) :
    Lands setup history [] (start now setup history cancelled) := by
  have hhistory : history = history ++ transcript [] := (List.append_nil history).symm
  unfold start
  dsimp only
  split
  · exact refuse_lands _ _
  · split
    · exact refuse_lands _ _
    · split
      · exact conclude_lands ⟨⟨[], by rw [List.append_nil]; exact hhistory, rfl⟩, .inl rfl⟩
      · exact ⟨⟨rfl, hhistory, rfl, Nat.zero_le _⟩, fun q hq => by cases hq⟩

end Execution

/-! ## Runs -/

/-- Every request carried the exchanges up to some point. -/
def Asked (history : List Message) (es : List Exchange) (requests : List Request) : Prop :=
  ∀ q ∈ requests, ∃ n ≤ es.length, q.messages = history ++ transcript (es.take n)

theorem Asked.grow {requests : List Request} (h : Asked history es requests)
    (more : List Exchange) : Asked history (es ++ more) requests := by
  intro q hq
  obtain ⟨n, hn, hq⟩ := h q hq
  refine ⟨n, ?_, ?_⟩
  · rw [List.length_append]
    exact Nat.le_add_right_of_le hn
  · rw [List.take_append_of_le_length hn]
    exact hq

theorem Lands.asked {m : Move} {q : Request} (h : Lands setup history es m)
    (hq : m.command = some (.openStream q)) :
    ∃ n ≤ es.length, q.messages = history ++ transcript (es.take n) :=
  ⟨es.length, Nat.le_refl _, by rw [List.take_length]; exact h.request q hq⟩

theorem run_stands (now : Nat) (setup : Setup) (history : List Message) (cancelled : Bool)
    (happenings : List (Nat × Stimulus)) :
    ∃ es, Stands setup history es (Record.run now setup history cancelled happenings).execution ∧
      Asked history es (Record.run now setup history cancelled happenings).requests := by
  refine Record.run_induct
    (P := fun r => ∃ es, Stands setup history es r.execution ∧ Asked history es r.requests)
    ?_ ?_ happenings
  · have h := Execution.start_lands now setup history cancelled
    exact ⟨[], h.stands, fun q hq => h.asked (Record.mem_requests_ofMove hq)⟩
  · rintro r now s ⟨es, hstands, hasked⟩
    obtain ⟨more, h⟩ := Execution.on_lands hstands now s
    refine ⟨es ++ more, h.stands, fun q hq => ?_⟩
    rcases Record.mem_requests_next hq with hq | hq
    · exact hasked.grow more q hq
    · exact h.asked hq

/-- The messages of a result are the history, whole exchanges and, if the execution completed, one
last answer; each request carried the history and the first of these exchanges. -/
theorem transcript_run (now : Nat) (setup : Setup) (history : List Message) (cancelled : Bool)
    (happenings : List (Nat × Stimulus)) {result : Result Message}
    (hended : (Record.run now setup history cancelled happenings).execution.phase
      = .ended (.ok result)) :
    ∃ es : List Exchange, Closes setup history es result ∧
      ∀ q ∈ (Record.run now setup history cancelled happenings).requests,
        ∃ n ≤ es.length, q.messages = history ++ transcript (es.take n) := by
  obtain ⟨es, hstands, hasked⟩ := run_stands now setup history cancelled happenings
  exact ⟨es, Execution.standsIn hstands hended, hasked⟩

/-- A call whose result comes back under another id, and then an answer without calls. -/
theorem transcript_run_stray_result :
    let setup : Setup :=
      { config := { usageThresholds := [] }, session := "s", model := "m" }
    let r := Record.run 0 setup [.user "go"] false
      [(0, .admitted), (1, .opened (.ok ())), (2, .item (some (.ok (.toolCallStart "a" "look")))),
        (3, .item (some (.ok (.toolCallEnd "a")))), (4, .item (some (.ok (.done none)))),
        (5, .results [⟨"b", "", false⟩]), (6, .opened (.ok ())),
        (7, .item (some (.ok (.textDelta "done")))), (8, .item (some (.ok (.done none))))]
    ∃ result, r.execution.phase = .ended (.ok result) ∧ result.status = .completed ∧
      result.turns = 2 ∧ r.requests.length = 2 ∧
      ∃ es, Closes setup [.user "go"] es result ∧
        ∀ q ∈ r.requests, ∃ n ≤ es.length, q.messages = [.user "go"] ++ transcript (es.take n) :=
  ⟨_, rfl, rfl, rfl, rfl, transcript_run _ _ _ _ _ rfl⟩

end TurnEngine.Run
