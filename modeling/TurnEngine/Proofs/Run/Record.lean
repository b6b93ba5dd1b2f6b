import TurnEngine.Run.Execution

/-!
# Records of executions

A record is an execution together with everything that it said and asked for since it began. It
grows by what happens to the execution: any list of stimuli at any times, also such that do not
fit where the execution stands, so that whatever the backend, the tools, the listener, the caller
and the clock do is one of these lists. An induction over a run goes through `Record.run_induct`.
-/

namespace TurnEngine.Run

/-- An execution, and what it said and asked for so far. -/
structure Record where
  execution : Execution
  events : List LiveEvent := []
  commands : List Command := []

namespace Record

/-- The record of one move. -/
def ofMove (m : Move) : Record := ⟨m.execution, m.events, m.command.toList⟩

/-- Something more happens. -/
def next (r : Record) (now : Nat) (s : Stimulus) : Record :=
  let m := r.execution.on now s
  ⟨m.execution, r.events ++ m.events, r.commands ++ m.command.toList⟩

/-- The record after all that happened, each at its time. -/
def after (r : Record) (happenings : List (Nat × Stimulus)) : Record :=
  happenings.foldl (fun r h => r.next h.1 h.2) r

/-- The record of an execution from its start. -/
def run (now : Nat) (setup : Setup) (history : List Message) (cancelled : Bool)
    (happenings : List (Nat × Stimulus)) : Record :=
  (ofMove (Execution.start now setup history cancelled)).after happenings

/-- What the model was asked. -/
def requests (r : Record) : List Request :=
  r.commands.filterMap fun
    | .openStream q => some q
    | _ => none

/-- What holds of a start and is kept by whatever happens next holds of every run. -/
theorem run_induct {P : Record → Prop} {now : Nat} {setup : Setup} {history : List Message}
    {cancelled : Bool} (hstart : P (ofMove (Execution.start now setup history cancelled)))
    (hnext : ∀ r now s, P r → P (r.next now s)) (happenings : List (Nat × Stimulus)) :
    P (run now setup history cancelled happenings) := by
  unfold run
  generalize ofMove (Execution.start now setup history cancelled) = r at hstart ⊢
  induction happenings generalizing r with
  | nil => exact hstart
  | cons h hs ih => exact ih _ (hnext r h.1 h.2 hstart)

theorem mem_requests_next {r : Record} {now : Nat} {s : Stimulus} {q : Request}
    (hq : q ∈ (r.next now s).requests) :
    q ∈ r.requests ∨ (r.execution.on now s).command = some (.openStream q) := by
  unfold requests next at hq
  rw [List.filterMap_append, List.mem_append] at hq
  refine hq.imp_right fun hq => ?_
  obtain ⟨c, hc, hq⟩ := List.mem_filterMap.1 hq
  rw [Option.mem_toList] at hc
  rw [hc]
  cases c with
  | openStream q' =>
    cases hq
    rfl
  | _ => cases hq

theorem mem_requests_ofMove {m : Move} {q : Request} (hq : q ∈ (ofMove m).requests) :
    m.command = some (.openStream q) := by
  obtain ⟨c, hc, hq⟩ := List.mem_filterMap.1 hq
  have hc : m.command = some c := Option.mem_toList.1 hc
  rw [hc]
  cases c with
  | openStream q' =>
    cases hq
    rfl
  | _ => cases hq

end Record

end TurnEngine.Run
