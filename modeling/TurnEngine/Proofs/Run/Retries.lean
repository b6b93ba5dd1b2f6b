import TurnEngine.Proofs.Run.Alike
import TurnEngine.Proofs.Run.RoundTrips

/-!
# Retries leave no trace

A failed attempt may have streamed text, calls and usage before it failed. If the execution goes on
to complete, or to use up its turns, none of that shows: the run in which each turn begins with its
successful attempt ends the same way (`retries_leave_no_trace`). `direct` is what is left of a run
without the failed attempts.

The second run waits at the start of an attempt until the first one knows how the attempt ends:

* between two turns both stand alike (`Alike`), and have asked for and told the same (`Level`);
* in an attempt the second run is one that, given what has happened in the attempt, would stand
  where the first one does (`Tracks.asking`), because only a failed attempt could tell them apart
  (`inAttempt`);
* when the attempt fails, it is where the first run will be after the pause (`Waits`).

`Tracks.next` is the step, `Tracks.after` the run.
-/

namespace TurnEngine.Run

/-- What happens to an execution, without its failed attempts and the waits after them; `attempt`
has happened in the attempt that is under way. -/
def direct (x : Execution) (attempt : List Stimulus) : List (Nat × Stimulus) → List Stimulus
  | [] => attempt
  | (now, s) :: later =>
    let y := (x.on now s).execution
    if x.phase.isPausing || y.phase.isPausing then direct y [] later
    else if x.phase.isAsking && y.phase.isAsking then direct y (attempt ++ [s]) later
    else attempt ++ s :: direct y [] later

/-! ## Attempts -/

namespace Execution

variable {x : Execution}

/-- What becomes of an attempt when something happens. -/
inductive InAttempt (x : Execution) (s : Stimulus) : Prop
  | goesOn (p : Phase) (heard : List LiveEvent) (c : Option Command) (hp : p.isAsking = true)
      (hheard : heard.filterMap LiveEvent.warning? = []) (hc : c = none ∨ c = some .pull)
      (h : ∀ now n t, (x.shifted n t).on now s
        = { execution := { x.shifted n t with phase := p }, events := heard, command := c })
  | fails (h : ∀ now, ∃ heard fired f, heard.filterMap LiveEvent.warning? = [] ∧
      x.on now s = afterEvents heard (attemptFailed now { x with cancelled := fired } f))
  | answered (r : RoundTrip)
      (h : ∀ now n t, (x.shifted n t).on now s = turnAnswered now (x.shifted n t) r)

/-- A report is no warning. -/
theorem warnings_reports (x y : Execution) (rs : List Report) :
    (x.tellAll (rs.map y.liveReport)).2.filterMap LiveEvent.warning? = [] := by
  rw [List.filterMap_eq_nil_iff]
  intro e he
  obtain ⟨report, -, rfl⟩ := List.mem_map.1 (heard_subset x _ he)
  cases report <;> rfl

theorem noting_eq (x : Execution) (a : RoundTrip.Arrival) :
    ∃ fired, x.noting a = { x with cancelled := fired } := by
  cases a with
  | item i => exact ⟨x.cancelled, rfl⟩
  | cancel => exact ⟨true, rfl⟩

theorem inAttempt_reading {r : RoundTrip} (hp : x.phase = .reading r) (hc : x.cancelled = false)
    (a : RoundTrip.Arrival) : InAttempt x (stimulus a) := by
  have hon (now n t : Nat) : (x.shifted n t).on now (stimulus a) = follow now (x.shifted n t) r a :=
    on_reading (x := x.shifted n t) hp now a
  cases hm : r.meet a with
  | failed f =>
    refine .fails fun now => ?_
    obtain ⟨fired, hx⟩ := noting_eq x a
    obtain ⟨fired', hx'⟩ := tellAll_eq (x.noting a) ((reports r a).map x.liveReport)
    refine ⟨_, fired', f, warnings_reports (x.noting a) x (reports r a), ?_⟩
    rw [on_reading hp]
    simp only [follow, hm, actOn]
    rw [hx', hx]
  | answered r' =>
    refine .answered r' fun now n t => ?_
    obtain ⟨hr, hx⟩ := reports_of_answered hm
    rw [hon]
    simp only [follow, hm, hr, hx, List.map_nil, tellAll, afterEvents_nil, actOn]
  | underWay r' =>
    obtain ⟨e, rfl⟩ := RoundTrip.event_of_meet hm
    obtain ⟨fired, hx⟩ := tellAll_eq x ((reports r (.event e)).map x.liveReport)
    have hquiet := warnings_reports x x (reports r (.event e))
    have hmove (now n t : Nat) : (x.shifted n t).on now (stimulus (.event e))
        = afterEvents (x.tellAll ((reports r (.event e)).map x.liveReport)).2
            (pullNext now ({ x with cancelled := fired }.shifted n t) r') := by
      rw [hon]
      simp only [follow, hm, actOn, noting]
      have hlive : (x.shifted n t).liveReport = x.liveReport := rfl
      rw [hlive, tellAll_shifted, hx]
    cases fired with
    | true =>
      -- the listener has fired the signal
      refine .fails fun now => ⟨_, true, .cancelled, hquiet, ?_⟩
      refine (hmove now x.attempt x.startedAt).trans (congrArg _ ?_)
      exact pullNext_of_cancelled (x := { x with cancelled := true }) rfl now r'
    | false =>
      refine .goesOn (.reading r') _ (some .pull) rfl hquiet (.inr rfl) fun now n t => ?_
      rw [hmove, pullNext_of_not_cancelled rfl]
      simp only [afterEvents, List.append_nil]
      rw [← hc]

/-- In an attempt whatever happens fails it, answers it or leaves it going. -/
theorem inAttempt (hp : x.phase.isAsking = true) (hc : x.cancelled = false) (s : Stimulus) :
    InAttempt x s := by
  have hstay (h : ∀ now n t, (x.shifted n t).on now s = { execution := x.shifted n t }) :
      InAttempt x s := .goesOn x.phase [] none hp rfl (.inl rfl) h
  cases hx : x.phase with
  | reading r =>
    have hx' (n t : Nat) : (x.shifted n t).phase = .reading r := hx
    cases s with
    | item i => exact inAttempt_reading hx hc (.item i)
    | cancel => exact inAttempt_reading hx hc .cancel
    | _ => exact hstay fun now n t => by simp only [on, hx']
  | opening r =>
    have hx' (n t : Nat) : (x.shifted n t).phase = .opening r := hx
    cases s with
    | opened answer =>
      cases answer with
      | error f =>
        refine .fails fun now => ⟨[], x.cancelled, f, rfl, ?_⟩
        simp only [on, hx]
        rfl
      | ok =>
        refine .goesOn (.reading r) [] (some .pull) rfl rfl (.inr rfl) fun now n t => ?_
        simp only [on, hx']
        exact pullNext_of_not_cancelled (x := x.shifted n t) hc now r
    | cancel =>
      refine .fails fun now => ⟨[], true, .cancelled, rfl, ?_⟩
      simp only [on, signalled, hx]
      rfl
    | _ => exact hstay fun now n t => by simp only [on, hx']
  | _ =>
    rw [hx] at hp
    cases hp

end Execution

/-! ## Records -/

/-- Some requests, and the same requests without those that only repeat the one before. -/
inductive Repeats : List Request → List Request → Prop
  | nil : Repeats [] []
  | first {qs once : List Request} (q : Request) (h : Repeats qs once) :
      Repeats (qs ++ [q]) (once ++ [q])
  | again {qs once : List Request} {q : Request} (h : Repeats qs (once ++ [q])) :
      Repeats (qs ++ [q]) (once ++ [q])

/-- What two records have in common, the second one without failed attempts. -/
structure Level (r r' : Record) : Prop where
  warnings : r'.warnings = r.warnings
  batches : r'.batches = r.batches
  requests : Repeats r.requests r'.requests
  turns : r'.requests.length = r.execution.turns
  straight : ∀ ms, Command.pause ms ∉ r'.commands

/-- A record has only taken in more of the stream. -/
structure ReadOn (r r' : Record) : Prop where
  warnings : r'.warnings = r.warnings
  pulls : ∃ k, r'.commands = r.commands ++ List.replicate k .pull

/-- The second record stands at the start of the attempt that the first one is in. -/
structure Waits (r r' : Record) : Prop where
  level : Level r r'
  calm : r.execution.cancelled = false
  starts : ∃ n t, r'.execution = { r.execution.shifted n t with phase := .opening .started }
  asked : ∃ once, r'.requests = once ++ [r.execution.request]

/-- The second record stands where the first one does once what has happened in the attempt has
happened to it as well, at whatever times. -/
def CatchesUp (r r' : Record) (attempt : List Stimulus) : Prop :=
  ∀ timed : List (Nat × Stimulus), timed.map (·.2) = attempt → ReadOn r' (r'.after timed) ∧
    ∃ n t, (r'.after timed).execution = r.execution.shifted n t

/-- Where the second record stands when the first one has come to a phase; `attempt` has happened
in the attempt that is under way. -/
inductive Tracks (r r' : Record) : List Stimulus → Prop
  | resting (hp : Execution.Resting r.execution.phase) (h : r.execution.Alike r'.execution)
      (hlevel : Level r r') : Tracks r r' []
  | asking {attempt : List Stimulus} (hp : r.execution.phase.isAsking = true) (h : Waits r r')
      (hread : CatchesUp r r' attempt) : Tracks r r' attempt
  | pausing (hp : r.execution.phase = .pausing) (h : Waits r r') : Tracks r r' []

section
variable {r r' : Record} {attempt : List Stimulus}

theorem Level.next (h : Level r r') {now now' : Nat} {s : Stimulus}
    (hm : Execution.SameMove r.execution.turns (r.execution.on now s) (r'.execution.on now' s)) :
    Level (r.next now s) (r'.next now' s) := by
  refine ⟨?_, ?_, ?_, ?_, fun ms hms => ?_⟩
  · rw [Record.warnings_next, Record.warnings_next, h.warnings, hm.warnings]
  · rw [Record.batches_next, Record.batches_next, h.batches, hm.batches]
  · rw [Record.requests_next, Record.requests_next, hm.requests]
    -- a move asks for one thing at most
    rcases hc : (r.execution.on now s).command with _ | c
    · simpa [Record.requests, Record.ofMove, hc] using h.requests
    · cases c with
      | openStream q => simpa [Record.requests, Record.ofMove, hc] using h.requests.first q
      | _ => simpa [Record.requests, Record.ofMove, hc] using h.requests
  · rw [Record.requests_next, hm.requests, List.length_append, h.turns]
    exact hm.turns.symm
  · rcases List.mem_append.1 hms with hms | hms
    · exact h.straight ms hms
    · rw [hm.command] at hms
      exact hm.straight ms (Option.mem_toList.1 hms)

namespace ReadOn

theorem refl (r : Record) : ReadOn r r := ⟨rfl, 0, by simp⟩

theorem batches (h : ReadOn r r') : r'.batches = r.batches := by
  obtain ⟨k, hk⟩ := h.pulls
  simp [Record.batches, hk, List.filterMap_append, List.filterMap_replicate, Command.calls?]

theorem requests (h : ReadOn r r') : r'.requests = r.requests := by
  obtain ⟨k, hk⟩ := h.pulls
  simp [Record.requests, hk, List.filterMap_append]

theorem next (h : ReadOn r r') {now : Nat} {s : Stimulus} {x : Execution} {heard : List LiveEvent}
    {c : Option Command} (hheard : heard.filterMap LiveEvent.warning? = [])
    (hc : c = none ∨ c = some .pull)
    (hm : r'.execution.on now s = { execution := x, events := heard, command := c }) :
    ReadOn r (r'.next now s) := by
  obtain ⟨k, hk⟩ := h.pulls
  refine ⟨?_, ?_⟩
  · rw [Record.warnings_next, h.warnings, hm]
    simp [Record.warnings, Record.ofMove, hheard]
  · simp only [Record.next, hm, hk]
    rcases hc with rfl | rfl
    · exact ⟨k, by simp⟩
    · exact ⟨k + 1, by simp [List.replicate_succ']⟩

end ReadOn

theorem Level.readOn {q : Record} (h : Level r r') (hq : ReadOn r' q) : Level r q := by
  refine ⟨hq.warnings.trans h.warnings, hq.batches.trans h.batches, ?_, ?_, fun ms hms => ?_⟩
  · rw [hq.requests]
    exact h.requests
  · rw [hq.requests]
    exact h.turns
  · obtain ⟨k, hk⟩ := hq.pulls
    rw [hk] at hms
    rcases List.mem_append.1 hms with hms | hms
    · exact h.straight ms hms
    · cases List.eq_of_mem_replicate hms

/-- The first record goes on in an attempt, and nothing comes of it. -/
theorem Waits.of_eq {q : Record} (h : Waits r r') {p : Phase} {n : Nat}
    (hx : q.execution = { r.execution with attempt := n, phase := p })
    (hwarnings : q.warnings = r.warnings) (hbatches : q.batches = r.batches)
    (hrequests : q.requests = r.requests ∨ q.requests = r.requests ++ [r.execution.request]) :
    Waits q r' := by
  obtain ⟨once, hasked⟩ := h.asked
  have hlevel := h.level
  refine ⟨⟨?_, ?_, ?_, ?_, hlevel.straight⟩, ?_, ?_, once, ?_⟩
  · rw [hwarnings]
    exact hlevel.warnings
  · rw [hbatches]
    exact hlevel.batches
  · rcases hrequests with hq | hq
    · rw [hq]
      exact hlevel.requests
    · rw [hq, hasked]
      have hall := hlevel.requests
      rw [hasked] at hall
      exact hall.again
  · rw [hx]
    exact hlevel.turns
  · rw [hx]
    exact h.calm
  · obtain ⟨n', t, hs⟩ := h.starts
    refine ⟨n', t, ?_⟩
    rw [hs, hx]
    rfl
  · rw [hasked, hx]
    rfl

theorem catchesUp_nil (h : ∃ n t, r'.execution = r.execution.shifted n t) : CatchesUp r r' [] := by
  intro timed ht
  obtain rfl := List.map_eq_nil_iff.1 ht
  exact ⟨.refl r', h⟩

/-- The last happening of an attempt happens after the others. -/
theorem exists_before {s : Stimulus} {timed : List (Nat × Stimulus)}
    (ht : timed.map (·.2) = attempt ++ [s]) (r' : Record) :
    ∃ before now', before.map (·.2) = attempt ∧
      r'.after timed = (r'.after before).next now' s := by
  obtain ⟨before, last, rfl, hbefore, hlast⟩ := List.map_eq_append_iff.1 ht
  obtain ⟨⟨now', s'⟩, rfl, rfl⟩ : ∃ h, last = [h] ∧ h.2 = s := by
    simpa [List.map_eq_singleton_iff] using hlast
  exact ⟨before, now', hbefore, List.foldl_append⟩

theorem tracks_of_asks {now : Nat} {s : Stimulus} {q : Record}
    (hm : Execution.Asks (r.execution.on now s)) (hlevel : Level (r.next now s) q)
    (halike : (r.next now s).execution.Alike q.execution)
    (hasked : ∃ once, q.requests = once ++ [(r.next now s).execution.request]) :
    Tracks (r.next now s) q [] := by
  have hp : (r.next now s).execution.phase = .opening .started := hm.phase
  generalize hq : q.execution = y at halike
  cases halike with
  | ended durationMs hx =>
    rw [hp] at hx
    cases hx
  | going n t =>
    refine .asking (by rw [hp]; rfl) ⟨hlevel, hm.calm, ⟨n, t, ?_⟩, hasked⟩
      (catchesUp_nil ⟨n, t, hq⟩)
    rw [hq, ← hp]
    rfl

end

/-- The execution has ended, and has neither completed nor used up its turns. -/
def Lost (x : Execution) : Prop :=
  ∃ result, x.phase = .ended (.ok result) ∧ (result.status = .aborted ∨ result.status = .error)

/-- The second record follows the first one through what it keeps of a happening. -/
def Keeps (r r' : Record) (attempt : List Stimulus) (now : Nat) (s : Stimulus) : Prop :=
  ∃ kept attempt', (∀ later, direct r.execution attempt ((now, s) :: later)
      = kept ++ direct (r.next now s).execution attempt' later) ∧
    ∀ timed : List (Nat × Stimulus), timed.map (·.2) = kept →
      Tracks (r.next now s) (r'.after timed) attempt'

section
variable {r r' : Record} {attempt : List Stimulus} {s : Stimulus}

theorem keeps_resting (hp : Execution.Resting r.execution.phase)
    (h : r.execution.Alike r'.execution) (hlevel : Level r r') (now : Nat) (s : Stimulus) :
    Keeps r r' [] now s := by
  have hon (now' : Nat) := Execution.on_same now now' hp h s
  have hy : (r.execution.on now s).execution.phase.isPausing = false := by
    rcases (hon now).2 with hrest | hasks
    · exact hrest.2
    · rw [hasks.phase]
      rfl
  refine ⟨[s], [], fun later => by simp [direct, hp.1, hp.2, hy, Record.next], fun timed ht => ?_⟩
  obtain ⟨⟨now', s'⟩, rfl, rfl⟩ : ∃ h, timed = [h] ∧ h.2 = s := by
    simpa [List.map_eq_singleton_iff] using ht
  obtain ⟨hm, hphase⟩ := hon now'
  have hnext : Level (r.next now s') (r'.next now' s') := hlevel.next hm
  rcases hphase with hrest | hasks
  · exact .resting hrest hm.alike hnext
  · refine tracks_of_asks hasks hnext hm.alike ⟨r'.requests, ?_⟩
    simp only [Record.after, List.foldl_cons, List.foldl_nil]
    rw [Record.requests_next]
    simp only [Record.requests, Record.ofMove, hm.command, hasks.command]
    rfl

theorem lost_conclude (now : Nat) (x : Execution) {status : Status} (error : Option String)
    (h : status = .aborted ∨ status = .error) :
    Lost (Execution.conclude now x status error).execution :=
  ⟨_, Execution.conclude_phase now x status error, h⟩

/-- What is left out of the second record leaves it where it is. -/
theorem keeps_nothing {now : Nat}
    (hp : r.execution.phase.isPausing = true ∨ (r.next now s).execution.phase.isPausing = true)
    (h : Tracks (r.next now s) r' []) : Keeps r r' attempt now s := by
  refine ⟨[], [], fun later => ?_, fun timed ht => ?_⟩
  · rw [direct, if_pos (by simpa [Record.next] using hp)]
    rfl
  · obtain rfl := List.map_eq_nil_iff.1 ht
    exact h

theorem keeps_pausing (hp : r.execution.phase = .pausing) (h : Waits r r') (now : Nat)
    (s : Stimulus) : Lost (r.next now s).execution ∨ Keeps r r' [] now s := by
  have hpausing : r.execution.phase.isPausing = true := by rw [hp]; rfl
  have hstay (hon : r.execution.on now s = { execution := r.execution }) :
      Keeps r r' [] now s := by
    refine keeps_nothing (.inl hpausing) ?_
    have hr : r.next now s = r := by simp [Record.next, hon]
    rw [hr]
    exact .pausing hp h
  cases s with
  | cancel =>
    left
    simp only [Record.next, Execution.on, Execution.signalled, hp]
    exact lost_conclude now _ _ (.inl rfl)
  | awake =>
    right
    have hon : r.execution.on now .awake
        = { execution :=
              { r.execution with attempt := r.execution.attempt + 1, phase := .opening .started }
            command := some (.openStream r.execution.request) } := by
      simp only [Execution.on, hp]
      exact Execution.beginAttempt_of_not_cancelled h.calm now
    have hwaits : Waits (r.next now .awake) r' := by
      refine h.of_eq (congrArg Move.execution hon) ?_ ?_ (.inr ?_)
      · rw [Record.warnings_next, hon]
        exact List.append_nil _
      · rw [Record.batches_next, hon]
        exact List.append_nil _
      · rw [Record.requests_next, hon]
        rfl
    refine keeps_nothing (.inl hpausing) (.asking ?_ hwaits (catchesUp_nil ?_))
    · simp only [Record.next, hon]
      rfl
    · obtain ⟨n, t, hs⟩ := h.starts
      refine ⟨n, t, ?_⟩
      simp only [Record.next, hon]
      exact hs
  | _ => exact .inr (hstay (by simp only [Execution.on, hp]))

/-- The attempt goes on, and the second record keeps in mind what has happened. -/
theorem keeps_in_mind (hp : r.execution.phase.isAsking = true) (h : Waits r r')
    (hread : CatchesUp r r' attempt) (now : Nat) {p : Phase} {heard : List LiveEvent}
    {c : Option Command} (hasking : p.isAsking = true)
    (hheard : heard.filterMap LiveEvent.warning? = []) (hc : c = none ∨ c = some .pull)
    (hon : ∀ now n t, (r.execution.shifted n t).on now s
      = { execution := { r.execution.shifted n t with phase := p }, events := heard
          command := c }) :
    Keeps r r' attempt now s := by
  have hmove : r.execution.on now s
      = { execution := { r.execution with phase := p }, events := heard, command := c } :=
    hon now r.execution.attempt r.execution.startedAt
  have hy : (r.next now s).execution = { r.execution with phase := p } :=
    congrArg Move.execution hmove
  have hquiet : ReadOn r (r.next now s) := (ReadOn.refl r).next hheard hc hmove
  have hwaits : Waits (r.next now s) r' :=
    h.of_eq hy hquiet.warnings hquiet.batches (.inl hquiet.requests)
  have hread' : CatchesUp (r.next now s) r' (attempt ++ [s]) := by
    intro timed ht
    obtain ⟨before, now', hbefore, hafter⟩ := exists_before ht r'
    obtain ⟨hron, n, t, hx⟩ := hread before hbefore
    have hmove' := hon now' n t
    rw [← hx] at hmove'
    rw [hafter]
    refine ⟨hron.next hheard hc hmove', n, t, ?_⟩
    rw [hy]
    simp only [Record.next, hx]
    exact congrArg Move.execution (hon now' n t)
  refine ⟨[], attempt ++ [s], fun later => ?_, fun timed ht => ?_⟩
  · have hpausing := Phase.isPausing_of_isAsking hp
    have hpausing' := Phase.isPausing_of_isAsking hasking
    simp [direct, Record.next, hmove, hpausing, hpausing', hp, hasking]
  · obtain rfl := List.map_eq_nil_iff.1 ht
    exact .asking (by rw [hy]; exact hasking) hwaits hread'

/-- A failed attempt is forgotten, unless it is the end of the execution. -/
theorem keeps_failed (h : Waits r r') {now : Nat} {heard : List LiveEvent} {fired : Bool}
    {f : Failure} (hheard : heard.filterMap LiveEvent.warning? = [])
    (hon : r.execution.on now s = Execution.afterEvents heard
      (Execution.attemptFailed now { r.execution with cancelled := fired } f)) :
    Lost (r.next now s).execution ∨ Keeps r r' attempt now s := by
  rcases Execution.attemptFailed_cases now { r.execution with cancelled := fired } f with
    ⟨ms, hc, hfailed⟩ | ⟨status, error, hstatus, hfailed⟩
  · right
    obtain rfl : fired = false := hc
    rw [hfailed] at hon
    have hy : (r.next now s).execution
        = { r.execution with cancelled := false, phase := .pausing } :=
      congrArg Move.execution hon
    rw [← h.calm] at hy
    have hp : (r.next now s).execution.phase = .pausing := by rw [hy]
    have hwaits : Waits (r.next now s) r' := by
      refine h.of_eq hy ?_ ?_ (.inl ?_)
      · rw [Record.warnings_next, hon]
        simp [Record.warnings, Record.ofMove, Execution.afterEvents, hheard]
      · rw [Record.batches_next, hon]
        exact List.append_nil _
      · rw [Record.requests_next, hon]
        exact List.append_nil _
    exact keeps_nothing (.inr (by rw [hp]; rfl)) (.pausing hp hwaits)
  · left
    rw [hfailed] at hon
    simp only [Record.next, hon, Execution.afterEvents_execution]
    exact lost_conclude now _ error hstatus

/-- The attempt succeeds, and the second record takes it in as a whole. -/
theorem keeps_answered (hp : r.execution.phase.isAsking = true) (h : Waits r r')
    (hread : CatchesUp r r' attempt) (now : Nat) {round : RoundTrip}
    (hon : ∀ now n t, (r.execution.shifted n t).on now s
      = Execution.turnAnswered now (r.execution.shifted n t) round) :
    Keeps r r' attempt now s := by
  have hmove : r.execution.on now s = Execution.turnAnswered now r.execution round :=
    hon now r.execution.attempt r.execution.startedAt
  have hrest := Execution.turnAnswered_rests now r.execution round
  rw [← hmove] at hrest
  refine ⟨attempt ++ [s], [], fun later => ?_, fun timed ht => ?_⟩
  · have hpausing := Phase.isPausing_of_isAsking hp
    simp [direct, Record.next, hpausing, hrest.1, hrest.2]
  · obtain ⟨before, now', hbefore, hafter⟩ := exists_before ht r'
    obtain ⟨hron, n, t, hx⟩ := hread before hbefore
    have hsame := Execution.turnAnswered_same n t now now' r.execution round
    rw [← hmove, ← hon now' n t, ← hx] at hsame
    rw [hafter]
    exact .resting hrest hsame.alike ((h.level.readOn hron).next hsame)

end

/-! ## Runs -/

theorem ended_after {r : Record} {outcome : Except Failure (Result Message)}
    (hp : r.execution.phase = .ended outcome) (happenings : List (Nat × Stimulus)) :
    (r.after happenings).execution.phase = .ended outcome := by
  induction happenings generalizing r with
  | nil => exact hp
  | cons h later ih =>
    obtain ⟨fired, hs⟩ := Execution.on_ended h.1 hp h.2
    refine ih (r := r.next h.1 h.2) ?_
    simp only [Record.next, hs]
    exact hp

theorem Tracks.next {r r' : Record} {attempt : List Stimulus} (h : Tracks r r' attempt) (now : Nat)
    (s : Stimulus) : Lost (r.next now s).execution ∨ Keeps r r' attempt now s := by
  cases h with
  | resting hp halike hlevel => exact .inr (keeps_resting hp halike hlevel now s)
  | pausing hp hwaits => exact keeps_pausing hp hwaits now s
  | asking hp hwaits hread =>
    cases Execution.inAttempt hp hwaits.calm s with
    | goesOn p heard c hasking hheard hc hon =>
      exact .inr (keeps_in_mind hp hwaits hread now hasking hheard hc hon)
    | fails hon =>
      obtain ⟨heard, fired, f, hheard, hon⟩ := hon now
      exact keeps_failed hwaits hheard hon
    | answered round hon => exact .inr (keeps_answered hp hwaits hread now hon)

theorem Tracks.after {r r' : Record} {attempt : List Stimulus} (h : Tracks r r' attempt)
    {happenings : List (Nat × Stimulus)} {result : Result Message}
    (hended : (r.after happenings).execution.phase = .ended (.ok result))
    (hstatus : result.status = .completed ∨ result.status = .maxTurns)
    {timed : List (Nat × Stimulus)}
    (htimed : timed.map (·.2) = direct r.execution attempt happenings) :
    (r.after happenings).execution.Alike (r'.after timed).execution ∧
      Level (r.after happenings) (r'.after timed) := by
  induction happenings generalizing r r' attempt timed with
  | nil =>
    have hended : r.execution.phase = .ended (.ok result) := hended
    cases h with
    | resting hp halike hlevel =>
      obtain rfl := List.map_eq_nil_iff.1 htimed
      exact ⟨halike, hlevel⟩
    | asking hp =>
      rw [hended] at hp
      cases hp
    | pausing hp =>
      rw [hended] at hp
      cases hp
  | cons happening later ih =>
    obtain ⟨now, s⟩ := happening
    rcases h.next now s with ⟨lost, hlost, hbad⟩ | ⟨kept, attempt', hdirect, hkept⟩
    · -- what has ended stays as it is
      cases (ended_after hlost later).symm.trans hended
      rcases hbad with hbad | hbad <;> rw [hbad] at hstatus <;> simp at hstatus
    · rw [hdirect] at htimed
      obtain ⟨before, rest, rfl, hbefore, hrest⟩ := List.map_eq_append_iff.1 htimed
      have hlater := ih (hkept before hbefore) hended hrest
      rwa [← show r'.after (before ++ rest) = (r'.after before).after rest from
        List.foldl_append] at hlater

theorem tracks_start (now now' : Nat) (setup : Setup) (history : List Message)
    (cancelled : Bool) :
    Tracks (Record.ofMove (Execution.start now setup history cancelled))
      (Record.ofMove (Execution.start now' setup history cancelled)) [] := by
  obtain ⟨hm, hrest, hnone⟩ := Execution.start_same now now' setup history cancelled
  have hnone' := hm.requests.trans hnone
  refine .resting hrest hm.alike ⟨hm.warnings, hm.batches, ?_, ?_, fun ms hms => ?_⟩
  · rw [hnone, hnone']
    exact .nil
  · rw [hnone', ← hnone]
    exact (hm.turns.trans (Nat.zero_add _)).symm
  · simp only [Record.ofMove, hm.command] at hms
    exact hm.straight ms (Option.mem_toList.1 hms)

/-- What is kept of a run happened in it, in this order. -/
theorem direct_sublist (happenings : List (Nat × Stimulus)) (x : Execution)
    (attempt : List Stimulus) :
    (direct x attempt happenings).Sublist (attempt ++ happenings.map (·.2)) := by
  induction happenings generalizing x attempt with
  | nil => simp [direct]
  | cons h later ih =>
    obtain ⟨now, s⟩ := h
    simp only [direct, List.map_cons]
    split
    · exact (ih _ []).trans ((List.sublist_cons_self _ _).trans (List.sublist_append_right _ _))
    · split
      · simpa using ih (x.on now s).execution (attempt ++ [s])
      · exact ((ih (x.on now s).execution []).cons_cons s).append_left attempt

/-- The second run ends like the first one, which ended with a result, and has asked only once in
each turn. -/
structure LeavesNoTrace (result : Result Message) (r r' : Record) : Prop where
  ended : ∃ durationMs, r'.execution.phase = .ended (.ok { result with durationMs })
  meter : r'.execution.meter = r.execution.meter
  warnings : r'.warnings = r.warnings
  batches : r'.batches = r.batches
  requests : Repeats r.requests r'.requests
  once : r'.requests.length = result.turns
  straight : ∀ ms, Command.pause ms ∉ r'.commands

/-- A run that completes or uses up its turns ends as it would have without its failed attempts,
whenever what is left of it happens; and all attempts of a turn send the same request. -/
theorem retries_leave_no_trace (now : Nat) (setup : Setup) (history : List Message)
    (cancelled : Bool) (happenings : List (Nat × Stimulus)) {result : Result Message}
    (hended : (Record.run now setup history cancelled happenings).execution.phase
      = .ended (.ok result))
    (hstatus : result.status = .completed ∨ result.status = .maxTurns)
    (now' : Nat) (happenings' : List (Nat × Stimulus))
    (hdirect : happenings'.map (·.2)
      = direct (Execution.start now setup history cancelled).execution [] happenings) :
    (happenings'.map (·.2)).Sublist (happenings.map (·.2)) ∧
      LeavesNoTrace result (Record.run now setup history cancelled happenings)
        (Record.run now' setup history cancelled happenings') := by
  have hstart := tracks_start now now' setup history cancelled
  obtain ⟨halike, hlevel⟩ := hstart.after hended hstatus hdirect
  refine ⟨by rw [hdirect]; exact direct_sublist _ _ [], ?_⟩
  have hlevel : Level (Record.run now setup history cancelled happenings)
    (Record.run now' setup history cancelled happenings') := hlevel
  change Execution.Alike (Record.run now setup history cancelled happenings).execution
    (Record.run now' setup history cancelled happenings').execution at halike
  generalize hx : (Record.run now setup history cancelled happenings).execution = x at halike hended
  generalize hy : (Record.run now' setup history cancelled happenings').execution = y at halike
  cases halike with
  | going n t hgoing => exact (hgoing result hended).elim
  | ended durationMs hpx hpy hmeter hturns =>
    rw [hpx] at hended
    cases hended
    refine ⟨⟨durationMs, by rw [hy]; exact hpy⟩, by rw [hx, hy]; exact hmeter, hlevel.warnings,
      hlevel.batches, hlevel.requests, ?_, hlevel.straight⟩
    rw [hlevel.turns, hx]
    exact hturns.symm

/-- Two turns, both with a failed attempt first: one after text and an open call, one at once. -/
theorem retries_leave_no_trace_two_turns :
    let setup : Setup :=
      { config := { usageThresholds := [] }, classify := fun _ => some .serverError, session := "s"
        model := "m" }
    let r := Record.run 0 setup [.user "go"] false
      [(0, .admitted), (1, .opened (.ok ())), (2, .item (some (.ok (.textDelta "let me")))),
        (3, .item (some (.ok (.toolCallStart "a" "look")))),
        (4, .item (some (.error (.http "eof")))), (5, .awake), (6, .opened (.ok ())),
        (7, .item (some (.ok (.toolCallStart "b" "look")))),
        (8, .item (some (.ok (.toolCallEnd "b")))), (9, .item (some (.ok (.done none)))),
        (10, .results [⟨"b", "", false⟩]), (11, .opened (.error (.http "eof"))), (12, .awake),
        (13, .opened (.ok ())), (14, .item (some (.ok (.textDelta "done")))),
        (15, .item (some (.ok (.done none))))]
    let r' := Record.run 0 setup [.user "go"] false
      [(0, .admitted), (1, .opened (.ok ())), (2, .item (some (.ok (.toolCallStart "b" "look")))),
        (3, .item (some (.ok (.toolCallEnd "b")))), (4, .item (some (.ok (.done none)))),
        (5, .results [⟨"b", "", false⟩]), (6, .opened (.ok ())),
        (7, .item (some (.ok (.textDelta "done")))), (8, .item (some (.ok (.done none))))]
    ∃ result, r.execution.phase = .ended (.ok result) ∧ result.status = .completed ∧
      r.requests.length = 4 ∧ result.turns = 2 ∧ LeavesNoTrace result r r' :=
  ⟨_, rfl, rfl, rfl, rfl, (retries_leave_no_trace _ _ _ _ _ rfl (.inl rfl) _ _ rfl).2⟩

end TurnEngine.Run
