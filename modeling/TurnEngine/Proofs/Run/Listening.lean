import TurnEngine.Proofs.Run.Deaf
import TurnEngine.Proofs.Run.Hearing

/-!
# Listeners

An execution goes on as it would without its listener, as long as that does not fire the signal
(`Record.run_deaf`), and whatever the listener does it hears the image of the books and, if the
execution has ended with a result, that it is done (`listening_run`).

A move tells what its stimulus adds to the image and then, if it ends the execution, the end
(`Execution.Tells`). Without an item of a stream a move adds nothing; an item adds what its round
trip says, and an answer the thresholds that are crossed.
-/

namespace TurnEngine.Run

open RoundTrip (Arrival)

/-- The meter that an execution begins with. -/
def Setup.meter (s : Setup) : Meter := Meter.new s.config.contextWindow s.config.usageThresholds

/-- The end of an execution, as it is heard. -/
def Phase.closing (p : Phase) : List LiveEvent := (p.result?.map .done).toList

namespace Execution

variable {x : Execution}

/-- A move tells some events and the end, if it is one, and leaves the meter in some state. -/
structure Tells (es : List LiveEvent) (meter : Meter) (m : Move) : Prop where
  events : m.events = es ++ m.execution.phase.closing
  meter : m.execution.meter = meter

theorem Tells.afterEvents {es : List LiveEvent} {meter : Meter} {m : Move}
    (h : Tells es meter m) (more : List LiveEvent) :
    Tells (more ++ es) meter (afterEvents more m) where
  events := by
    rw [List.append_assoc]
    exact congrArg _ h.events
  meter := h.meter

section
variable (hl : x.setup.listener.isSome) (now : Nat)
include hl

theorem conclude_tells (status : Status) (error : Option String) :
    Tells [] x.meter (conclude now x status error) := by
  obtain ⟨listener, hl⟩ := Option.isSome_iff_exists.1 hl
  obtain ⟨fired, hx⟩ := conclude_eq now x status error
  refine ⟨?_, by rw [hx]⟩
  rw [hx]
  simp only [conclude, tell, hl]
  rfl

theorem attemptFailed_tells (f : Failure) : Tells [] x.meter (attemptFailed now x f) := by
  rcases attemptFailed_cases now x f with ⟨ms, -, hm⟩ | ⟨status, error, -, hm⟩ <;> rw [hm]
  · exact ⟨rfl, rfl⟩
  · exact conclude_tells hl now status error

theorem beginAttempt_tells : Tells [] x.meter (beginAttempt now x) := by
  cases hc : x.cancelled with
  | true =>
    rw [beginAttempt_of_cancelled hc]
    exact conclude_tells hl now _ _
  | false =>
    rw [beginAttempt_of_not_cancelled hc]
    exact ⟨rfl, rfl⟩

theorem beginTurn_tells : Tells [] x.meter (beginTurn now x) := by
  cases hc : x.cancelled with
  | true =>
    rw [beginTurn_of_cancelled hc]
    exact conclude_tells hl now _ _
  | false =>
    rcases Nat.lt_or_ge x.turns x.setup.turnLimit with hlt | hge
    · rw [beginTurn_of_left hc hlt]
      exact ⟨rfl, rfl⟩
    · rw [beginTurn_of_limit hc hge]
      exact conclude_tells hl now _ _

theorem pullNext_tells (r : RoundTrip) : Tells [] x.meter (pullNext now x r) := by
  cases hc : x.cancelled with
  | true =>
    rw [pullNext_of_cancelled hc]
    exact attemptFailed_tells hl now _
  | false =>
    rw [pullNext_of_not_cancelled hc]
    exact ⟨rfl, rfl⟩

/-- An answer is followed by the warnings of its check. -/
theorem turnAnswered_tells (r : RoundTrip) :
    Tells ((x.meter.add r.usage).check.1.map .usageWarning) (x.meter.add r.usage).check.2
      (turnAnswered now x r) := by
  obtain ⟨fired, hx⟩ := counting_eq x r
  have hheard : (x.counting r).2 = (x.meter.add r.usage).check.1.map .usageWarning :=
    heard_of_listener { x with meter := (x.meter.add r.usage).check.2 } hl _
  by_cases hr : r.calls = []
  · rw [turnAnswered_of_nil hr, hheard, hx]
    have htells := (conclude_tells (x := { x with
      meter := (x.meter.add r.usage).check.2, cancelled := fired
      messages := x.messages ++ [.assistant r.text] }) hl now .completed none).afterEvents
        ((x.meter.add r.usage).check.1.map .usageWarning)
    rwa [List.append_nil] at htells
  · rw [turnAnswered_of_ne hr, hheard, hx]
    exact ⟨(List.append_nil _).symm, rfl⟩

/-- Nothing but an item of the stream is heard of before the end. -/
theorem on_tells (hn : x.phase.result? = none) {s : Stimulus} (hs : ∀ i, s ≠ .item i) :
    Tells [] x.meter (x.on now s) := by
  have hdoes := on_does now x s
  generalize x.on now s = m at hdoes ⊢
  cases hdoes with
  | begin => exact beginTurn_tells hl now
  | refuse => exact ⟨rfl, rfl⟩
  | read => exact pullNext_tells hl now _
  | fail f => exact attemptFailed_tells hl now f
  | take i => exact absurd rfl (hs i)
  | retry => exact beginAttempt_tells hl now
  | @answer calls rs hp =>
    exact beginTurn_tells
      (x := { x with messages := x.messages ++ [.ofResults (pairResults calls rs)] }) hl now
  | abort => exact conclude_tells (x := { x with cancelled := true }) hl now _ _
  | interrupt => exact attemptFailed_tells (x := { x with cancelled := true }) hl now _
  | note => exact ⟨by simp [Phase.closing, hn], rfl⟩
  | ignore => exact ⟨by simp [Phase.closing, hn], rfl⟩

end

end Execution

namespace Journal

/-- The events are the image of the books and the end, and the meter has been checked at the counts
of the books. -/
structure Overheard (setup : Setup) (b : Books) (x : Execution) (events : List LiveEvent) :
    Prop where
  events : events = b.heard setup.meter ++ x.phase.closing
  meter : x.meter = setup.meter.after b.counts

variable {setup : Setup} {history : List Message} {b b' : Books} {x : Execution} {fired : Bool}
  {t : Turn} {s : Stimulus} {events : List LiveEvent}

/-- A move that adds to the image what it tells. -/
theorem Overheard.step (h : Overheard setup b x events) (hn : x.phase.result? = none)
    {es : List LiveEvent} {meter : Meter} {m : Move} (hm : Execution.Tells es meter m)
    (hb : b'.heard setup.meter = b.heard setup.meter ++ es)
    (hmeter : meter = setup.meter.after b'.counts) :
    Overheard setup b' m.execution (events ++ m.events) := by
  refine ⟨?_, hm.meter.trans hmeter⟩
  have hnot : x.phase.closing = [] := by simp [Phase.closing, hn]
  rw [h.events, hnot, List.append_nil, hm.events, hb, List.append_assoc]

/-- Besides the items of its stream, nothing that reaches a turn is heard of. -/
theorem take_echoes (h : Kept setup history b fired x) (ht : b.last = some t)
    (hs : ∀ i, s ≠ .item i) : t.Echoes (t.take x.phase s) := by
  have hearlier : (t.take x.phase s).earlier = t.earlier := by
    unfold Turn.take
    split <;> rfl
  rcases t.take_cases x.phase hs with hlast | ⟨r, a, f, hp, htake, hm⟩
  · exact .of_last hearlier hlast
  · obtain ⟨u, hu, hr⟩ := h.inTurn hp
    obtain rfl : u = t := Option.some.inj (hu.last.symm.trans ht)
    rw [htake]
    exact .fail hr hm

theorem take_heard (h : Kept setup history b fired x) (hs : ∀ i, s ≠ .item i) (m : Meter) :
    (b.take x.phase s).heard m = b.heard m ∧ (b.take x.phase s).counts = b.counts := by
  cases hl : b.last with
  | none =>
    rw [Books.take_of_same fun t ht => by rw [hl] at ht; cases ht]
    exact ⟨rfl, rfl⟩
  | some t =>
    rw [Books.take_of_last hl]
    exact Books.withLast_echoes hl (take_echoes h hl hs) m

/-- An attempt that is repeated was not answered. -/
theorem repeats_unanswered (h : Kept setup history b fired x) (now : Nat)
    (hc : (x.on now .awake).command.isSome) :
    ∀ t, (b.take x.phase .awake).last = some t → ∀ r, t.progress ≠ .answered r := by
  intro t ht r hr
  cases hp : x.phase with
  | pausing =>
    obtain ⟨u, f, hu, hf, -⟩ : ∃ t f, InTurn b x fired t ∧ t.progress = .failed f ∧
      setup.TriesAgain t.tries.length f := standsAt h hp
    rw [hp, Books.take_of_same fun _ _ => rfl, hu.last] at ht
    cases ht
    rw [hf] at hr
    cases hr
  | _ => simp [Execution.on, hp] at hc

/-- A request is not heard of. -/
theorem Overheard.ask (ho : Overheard setup b x events) {c : Option Command}
    (hc : s = .awake → c.isSome → ∀ t, b.last = some t → ∀ r, t.progress ≠ .answered r) :
    Overheard setup (b.ask s c) x events := by
  obtain ⟨hheard, hcounts⟩ := Books.ask_heard hc setup.meter
  exact ⟨by rw [hheard]; exact ho.events, by rw [hcounts]; exact ho.meter⟩

/-- What the moves without an item of a stream tell. -/
theorem Overheard.quiet (ho : Overheard setup b x events) (h : Kept setup history b fired x)
    (hl : setup.listener.isSome) (hn : x.phase.result? = none) (now : Nat)
    (hs : ∀ i, s ≠ .item i) :
    Overheard setup (b.take x.phase s) (x.on now s).execution (events ++ (x.on now s).events) := by
  obtain ⟨hheard, hcounts⟩ := take_heard h hs setup.meter
  refine ho.step hn (Execution.on_tells (h.agrees.same ▸ hl) now hn hs) ?_ ?_
  · rw [hheard, List.append_nil]
  · rw [hcounts]
    exact ho.meter

/-- While a turn is under way, the meter stands at the counts of the turns before. -/
theorem Overheard.meter_of_underWay (ho : Overheard setup b x events) (ht : b.last = some t)
    {r : RoundTrip} (hr : t.progress = .underWay r) :
    x.meter = setup.meter.after b.earlierCounts := by
  have hno : ∀ r', t.progress ≠ .answered r' := by simp [hr]
  rw [ho.meter, Books.counts_of_last ht, Turn.counts, Turn.count?_of_not_answered hno]
  exact congrArg _ (List.append_nil _)

/-- What acting on an arrival tells: an answer is counted, anything else is not. -/
theorem actOn_tells (ho : Overheard setup b x events) (hl : x.setup.listener.isSome)
    (ht : InTurn b x fired t) {r : RoundTrip} (hr : t.progress = .underWay r) (a : Arrival)
    (now : Nat) :
    Execution.Tells
      (((t.arrive a).count? (Meter.lastCount b.earlierCounts)).toList.flatMap fun u =>
        (setup.meter.crossings b.earlierCounts u).map .usageWarning)
      (setup.meter.after ((t.arrive a).counts b.earlierCounts))
      (Execution.actOn now x (r.meet a)) := by
  have hp := Turn.progress_arrive hr a
  have hmeter := ho.meter_of_underWay ht.last hr
  -- without an answer no count is added
  have hquiet (hno : ∀ r', (t.arrive a).progress ≠ .answered r') :
      (t.arrive a).count? (Meter.lastCount b.earlierCounts) = none ∧
        setup.meter.after ((t.arrive a).counts b.earlierCounts) = x.meter := by
    have hnone := Turn.count?_of_not_answered hno (Meter.lastCount b.earlierCounts)
    rw [Turn.counts, hnone, hmeter]
    exact ⟨rfl, congrArg _ (List.append_nil _)⟩
  cases hm : r.meet a with
  | underWay r' =>
    obtain ⟨hnone, hsame⟩ := hquiet (by simp [hp, hm])
    rw [hnone, hsame]
    exact Execution.pullNext_tells hl now r'
  | failed f =>
    obtain ⟨hnone, hsame⟩ := hquiet (by simp [hp, hm])
    rw [hnone, hsame]
    exact Execution.attemptFailed_tells hl now f
  | answered r' =>
    rw [hm] at hp
    have husage : r'.usage = (t.arrive a).deltas.sum := by
      rw [Turn.deltas_of_answered hp]
      exact RoundTrip.course_usage (.inr hp)
    have hcount : (t.arrive a).count? (Meter.lastCount b.earlierCounts) =
        some (Meter.lastCount b.earlierCounts + r'.usage) := by
      rw [husage, Turn.count?, hp]
    have htells := Execution.turnAnswered_tells hl now r'
    rw [hmeter, Meter.check_after_warnings, Meter.check_after_meter] at htells
    rw [Turn.counts, hcount, Option.toList_some, List.flatMap_singleton]
    exact htells

/-- An item of a stream tells what it adds to the image. -/
theorem Overheard.item (ho : Overheard setup b x events) (h : Kept setup history b fired x)
    (hl : setup.listener.isSome) {r : RoundTrip} (hp : x.phase = .reading r) (now : Nat)
    (i : Option (Except Failure StreamEvent)) :
    Overheard setup (b.take x.phase (.item i)) (x.on now (.item i)).execution
      (events ++ (x.on now (.item i)).events) := by
  obtain ⟨t, ht, hr⟩ := h.inTurn (.inr hp)
  have hx : x.setup.listener.isSome := h.agrees.same ▸ hl
  have hmeter : x.meter.usage = Meter.lastCount b.earlierCounts := by
    rw [ho.meter_of_underWay ht.last hr]
    rfl
  obtain ⟨fired', hx'⟩ := Execution.tellAll_eq x ((Execution.reports r (.item i)).map x.liveReport)
  rw [show Stimulus.item i = stimulus (.item i) from rfl, Execution.on_reading hp, hp,
    Books.take_of_last ht.last]
  show Overheard setup (b.withLast (t.arrive (.item i))) _ _
  simp only [Execution.follow, Execution.noting]
  rw [Execution.heard_of_listener x hx, hx', liveReport_eq, hmeter]
  have htells := actOn_tells (x := { x with cancelled := fired' }) ⟨ho.events, ho.meter⟩ hx
    ⟨ht.last, ht.results, ht.attempt, rfl⟩ hr (.item i) now
  refine ho.step (by rw [hp]; rfl) (htells.afterEvents _) ?_ ?_
  · rw [Books.heard_of_last _ (show (b.withLast (t.arrive (.item i))).last = some _ from rfl),
      Books.heard_of_last _ ht.last, Turn.heard_arrive hr, List.append_assoc]
    rfl
  · rw [Books.counts_of_last (show (b.withLast (t.arrive (.item i))).last = some _ from rfl)]
    rfl

/-- Whatever reaches an execution, its listener hears what it adds to the image. -/
theorem Overheard.on (ho : Overheard setup b x events) (h : Kept setup history b fired x)
    (hl : setup.listener.isSome) (now : Nat) (s : Stimulus) :
    Overheard setup ((b.take x.phase s).ask s (x.on now s).command) (x.on now s).execution
      (events ++ (x.on now s).events) := by
  refine Overheard.ask ?_ fun hs hc => by subst hs; exact repeats_unanswered h now hc
  -- a stimulus that does not fit is lost on the execution, and on its listener
  have hstay (hs : ∀ t : Turn, t.take x.phase s = t) {y : Execution}
      (hon : x.on now s = { execution := y }) (hphase : y.phase = x.phase)
      (hmeter : y.meter = x.meter) :
      Overheard setup (b.take x.phase s) (x.on now s).execution
        (events ++ (x.on now s).events) := by
    rw [Books.take_of_same fun t _ => hs t, hon]
    refine ⟨(List.append_nil events).trans ?_, hmeter.trans ho.meter⟩
    rw [hphase]
    exact ho.events
  by_cases hs : ∃ i, s = .item i
  · obtain ⟨i, rfl⟩ := hs
    cases hp : x.phase with
    | reading r =>
      rw [← hp]
      exact ho.item h hl hp now i
    | _ =>
      rw [← hp]
      exact hstay (fun t => by rw [hp]; rfl) (by simp only [Execution.on, hp]) rfl rfl
  · cases hn : x.phase.result? with
    | none => exact ho.quiet h hl hn now fun i hi => hs ⟨i, hi⟩
    | some result =>
      have hp := Phase.result?_eq_some.1 hn
      obtain ⟨fired', hon⟩ := Execution.on_ended now hp s
      exact hstay (fun t => by rw [hp]; cases s <;> rfl) hon rfl rfl

theorem start_overheard (now : Nat) (setup : Setup) (history : List Message) (cancelled : Bool)
    (hl : setup.listener.isSome) :
    Overheard setup {} (Execution.start now setup history cancelled).execution
      (Execution.start now setup history cancelled).events := by
  have hmeter : setup.meter = setup.meter.after [] := (Meter.after_nil _ _).symm
  unfold Execution.start
  dsimp only
  split
  · exact ⟨rfl, hmeter⟩
  · split
    · exact ⟨rfl, hmeter⟩
    · split
      · have htells := Execution.conclude_tells
          (x := { setup, messages := history, cancelled, startedAt := now, meter := setup.meter })
          hl now .aborted none
        exact ⟨htells.events, htells.meter.trans hmeter⟩
      · exact ⟨rfl, hmeter⟩

theorem run_overheard (now : Nat) (setup : Setup) (history : List Message) (cancelled : Bool)
    (happenings : List (Nat × Stimulus)) (hl : setup.listener.isSome) :
    Overheard setup (run now setup history cancelled happenings).books
      (run now setup history cancelled happenings).record.execution
      (run now setup history cancelled happenings).record.events := by
  refine (run_induct (P := fun j => Kept setup history j.books j.fired j.record.execution ∧
      Overheard setup j.books j.record.execution j.record.events) ?_ ?_ happenings).2
  · exact ⟨start_kept now setup history cancelled, start_overheard now setup history cancelled hl⟩
  · rintro j now s ⟨hkept, hoverheard⟩
    exact ⟨hkept.next now s, hoverheard.on hkept hl now s⟩

/-! ## Runs -/

/-- What a listener hears of an execution. -/
structure Heard (setup : Setup) (j : Journal) : Prop where
  /-- Attempt by attempt what it accepted, after an answer the thresholds that are newly crossed,
  and at last that the execution has ended with a result. -/
  events : j.record.events = j.books.heard setup.meter ++ j.record.execution.phase.closing
  /-- The result is heard once, and nothing after it. -/
  done : ∀ result, j.record.execution.phase = .ended (.ok result) →
    j.record.events.getLast? = some (.done result) ∧
      j.record.events.filter LiveEvent.isDone = [.done result]
  /-- Before the end nothing is heard of it. -/
  going : (∀ result, j.record.execution.phase ≠ .ended (.ok result)) →
    j.record.events.filter LiveEvent.isDone = []
  /-- An execution that was refused is not heard of. -/
  refused : ∀ f, j.record.execution.phase = .ended (.error f) → j.record.events = []

theorem run_heard (now : Nat) (setup : Setup) (history : List Message) (cancelled : Bool)
    (happenings : List (Nat × Stimulus)) (hl : setup.listener.isSome) :
    Heard setup (run now setup history cancelled happenings) := by
  have hkept := run_kept now setup history cancelled happenings
  have hevents := (run_overheard now setup history cancelled happenings hl).events
  generalize run now setup history cancelled happenings = j at hkept hevents
  have himage : (j.books.heard setup.meter).filter LiveEvent.isDone = [] :=
    List.filter_eq_nil_iff.2 fun e he => by simp [j.books.heard_not_done setup.meter e he]
  refine ⟨hevents, fun result hp => ?_, fun hp => ?_, fun f hp => ?_⟩
  · have hclosing : j.record.execution.phase.closing = [.done result] := by rw [hp]; rfl
    rw [hevents, hclosing, List.filter_append, himage]
    exact ⟨List.getLast?_concat, rfl⟩
  · have hclosing : j.record.execution.phase.closing = [] := by
      cases hr : j.record.execution.phase.result? with
      | none => simp [Phase.closing, hr]
      | some result => exact absurd (Phase.result?_eq_some.1 hr) (hp result)
    rw [hevents, hclosing, List.append_nil, himage]
  · have hnone : j.books.turns = [] := standsAt hkept hp
    rw [hevents, hp, Books.heard, hnone]
    rfl

/-- **Listeners.** Whatever happens to an execution, with a listener that never fires the signal
(it may panic on any event) it comes to the same phase, with the same result if it has ended, and
asks for the same requests and batches of tool calls, as without a listener. Any listener hears the
image of the books and, if the execution ends with a result, that result as its one last event. -/
theorem listening_run (now : Nat) (setup : Setup) (history : List Message) (cancelled : Bool)
    (happenings : List (Nat × Stimulus)) :
    let j := run now setup history cancelled happenings
    let silent := Record.run now setup.deaf history cancelled happenings
    j.record = Record.run now setup history cancelled happenings ∧
      (setup.IsQuiet → silent.execution.phase = j.record.execution.phase ∧
        silent.requests = j.record.requests ∧ silent.batches = j.record.batches ∧
        silent.commands = j.record.commands ∧ silent.events = []) ∧
      (setup.listener.isSome → Heard setup j) := by
  intro j silent
  have hrecord : j.record = Record.run now setup history cancelled happenings :=
    record_run now setup history cancelled happenings
  refine ⟨hrecord, fun hq => ?_, run_heard now setup history cancelled happenings⟩
  have hsilent : silent = j.record.deaf := by
    rw [hrecord]
    exact Record.run_deaf now setup hq history cancelled happenings
  rw [hsilent]
  exact ⟨rfl, rfl, rfl, rfl, rfl⟩

/-- A listener that panics on every event hears an attempt that fails, and one that is answered. -/
theorem listening_run_panics :
    let setup : Setup :=
      { config := { usageThresholds := [] }, classify := fun _ => some .serverError, session := "s"
        model := "m", listener := some fun _ => (.error .panic, false) }
    let happenings : List (Nat × Stimulus) :=
      [(0, .admitted), (1, .opened (.ok ())), (2, .item (some (.ok (.textDelta "a")))),
        (3, .item (some (.error (.http "eof")))), (4, .awake), (5, .opened (.ok ())),
        (6, .item (some (.ok (.usage { input := 7 })))), (7, .item (some (.ok (.textDelta "b")))),
        (8, .item none)]
    let j := run 0 setup [] false happenings
    j.record.events.map LiveEvent.name = ["text_delta", "usage", "text_delta", "done"] ∧
      Heard setup j ∧
      (Record.run 0 setup.deaf [] false happenings).execution.phase = j.record.execution.phase := by
  intro setup happenings j
  have hrun := listening_run 0 setup [] false happenings
  have hquiet : setup.IsQuiet := by
    rintro listener hl e
    cases hl
    rfl
  exact ⟨by decide +kernel, hrun.2.2 rfl, (hrun.2.1 hquiet).1⟩

end Journal

end TurnEngine.Run
