import TurnEngine.Proofs.Run.Bookkeeping

/-!
# The usage of an execution

Usage is added up three times: over the events of an attempt, over the answers of an execution, and
once more for live listeners. All three agree with one sum, that of the deltas of the successful
attempts (`Books.counted`), exact up to the largest word (`usage_run`). What live listeners heard
last is that sum as soon as an attempt that reported usage has succeeded, because while it is
running they hear its own deltas on top of those of the turns before (`Live`).
-/

namespace TurnEngine.Run

open RoundTrip (Arrival)

/-- What a live event says has been counted. -/
def LiveEvent.usage? : LiveEvent → Option Usage
  | .report r => r.usage?
  | _ => none

/-- The usage that live listeners heard of last. -/
def lastUsage (events : List LiveEvent) : Option Usage :=
  (events.filterMap LiveEvent.usage?).getLast?

/-- The usage events of all successful attempts. -/
def Books.counted (b : Books) : List Usage := (b.turns.flatMap Turn.tries).flatMap Try.deltas

theorem lastUsage_append_of_quiet (events : List LiveEvent) {more : List LiveEvent}
    (h : more.filterMap LiveEvent.usage? = []) : lastUsage (events ++ more) = lastUsage events := by
  simp [lastUsage, List.filterMap_append, h]

/-- In books in order only the last attempt of a turn counts. -/
theorem Journal.Sound.counted {setup : Setup} {b : Books} (h : Journal.Sound setup b) :
    b.counted = b.deltas := by
  have hturn : ∀ t ∈ b.turns, t.tries.flatMap Try.deltas = t.deltas := by
    intro t ht
    have hearlier : t.earlier.flatMap Try.deltas = [] := by
      refine List.flatMap_eq_nil_iff.2 fun e he => ?_
      obtain ⟨f, hf, -⟩ := (h.retried t ht).failed e he
      simp only [Try.deltas, hf]
    rw [Turn.tries, List.flatMap_append, hearlier]
    simp [Turn.deltas]
  rw [Books.counted, List.flatMap_assoc, Books.deltas, List.flatMap_def, List.flatMap_def]
  exact congrArg List.flatten (List.map_congr_left hturn)

/-! ## Quiet moves -/

namespace Execution

variable {x : Execution}

/-- A move that tells nothing of usage. -/
def Quiet (m : Move) : Prop := m.events.filterMap LiveEvent.usage? = []

theorem conclude_quiet (now : Nat) (x : Execution) (status : Status) (error : Option String) :
    Quiet (conclude now x status error) := by
  unfold Quiet conclude tell
  dsimp only
  split <;> rfl

theorem attemptFailed_quiet (now : Nat) (x : Execution) (f : Failure) :
    Quiet (attemptFailed now x f) := by
  rcases attemptFailed_cases now x f with ⟨ms, -, hm⟩ | ⟨status, error, -, hm⟩ <;> rw [hm]
  · rfl
  · exact conclude_quiet now x status error

theorem beginAttempt_quiet (now : Nat) (x : Execution) : Quiet (beginAttempt now x) := by
  cases hc : x.cancelled with
  | true =>
    rw [beginAttempt_of_cancelled hc]
    exact conclude_quiet now x _ _
  | false =>
    rw [beginAttempt_of_not_cancelled hc]
    rfl

theorem beginTurn_quiet (now : Nat) (x : Execution) : Quiet (beginTurn now x) := by
  unfold beginTurn
  split
  · exact conclude_quiet now x _ _
  · split
    · exact conclude_quiet now x _ _
    · exact beginAttempt_quiet now _

theorem pullNext_quiet (now : Nat) (x : Execution) (r : RoundTrip) :
    Quiet (pullNext now x r) := by
  unfold pullNext
  split
  · exact attemptFailed_quiet now x _
  · rfl

/-- Warnings are no usage. -/
theorem counting_quiet (x : Execution) (r : RoundTrip) :
    (x.counting r).2.filterMap LiveEvent.usage? = [] := by
  refine List.filterMap_eq_nil_iff.2 fun e he => ?_
  obtain ⟨w, -, rfl⟩ := List.mem_map.1 (heard_subset _ _ he)
  rfl

theorem turnAnswered_quiet (now : Nat) (x : Execution) (r : RoundTrip) :
    Quiet (turnAnswered now x r) := by
  by_cases hr : r.calls = []
  · rw [turnAnswered_of_nil hr]
    unfold Quiet afterEvents
    rw [List.filterMap_append, counting_quiet, List.nil_append]
    exact conclude_quiet now _ _ _
  · rw [turnAnswered_of_ne hr]
    exact counting_quiet x r

theorem actOn_quiet (now : Nat) (x : Execution) (p : RoundTrip.Progress) :
    Quiet (actOn now x p) := by
  cases p with
  | underWay r => exact pullNext_quiet now x r
  | answered r => exact turnAnswered_quiet now x r
  | failed f => exact attemptFailed_quiet now x f

/-- Only an item of the stream makes an execution tell of usage. -/
theorem on_quiet (now : Nat) (x : Execution) {s : Stimulus} (hs : ∀ i, s ≠ .item i) :
    Quiet (x.on now s) := by
  have hdoes := on_does now x s
  generalize x.on now s = m at hdoes ⊢
  cases hdoes with
  | begin => exact beginTurn_quiet now x
  | refuse => rfl
  | read => exact pullNext_quiet now x _
  | fail f => exact attemptFailed_quiet now x f
  | take i => exact absurd rfl (hs i)
  | retry => exact beginAttempt_quiet now x
  | answer => exact beginTurn_quiet now _
  | abort => exact conclude_quiet now _ _ _
  | interrupt => exact attemptFailed_quiet now _ _
  | note => rfl
  | ignore => rfl

/-- A listener hears everything that it is told. -/
theorem heard_of_listener (x : Execution) (h : x.setup.listener.isSome) (events : List LiveEvent) :
    (x.tellAll events).2 = events := by
  induction events generalizing x with
  | nil => rfl
  | cons e events ih =>
    obtain ⟨fired, hx⟩ := tell_eq x e
    have hlater := ih (x.tell e).1 (by rw [hx]; exact h)
    have hheard : (x.tell e).2 = [e] := by
      obtain ⟨listener, hl⟩ := Option.isSome_iff_exists.1 h
      simp only [tell, hl]
    simp only [tellAll]
    rw [hheard, hlater]
    rfl

/-- Of an accepted event that counts usage, listeners hear the count of the attempt on top of that
of the turns before. -/
theorem usages_accept (x : Execution) {r r' : RoundTrip} {e : StreamEvent} {said : List Report}
    (ha : r.accept e = .ok (r', said)) :
    (said.map x.liveReport).filterMap LiveEvent.usage?
      = e.usage?.toList.map fun _ => x.meter.usage + r'.usage := by
  have hlive : (said.map x.liveReport).filterMap LiveEvent.usage?
      = (said.filterMap Report.usage?).map (x.meter.usage + ·) := by
    rw [List.filterMap_map, List.map_filterMap]
    refine List.filterMap_congr fun report _ => ?_
    cases report <;> rfl
  rw [hlive, (RoundTrip.accept_usage ha).2, List.map_map]
  rfl

end Execution

/-! ## Live usage -/

/-- Besides the items of its stream, an attempt meets nothing that does not end it. -/
theorem Turn.take_cases (t : Turn) (p : Phase) {s : Stimulus} (hs : ∀ i, s ≠ .item i) :
    (t.take p s).last = t.last ∨ ∃ r a f, (p = .opening r ∨ p = .reading r) ∧
      t.take p s = t.arrive a ∧ r.meet a = .failed f := by
  unfold take
  split
  · exact .inr ⟨_, _, _, .inl rfl, rfl, rfl⟩
  · exact .inr ⟨_, _, _, .inl rfl, rfl, rfl⟩
  · exact absurd rfl (hs _)
  · exact .inr ⟨_, _, _, .inr rfl, rfl, rfl⟩
  · exact .inl rfl
  · exact .inl rfl

namespace Journal

/-- Live listeners have heard the deltas of an attempt, unless it has failed, on top of those of the
turns before. -/
def Live (b : Books) (events : List LiveEvent) : Prop :=
  ∀ t, b.last = some t → (∀ f, t.progress ≠ .failed f) →
    RoundTrip.deltas t.last.arrivals ≠ [] →
    lastUsage events = some
      ((b.earlier.flatMap Turn.deltas).sum + (RoundTrip.deltas t.last.arrivals).sum)

namespace Live

variable {setup : Setup} {history : List Message} {b : Books} {x : Execution} {fired : Bool}
  {t t' : Turn} {s : Stimulus} {events more : List LiveEvent}

theorem quiet (h : Live b events) (hq : more.filterMap LiveEvent.usage? = []) :
    Live b (events ++ more) := by
  intro t hl hno hd
  rw [lastUsage_append_of_quiet events hq]
  exact h t hl hno hd

/-- An attempt that begins has reported nothing. -/
theorem ask (h : Live b events) (s : Stimulus) (c : Option Command) :
    Live (b.ask s c) events := by
  unfold Books.ask
  split
  · split <;> intro t hl <;> cases hl <;> exact fun _ hd => absurd rfl hd
  · exact h

theorem of_failed {f : Failure} (hf : t.progress = .failed f) : Live (b.withLast t) events := by
  intro u hu hno
  cases hu
  exact absurd hf (hno f)

/-- What arrives without being counted changes nothing. -/
theorem withLast (h : Live b events) (hl : b.last = some t)
    (hno : (∀ f, t'.progress ≠ .failed f) → ∀ f, t.progress ≠ .failed f)
    (hd : RoundTrip.deltas t'.last.arrivals = RoundTrip.deltas t.last.arrivals) :
    Live (b.withLast t') events := by
  intro u hu hu' hne
  cases hu
  rw [hd] at hne ⊢
  exact h t hl (hno hu') hne

end Live

section
variable {setup : Setup} {history : List Message} {b : Books} {x : Execution} {fired : Bool}
  {events : List LiveEvent}

theorem Kept.inTurn (h : Kept setup history b fired x) {r : RoundTrip}
    (hp : x.phase = .opening r ∨ x.phase = .reading r) :
    ∃ t, InTurn b x fired t ∧ t.progress = .underWay r := by
  rcases hp with hp | hp <;> exact standsAt h hp

theorem Live.take (hlive : Live b events) (h : Kept setup history b fired x) {s : Stimulus}
    (hs : ∀ i, s ≠ .item i) : Live (b.take x.phase s) events := by
  cases hl : b.last with
  | none =>
    intro t ht
    simp [Books.take, hl] at ht
  | some t =>
    rw [Books.take_of_last hl]
    rcases t.take_cases x.phase hs with hlast | ⟨r, a, f, hp, htake, hm⟩
    · refine hlive.withLast hl (fun hno f => ?_) (by rw [hlast])
      have hp := hno f
      unfold Turn.progress at hp ⊢
      rwa [hlast] at hp
    · obtain ⟨u, hu, hr⟩ := h.inTurn hp
      obtain rfl : u = t := Option.some.inj (hu.last.symm.trans hl)
      rw [htake]
      exact .of_failed ((Turn.progress_arrive hr a).trans hm)

/-- An accepted event: what it counts is counted and heard. -/
theorem Live.accept (hlive : Live b events) (h : Kept setup history b fired x) {t : Turn}
    (ht : InTurn b x fired t) {r r' : RoundTrip} (hr : t.progress = .underWay r) {e : StreamEvent}
    (hm : r.meet (.event e) = .underWay r') {said : List Report}
    (ha : r.accept e = .ok (r', said)) (hd : e.isDone = false) :
    Live (b.withLast (t.arrive (.event e))) (events ++ said.map x.liveReport) := by
  have hheard := Execution.usages_accept x ha
  cases hu : e.usage? with
  | none =>
    rw [hu] at hheard
    have harrivals := RoundTrip.course_deltas_append (hr : RoundTrip.course _ = _) [.event e]
    rw [RoundTrip.deltas_cons hd, hu] at harrivals
    exact (hlive.quiet hheard).withLast ht.last (fun _ => by simp [hr])
      (harrivals.trans (List.append_nil _))
  | some u =>
    rw [hu] at hheard
    intro v hv _ _
    cases hv
    have hearlier : x.meter.usage = (b.earlier.flatMap Turn.deltas).sum := by
      have hnone : t.deltas = [] := Turn.deltas_of_not_answered (by simp [hr])
      rw [h.agrees.usage, Books.deltas, Books.turns_of_last ht.last]
      simp [hnone]
    have hr' : r'.usage = (RoundTrip.deltas (t.arrive (.event e)).last.arrivals).sum :=
      RoundTrip.course_usage (.inl ((Turn.progress_arrive hr (.event e)).trans hm))
    rw [lastUsage, List.filterMap_append, hheard, ← hr', hearlier]
    exact List.getLast?_concat

/-- An item of the stream: a listener hears of its usage, if it has any. -/
theorem Live.item (hlive : Live b events) (h : Kept setup history b fired x)
    (hlistener : setup.listener.isSome) {r : RoundTrip} (hp : x.phase = .reading r) (now : Nat)
    (i : Option (Except Failure StreamEvent)) :
    Live (b.take x.phase (.item i)) (events ++ (x.on now (.item i)).events) := by
  obtain ⟨t, ht, hr⟩ := h.inTurn (.inr hp)
  rw [show Stimulus.item i = stimulus (.item i) from rfl, Execution.on_reading hp, hp,
    Books.take_of_last ht.last]
  simp only [Execution.follow, Execution.afterEvents, Execution.noting]
  rw [← List.append_assoc, Execution.heard_of_listener x (h.agrees.same ▸ hlistener)]
  refine Live.quiet ?_ (Execution.actOn_quiet now _ _)
  show Live (b.withLast (t.arrive (.item i))) _
  cases hm : r.meet (.item i) with
  | failed f => exact .of_failed ((Turn.progress_arrive hr (.item i)).trans hm)
  | answered r' =>
    have harrivals := RoundTrip.course_deltas_append (hr : RoundTrip.course _ = _) [.item i]
    rw [(RoundTrip.meet_answered hm).1, List.append_nil] at harrivals
    rw [(Execution.reports_of_answered hm).1]
    exact (hlive.quiet rfl).withLast ht.last (fun _ => by simp [hr]) harrivals
  | underWay r' =>
    obtain ⟨e, said, he, hd, ha⟩ := RoundTrip.meet_underWay hm
    cases he
    rw [show Execution.reports r (.event e) = said by simp only [Execution.reports, ha]]
    exact hlive.accept h ht hr hm ha hd

/-- Whatever reaches an execution, its listener goes along. -/
theorem Live.on (hlive : Live b events) (h : Kept setup history b fired x)
    (hlistener : setup.listener.isSome) (now : Nat) (s : Stimulus) :
    Live ((b.take x.phase s).ask s (x.on now s).command) (events ++ (x.on now s).events) := by
  refine Live.ask ?_ s _
  by_cases hs : ∀ i, s ≠ .item i
  · exact (hlive.take h hs).quiet (Execution.on_quiet now x hs)
  · obtain ⟨i, rfl⟩ : ∃ i, s = .item i := by simpa using hs
    cases hp : x.phase with
    | reading r =>
      rw [← hp]
      exact hlive.item h hlistener hp now i
    | _ =>
      rw [Books.take_of_same fun _ _ => rfl]
      exact hlive.quiet (by simp only [Execution.on, hp]; rfl)

end

theorem run_live (now : Nat) (setup : Setup) (history : List Message) (cancelled : Bool)
    (happenings : List (Nat × Stimulus)) (hlistener : setup.listener.isSome) :
    Live (run now setup history cancelled happenings).books
      (run now setup history cancelled happenings).record.events := by
  refine (run_induct (P := fun j => Kept setup history j.books j.fired j.record.execution ∧
      Live j.books j.record.events) ?_ ?_ happenings).2
  · exact ⟨start_kept now setup history cancelled, fun t ht => by cases ht⟩
  · rintro j now s ⟨hkept, hlive⟩
    exact ⟨hkept.next now s, hlive.on hkept hlistener now s⟩

/-! ## Runs -/

/-- The usage of a result, and what live listeners heard of it. -/
structure UsageRules (setup : Setup) (j : Journal) : Prop where
  total : ∀ result, j.record.execution.phase = .ended (.ok result) →
    result.usage.IsTotal j.books.counted
  /-- Once an attempt with usage has succeeded, its listener has heard of the total. -/
  live : setup.listener.isSome → ∀ t r, j.books.last = some t → t.progress = .answered r →
    RoundTrip.deltas t.last.arrivals ≠ [] →
    lastUsage j.record.events = some j.record.execution.meter.usage ∧
      j.record.execution.meter.usage.IsTotal j.books.counted

theorem Kept.usage_of_ended {setup : Setup} {history : List Message} {b : Books} {fired : Bool}
    {x : Execution} (h : Kept setup history b fired x) {result : Result Message}
    (hp : x.phase = .ended (.ok result)) : result.usage = b.counted.sum := by
  rw [h.sound.counted, ← h.agrees.usage]
  exact (standsAt h hp).2.1

/-- Every run counts the usage of its successful attempts and nothing else, and two runs that
counted the same deltas, in whatever order and attempts, have the same totals. -/
theorem usage_run (now : Nat) (setup : Setup) (history : List Message) (cancelled : Bool)
    (happenings : List (Nat × Stimulus)) :
    (Journal.run now setup history cancelled happenings).record
        = Record.run now setup history cancelled happenings ∧
      UsageRules setup (Journal.run now setup history cancelled happenings) ∧
      ∀ now' setup' history' cancelled' happenings' result result',
        (Journal.run now setup history cancelled happenings).record.execution.phase
          = .ended (.ok result) →
        (Journal.run now' setup' history' cancelled' happenings').record.execution.phase
          = .ended (.ok result') →
        (Journal.run now setup history cancelled happenings).books.counted.Perm
          (Journal.run now' setup' history' cancelled' happenings').books.counted →
        result'.usage = result.usage := by
  have hkept := Journal.run_kept now setup history cancelled happenings
  refine ⟨Journal.record_run _ _ _ _ _, ⟨fun result hp => ?_, fun hlistener t r hl hr hd => ?_⟩,
    fun now' setup' history' cancelled' happenings' result result' hp hp' hperm => ?_⟩
  · rw [hkept.usage_of_ended hp]
    exact Usage.isTotal_sum _
  · have hlive := Journal.run_live now setup history cancelled happenings hlistener
    rw [hlive t hl (by simp [hr]) hd, hkept.agrees.usage, hkept.sound.counted]
    refine ⟨?_, Usage.isTotal_sum _⟩
    rw [Books.deltas, Books.turns_of_last hl, List.flatMap_append, List.sum_append]
    simp [Turn.deltas_of_answered hr]
  · have hkept' := Journal.run_kept now' setup' history' cancelled' happenings'
    rw [hkept.usage_of_ended hp, hkept'.usage_of_ended hp', hperm.sum_eq]

/-- Two turns, the first one with an attempt that fails after a usage event, count past the largest
word; one answer with the same events in another order comes to the same. -/
theorem usage_run_past_the_limit :
    let setup : Setup :=
      { config := { usageThresholds := [] }, classify := fun _ => some .serverError, session := "s"
        model := "m", listener := some fun _ => (.ok (), false) }
    let happenings : List (Nat × Stimulus) :=
      [(0, .admitted), (1, .opened (.ok ())), (2, .item (some (.ok (.usage { input := 7 })))),
        (3, .item (some (.error (.http "eof")))), (4, .awake), (5, .opened (.ok ())),
        (6, .item (some (.ok (.usage { input := 18446744073709551614 })))),
        (7, .item (some (.ok (.toolCallStart "a" "look")))),
        (8, .item (some (.ok (.usage { output := 4 })))),
        (9, .item (some (.ok (.toolCallEnd "a")))), (10, .item (some (.ok (.done none)))),
        (11, .results [⟨"a", "", false⟩]), (12, .opened (.ok ())),
        (13, .item (some (.ok (.usage { input := 5 })))), (14, .item none)]
    let happenings' : List (Nat × Stimulus) :=
      [(0, .admitted), (1, .opened (.ok ())), (2, .item (some (.ok (.usage { output := 4 })))),
        (3, .item (some (.ok (.usage { input := 5 })))),
        (4, .item (some (.ok (.usage { input := 18446744073709551614 })))), (5, .item none)]
    let j := Journal.run 0 setup [] false happenings
    let j' := Journal.run 0 setup [] false happenings'
    ∃ result result', j.record.execution.phase = .ended (.ok result) ∧
      j'.record.execution.phase = .ended (.ok result') ∧
      result.usage = { input := 18446744073709551615, output := 4 } ∧
      lastUsage j.record.events = some { input := 18446744073709551615, output := 4 } ∧
      j.books.counted
        = [{ input := 18446744073709551614 }, { output := 4 }, { input := 5 }] ∧
      UsageRules setup j ∧ result'.usage = result.usage := by
  intro setup happenings happenings' j j'
  have hrun := usage_run 0 setup [] false happenings
  have hended : j.record.execution.phase.result?.map (·.usage)
    = some { input := 18446744073709551615, output := 4 } := by decide +kernel
  have hended' : j'.record.execution.phase.result?.isSome = true := by decide +kernel
  obtain ⟨result, hp, husage⟩ := Option.map_eq_some_iff.1 hended
  obtain ⟨result', hp'⟩ := Option.isSome_iff_exists.1 hended'
  rw [Phase.result?_eq_some] at hp hp'
  have hperm : j.books.counted.Perm j'.books.counted := by decide +kernel
  exact ⟨result, result', hp, hp', husage, by decide +kernel, by decide +kernel, hrun.2.1,
    hrun.2.2 0 setup [] false happenings' result result' hp hp' hperm⟩

end Journal

end TurnEngine.Run
