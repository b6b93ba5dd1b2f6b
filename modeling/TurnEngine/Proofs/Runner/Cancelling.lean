import TurnEngine.Proofs.Runner.Trace

/-!
# The signal fires while an execution is suspended

Wherever an execution is suspended when its signal fires, it asks the model nothing more and ends
aborted, with the conversation and the usage of the turns it has finished; running tools are let
finish first, and their turn counts. Its place in the queue, or its slot, is given up for good
(`Trace.cancelled_anywhere`).

A job that has left stays as it is (`Trace.left_next`), and one whose signal has fired while its
tools run waits for their results only (`Trace.stays_next`).
-/

namespace TurnEngine.Run

open Lane (Pool)

variable {s : Trace} {i : Nat} {x : Execution} {lane : LaneStatus}

/-! ## Lanes that are given up -/

/-- A status that was given up for good: its ticket or its handle is not out any more, and will not
be given out again. -/
def LaneStatus.GivenUp (h : Pool) : LaneStatus → Prop
  | .waiting t => t < h.registry.nextTicket ∧ (∀ c ∈ h.registry.callers, c.ticket ≠ t) ∧
      ∀ key, t ∉ (h.registry.slots key).queue
  | .holding n => n < h.nextHandle ∧ ∀ y ∈ h.handles, y.number ≠ n
  | .outside => True
  | .left => True

theorem LaneStatus.GivenUp.later {h h' : Pool} (hs : h'.Sound) (hh : h.Later h')
    (hlane : lane.GivenUp h) : lane.GivenUp h' := by
  cases lane with
  | waiting t =>
    obtain ⟨ht, habsent, -⟩ := hlane
    have habsent' := hh.callers t ht habsent
    exact ⟨Nat.lt_of_lt_of_le ht hh.tickets, habsent', hs.not_mem_queue habsent'⟩
  | holding n => exact ⟨Nat.lt_of_lt_of_le hlane.1 hh.handles, hh.out n hlane.1 hlane.2⟩
  | outside => trivial
  | left => trivial

/-- A job that parts from its lane gives up its status. -/
theorem Job.Fits.givenUp {h : Pool} {history : List Message} {l : Ledger}
    (hfits : Job.Fits h history l ⟨x, lane⟩) (hs : h.Sound) (ho : h.registry.Ordered) :
    lane.GivenUp (h.run lane.parting) := by
  have hlater := Lane.Pool.run_later hs ho lane.parting
  have hs' := Lane.Pool.sound_run hs lane.parting
  cases hfits with
  | @waiting _ t hp ht hl =>
    have habsent := Lane.Pool.absent_abandon hs ho t
    exact ⟨Nat.lt_of_lt_of_le ht hlater.tickets, habsent, hs'.not_mem_queue habsent⟩
  | @holding _ n hp hn hl =>
    refine ⟨Nat.lt_of_lt_of_le hn hlater.handles, fun y hy => ?_⟩
    have hy : y ∈ (h.apply (.drop n)).1.handles := hy
    rw [Lane.Pool.handles_drop hs] at hy
    simpa using (List.mem_filter.1 hy).2
  | left => trivial

/-! ## Jobs that have left, or wait for their tools -/

namespace Trace

/-- Nothing changes for a job. -/
structure Same (i : Nat) (s s' : Trace) : Prop where
  job : s'.runner.jobs[i]? = s.runner.jobs[i]?
  came : s'.came i = s.came i
  ledger : s'.ledger i = s.ledger i
  asked : s'.asked i = s.asked i

theorem Same.refl (i : Nat) (s : Trace) : Same i s s := ⟨rfl, rfl, rfl, rfl⟩

theorem Same.trans {s' s'' : Trace} (h₁ : Same i s s') (h₂ : Same i s' s'') : Same i s s'' :=
  ⟨h₂.job.trans h₁.job, h₂.came.trans h₁.came, h₂.ledger.trans h₁.ledger,
    h₂.asked.trans h₁.asked⟩

theorem asked_next {h : Happening} (hh : s.runner.concerned h = some i) :
    (s.next h).asked i = s.asked i ++ (s.runner.step h).command.toList := by
  show s.asked i ++ _ = _
  rw [if_pos hh]

/-- What happens to others does not concern a job. -/
theorem others_next (s : Trace) {h : Happening} (hi : i < s.runner.jobs.length)
    (hh : s.runner.concerned h ≠ some i) : Same i s (s.next h) where
  job := by
    have hrunner : (s.next h).runner = (s.runner.step h).runner := rfl
    have hmoves := s.runner.step_moves h
    generalize s.runner.step h = r at hrunner hmoves
    rw [hrunner]
    have hset {j : Nat} {g : Job} {gs : List Job} (hj : some j ≠ some i)
        (hgs : gs = s.runner.jobs.set j g) : gs[i]? = s.runner.jobs[i]? := by
      rw [hgs, List.getElem?_set_ne fun hij => hj (congrArg some hij)]
    cases hmoves with
    | unmoved => rfl
    | ended => exact List.getElem?_append_left hi
    | asks =>
      obtain ⟨ops, g, hg⟩ :=
        Runner.answer_moved ⟨_, s.runner.jobs ++ [_]⟩ _ s.runner.jobs.length _ _ _
      rw [hg, Runner.set_last]
      exact List.getElem?_append_left hi
    | deliver =>
      obtain ⟨ops, g, hg⟩ := Runner.settle_moved s.runner _ _ _
      exact hset hh (congrArg Runner.jobs hg)
    | @looks _ now j t op x hg' hop =>
      obtain ⟨ops, g, hg⟩ :=
        Runner.answer_moved { s.runner with pool := (s.runner.pool.apply op).1 }
        now j x (.waiting t) (s.runner.pool.apply op).2
      cases hop <;> exact hset hh (congrArg Runner.jobs hg)
    | drop => exact hset hh rfl
    | use => rfl
  came := came_next s h hi
  ledger := by
    show s.runner.noted i (s.ledger i) h = s.ledger i
    unfold Runner.noted
    split
    · split
      · exact if_neg fun hij => hh (congrArg some hij.1.symm)
      · rfl
    · rfl
  asked := by
    show s.asked i ++ _ = s.asked i
    rw [if_neg hh, List.append_nil]

theorem drop_next (hg : s.runner.jobs[i]? = some ⟨x, lane⟩) :
    (s.next (.drop i)).runner.jobs[i]? = some ⟨x, .left⟩ ∧
      (s.next (.drop i)).asked i = s.asked i := by
  have hi : i < s.runner.jobs.length := (List.getElem?_eq_some_iff.1 hg).1
  have hdrop : s.runner.drop i = (s.runner.vacate lane).put i ⟨x, .left⟩ := by
    unfold Runner.drop
    rw [hg]
  refine ⟨?_, (asked_next (s := s) (h := .drop i) rfl).trans (List.append_nil _)⟩
  show (s.runner.drop i).jobs[i]? = _
  rw [hdrop, Runner.vacate_eq]
  exact List.getElem?_set_self hi

/-- A job that does not wait, and does nothing on what is delivered to it, stays as it is. -/
theorem idle_next {h : Happening} (hg : s.runner.jobs[i]? = some ⟨x, lane⟩)
    (hwaits : ∀ t, lane ≠ .waiting t) (hdrop : h = .drop i → lane = .left)
    (hdeliver : ∀ now st, h = .deliver now i st → lane ≠ .left →
      x.on now st = { execution := x } ∧ (s.ledger i).note x st = s.ledger i) :
    Same i s (s.next h) := by
  have hi : i < s.runner.jobs.length := (List.getElem?_eq_some_iff.1 hg).1
  by_cases hh : s.runner.concerned h = some i
  · -- what is its own happening: only a delivery reaches it, and does nothing
    have hrunner : (s.next h).runner = (s.runner.step h).runner := rfl
    have hasked := asked_next hh
    have hconcerns := Runner.step_concerns hg hh
    generalize s.runner.step h = r at hrunner hasked hconcerns
    cases hconcerns with
    | unmoved hn =>
      exact ⟨by rw [hrunner]; rfl, came_next s h hi, hn i _, hasked.trans (List.append_nil _)⟩
    | @deliver now st hlane =>
      obtain ⟨hon, hnote⟩ := hdeliver now st rfl hlane
      have hsettle : s.runner.settle i lane (x.on now st) =
          { runner := ⟨s.runner.pool, s.runner.jobs.set i ⟨x, lane⟩⟩ } := by
        rw [hon]
        rfl
      rw [hsettle] at hrunner hasked
      refine ⟨?_, rfl, ?_, hasked.trans (List.append_nil _)⟩
      · rw [hrunner, List.getElem?_set_self hi, hg]
      · show s.runner.noted i _ (.deliver now i st) = _
        simp only [Runner.noted, hg, hnote, ite_self]
    | looks hlane => exact absurd hlane (hwaits _)
    | drop =>
      obtain rfl := hdrop rfl
      refine ⟨?_, rfl, rfl, hasked.trans (List.append_nil _)⟩
      rw [hrunner, List.getElem?_set_self hi, hg]
  · exact others_next s hi hh

theorem left_next (hg : s.runner.jobs[i]? = some ⟨x, .left⟩) (h : Happening) :
    Same i s (s.next h) :=
  idle_next hg nofun (fun _ => rfl) fun _ _ _ hlane => absurd rfl hlane

theorem left_after (hg : s.runner.jobs[i]? = some ⟨x, .left⟩) (hs : List Happening) :
    Same i s (s.after hs) := by
  refine after_induct (P := Same i s) (Same.refl i s) (fun s' h hsame => ?_) hs
  exact hsame.trans (left_next (hsame.job.trans hg) h)

end Trace

/-- Nobody drops a job, and it has no results yet. -/
def Happening.LetsRun (i : Nat) (h : Happening) : Prop :=
  h ≠ .drop i ∧ ∀ now rs, h ≠ .deliver now i (.results rs)

namespace Trace

/-- While its tools run, a job whose signal has fired waits for their results. -/
theorem stays_next {n : Nat} {calls : List ToolCall} {h : Happening}
    (hg : s.runner.jobs[i]? = some ⟨x, .holding n⟩) (hp : x.phase = .dispatching calls)
    (hc : x.cancelled = true) (hh : h.LetsRun i) : Same i s (s.next h) := by
  refine idle_next hg nofun (fun hdrop => absurd hdrop hh.1) fun now st hst _ => ?_
  cases st with
  | results rs => exact absurd hst (hh.2 now rs)
  | item item => exact ⟨by simp only [Execution.on, hp], by simp only [Ledger.note, hp]⟩
  | cancel =>
    have hsame : { x with cancelled := true, phase := .dispatching calls } = x := by
      rw [← hc, ← hp]
    refine ⟨?_, rfl⟩
    simp only [Execution.on, Execution.signalled, hp]
    rw [hsame]
  | _ => exact ⟨by simp only [Execution.on, hp], rfl⟩

theorem stays_after {n : Nat} {calls : List ToolCall} {hs : List Happening}
    (hg : s.runner.jobs[i]? = some ⟨x, .holding n⟩) (hp : x.phase = .dispatching calls)
    (hc : x.cancelled = true) (hh : ∀ h ∈ hs, h.LetsRun i) : Same i s (s.after hs) := by
  induction hs generalizing s with
  | nil => exact Same.refl i s
  | cons h rest ih =>
    have hone := stays_next hg hp hc (hh h List.mem_cons_self)
    exact hone.trans (ih (hone.job.trans hg) fun h hmem => hh h (List.mem_cons_of_mem _ hmem))

/-! ## The end of a job -/

/-- A job has left its lane for good, aborted after some turns, with the conversation and the
usage that a ledger says. -/
structure AbortedFrom (s : Trace) (i : Nat) (lane : LaneStatus) (l : Ledger) (turns : Nat) :
    Prop where
  job : ∃ x result, s.runner.jobs[i]? = some ⟨x, .left⟩ ∧ x.phase = .ended (.ok result) ∧
    result.status = .aborted ∧ result.error = none ∧ result.turns = turns ∧
    result.messages = s.came i ++ l.messages ∧ result.usage = l.usage
  givenUp : lane.GivenUp s.runner.pool

theorem AbortedFrom.after {l : Ledger} {turns : Nat} (h : s.AbortedFrom i lane l turns)
    (hs : s.Sound) (happenings : List Happening) :
    (s.after happenings).AbortedFrom i lane l turns := by
  obtain ⟨x, result, hg, hended⟩ := h.job
  have hsame := left_after hg happenings
  refine ⟨⟨x, result, hsame.job.trans hg, ?_⟩, ?_⟩
  · rw [hsame.came]
    exact hended
  · exact h.givenUp.later (sound_after hs happenings).pool (hs.later_after happenings)

/-- A job whose last move something delivered brings about leaves, and asks for nothing more. -/
theorem finishes_next {now : Nat} {st : Stimulus} (hg : s.runner.jobs[i]? = some ⟨x, lane⟩)
    (hlane : lane ≠ .left) (hc : (x.on now st).command = some .finish) (ha : st ≠ .admitted)
    (hr : ∀ e, st ≠ .refused e) :
    (s.next (.deliver now i st)).runner.jobs[i]? = some ⟨(x.on now st).execution, .left⟩ ∧
      (s.next (.deliver now i st)).runner.pool = s.runner.pool.run lane.parting ∧
      (s.next (.deliver now i st)).requests i = s.requests i := by
  have hstep : s.runner.step (.deliver now i st) =
      { runner := ⟨s.runner.pool.run lane.parting,
          s.runner.jobs.set i ⟨(x.on now st).execution, .left⟩⟩
        events := (x.on now st).events
        command := (x.on now st).command } := by
    rcases Runner.settle_cases s.runner i lane (x.on now st) with ⟨-, he⟩ | ⟨hc', -⟩
    · exact (Runner.deliver_eq now hg hlane ha hr).trans he
    · exact absurd hc hc'
  have hrunner : (s.next (.deliver now i st)).runner = _ := congrArg Response.runner hstep
  refine ⟨?_, congrArg Runner.pool hrunner, ?_⟩
  · rw [hrunner]
    exact List.getElem?_set_self (List.getElem?_eq_some_iff.1 hg).1
  have hasked := asked_next (s := s) (h := .deliver now i st) rfl
  rw [hstep] at hasked
  dsimp only at hasked
  rw [hc] at hasked
  rw [requests, hasked, List.filterMap_append]
  exact List.append_nil _

theorem aborts_next {l : Ledger} {now : Nat} {st : Stimulus} {y : Execution} (hs : s.Sound)
    (hg : s.runner.jobs[i]? = some ⟨x, lane⟩) (hlane : lane ≠ .left)
    (hm : x.on now st = Execution.conclude now y .aborted none) (ha : st ≠ .admitted)
    (hr : ∀ e, st ≠ .refused e) (hmessages : y.messages = s.came i ++ l.messages)
    (husage : y.meter.usage = l.usage) :
    (s.next (.deliver now i st)).AbortedFrom i lane l y.turns := by
  obtain ⟨hleft, hpool, -⟩ := finishes_next hg hlane (by rw [hm]; rfl) ha hr
  refine ⟨⟨_, Execution.resultNow now y .aborted none, hleft, ?_, rfl, rfl, rfl, hmessages, husage⟩,
    ?_⟩
  · rw [hm, Execution.conclude_phase]
  · rw [hpool]
    exact (hs.jobs i _ hg).givenUp hs.pool hs.ordered

/-- A job that has left, or whose signal has fired while its tools run. -/
def Doomed (s : Trace) (i : Nat) : Prop :=
  ∃ x lane, s.runner.jobs[i]? = some ⟨x, lane⟩ ∧
    (lane = .left ∨
      x.cancelled = true ∧ ∃ n calls, lane = .holding n ∧ x.phase = .dispatching calls)

/-- Results finish the turn of a job whose signal has fired, and it leaves. -/
theorem results_next {n : Nat} {calls : List ToolCall} (hs : s.Sound)
    (hg : s.runner.jobs[i]? = some ⟨x, .holding n⟩) (hp : x.phase = .dispatching calls)
    (hc : x.cancelled = true) :
    ∃ r, (s.ledger i).answer = some r ∧ r.calls = calls ∧
      x.turns = (s.ledger i).turns.length + 1 ∧ ∀ now rs,
      (s.next (.deliver now i (.results rs))).AbortedFrom i (.holding n)
        ⟨(s.ledger i).turns ++ [⟨r, pairResults calls rs⟩], none⟩ x.turns := by
  have hbalances : (s.ledger i).Balances (s.came i) x := by
    cases hs.jobs i _ hg with
    | holding _ _ hl => exact hl
  have hrunning := Execution.balancesIn hbalances hp
  obtain ⟨r, hr, hcalls, -⟩ := hrunning.answered
  refine ⟨r, hr, hcalls, hrunning.turns, fun now rs => ?_⟩
  obtain ⟨-, hmessages, husage⟩ := Execution.results_balances hrunning hp rs
  rw [Ledger.note_results hp hr] at hmessages husage
  exact aborts_next (y := { x with messages := x.messages ++ [.ofResults (pairResults calls rs)] })
    hs hg nofun (Execution.on_results_of_cancelled hp hc now rs) nofun nofun hmessages husage

/-- Such a job does not ask the model any more. -/
theorem Doomed.next (h : s.Doomed i) (happening : Happening) :
    (s.next happening).Doomed i ∧ (s.next happening).requests i = s.requests i := by
  obtain ⟨x, lane, hg, rfl | ⟨hc, n, calls, rfl, hp⟩⟩ := h
  · have hsame := left_next hg happening
    exact ⟨⟨x, _, hsame.job.trans hg, .inl rfl⟩, by rw [requests, hsame.asked, requests]⟩
  · -- its tools run: nothing reaches it but their results, and it leaves with these
    by_cases hruns : happening.LetsRun i
    · have hsame := stays_next hg hp hc hruns
      exact ⟨⟨x, _, hsame.job.trans hg, .inr ⟨hc, n, calls, rfl, hp⟩⟩,
        by rw [requests, hsame.asked, requests]⟩
    · by_cases hdrop : happening = .drop i
      · subst hdrop
        obtain ⟨hleft, hasked⟩ := drop_next hg
        exact ⟨⟨x, _, hleft, .inl rfl⟩, by rw [requests, hasked, requests]⟩
      · have hresults : ∃ now rs, happening = .deliver now i (.results rs) := by
          by_contra hnone
          exact hruns ⟨hdrop, fun now rs he => hnone ⟨now, rs, he⟩⟩
        obtain ⟨now, rs, rfl⟩ := hresults
        have hfinish : (x.on now (.results rs)).command = some .finish := by
          rw [Execution.on_results_of_cancelled hp hc]
          rfl
        obtain ⟨hleft, -, hsame⟩ := finishes_next hg nofun hfinish nofun nofun
        exact ⟨⟨_, _, hleft, .inl rfl⟩, hsame⟩

theorem Doomed.after (h : s.Doomed i) (happenings : List Happening) :
    (s.after happenings).requests i = s.requests i := by
  induction happenings generalizing s with
  | nil => rfl
  | cons happening rest ih =>
    obtain ⟨hdoomed, hsame⟩ := h.next happening
    exact (ih hdoomed).trans hsame

/-- The signal of a job whose tools run is noted, and nothing else happens. -/
theorem fires_next {calls : List ToolCall} (hg : s.runner.jobs[i]? = some ⟨x, lane⟩)
    (hlane : lane ≠ .left) (hp : x.phase = .dispatching calls) (now : Nat) :
    (s.next (.deliver now i .cancel)).runner =
        s.runner.put i ⟨{ x with cancelled := true }, lane⟩ ∧
      (s.next (.deliver now i .cancel)).ledger i = s.ledger i ∧
      (s.next (.deliver now i .cancel)).asked i = s.asked i := by
  have hon : x.on now .cancel = { execution := { x with cancelled := true } } := by
    cases x
    cases hp
    rfl
  have hstep : s.runner.step (.deliver now i .cancel) =
      { runner := s.runner.put i ⟨{ x with cancelled := true }, lane⟩ } := by
    have hdeliver := Runner.deliver_eq (s := .cancel) now hg hlane nofun nofun
    rw [hon] at hdeliver
    exact hdeliver
  have hasked := asked_next (s := s) (h := .deliver now i .cancel) rfl
  rw [hstep] at hasked
  refine ⟨congrArg Response.runner hstep, ?_, hasked.trans (List.append_nil _)⟩
  show s.runner.noted i _ (.deliver now i .cancel) = _
  simp only [Runner.noted, hg, Ledger.note, ite_self]

/-! ## Wherever it is suspended -/

/-- A job ends aborted at once, and for good: in its turn, with the turns it has finished. -/
structure EndsAtOnce (s fired : Trace) (i : Nat) (lane : LaneStatus) : Prop where
  holds : ∃ n, lane = .holding n
  ends : ∀ later, (fired.after later).AbortedFrom i lane (s.ledger i)
    ((s.ledger i).turns.length + 1)

/-- A job keeps waiting for the results of its calls, whatever happens to others, and ends aborted
with them, and for good: its turn is finished then. -/
structure EndsWithResults (s fired : Trace) (i : Nat) (x : Execution) (lane : LaneStatus)
    (calls : List ToolCall) : Prop where
  holds : ∃ n, lane = .holding n
  waits : ∀ hs, (∀ h ∈ hs, h.LetsRun i) →
    (fired.after hs).runner.jobs[i]? = some ⟨{ x with cancelled := true }, lane⟩
  ends : ∃ r, r.calls = calls ∧ (s.ledger i).answer = some r ∧
    ∀ hs, (∀ h ∈ hs, h.LetsRun i) → ∀ now rs later,
      (((fired.after hs).next (.deliver now i (.results rs))).after later).AbortedFrom i lane
        ⟨(s.ledger i).turns ++ [⟨r, pairResults calls rs⟩], none⟩
        ((s.ledger i).turns.length + 1)

/-- How a job ends whose signal fires in a phase. -/
def Ends (s fired : Trace) (i : Nat) (x : Execution) (lane : LaneStatus) : Phase → Prop
  | .admission => (∃ t, lane = .waiting t) ∧ ∀ later, (fired.after later).AbortedFrom i lane {} 0
  | .opening _ => EndsAtOnce s fired i lane
  | .reading _ => EndsAtOnce s fired i lane
  | .pausing => EndsAtOnce s fired i lane
  | .dispatching calls => EndsWithResults s fired i x lane calls
  | .ended _ => False

theorem ends_atOnce {n : Nat} (hs : s.Sound) (hg : s.runner.jobs[i]? = some ⟨x, .holding n⟩)
    (hp : x.phase.isUnderWay = true) (hd : ∀ calls, x.phase ≠ .dispatching calls)
    (hl : (s.ledger i).Asking (s.came i) x) (now : Nat) :
    EndsAtOnce s (s.next (.deliver now i .cancel)) i (.holding n) := by
  have hm := Execution.on_cancel (.inr hp) hd now
  have haborted := aborts_next hs hg nofun hm nofun nofun hl.messages hl.usage
  refine ⟨⟨n, rfl⟩, fun later => ?_⟩
  rw [← hl.turns]
  exact haborted.after (sound_next hs _) later

theorem ends_withResults {n : Nat} {calls : List ToolCall} (hs : s.Sound)
    (hg : s.runner.jobs[i]? = some ⟨x, .holding n⟩) (hp : x.phase = .dispatching calls)
    (now : Nat) :
    EndsWithResults s (s.next (.deliver now i .cancel)) i x (.holding n) calls := by
  have hi : i < s.runner.jobs.length := (List.getElem?_eq_some_iff.1 hg).1
  obtain ⟨hrunner, hledger, -⟩ := fires_next hg nofun hp now
  have hs' := sound_next hs (.deliver now i .cancel)
  have hg' : (s.next (.deliver now i .cancel)).runner.jobs[i]? =
      some ⟨{ x with cancelled := true }, .holding n⟩ := by
    rw [hrunner]
    exact List.getElem?_set_self hi
  generalize s.next (.deliver now i .cancel) = fired at hledger hs' hg'
  have hsame {hs : List Happening} (hh : ∀ h ∈ hs, h.LetsRun i) : Same i fired (fired.after hs) :=
    stays_after (x := { x with cancelled := true }) hg' hp rfl hh
  refine ⟨⟨n, rfl⟩, fun hs hh => (hsame hh).job.trans hg', ?_⟩
  obtain ⟨r, hr, hcalls, -, -⟩ := results_next (x := { x with cancelled := true }) hs' hg' hp rfl
  rw [hledger] at hr
  refine ⟨r, hcalls, hr, fun hs hh now rs later => ?_⟩
  -- the ledger is that of the moment before the signal, so the answer is the same
  have hsound := sound_after hs' hs
  obtain ⟨r', hr', -, hturns, hends⟩ := results_next (x := { x with cancelled := true }) hsound
    ((hsame hh).job.trans hg') hp rfl
  rw [(hsame hh).ledger, hledger] at hr' hturns hends
  obtain rfl : r = r' := Option.some.inj (hr.symm.trans hr')
  rw [← hturns]
  exact (hends now rs).after (sound_next hsound _) later

theorem ends_fired (hs : s.Sound) (hg : s.runner.jobs[i]? = some ⟨x, lane⟩) (hlane : lane ≠ .left)
    (now : Nat) :
    Ends s (s.next (.deliver now i .cancel)) i x lane x.phase := by
  cases hs.jobs i _ hg with
  | @waiting _ t hp ht hl =>
    obtain ⟨hledger, hbetween⟩ := Execution.balancesIn hl hp
    have hm := Execution.on_cancel (.inl hp) (fun calls hd => by rw [hp] at hd; cases hd) now
    have haborted := aborts_next hs hg hlane hm nofun nofun hbetween.messages hbetween.usage
    have hturns : x.turns = 0 := by
      rw [hbetween.turns, hledger]
      rfl
    rw [hp]
    refine ⟨⟨t, rfl⟩, fun later => ?_⟩
    rw [← hledger, ← hturns]
    exact haborted.after (sound_next hs _) later
  | @holding _ n hp hn hl =>
    have hatOnce (hd : ∀ calls, x.phase ≠ .dispatching calls)
        (hl : (s.ledger i).Asking (s.came i) x) := ends_atOnce hs hg hp hd hl now
    cases hx : x.phase with
    | admission => simp [hx, Phase.isUnderWay] at hp
    | opening r => exact hatOnce (by simp [hx]) (Execution.balancesIn hl hx)
    | reading r => exact hatOnce (by simp [hx]) (Execution.balancesIn hl hx)
    | pausing => exact hatOnce (by simp [hx]) (Execution.balancesIn hl hx)
    | dispatching calls => exact ends_withResults hs hg hx now
    | ended outcome => simp [hx, Phase.isUnderWay] at hp
  | left => exact absurd rfl hlane

theorem requests_fired (hs : s.Sound) (hg : s.runner.jobs[i]? = some ⟨x, lane⟩)
    (hlane : lane ≠ .left) (now : Nat) (later : List Happening) :
    ((s.next (.deliver now i .cancel)).after later).requests i = s.requests i := by
  have hfired (hd : ∀ calls, x.phase ≠ .dispatching calls)
      (hp : x.phase = .admission ∨ x.phase.isUnderWay = true) :
      ((s.next (.deliver now i .cancel)).after later).requests i = s.requests i := by
    have hfinish : (x.on now .cancel).command = some .finish := by
      rw [Execution.on_cancel hp hd]
      rfl
    obtain ⟨hleft, -, hsame⟩ := finishes_next hg hlane hfinish nofun nofun
    have hdoomed : (s.next (.deliver now i .cancel)).Doomed i := ⟨_, _, hleft, .inl rfl⟩
    exact (hdoomed.after later).trans hsame
  cases hs.jobs i _ hg with
  | waiting hp => exact hfired (fun calls hd => by rw [hp] at hd; cases hd) (.inl hp)
  | @holding _ n hp =>
    by_cases hd : ∃ calls, x.phase = .dispatching calls
    · obtain ⟨calls, hd⟩ := hd
      obtain ⟨hrunner, -, hasked⟩ := fires_next hg hlane hd now
      have hdoomed : (s.next (.deliver now i .cancel)).Doomed i := by
        refine ⟨{ x with cancelled := true }, _, ?_, .inr ⟨rfl, n, calls, rfl, hd⟩⟩
        rw [hrunner]
        exact List.getElem?_set_self (List.getElem?_eq_some_iff.1 hg).1
      exact (hdoomed.after later).trans (by rw [requests, hasked, requests])
    · exact hfired (fun calls h => hd ⟨calls, h⟩) (.inr hp)
  | left => exact absurd rfl hlane

/-- **Cancellation at any suspension point.** Wherever a job is suspended when its signal fires,
the model is not asked again for it, and it ends aborted: at once while it waits for its slot, for
the model or for its next attempt, and with the results of its calls while its tools run. -/
theorem cancelled_anywhere (config : Lane.Config) (before : List Happening) {i : Nat}
    {x : Execution} {lane : LaneStatus}
    (hg : ((new config).after before).runner.jobs[i]? = some ⟨x, lane⟩) (hlane : lane ≠ .left)
    (now : Nat) :
    let s := (new config).after before
    let fired := s.next (.deliver now i .cancel)
    (∀ later, (fired.after later).requests i = s.requests i) ∧ Ends s fired i x lane x.phase := by
  have hs : ((new config).after before).Sound := sound_after (sound_new config) before
  exact ⟨requests_fired hs hg hlane now, ends_fired hs hg hlane now⟩

/-- Two executions of one session enter, with one turn each, and the first comes to its tools. -/
def lastTurn : List Happening :=
  let setup : Setup :=
    { config := { usageThresholds := [] }, session := "s", model := "m", maxTurns := some 1 }
  [.enter 0 setup [.user "go"] false, .enter 1 setup [.user "me too"] false,
    .deliver 2 0 (.opened (.ok ())),
    .deliver 3 0 (.item (some (.ok (.toolCallStart "a" "look")))),
    .deliver 4 0 (.item (some (.ok (.toolCallEnd "a")))),
    .deliver 5 0 (.item (some (.ok (.done none))))]

/-- There is one slot, so that the second is in the queue. -/
theorem cancelled_anywhere_last_turn :
    let s := (new { maxConcurrent := 1 }).after lastTurn
    ∃ x y calls, s.runner.jobs[0]? = some ⟨x, .holding 0⟩ ∧ x.phase = .dispatching calls ∧
      x.turns = x.setup.turnLimit ∧
      EndsWithResults s (s.next (.deliver 6 0 .cancel)) 0 x (.holding 0) calls ∧
      s.runner.jobs[1]? = some ⟨y, .waiting 0⟩ ∧
      ∀ later, ((s.next (.deliver 6 1 .cancel)).after later).AbortedFrom 1 (.waiting 0) {} 0 := by
  obtain ⟨x, calls, hx, hp, hturns⟩ : ∃ x calls,
      ((new { maxConcurrent := 1 }).after lastTurn).runner.jobs[0]? = some ⟨x, .holding 0⟩ ∧
        x.phase = .dispatching calls ∧ x.turns = x.setup.turnLimit := ⟨_, _, rfl, rfl, rfl⟩
  obtain ⟨y, hy, hq⟩ : ∃ y,
      ((new { maxConcurrent := 1 }).after lastTurn).runner.jobs[1]? = some ⟨y, .waiting 0⟩ ∧
        y.phase = .admission := ⟨_, rfl, rfl⟩
  have hfirst := (cancelled_anywhere _ _ hx nofun 6).2
  have hsecond := (cancelled_anywhere _ _ hy nofun 6).2
  rw [hp] at hfirst
  rw [hq] at hsecond
  exact ⟨x, y, calls, hx, hp, hturns, hfirst, hy, hsecond.2⟩

end Trace

end TurnEngine.Run
