import TurnEngine.Proofs.Run.Alike
import TurnEngine.Proofs.Run.Journal
import TurnEngine.Proofs.Run.Stages

/-!
# What the books say about an execution

The books of a journal keep three rules (`Sound`): an attempt follows another one of its turn only
after a failure that the setup retries, and only up to the limit; a turn follows another one only
after that one was answered with calls and has their results; and there are no more turns than the
setup allows. What an execution keeps is what the books say (`Agrees`), and where it stands is
where its last turn has come to (`StandsAt`), above all when it has ended (`Closes`). Every move
keeps all that (`Journal.on_lands`), whatever happens, the signal included.
-/

namespace TurnEngine.Run

open RoundTrip (Arrival Progress)
open Execution

/-! ## Retries -/

namespace Setup

/-- The attempts that a turn may have. -/
def attemptLimit (s : Setup) : Nat := min (s.config.retry.maxRetries.toNat + 1) (UInt32.size - 1)

/-- A failure is of a kind that is tried again. -/
def Retries (s : Setup) (f : Failure) : Prop :=
  f ≠ .cancelled ∧ ∃ reason ∈ s.config.retryOn, s.classify f = some reason

/-- Another attempt may follow one of a number that failed. -/
def TriesAgain (s : Setup) (n : Nat) (f : Failure) : Prop := n < s.attemptLimit ∧ s.Retries f

theorem attemptLimit_pos (s : Setup) : 0 < s.attemptLimit := by
  unfold attemptLimit
  simp only [UInt32.size]
  omega

theorem isRetryable_iff {s : Setup} {f : Failure} :
    s.isRetryable f = true ↔ ∃ reason ∈ s.config.retryOn, s.classify f = some reason := by
  unfold isRetryable Classifier.finds
  cases s.classify f <;> simp

theorem triesAgain_iff {s : Setup} {n : Nat} {f : Failure} :
    s.TriesAgain n f ↔ (s.plan.judges n f && s.plan.shouldRetry f) = true := by
  have hlimit : s.plan.maxAttempts = s.attemptLimit := s.config.retry.toNat_maxAttempts
  have hretry : s.plan.shouldRetry f = s.isRetryable f := rfl
  simp only [TriesAgain, Retries, Bool.and_eq_true, Retry.Plan.judges_iff, hlimit, hretry,
    isRetryable_iff]
  exact ⟨fun ⟨hn, hf, h⟩ => ⟨⟨hf, hn⟩, h⟩, fun ⟨⟨hf, hn⟩, h⟩ => ⟨hn, hf, h⟩⟩

end Setup

namespace Execution

variable {x : Execution} {f : Failure}

theorem attemptFailed_of_triesAgain (h : x.setup.TriesAgain x.attempt f)
    (hc : x.cancelled = false) (now : Nat) :
    ∃ ms, attemptFailed now x f
      = { execution := { x with phase := .pausing }, command := some (.pause ms) } := by
  unfold attemptFailed Retry.Plan.verdict
  rw [if_pos (Setup.triesAgain_iff.1 h)]
  exact ⟨_, if_neg (by simp [hc])⟩

theorem attemptFailed_of_triesAgain_cancelled (h : x.setup.TriesAgain x.attempt f)
    (hc : x.cancelled = true) (now : Nat) :
    attemptFailed now x f = conclude now x .aborted none := by
  unfold attemptFailed Retry.Plan.verdict
  rw [if_pos (Setup.triesAgain_iff.1 h)]
  exact if_pos hc

theorem attemptFailed_of_not_triesAgain (h : ¬ x.setup.TriesAgain x.attempt f) (now : Nat) :
    attemptFailed now x f =
      if f.isCancelled then conclude now x .aborted none
      else conclude now x .error (some f.message) := by
  unfold attemptFailed Retry.Plan.verdict
  rw [if_neg (mt Setup.triesAgain_iff.2 h)]

/-! ## Firing the signal -/

theorem tell_fires (x : Execution) {e : LiveEvent} (he : e.isDone = false) :
    (x.tell e).1.cancelled = (x.cancelled || (x.tell e).2.any x.setup.fires) := by
  unfold tell Setup.fires
  cases x.setup.listener <;> simp [he]

theorem tellAll_fires (x : Execution) {events : List LiveEvent}
    (he : ∀ e ∈ events, e.isDone = false) :
    (x.tellAll events).1.cancelled = (x.cancelled || (x.tellAll events).2.any x.setup.fires) := by
  induction events generalizing x with
  | nil => simp [tellAll]
  | cons e events ih =>
    obtain ⟨fired, hx⟩ := tell_eq x e
    have hsetup : (x.tell e).1.setup = x.setup := by rw [hx]
    have hlater := ih (x.tell e).1 fun e' he' => he e' (List.mem_cons_of_mem _ he')
    simp only [tellAll]
    rw [hlater, hsetup, tell_fires x (he e List.mem_cons_self), List.any_append, Bool.or_assoc]

/-- The last event comes too late to fire the signal. -/
theorem conclude_fires (now : Nat) (x : Execution) (status : Status) (error : Option String)
    (s : Setup) : (conclude now x status error).events.any s.fires = false := by
  unfold conclude tell Setup.fires
  dsimp only
  cases x.setup.listener <;> cases s.listener <;> rfl

theorem reports_not_done (x : Execution) (rs : List Report) :
    ∀ e ∈ rs.map x.liveReport, e.isDone = false := by
  intro e he
  obtain ⟨report, -, rfl⟩ := List.mem_map.1 he
  cases report <;> rfl

theorem counting_fires (x : Execution) (r : RoundTrip) :
    (x.counting r).1.cancelled = (x.cancelled || (x.counting r).2.any x.setup.fires) := by
  refine tellAll_fires { x with meter := (x.meter.add r.usage).check.2 } fun e he => ?_
  obtain ⟨w, -, rfl⟩ := List.mem_map.1 he
  rfl

end Execution

/-! ## Books in order -/

namespace Journal

/-- A turn goes on after failures that are tried again, and not beyond the limit. -/
structure Retried (setup : Setup) (t : Turn) : Prop where
  within : t.tries.length ≤ setup.attemptLimit
  failed : ∀ e ∈ t.earlier, ∃ f, e.progress = .failed f ∧ setup.Retries f

/-- The retry loop of a turn ended in a failure. -/
def Spent (setup : Setup) (t : Turn) (f : Failure) : Prop :=
  t.progress = .failed f ∧ ¬ setup.TriesAgain t.tries.length f

/-- Nothing about a turn ends its execution. -/
inductive Carries (setup : Setup) (t : Turn) : Prop
  | underWay {r : RoundTrip} (h : t.progress = .underWay r)
  | again {f : Failure} (h : t.progress = .failed f) (hf : setup.TriesAgain t.tries.length f)
  | finished (h : t.Finished)

/-- Books that keep the rules. -/
structure Sound (setup : Setup) (b : Books) : Prop where
  retried : ∀ t ∈ b.turns, Retried setup t
  finished : ∀ t ∈ b.earlier, t.Finished
  within : b.turns.length ≤ setup.turnLimit

/-- What an execution keeps is what the books say. -/
structure Agrees (setup : Setup) (history : List Message) (b : Books) (x : Execution) : Prop where
  same : x.setup = setup
  messages : x.messages = history ++ b.messages
  usage : x.meter.usage = b.deltas.sum
  turns : x.turns = b.turns.length

/-- Why an execution ended, and with which error. -/
inductive Closes (setup : Setup) (b : Books) (fired : Bool) : Status → Option String → Prop
  | completed {t : Turn} {r : RoundTrip} (hl : b.last = some t) (hr : t.progress = .answered r)
      (hc : r.calls = []) : Closes setup b fired .completed none
  | maxTurns (hn : b.turns.length = setup.turnLimit) (hf : ∀ t ∈ b.turns, t.Finished) :
      Closes setup b fired .maxTurns none
  | error {t : Turn} {f : Failure} (hl : b.last = some t) (hs : Spent setup t f)
      (hf : f ≠ .cancelled) : Closes setup b fired .error (some f.message)
  | cancelled {t : Turn} (hl : b.last = some t) (hs : Spent setup t .cancelled) :
      Closes setup b fired .aborted none
  | aborted (hf : fired = true) (hc : ∀ t, b.last = some t → Carries setup t) :
      Closes setup b fired .aborted none

/-- An execution is in a turn whose tools have not run. -/
structure InTurn (b : Books) (x : Execution) (fired : Bool) (t : Turn) : Prop where
  last : b.last = some t
  results : t.results = none
  attempt : x.attempt = t.tries.length
  calm : x.cancelled = fired

/-- Where an execution stands is where its last turn has come to. -/
def StandsAt (setup : Setup) (b : Books) (x : Execution) (fired : Bool) : Phase → Prop
  | .admission => b.turns = [] ∧ x.cancelled = fired
  | .opening r => ∃ t, InTurn b x fired t ∧ t.progress = .underWay r
  | .reading r => ∃ t, InTurn b x fired t ∧ t.progress = .underWay r
  | .pausing => ∃ t f, InTurn b x fired t ∧ t.progress = .failed f ∧
      setup.TriesAgain t.tries.length f
  | .dispatching calls => ∃ t r, InTurn b x fired t ∧ t.progress = .answered r ∧
      r.calls = calls ∧ calls ≠ []
  | .ended (.ok result) => result.messages = x.messages ∧ result.usage = x.meter.usage ∧
      result.turns = x.turns ∧ Closes setup b fired result.status result.error
  | .ended (.error _) => b.turns = []

/-- Everything that the books say about an execution. -/
structure Kept (setup : Setup) (history : List Message) (b : Books) (fired : Bool)
    (x : Execution) : Prop where
  sound : Sound setup b
  agrees : Agrees setup history b x
  stands : StandsAt setup b x fired x.phase

/-- A move of an execution keeps the books, once they have taken in its request. -/
def Lands (setup : Setup) (history : List Message) (b : Books) (fired : Bool) (s : Stimulus)
    (m : Move) : Prop :=
  Kept setup history (b.ask s m.command) (fired || m.events.any setup.fires) m.execution

variable {setup : Setup} {history : List Message} {b : Books} {x : Execution} {fired : Bool}
  {t : Turn} {s : Stimulus}

/-! ## Turning a page -/

namespace Sound

/-- The last turn of books in order may be written anew, if it is retried as it should. -/
theorem withLast (h : Sound setup b) (hl : b.last = some t) {t' : Turn}
    (ht : Retried setup t') : Sound setup (b.withLast t') := by
  have hb := h.within
  have hr := h.retried
  rw [Books.turns_of_last hl] at hb hr
  refine ⟨fun u hu => ?_, h.finished, by simpa using hb⟩
  rcases List.mem_append.1 hu with hu | hu
  · exact hr u (List.mem_append_left _ hu)
  · rw [List.mem_singleton.1 hu]
    exact ht

theorem last (h : Sound setup b) (hl : b.last = some t) : Retried setup t :=
  h.retried t (by simp [Books.turns_of_last hl])

/-- A turn begins when all others are finished. -/
theorem begin (h : Sound setup b) (hf : ∀ t ∈ b.turns, t.Finished)
    (hlimit : b.turns.length < setup.turnLimit) (q : Request) : Sound setup (b.begin q) := by
  have hlen : (b.begin q).turns.length = b.turns.length + 1 := by simp
  refine ⟨fun u hu => ?_, hf, Nat.le_trans (Nat.le_of_eq hlen) hlimit⟩
  rw [Books.turns_begin] at hu
  rcases List.mem_append.1 hu with hu | hu
  · exact h.retried u hu
  · rw [List.mem_singleton.1 hu]
    exact ⟨setup.attemptLimit_pos, fun e he => by cases he⟩

end Sound

theorem Retried.arrive (h : Retried setup t) (a : Arrival) : Retried setup (t.arrive a) :=
  ⟨(t.length_tries_arrive a).symm ▸ h.within, h.failed⟩

theorem InTurn.arrive (h : InTurn b x fired t) (a : Arrival) :
    InTurn (b.withLast (t.arrive a)) x fired (t.arrive a) :=
  ⟨rfl, h.results, h.attempt.trans (t.length_tries_arrive a).symm, h.calm⟩

theorem Retried.again (h : Retried setup t) {f : Failure} (hp : t.progress = .failed f)
    (hf : setup.TriesAgain t.tries.length f) (q : Request) : Retried setup (t.again q) := by
  refine ⟨?_, fun e he => ?_⟩
  · rw [Turn.length_tries]
    exact hf.1
  · rcases List.mem_append.1 he with he | he
    · exact h.failed e he
    · rw [List.mem_singleton.1 he]
      exact ⟨f, hp, hf.2⟩

namespace Agrees

/-- What the last turn adds, the execution keeps as well. -/
theorem grow (h : Agrees setup history b x) (hl : b.last = some t) {u : Turn} {y : Execution}
    {more : List Message} {deltas : List Usage} (hmore : u.messages = t.messages ++ more)
    (hdeltas : u.deltas = t.deltas ++ deltas) (hs : y.setup = x.setup)
    (hm : y.messages = x.messages ++ more) (hu : y.meter.usage = x.meter.usage + deltas.sum)
    (ht : y.turns = x.turns) : Agrees setup history (b.withLast u) y := by
  have hturns := Books.turns_of_last hl
  refine ⟨hs.trans h.same, ?_, ?_, ?_⟩
  · rw [hm, h.messages]
    simp [Books.messages, hturns, hmore]
  · rw [hu, h.usage]
    simp [Books.deltas, hturns, hdeltas, add_assoc]
  · rw [ht, h.turns]
    simp [hturns]

theorem of_eq (h : Agrees setup history b x) {y : Execution} (hs : y.setup = x.setup)
    (hm : y.messages = x.messages) (hu : y.meter.usage = x.meter.usage)
    (ht : y.turns = x.turns) : Agrees setup history b y :=
  ⟨hs.trans h.same, hm.trans h.messages, hu.trans h.usage, ht.trans h.turns⟩

/-- A turn that has added nothing is written anew, and the execution adds what it adds now. -/
theorem anew (h : Agrees setup history b x) (hl : b.last = some t)
    (ht : ∀ r, t.progress ≠ .answered r) {u : Turn} {y : Execution} (hs : y.setup = x.setup)
    (hm : y.messages = x.messages ++ u.messages)
    (hu : y.meter.usage = x.meter.usage + u.deltas.sum) (hn : y.turns = x.turns) :
    Agrees setup history (b.withLast u) y := by
  refine h.grow hl ?_ ?_ hs hm hu hn
  · rw [Turn.messages_of_not_answered ht, List.nil_append]
  · rw [Turn.deltas_of_not_answered ht, List.nil_append]

theorem withLast (h : Agrees setup history b x) (hl : b.last = some t)
    (ht : ∀ r, t.progress ≠ .answered r) {u : Turn} (hu : ∀ r, u.progress ≠ .answered r) :
    Agrees setup history (b.withLast u) x := by
  refine h.anew hl ht rfl ?_ ?_ rfl
  · rw [Turn.messages_of_not_answered hu, List.append_nil]
  · rw [Turn.deltas_of_not_answered hu, List.sum_nil, add_zero]

theorem begin (h : Agrees setup history b x) (q : Request) {y : Execution}
    (hs : y.setup = x.setup) (hm : y.messages = x.messages)
    (hu : y.meter.usage = x.meter.usage) (ht : y.turns = x.turns + 1) :
    Agrees setup history (b.begin q) y := by
  refine ⟨hs.trans h.same, ?_, ?_, ?_⟩
  · rw [hm, h.messages, Books.messages_begin]
  · rw [hu, h.usage, Books.deltas_begin]
  · rw [ht, h.turns, Books.turns_begin, List.length_append]
    rfl

end Agrees

/-! ## The parts of a move -/

theorem afterEvents_lands {m : Move} {events : List LiveEvent}
    (h : Lands setup history b (fired || events.any setup.fires) s m) :
    Lands setup history b fired s (afterEvents events m) := by
  unfold Lands at h ⊢
  rw [Bool.or_assoc, ← List.any_append] at h
  exact h

theorem conclude_kept (hs : Sound setup b) (ha : Agrees setup history b x) {status : Status}
    {error : Option String} (hc : Closes setup b fired status error) (now : Nat) :
    Kept setup history b fired (conclude now x status error).execution := by
  obtain ⟨fired', hx⟩ := conclude_eq now x status error
  rw [hx]
  exact ⟨hs, ha.of_eq rfl rfl rfl rfl, rfl, rfl, rfl, hc⟩

theorem conclude_lands (hs : Sound setup b) (ha : Agrees setup history b x) {status : Status}
    {error : Option String} (hc : Closes setup b fired status error) (now : Nat) :
    Lands setup history b fired s (conclude now x status error) := by
  unfold Lands
  rw [conclude_fires, Bool.or_false]
  exact conclude_kept hs ha hc now

/-- The signal ends an execution whose turn would have gone on. -/
theorem aborted_lands (hs : Sound setup b) (ha : Agrees setup history b x)
    (hl : b.last = some t) (ht : Carries setup t) (now : Nat) :
    Lands setup history b true s (conclude now x .aborted none) :=
  conclude_lands hs ha (.aborted rfl fun _ hl' => Option.some.inj (hl.symm.trans hl') ▸ ht) now

theorem attemptFailed_lands (hs : Sound setup b) (ha : Agrees setup history b x)
    (ht : InTurn b x fired t) {f : Failure} (hf : t.progress = .failed f) (now : Nat) :
    Lands setup history b fired s (attemptFailed now x f) := by
  have hcalm := ht.calm
  by_cases hagain : setup.TriesAgain t.tries.length f
  · have hagain' : x.setup.TriesAgain x.attempt f := by
      rw [ha.same, ht.attempt]
      exact hagain
    cases hc : fired with
    | true =>
      rw [attemptFailed_of_triesAgain_cancelled hagain' (hcalm.trans hc)]
      exact aborted_lands hs ha ht.last (.again hf hagain) now
    | false =>
      obtain ⟨ms, hm⟩ := attemptFailed_of_triesAgain hagain' (hcalm.trans hc) now
      rw [hm]
      exact ⟨hs, ha.of_eq rfl rfl rfl rfl, t, f,
        ⟨ht.last, ht.results, ht.attempt, hcalm.trans hc⟩, hf, hagain⟩
  · have hspent : Spent setup t f := ⟨hf, hagain⟩
    rw [attemptFailed_of_not_triesAgain (by rw [ha.same, ht.attempt]; exact hagain)]
    split
    · rename_i hcancelled
      rw [Failure.isCancelled_iff.1 hcancelled] at hspent
      exact conclude_lands hs ha (.cancelled ht.last hspent) now
    · rename_i hcancelled
      have hne : f ≠ .cancelled := fun hf => hcancelled (Failure.isCancelled_iff.2 hf)
      exact conclude_lands hs ha (.error ht.last hspent hne) now

/-- After a pause the turn has another attempt. -/
theorem beginAttempt_lands (hs : Sound setup b) (ha : Agrees setup history b x)
    (ht : InTurn b x fired t) {f : Failure} (hf : t.progress = .failed f)
    (hagain : setup.TriesAgain t.tries.length f) (now : Nat) :
    Lands setup history b fired .awake (beginAttempt now x) := by
  cases hc : fired with
  | true =>
    rw [beginAttempt_of_cancelled (ht.calm.trans hc)]
    exact aborted_lands hs ha ht.last (.again hf hagain) now
  | false =>
    rw [beginAttempt_of_not_cancelled (ht.calm.trans hc)]
    have hagrees := ha.withLast ht.last (by simp [hf]) (u := t.again x.request) (by
      intro r hr
      cases hr)
    have hattempt : x.attempt + 1 = (t.again x.request).tries.length := by
      rw [ht.attempt]
      simp [Turn.again]
    unfold Lands
    rw [Books.ask_again ht.last]
    exact ⟨hs.withLast ht.last ((hs.last ht.last).again hf hagain x.request),
      hagrees.of_eq rfl rfl rfl rfl, t.again x.request, ⟨rfl, rfl, hattempt, ht.calm.trans hc⟩, rfl⟩

theorem beginTurn_lands (hs : Sound setup b) (ha : Agrees setup history b x)
    (hf : ∀ t ∈ b.turns, t.Finished) (hc : x.cancelled = fired) (hawake : s ≠ .awake)
    (now : Nat) : Lands setup history b fired s (beginTurn now x) := by
  cases hfired : fired with
  | true =>
    rw [beginTurn_of_cancelled (hc.trans hfired)]
    exact conclude_lands hs ha (.aborted rfl fun t hl =>
      .finished (hf t (by simp [Books.turns_of_last hl]))) now
  | false =>
    rcases Nat.lt_or_ge x.turns x.setup.turnLimit with hl | hl
    · rw [beginTurn_of_left (hc.trans hfired) hl]
      rw [ha.turns, ha.same] at hl
      unfold Lands
      rw [Books.ask_begin hawake]
      exact ⟨hs.begin hf hl x.request, ha.begin x.request rfl rfl rfl rfl, _,
        ⟨rfl, rfl, rfl, hc.trans hfired⟩, rfl⟩
    · rw [beginTurn_of_limit (hc.trans hfired) hl]
      rw [ha.turns, ha.same] at hl
      exact conclude_lands hs ha (.maxTurns (Nat.le_antisymm hs.within hl) hf) now

theorem pullNext_lands (hs : Sound setup b) (ha : Agrees setup history b x)
    (ht : InTurn b x fired t) {r : RoundTrip} (hr : t.progress = .underWay r) (now : Nat) :
    Lands setup history b fired s (pullNext now x r) := by
  cases hc : fired with
  | true =>
    rw [pullNext_of_cancelled (ht.calm.trans hc), attemptFailed_cancelled (ht.calm.trans hc)]
    exact aborted_lands hs ha ht.last (.underWay hr) now
  | false =>
    rw [pullNext_of_not_cancelled (ht.calm.trans hc)]
    exact ⟨hs, ha.of_eq rfl rfl rfl rfl, t,
      ⟨ht.last, ht.results, ht.attempt, ht.calm.trans hc⟩, hr⟩

/-- An answer is written down, and the execution counts it. -/
theorem turnAnswered_lands (hs : Sound setup b) (ha : Agrees setup history b x)
    (ht : InTurn b x fired t) {r r' : RoundTrip} (hr : t.progress = .underWay r) {a : Arrival}
    (hm : r.meet a = .answered r') (now : Nat) :
    Lands setup history (b.withLast (t.arrive a)) fired s (turnAnswered now x r') := by
  have hp : (t.arrive a).progress = .answered r' := (Turn.progress_arrive hr a).trans hm
  have hno : ∀ r₁, t.progress ≠ .answered r₁ := by simp [hr]
  have hs' := hs.withLast ht.last ((hs.last ht.last).arrive a)
  have hmessages := Turn.messages_of_answered hp
  rw [show (t.arrive a).results = none from ht.results] at hmessages
  have husage : (x.meter.add r'.usage).check.2.usage
      = x.meter.usage + (t.arrive a).deltas.sum := by
    rw [Turn.deltas_of_answered hp, ← RoundTrip.course_usage (.inr hp)]
    rfl
  -- a warning may fire the signal, which does not undo the answer
  obtain ⟨fired', hx⟩ := counting_eq x r'
  have hfires := counting_fires x r'
  rw [hx, ht.calm, ha.same] at hfires
  by_cases hc : r'.calls = []
  · rw [turnAnswered_of_nil hc, hx]
    rw [if_pos (List.isEmpty_iff.2 hc)] at hmessages
    have ha' := ha.anew ht.last hno (y :=
      { x with
        meter := (x.meter.add r'.usage).check.2, cancelled := fired'
        messages := x.messages ++ [.assistant r'.text] }) rfl (by rw [hmessages]; rfl) husage rfl
    exact afterEvents_lands (conclude_lands hs' ha' (.completed rfl hp hc) now)
  · rw [turnAnswered_of_ne hc, hx]
    rw [if_neg (fun he => hc (List.isEmpty_iff.1 he))] at hmessages
    exact ⟨hs', ha.anew ht.last hno rfl (by rw [hmessages]; rfl) husage rfl, t.arrive a, r',
      ⟨rfl, ht.results, (ht.arrive a).attempt, hfires⟩, hp, rfl, hc⟩

/-- Something reaches the attempt, and the execution acts on how its round trip takes it. -/
theorem actOn_lands (hs : Sound setup b) (ha : Agrees setup history b x)
    (ht : InTurn b x fired t) {r : RoundTrip} (hr : t.progress = .underWay r) (a : Arrival)
    (now : Nat) :
    Lands setup history (b.withLast (t.arrive a)) fired s (actOn now x (r.meet a)) := by
  have hp := Turn.progress_arrive hr a
  have hs' := hs.withLast ht.last ((hs.last ht.last).arrive a)
  cases hm : r.meet a with
  | answered r' => exact turnAnswered_lands hs ha ht hr hm now
  -- otherwise the turn has added nothing, before and after
  | underWay r' =>
    rw [hm] at hp
    have ha' := ha.withLast ht.last (u := t.arrive a) (by simp [hr]) (by simp [hp])
    exact pullNext_lands hs' ha' (ht.arrive a) hp now
  | failed f =>
    rw [hm] at hp
    have ha' := ha.withLast ht.last (u := t.arrive a) (by simp [hr]) (by simp [hp])
    exact attemptFailed_lands hs' ha' (ht.arrive a) hp now

/-- The signal ends an attempt as a failure would. -/
theorem interrupt_lands (h : Kept setup history b fired x) (ht : InTurn b x fired t)
    {r : RoundTrip} (hr : t.progress = .underWay r) (now : Nat) :
    Lands setup history (b.withLast (t.arrive .cancel)) true s
      (attemptFailed now { x with cancelled := true } .cancelled) :=
  actOn_lands (x := { x with cancelled := true }) h.sound (h.agrees.of_eq rfl rfl rfl rfl)
    ⟨ht.last, ht.results, ht.attempt, rfl⟩ hr .cancel now

/-! ## Every move -/

theorem standsAt (h : Kept setup history b fired x) {p : Phase} (hp : x.phase = p) :
    StandsAt setup b x fired p :=
  hp ▸ h.stands

theorem stay_lands (h : Kept setup history b fired x) :
    Lands setup history b fired s { execution := x } := by
  unfold Lands
  rw [List.any_nil, Bool.or_false]
  exact h

theorem on_admission_lands (h : Kept setup history b fired x) (hp : x.phase = .admission)
    (now : Nat) (s : Stimulus) :
    Lands setup history b (fired || s.fires .admission) s (x.on now s) := by
  obtain ⟨hnone, hc⟩ : b.turns = [] ∧ x.cancelled = fired := standsAt h hp
  cases s with
  | cancel =>
    have hlast : ∀ t, b.last ≠ some t := fun t hl => by simp [Books.turns_of_last hl] at hnone
    simp only [on, signalled, hp, Stimulus.fires, Phase.isEnded, Bool.not_false, Bool.or_true]
    exact conclude_lands (x := { x with cancelled := true }) h.sound
      (h.agrees.of_eq rfl rfl rfl rfl) (.aborted rfl fun t hl => absurd hl (hlast t)) now
  | admitted =>
    simp only [on, hp, Stimulus.fires, Bool.or_false]
    exact beginTurn_lands h.sound h.agrees (by simp [hnone]) hc (by simp) now
  | refused f =>
    simp only [on, hp, Stimulus.fires, Bool.or_false]
    refine ⟨h.sound, h.agrees.of_eq rfl rfl rfl rfl, hnone⟩
  | _ => simpa only [on, hp, Stimulus.fires, Bool.or_false] using stay_lands h

theorem on_opening_lands (h : Kept setup history b fired x) {r : RoundTrip}
    (hp : x.phase = .opening r) (now : Nat) (s : Stimulus) :
    Lands setup history (b.take (.opening r) s) (fired || s.fires (.opening r)) s (x.on now s) := by
  obtain ⟨t, ht, hr⟩ : ∃ t, InTurn b x fired t ∧ t.progress = .underWay r := standsAt h hp
  cases s with
  | cancel =>
    simp only [on, signalled, hp, Stimulus.fires, Phase.isEnded, Bool.not_false, Bool.or_true]
    rw [Books.take_of_last ht.last]
    exact interrupt_lands h ht hr now
  | opened answer =>
    cases answer with
    | error f =>
      simp only [on, hp, Stimulus.fires, Bool.or_false]
      rw [Books.take_of_last ht.last]
      exact actOn_lands h.sound h.agrees ht hr (.fault f) now
    | ok =>
      simp only [on, hp, Stimulus.fires, Bool.or_false]
      rw [Books.take_of_same fun _ _ => rfl]
      exact pullNext_lands h.sound h.agrees ht hr now
  | _ =>
    rw [Books.take_of_same fun _ _ => rfl]
    simpa only [on, hp, Stimulus.fires, Bool.or_false] using stay_lands h

theorem on_reading_lands (h : Kept setup history b fired x) {r : RoundTrip}
    (hp : x.phase = .reading r) (now : Nat) (s : Stimulus) :
    Lands setup history (b.take (.reading r) s) (fired || s.fires (.reading r)) s (x.on now s) := by
  obtain ⟨t, ht, hr⟩ : ∃ t, InTurn b x fired t ∧ t.progress = .underWay r := standsAt h hp
  cases s with
  | cancel =>
    simp only [on, signalled, hp, Stimulus.fires, Phase.isEnded, Bool.not_false, Bool.or_true]
    rw [Books.take_of_last ht.last]
    exact interrupt_lands h ht hr now
  | item i =>
    rw [show Stimulus.item i = stimulus (.item i) from rfl, on_reading hp,
      Books.take_of_last ht.last]
    -- the listener hears of the item first, and may fire the signal
    have hfires := tellAll_fires x (reports_not_done x (reports r (.item i)))
    obtain ⟨fired', hx⟩ := tellAll_eq x ((reports r (.item i)).map x.liveReport)
    rw [hx, ht.calm, h.agrees.same] at hfires
    simp only [follow, noting, stimulus, Stimulus.fires, Bool.or_false]
    refine afterEvents_lands ?_
    rw [hx]
    exact actOn_lands (x := { x with cancelled := fired' }) h.sound
      (h.agrees.of_eq rfl rfl rfl rfl) ⟨ht.last, ht.results, ht.attempt, hfires⟩ hr (.item i) now
  | _ =>
    rw [Books.take_of_same fun _ _ => rfl]
    simpa only [on, hp, Stimulus.fires, Bool.or_false] using stay_lands h

theorem on_pausing_lands (h : Kept setup history b fired x) (hp : x.phase = .pausing)
    (now : Nat) (s : Stimulus) :
    Lands setup history b (fired || s.fires .pausing) s (x.on now s) := by
  obtain ⟨t, f, ht, hf, hagain⟩ : ∃ t f, InTurn b x fired t ∧ t.progress = .failed f ∧
    setup.TriesAgain t.tries.length f := standsAt h hp
  cases s with
  | cancel =>
    simp only [on, signalled, hp, Stimulus.fires, Phase.isEnded, Bool.not_false, Bool.or_true]
    exact aborted_lands (x := { x with cancelled := true }) h.sound (h.agrees.of_eq rfl rfl rfl rfl)
      ht.last (.again hf hagain) now
  | awake =>
    simp only [on, hp, Stimulus.fires, Bool.or_false]
    exact beginAttempt_lands h.sound h.agrees ht hf hagain now
  | _ => simpa only [on, hp, Stimulus.fires, Bool.or_false] using stay_lands h

/-- Results finish a turn. -/
theorem results_lands (h : Kept setup history b fired x)
    (ht : InTurn b x fired t) {r : RoundTrip} (hr : t.progress = .answered r)
    (hc : r.calls ≠ []) (now : Nat) (results rs : List ToolResult) :
    Lands setup history (b.withLast { t with results := some results }) fired (.results rs)
      (beginTurn now { x with messages := x.messages ++ [.ofResults results] }) := by
  let t' : Turn := { t with results := some results }
  have hr' : t'.progress = .answered r := hr
  have hs' : Sound setup (b.withLast t') := h.sound.withLast ht.last
    ⟨(h.sound.last ht.last).within, (h.sound.last ht.last).failed⟩
  have hmessages : t'.messages = t.messages ++ [.ofResults results] := by
    rw [Turn.messages_of_answered hr, Turn.messages_of_answered hr', ht.results]
    rfl
  have hdeltas : t'.deltas = t.deltas ++ [] := by
    rw [Turn.deltas_of_answered hr, Turn.deltas_of_answered hr', List.append_nil]
  have hfinished : ∀ u ∈ (b.withLast t').turns, u.Finished := by
    intro u hu
    rcases List.mem_append.1 hu with hu | hu
    · exact h.sound.finished u hu
    · rw [List.mem_singleton.1 hu]
      exact ⟨r, hr', hc, rfl⟩
  exact beginTurn_lands
    (x := { x with messages := x.messages ++ [.ofResults results] }) hs'
    (h.agrees.grow ht.last hmessages hdeltas rfl rfl (add_zero _).symm rfl) hfinished ht.calm
    (by simp) now

theorem on_dispatching_lands (h : Kept setup history b fired x) {calls : List ToolCall}
    (hp : x.phase = .dispatching calls) (now : Nat) (s : Stimulus) :
    Lands setup history (b.take (.dispatching calls) s) (fired || s.fires (.dispatching calls)) s
      (x.on now s) := by
  obtain ⟨t, r, ht, hr, rfl, hc⟩ : ∃ t r, InTurn b x fired t ∧ t.progress = .answered r ∧
    r.calls = calls ∧ calls ≠ [] := standsAt h hp
  cases s with
  | cancel =>
    simp only [on, signalled, hp, Stimulus.fires, Phase.isEnded, Bool.not_false, Bool.or_true]
    rw [Books.take_of_same fun _ _ => rfl]
    refine stay_lands ⟨h.sound, h.agrees.of_eq rfl rfl rfl rfl, ?_⟩
    exact ⟨t, r, ⟨ht.last, ht.results, ht.attempt, rfl⟩, hr, rfl, hc⟩
  | results rs =>
    simp only [on, hp, Stimulus.fires, Bool.or_false]
    rw [Books.take_of_last ht.last]
    exact results_lands h ht hr hc now (pairResults r.calls rs) rs
  | _ =>
    rw [Books.take_of_same fun _ _ => rfl]
    simpa only [on, hp, Stimulus.fires, Bool.or_false] using stay_lands h

theorem on_ended_lands (h : Kept setup history b fired x)
    {outcome : Except Failure (Result Message)} (hp : x.phase = .ended outcome) (now : Nat)
    (s : Stimulus) : Lands setup history b fired s (x.on now s) := by
  obtain ⟨fired', hs⟩ := on_ended now hp s
  have hstands := standsAt h hp
  rw [hs]
  refine stay_lands ⟨h.sound, h.agrees.of_eq rfl rfl rfl rfl, ?_⟩
  show StandsAt setup b _ fired x.phase
  rw [hp]
  cases outcome <;> exact hstands

/-- Whatever reaches an execution, the books go along. -/
theorem on_lands (h : Kept setup history b fired x) (now : Nat) (s : Stimulus) :
    Lands setup history (b.take x.phase s) (fired || s.fires x.phase) s (x.on now s) := by
  cases hp : x.phase with
  | admission =>
    rw [Books.take_of_same fun t _ => by cases s <;> rfl]
    exact on_admission_lands h hp now s
  | opening r => exact on_opening_lands h hp now s
  | reading r => exact on_reading_lands h hp now s
  | pausing =>
    rw [Books.take_of_same fun t _ => by cases s <;> rfl]
    exact on_pausing_lands h hp now s
  | dispatching calls => exact on_dispatching_lands h hp now s
  | ended outcome =>
    have hfires : s.fires (.ended outcome) = false := by cases s <;> rfl
    rw [Books.take_of_same fun t _ => by cases s <;> rfl, hfires, Bool.or_false]
    exact on_ended_lands h hp now s

theorem start_kept (now : Nat) (setup : Setup) (history : List Message) (cancelled : Bool) :
    Kept setup history {} cancelled (start now setup history cancelled).execution := by
  have hs : Sound setup {} := ⟨by simp [Books.turns], by simp, Nat.zero_le _⟩
  have ha (x : Execution) (hx : x.setup = setup) (hm : x.messages = history)
      (hu : x.meter.usage = {}) (ht : x.turns = 0) : Agrees setup history {} x :=
    ⟨hx, hm.trans (List.append_nil history).symm, hu, ht⟩
  unfold start
  dsimp only
  split
  · exact ⟨hs, ha _ rfl rfl rfl rfl, rfl⟩
  · split
    · exact ⟨hs, ha _ rfl rfl rfl rfl, rfl⟩
    · split
      · rename_i hc
        exact conclude_kept hs (ha _ rfl rfl rfl rfl) (.aborted hc fun t hl => by cases hl) now
      · exact ⟨hs, ha _ rfl rfl rfl rfl, rfl, rfl⟩

theorem Kept.next {j : Journal} (h : Kept setup history j.books j.fired j.record.execution)
    (now : Nat) (s : Stimulus) :
    Kept setup history (j.next now s).books (j.next now s).fired
      (j.next now s).record.execution := by
  have hnext := on_lands h now s
  unfold Lands at hnext
  rw [← h.agrees.same] at hnext ⊢
  exact hnext

/-- The books of a journal say everything about its execution. -/
theorem run_kept (now : Nat) (setup : Setup) (history : List Message) (cancelled : Bool)
    (happenings : List (Nat × Stimulus)) :
    Kept setup history (run now setup history cancelled happenings).books
      (run now setup history cancelled happenings).fired
      (run now setup history cancelled happenings).record.execution :=
  run_induct (P := fun j => Kept setup history j.books j.fired j.record.execution)
    (start_kept now setup history cancelled) (fun _ now s hj => hj.next now s) happenings

end Journal

end TurnEngine.Run
