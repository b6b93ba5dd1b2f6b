import TurnEngine.Retry

/-!
# Operations that are retried

An operation is retried in time and against a signal. Were every attempt of it followed by another
one, its attempts would begin at certain moments, with the signal at a certain point
(`Operation.reach`). The course of the operation is the beginning of this schedule: it goes on as
long as failures are retried and the signal has not fired, and ends with an attempt that decides it,
or when the signal ends a wait (`Operation.Leads`, `Operation.course_leads`).

As long as the signal has not fired, the first attempt that stops the operation decides it
(`Leads.decided`). No attempt begins after the signal (`Leads.begins_le`), a wait ends with it
(`Leads.woken_at`), and then the course ends with a cancellation, unless the attempt in flight
stopped the operation (`Leads.cancelled_or_stopped`). `course_spec` puts all of it together.
-/

namespace TurnEngine.Retry

/-- An attempt does not end before it began, and does nothing to the signal, or fires it meanwhile,
unless that fires before. -/
structure Plan.Trial.Timely {α : Type} (t : Plan.Trial α) (start : Nat) (s : Signal) : Prop where
  begun : start ≤ t.finish
  signal : t.signal = s ∨
    ∃ now, t.signal = .firingAt now ∧ start ≤ now ∧ ∀ t', s.firesAt = some t' → now ≤ t'

/-- An operation that is retried: under which back-off, after which failures, after how long a wait
for a retry (the first is 0) and what the server asked for, how its attempts go, and from when on,
against which signal. -/
structure Operation (α : Type) where
  backoff : Backoff
  shouldRetry : Failure → Bool
  delay : Nat → Option Nat → Nat
  trial : Nat → Nat → Signal → Plan.Trial α
  timely : ∀ n start s, (trial n start s).Timely start s
  start : Nat := 0
  signal : Signal := .never

namespace Operation

variable {α : Type}

section
variable (e : Operation α)

def plan : Plan := { Plan.ofBackoff e.backoff e.shouldRetry with delay := e.delay }

def course : Plan.Course α := e.plan.run e.trial e.start e.signal

/-- How many attempts there are. -/
def tries : Nat := e.course.attempts.length

/-- The attempts that there may be. -/
def limit : Nat := e.backoff.maxAttempts.toNat

/-- How long the wait after an attempt is asked to last. -/
def waitAfter (n : Nat) : Except Failure α → Nat
  | .ok _ => 0
  | .error f => e.delay n (f.retryAfterMs?.map UInt64.toNat)

/-- When the attempt after the first `n` ones may begin, and the signal then. -/
def reach : Nat → Nat × Signal
  | 0 => (e.start, e.signal)
  | n + 1 =>
    let done := e.trial (n + 1) (reach n).1 (reach n).2
    (Clock.after done.finish (e.waitAfter n done.outcome), done.signal)

def begins (n : Nat) : Nat := (e.reach n).1

def signalAt (n : Nat) : Signal := (e.reach n).2

/-- The attempt after the first `n` ones; its number is `n + 1`. -/
def attempt (n : Nat) : Plan.Trial α := e.trial (n + 1) (e.begins n) (e.signalAt n)

/-- The attempt after the first `n` ones leaves nothing to retry: it succeeded, or failed with a
cancellation, or was the last one that there may be, or its failure is not to be retried. -/
def Stops (n : Nat) : Prop :=
  match (e.attempt n).outcome with
  | .ok _ => True
  | .error f => f = .cancelled ∨ n + 1 = e.limit ∨ e.shouldRetry f = false

/-- What is asked about the attempt after the first `n` ones: its failure, if it is no cancellation
and there may be more attempts. -/
def question? (n : Nat) : Option (Nat × Failure) :=
  match (e.attempt n).outcome with
  | .ok _ => none
  | .error f => if f = .cancelled ∨ e.limit ≤ n + 1 then none else some (n + 1, f)

/-- How an operation with a number of attempts ends: its outcome, and when. -/
inductive Ends (m : Nat) (outcome : Except Failure α) (finish : Nat) : Prop
  /-- The signal had fired before. -/
  | unbegun (hm : m = 0) (hs : e.signal.firedBy e.start = true)
      (ho : outcome = .error .cancelled) (hf : finish = e.start)
  /-- The last attempt decided it. -/
  | settled (n : Nat) (hm : m = n + 1) (hs : e.Stops n)
      (ho : outcome = (e.attempt n).outcome) (hf : finish = (e.attempt n).finish)
  /-- The signal ended the wait after the last attempt, or kept it from beginning. -/
  | woken (n t : Nat) (hm : m = n + 1) (hs : ¬ e.Stops n)
      (ht : (e.signalAt (n + 1)).firesAt = some t) (hle : t ≤ e.begins (n + 1))
      (ho : outcome = .error .cancelled) (hf : finish = max t (e.attempt n).finish)

/-- A course leads from the first `n` attempts over `k` more of them to the end. -/
structure Leads (n k : Nat) (c : Plan.Course α) : Prop where
  attempts : c.attempts = (List.range' n k).map fun i => (i + 1, e.begins i)
  asked : c.asked = (List.range' n k).filterMap e.question?
  /-- Every attempt but the last one is retried. -/
  goesOn : ∀ i, n ≤ i → i + 1 < n + k → ¬ e.Stops i
  /-- No attempt begins once the signal has fired. -/
  unfired : ∀ i, n ≤ i → i < n + k → (e.signalAt i).firedBy (e.begins i) = false
  ends : e.Ends (n + k) c.outcome c.finish

end

variable {e : Operation α} {n k m : Nat} {c : Plan.Course α} {f : Failure}

theorem limit_pos (e : Operation α) : 0 < e.limit := by
  have := e.backoff.toNat_maxAttempts
  simp only [limit, UInt32.size] at *
  omega

/-- After a failure a wait begins, which lasts thirty years at most. -/
theorem begins_succ (hf : (e.attempt n).outcome = .error f) :
    e.begins (n + 1) = Clock.after (e.attempt n).finish
      (e.delay n (f.retryAfterMs?.map UInt64.toNat)) := by
  have hwait : e.waitAfter n (e.attempt n).outcome
      = e.delay n (f.retryAfterMs?.map UInt64.toNat) := by rw [hf, waitAfter]
  rw [← hwait]
  rfl

theorem signalAt_succ (e : Operation α) (n : Nat) : e.signalAt (n + 1) = (e.attempt n).signal := rfl

/-! ## One attempt -/

theorem stops_of_ok {a : α} (ha : (e.attempt n).outcome = .ok a) : e.Stops n := by
  unfold Stops
  rw [ha]
  trivial

theorem stops_of_error (hf : (e.attempt n).outcome = .error f) :
    e.Stops n ↔ f = .cancelled ∨ n + 1 = e.limit ∨ e.shouldRetry f = false := by
  unfold Stops
  rw [hf]

instance : Decidable (e.Stops n) :=
  match h : (e.attempt n).outcome with
  | .ok _ => .isTrue (stops_of_ok h)
  | .error _ => decidable_of_iff _ (stops_of_error h).symm

theorem question?_of_ok {a : α} (ha : (e.attempt n).outcome = .ok a) : e.question? n = none := by
  unfold question?
  rw [ha]

theorem judges_iff : e.plan.judges n f = true ↔ f ≠ .cancelled ∧ n < e.limit := Plan.judges_iff

theorem question?_of_error (hf : (e.attempt n).outcome = .error f) :
    (e.question? n).toList = if e.plan.judges (n + 1) f then [(n + 1, f)] else [] := by
  unfold question?
  rw [hf]
  by_cases h : f = .cancelled ∨ e.limit ≤ n + 1
  · have hno : ¬ e.plan.judges (n + 1) f = true := fun hj =>
      h.elim (judges_iff.1 hj).1 (Nat.not_le_of_lt (judges_iff.1 hj).2)
    rw [if_neg hno]
    simp [h]
  · rw [not_or, Nat.not_le] at h
    rw [if_pos (judges_iff.2 h)]
    simp [h.1, Nat.not_le_of_lt h.2]

/-- The plan gives up after an attempt that stops the operation, and otherwise waits for the
next. -/
theorem verdict_cases (hn : n + 1 ≤ e.limit) (hf : (e.attempt n).outcome = .error f) :
    (e.Stops n ∧ e.plan.verdict (n + 1) f = .giveUp) ∨
    (¬ e.Stops n ∧ n + 1 < e.limit ∧
      e.plan.verdict (n + 1) f = .pause (e.delay n (f.retryAfterMs?.map UInt64.toNat))) := by
  have hstops := stops_of_error hf
  unfold Plan.verdict
  by_cases h : (e.plan.judges (n + 1) f && e.plan.shouldRetry f) = true
  · rw [if_pos h]
    obtain ⟨hjudges, hretry⟩ := Bool.and_eq_true_iff.1 h
    obtain ⟨hcancelled, hlt⟩ := judges_iff.1 hjudges
    refine .inr ⟨fun hs => ?_, hlt, rfl⟩
    rcases hstops.1 hs with hs | hs | hs
    · exact hcancelled hs
    · exact Nat.ne_of_lt hlt hs
    · exact Bool.noConfusion (hretry.symm.trans hs)
  · rw [if_neg h]
    refine .inl ⟨hstops.2 ?_, rfl⟩
    by_cases hcancelled : f = .cancelled
    · exact .inl hcancelled
    · rcases Nat.lt_or_eq_of_le hn with hlt | heq
      · have hjudges := judges_iff.2 ⟨hcancelled, hlt⟩
        rw [hjudges, Bool.true_and, Bool.not_eq_true] at h
        exact .inr (.inr h)
      · exact .inr (.inl heq)

/-! ## The whole course -/

/-- A course may be over after one attempt. -/
theorem leads_one (hu : (e.signalAt n).firedBy (e.begins n) = false)
    (hattempts : c.attempts = [(n + 1, e.begins n)]) (hasked : c.asked = (e.question? n).toList)
    (hends : e.Ends (n + 1) c.outcome c.finish) : e.Leads n 1 c := by
  refine ⟨hattempts, ?_, fun i hi hlt => by omega, fun i hi hlt => ?_, hends⟩
  · rw [hasked, List.range'_one, List.filterMap_cons]
    cases e.question? n <;> rfl
  · rw [show i = n by omega]
    exact hu

/-- An attempt that is retried goes before the rest of the course. -/
theorem Leads.cons (h : e.Leads (n + 1) (k + 1) c)
    (hu : (e.signalAt n).firedBy (e.begins n) = false) (hs : ¬ e.Stops n) :
    e.Leads n (k + 1 + 1) { c with
      attempts := (n + 1, e.begins n) :: c.attempts
      asked := (e.question? n).toList ++ c.asked } := by
  refine ⟨?_, ?_, fun i hi hlt => ?_, fun i hi hlt => ?_, ?_⟩
  · rw [List.range'_succ, List.map_cons, ← h.attempts]
  · rw [List.range'_succ, List.filterMap_cons, ← h.asked]
    cases e.question? n <;> rfl
  · rcases Nat.eq_or_lt_of_le hi with rfl | hi
    · exact hs
    · exact h.goesOn i hi (by omega)
  · rcases Nat.eq_or_lt_of_le hi with rfl | hi
    · exact hu
    · exact h.unfired i hi (by omega)
  · have hends := h.ends
    rwa [show n + 1 + (k + 1) = n + (k + 1 + 1) by omega] at hends

theorem trial_eq_attempt (e : Operation α) (n : Nat) :
    e.trial (n + 1) (e.begins n) (e.signalAt n) = e.attempt n := rfl

/-- The plan is carried out from an attempt on that may begin: the course ends with it, or in the
wait after it, or goes on with the next attempt. -/
theorem runFrom_cases (left : Nat) (hn : n + 1 ≤ e.limit)
    (hu : (e.signalAt n).firedBy (e.begins n) = false) :
    e.Leads n 1 (e.plan.runFrom e.trial (left + 1) (n + 1) (e.begins n) (e.signalAt n)) ∨
    (¬ e.Stops n ∧ n + 1 < e.limit ∧ (e.signalAt (n + 1)).firedBy (e.begins (n + 1)) = false ∧
      e.plan.runFrom e.trial (left + 1) (n + 1) (e.begins n) (e.signalAt n) =
        let rest := e.plan.runFrom e.trial left (n + 1 + 1) (e.begins (n + 1)) (e.signalAt (n + 1))
        { rest with
          attempts := (n + 1, e.begins n) :: rest.attempts
          asked := (e.question? n).toList ++ rest.asked }) := by
  simp only [Plan.runFrom, hu, Bool.false_eq_true, if_false, trial_eq_attempt]
  cases hout : (e.attempt n).outcome with
  | ok a =>
    refine .inl (leads_one hu rfl ?_ (.settled n rfl (stops_of_ok hout) hout.symm rfl))
    rw [question?_of_ok hout]
    rfl
  | error f =>
    dsimp only
    rw [← question?_of_error hout]
    rcases verdict_cases hn hout with ⟨hs, hv⟩ | ⟨hs, hlt, hv⟩
    · rw [hv]
      exact .inl (leads_one hu rfl rfl (.settled n rfl hs hout.symm rfl))
    · rw [hv]
      dsimp only
      rcases (e.attempt n).signal.sleep_cases (e.attempt n).finish
          (e.delay n (f.retryAfterMs?.map UInt64.toNat)) with ⟨t, ht, hle, hw⟩ | ⟨hun, hw⟩
      · rw [hw]
        rw [← begins_succ hout] at hle
        exact .inl (leads_one hu rfl rfl (.woken n t rfl hs ht hle rfl rfl))
      · rw [hw]
        rw [← begins_succ hout] at hun ⊢
        exact .inr ⟨hs, hlt, hun, rfl⟩

theorem runFrom_leads {left : Nat} (hleft : n + (left + 1) = e.limit)
    (hu : (e.signalAt n).firedBy (e.begins n) = false) :
    ∃ k, e.Leads n (k + 1)
      (e.plan.runFrom e.trial (left + 1) (n + 1) (e.begins n) (e.signalAt n)) := by
  induction left generalizing n with
  | zero =>
    rcases runFrom_cases 0 (by omega) hu with h | ⟨-, hlt, -, -⟩
    · exact ⟨0, h⟩
    · omega
  | succ left ih =>
    rcases runFrom_cases (left + 1) (by omega) hu with h | ⟨hs, -, hun, hrun⟩
    · exact ⟨0, h⟩
    · obtain ⟨k, hk⟩ := ih (by omega) hun
      rw [hrun]
      exact ⟨k + 1, hk.cons hu hs⟩

/-- Every course is the beginning of its schedule. -/
theorem course_leads (e : Operation α) : ∃ m, e.Leads 0 m e.course := by
  have hlimit : max 1 e.plan.maxAttempts = e.limit - 1 + 1 := by
    have hpos := e.limit_pos
    have heq : e.plan.maxAttempts = e.limit := rfl
    omega
  unfold course Plan.run
  rw [hlimit]
  cases hu : e.signal.firedBy e.start with
  | true =>
    refine ⟨0, ?_⟩
    unfold Plan.runFrom
    rw [if_pos hu]
    exact ⟨rfl, rfl, fun i _ hi => by omega, fun i _ hi => by omega, .unbegun rfl hu rfl rfl⟩
  | false =>
    have hpos := e.limit_pos
    obtain ⟨k, hk⟩ := runFrom_leads (by omega : 0 + (e.limit - 1 + 1) = e.limit) hu
    exact ⟨k + 1, hk⟩

theorem course_leads_tries (e : Operation α) : e.Leads 0 e.tries e.course := by
  obtain ⟨m, h⟩ := e.course_leads
  have hm : e.tries = m := by
    rw [tries, h.attempts, List.length_map, List.length_range']
  rwa [hm]

theorem stops_at_limit (hn : n + 1 = e.limit) : e.Stops n := by
  unfold Stops
  cases (e.attempt n).outcome with
  | ok a => trivial
  | error f => exact .inr (.inl hn)

/-- There are no more attempts than there may be. -/
theorem Leads.le_limit (h : e.Leads 0 m c) : m ≤ e.limit := by
  have hpos := e.limit_pos
  refine Nat.le_of_not_lt fun hlt => ?_
  exact h.goesOn (e.limit - 1) (Nat.zero_le _) (by omega) (stops_at_limit (by omega))

/-! ## The signal on the way -/

theorem begins_le_begins (e : Operation α) (hle : n ≤ m) : e.begins n ≤ e.begins m := by
  induction hle with
  | refl => exact Nat.le_refl _
  | @step m _ ih =>
    have hbegun := (e.timely (m + 1) (e.begins m) (e.signalAt m)).begun
    exact Nat.le_trans ih (Nat.le_trans hbegun (Nat.le_add_right _ _))

/-- A signal that had not fired when an attempt began does not fire before that, whatever attempts
do to it later. -/
theorem begins_le_of_firesAt {T : Nat} (hu : (e.signalAt n).firedBy (e.begins n) = false)
    (hle : n ≤ m) (hT : (e.signalAt m).firesAt = some T) : e.begins n ≤ T := by
  induction hle generalizing T with
  | refl =>
    rw [Signal.firedBy, hT] at hu
    exact Nat.le_of_lt (Nat.lt_of_not_le (of_decide_eq_false hu))
  | @step m hle ih =>
    rw [signalAt_succ] at hT
    rcases (e.timely (m + 1) (e.begins m) (e.signalAt m)).signal with hs | ⟨now, hs, hnow, -⟩
    · rw [← trial_eq_attempt, hs] at hT
      exact ih hT
    · rw [← trial_eq_attempt, hs] at hT
      cases hT
      exact Nat.le_trans (e.begins_le_begins hle) hnow

/-- No attempt begins after the signal. -/
theorem Leads.begins_le (h : e.Leads 0 m c) {T : Nat} (hT : (e.signalAt m).firesAt = some T)
    (hn : n < m) : e.begins n ≤ T :=
  begins_le_of_firesAt (h.unfired n (Nat.zero_le _) (by omega)) (Nat.le_of_lt hn) hT

/-- If the signal fires during the wait after an attempt, or before it, then there is no other
attempt: the operation is cancelled at that moment, or at the beginning of the wait. -/
theorem Leads.woken_at (h : e.Leads 0 m c) (hn : n < m) (hs : ¬ e.Stops n) {T : Nat}
    (hT : (e.signalAt (n + 1)).firesAt = some T) (hle : T ≤ e.begins (n + 1)) :
    m = n + 1 ∧ c.outcome = .error .cancelled ∧ c.finish = max T (e.attempt n).finish := by
  have hm : m = n + 1 := by
    refine Nat.le_antisymm (Nat.le_of_not_lt fun hlt => ?_) hn
    have hu := h.unfired (n + 1) (Nat.zero_le _) (by omega)
    rw [Signal.firedBy, hT] at hu
    exact of_decide_eq_false hu hle
  cases h.ends with
  | unbegun h0 => omega
  | settled n' hm' hs' =>
    rw [show n' = n by omega] at hs'
    exact absurd hs' hs
  | woken n' t hm' _ ht _ ho hf =>
    rw [show n' = n by omega] at ht hf
    obtain rfl : t = T := Option.some.inj (ht.symm.trans hT)
    exact ⟨hm, ho, hf⟩

/-- As long as the signal has not fired, the operation is over with the first attempt that stops it,
and has the outcome of that attempt. -/
theorem Leads.decided (h : e.Leads 0 m c) (hu : (e.signalAt m).firedBy c.finish = false) :
    ∃ n, m = n + 1 ∧ e.Stops n ∧ (∀ i < n, ¬ e.Stops i) ∧
      c.outcome = (e.attempt n).outcome ∧ c.finish = (e.attempt n).finish := by
  cases h.ends with
  | unbegun hm hs _ hf =>
    rw [hf, show m = 0 by omega] at hu
    exact absurd (hs.symm.trans hu) Bool.noConfusion
  | settled n hm hs ho hf =>
    exact ⟨n, by omega, hs, fun i hi => h.goesOn i (Nat.zero_le _) (by omega), ho, hf⟩
  | woken n t hm _ ht _ _ hf =>
    rw [hf, show m = n + 1 by omega, Signal.firedBy, ht] at hu
    exact absurd (Nat.le_max_left _ _) (of_decide_eq_false hu)

/-- If the signal fires before the operation is over, it is cancelled, unless the attempt in flight
stops it. -/
theorem Leads.cancelled_or_stopped (h : e.Leads 0 m c) {T : Nat}
    (hT : (e.signalAt m).firesAt = some T) (hle : T ≤ c.finish) :
    c.outcome = .error .cancelled ∨
    ∃ n, m = n + 1 ∧ e.begins n ≤ T ∧ T ≤ (e.attempt n).finish ∧ e.Stops n ∧
      c.outcome = (e.attempt n).outcome := by
  cases h.ends with
  | unbegun _ _ ho => exact .inl ho
  | settled n hm hs ho hf =>
    exact .inr ⟨n, by omega, h.begins_le hT (by omega), hf ▸ hle, hs, ho⟩
  | woken _ _ _ _ _ _ ho => exact .inl ho

/-- Retrying an operation. The attempts are the first ones of the schedule, no more than the
back-off allows, which a word can count; all but the last one are retried, and exactly the failures
are judged that are no cancellation and leave an attempt. After a failure, the next attempt begins
when the asked delay is over, or thirty years. As long as the signal has not fired, the first
attempt that stops the operation decides it. Once it fires, no attempt begins, a wait is over at
that moment, and the operation is cancelled, unless the attempt in flight stops it. -/
theorem course_spec (e : Operation α) :
    (e.course.attempts = (List.range e.tries).map (fun i => (i + 1, e.begins i)) ∧
      e.tries ≤ e.limit ∧ e.limit = min (e.backoff.maxRetries.toNat + 1) (UInt32.size - 1)) ∧
    (∀ i, i + 1 < e.tries → ¬ e.Stops i) ∧
    e.course.asked = (List.range e.tries).filterMap e.question? ∧
    (∀ n f, (e.attempt n).outcome = .error f →
      e.begins (n + 1) = (e.attempt n).finish +
        min (e.delay n (f.retryAfterMs?.map UInt64.toNat)) Clock.longestSleep) ∧
    ((e.signalAt e.tries).firedBy e.course.finish = false →
      ∃ n, e.tries = n + 1 ∧ e.Stops n ∧ (∀ i < n, ¬ e.Stops i) ∧
        e.course.outcome = (e.attempt n).outcome ∧ e.course.finish = (e.attempt n).finish) ∧
    (∀ T, (e.signalAt e.tries).firesAt = some T →
      (∀ n < e.tries, e.begins n ≤ T) ∧
      (T ≤ e.course.finish → e.course.outcome = .error .cancelled ∨
        ∃ n, e.tries = n + 1 ∧ e.begins n ≤ T ∧ T ≤ (e.attempt n).finish ∧ e.Stops n ∧
          e.course.outcome = (e.attempt n).outcome)) ∧
    (∀ n T, n < e.tries → ¬ e.Stops n → (e.signalAt (n + 1)).firesAt = some T →
      (e.attempt n).finish ≤ T → T ≤ e.begins (n + 1) →
      e.tries = n + 1 ∧ e.course.outcome = .error .cancelled ∧ e.course.finish = T) := by
  have h := e.course_leads_tries
  refine ⟨⟨?_, h.le_limit, e.backoff.toNat_maxAttempts⟩, fun i hi => ?_, ?_, fun n f hf => ?_,
    h.decided, fun T hT => ⟨fun n => h.begins_le hT, h.cancelled_or_stopped hT⟩,
    fun n T hn hs hT hfinish hle => ?_⟩
  · rw [List.range_eq_range']
    exact h.attempts
  · exact h.goesOn i (Nat.zero_le _) (by omega)
  · rw [List.range_eq_range']
    exact h.asked
  · exact begins_succ hf
  · obtain ⟨hm, ho, hf⟩ := h.woken_at hn hs hT hle
    exact ⟨hm, ho, hf.trans (Nat.max_eq_left hfinish)⟩

/-- Attempts that fail after 5 ms, and the second one has somebody fire the signal 5 ms later, in
the middle of the wait that follows. -/
def interrupted : Operation Nat where
  backoff := {}
  shouldRetry _ := true
  delay _ _ := 10
  trial n start s :=
    ⟨.error (.http "down"), start + 5, if n = 2 ∧ s = .never then .firingAt (start + 10) else s⟩
  timely n start s := by
    refine ⟨Nat.le_add_right _ _, ?_⟩
    dsimp only
    split
    · rename_i h
      rw [h.2]
      exact .inr ⟨_, rfl, Nat.le_add_right _ _, fun _ ht => nomatch ht⟩
    · exact .inl rfl

theorem course_spec_interrupted :
    interrupted.tries = 2 ∧ interrupted.course.outcome = .error .cancelled ∧
      interrupted.course.finish = 25 :=
  (course_spec interrupted).2.2.2.2.2.2 1 25 (by decide) (by decide) (by decide) (by decide)
    (by decide)

/-- The server asks for a longer wait than a sleep lasts. -/
def overlong : Operation Nat where
  backoff := {}
  shouldRetry _ := true
  delay _ atLeast := atLeast.getD 0
  trial n start s :=
    ⟨if n = 1 then .error (.provider (some 429) "slow" (some 1000000000000)) else .ok 1, start, s⟩
  timely _ _ _ := ⟨Nat.le_refl _, .inl rfl⟩

/-- A retry may begin before the delay after a failure is over. -/
theorem overlong_begins_early :
    overlong.course.attempts = [(1, 0), (2, 946080000000)] ∧
    ¬ ∀ (e : Operation Nat) (n : Nat) (f : Failure), n + 1 < e.tries →
      (e.attempt n).outcome = .error f →
      e.begins (n + 1) = (e.attempt n).finish + e.delay n (f.retryAfterMs?.map UInt64.toNat) := by
  refine ⟨by decide, fun h => ?_⟩
  have hdelay := h overlong 0 _ (by decide) rfl
  exact absurd hdelay (by decide)

end Operation

end TurnEngine.Retry
