import TurnEngine.Backoff
import TurnEngine.Failure.Classifier
import TurnEngine.Signal

/-!
# Retrying

A plan says how often an operation is tried, after which failures, and how long to wait in
between. `Plan.verdict` is the decision after one failed attempt; `Plan.run` carries a plan out in
time, against a cancellation signal.

The order of the three reasons to stop: a cancellation is final, the budget comes next, and only
then is the failure itself judged.
-/

namespace TurnEngine.Retry

/-- How to retry. -/
structure Plan where
  /-- Attempts in all. -/
  maxAttempts : Nat
  /-- Whether a failure is worth another attempt. -/
  shouldRetry : Failure → Bool
  /-- The wait before a retry (the first is 0), given the least wait that the server asked for. -/
  delay : Nat → Option Nat → Nat

/-- What to do after a failed attempt. -/
inductive Verdict where
  | giveUp
  | pause (ms : Nat)
  deriving DecidableEq, Repr

namespace Plan

/-- The plan of a back-off schedule with jitter in the middle of its range. -/
def ofBackoff (b : Backoff) (shouldRetry : Failure → Bool) : Plan where
  maxAttempts := b.maxAttempts.toNat
  shouldRetry
  delay := b.delay 0

/-- Whether the plan judges a failure of attempt `n`: it is no cancellation, and attempts are
left. -/
def judges (p : Plan) (n : Nat) (f : Failure) : Bool :=
  !f.isCancelled && n < p.maxAttempts

theorem judges_iff {p : Plan} {n : Nat} {f : Failure} :
    p.judges n f = true ↔ f ≠ .cancelled ∧ n < p.maxAttempts := by
  have hcancelled : f.isCancelled = false ↔ f ≠ .cancelled := by
    rw [← Bool.not_eq_true, Failure.isCancelled_iff]
  simp only [judges, Bool.and_eq_true, Bool.not_eq_true', decide_eq_true_eq, hcancelled]

/-- The decision after attempt `n` (the first is 1) failed. -/
def verdict (p : Plan) (n : Nat) (f : Failure) : Verdict :=
  if p.judges n f && p.shouldRetry f then
    .pause (p.delay (n - 1) (f.retryAfterMs?.map UInt64.toNat))
  else .giveUp

/-! ## Carrying out a plan -/

/-- How one attempt goes: its outcome, when it ends, and what becomes of the signal meanwhile. -/
structure Trial (α : Type) where
  outcome : Except Failure α
  finish : Nat
  signal : Signal

/-- How all attempts went. -/
structure Course (α : Type) where
  outcome : Except Failure α
  /-- The number and the start of every attempt. -/
  attempts : List (Nat × Nat)
  /-- The failures that were judged, each with the number of its attempt. -/
  asked : List (Nat × Failure)
  /-- When it was over. -/
  finish : Nat

/-- How many failures were judged. -/
def Course.judged {α : Type} (c : Course α) : Nat := c.asked.length

/-- Carries out a plan from attempt `n` on, with `left` attempts left: `trial n start signal` is
attempt `n`. The signal is looked at before every attempt, and ends a wait. -/
def runFrom {α : Type} (p : Plan) (trial : Nat → Nat → Signal → Trial α) :
    (left n now : Nat) → Signal → Course α
  | 0, _, now, _ => ⟨.error .cancelled, [], [], now⟩
  | left + 1, n, now, signal =>
    if signal.firedBy now then ⟨.error .cancelled, [], [], now⟩
    else
      let done := trial n now signal
      match done.outcome with
      | .ok a => ⟨.ok a, [(n, now)], [], done.finish⟩
      | .error f =>
        let asked := if p.judges n f then [(n, f)] else []
        match p.verdict n f with
        | .giveUp => ⟨.error f, [(n, now)], asked, done.finish⟩
        | .pause ms =>
          match done.signal.sleep done.finish ms with
          | .cancelled t => ⟨.error .cancelled, [(n, now)], asked, t⟩
          | .elapsed t =>
            let c := p.runFrom trial left (n + 1) t done.signal
            { c with attempts := (n, now) :: c.attempts, asked := asked ++ c.asked }

/-- Carries out a plan. -/
def run {α : Type} (p : Plan) (trial : Nat → Nat → Signal → Trial α) (now : Nat)
    (signal : Signal) : Course α :=
  p.runFrom trial (max 1 p.maxAttempts) 1 now signal

end Plan

end TurnEngine.Retry
