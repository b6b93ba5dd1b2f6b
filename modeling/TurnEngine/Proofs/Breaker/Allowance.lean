import TurnEngine.Proofs.Breaker.Keys

/-!
# How many failures a breaker lets through

Within a stretch of time shorter than the reset timeout a circuit that opens stays open. So the
failures that a breaker lets through in such a stretch are bounded: by what its failure count lacks
to the limit, or by the one probe of a circuit that was not closed. `allowance b since` is this
bound for the stretch that began at `since`, read off the breaker at any moment of it. A refusal
does not raise it (`allowance_request_le`), and a failure that was let through takes at least one
from it (`allowance_settle_failure`).
-/

namespace TurnEngine.Breaker

variable {b : Breaker} {since now : Nat}

/-- Whether the circuit is open, and opened at `since` or later. -/
def openedSince (b : Breaker) (since : Nat) : Bool :=
  b.circuit = .tripped && b.openedAt.any fun opened => since ≤ opened

/-- How many failures it still lets through in the stretch that began at `since`. -/
def allowance (b : Breaker) (since : Nat) : Nat :=
  if b.openedSince since then 0
  else if b.circuit = .closed then b.failureLimit - b.failures
  else 1

theorem openedSince_trip (b : Breaker) (h : since ≤ now) :
    (b.trip now).openedSince since = true := by
  simp [openedSince, trip, h]

theorem allowance_of_openedSince (h : b.openedSince since = true) : b.allowance since = 0 :=
  if_pos h

theorem allowance_le (b : Breaker) (since : Nat) :
    b.allowance since ≤ if b.circuit = .closed then b.failureLimit - b.failures else 1 := by
  unfold allowance
  split <;> simp

/-- The failure of an ordinary call counts if it is not late, and opens the circuit at the limit. -/
theorem settle_ordinary_failure (hc : b.circuit = .closed) (hbelow : b.failures < b.failureLimit)
    (now : Nat) :
    b.failures + 1 < b.failureLimit ∧
        b.settle now ⟨false, b.epoch⟩ .failure = { b with failures := b.failures + 1 } ∨
      b.settle now ⟨false, b.epoch⟩ .failure =
        { b with failures := b.failures + 1 }.trip now := by
  have hmax := failureLimit_le b
  have hnext : min (b.failures + 1) maxFailures = b.failures + 1 := by omega
  unfold failureLimit at hbelow ⊢
  by_cases hreached : b.config.failureThreshold.toNat ≤ b.failures + 1
  · exact .inr (by simp [settle, recordFailure, releaseProbe, isCurrent, hc, hnext, hreached])
  · refine .inl ⟨by omega, ?_⟩
    simp [settle, recordFailure, releaseProbe, isCurrent, hc, hnext, hreached]

/-- The failure of a probe that is not late opens the circuit. -/
theorem openedSince_probe_failure (hc : b.circuit = .halfOpen) (h : since ≤ now) :
    (b.settle now ⟨true, b.epoch⟩ .failure).openedSince since = true := by
  simp [settle, recordFailure, releaseProbe, isCurrent, hc, trip, openedSince, h]

section
variable (hopen : b.openedSince since = true) (hsince : since ≤ now)
  (hnow : now < since + b.config.resetTimeoutMs.toNat)
include hopen hsince hnow

theorem refresh_of_openedSince : b.refresh now = b := by
  obtain he | ⟨-, hdue, -⟩ := refresh_cases b now
  · exact he
  · simp only [openedSince, Bool.and_eq_true, Option.any_eq_true, decide_eq_true_eq] at hopen
    obtain ⟨-, opened, hopened, hle⟩ := hopen
    have := hdue opened hopened
    omega

theorem request_of_openedSince :
    b.request now = (b, .error (.circuitOpen b.key (b.retryIn now))) := by
  have hc : b.circuit = .tripped := by
    simp only [openedSince, Bool.and_eq_true, decide_eq_true_eq] at hopen
    exact hopen.1
  unfold request
  rw [refresh_of_openedSince hopen hsince hnow]
  simp only [hc]

end

section
variable (hsince : since ≤ now) (hnow : now < since + b.config.resetTimeoutMs.toNat)
include hsince hnow

theorem allowance_refresh_le : (b.refresh now).allowance since ≤ b.allowance since := by
  obtain he | ⟨hc, -, he⟩ := refresh_cases b now
  · exact Nat.le_of_eq (by rw [he])
  · cases hopen : b.openedSince since with
    | true => exact Nat.le_of_eq (by rw [refresh_of_openedSince hopen hsince hnow])
    | false =>
      have hone : b.allowance since = 1 := by simp [allowance, hopen, hc]
      have hle := allowance_le (b.refresh now) since
      rw [he, if_neg nofun] at hle
      rw [he, hone]
      exact hle

/-- A breaker that turns a call away has no larger allowance than before. -/
theorem allowance_request_le {f : Failure} (h : (b.request now).2 = .error f) :
    (b.request now).1.allowance since ≤ b.allowance since := by
  obtain ⟨g, he⟩ | ⟨-, he⟩ | ⟨-, -, he⟩ := request_cases b now <;> rw [he] at h ⊢
  · exact allowance_refresh_le hsince hnow
  · cases h
  · cases h

/-- A call that was let through and failed has used up one of the allowance. -/
theorem allowance_settle_failure {a : Admission} (h : (b.request now).2 = .ok a)
    (hlimit : b.circuit = .closed → b.failures < b.failureLimit) {later : Nat}
    (hlater : since ≤ later) :
    ((b.request now).1.settle later a .failure).allowance since + 1 ≤ b.allowance since := by
  obtain ⟨f, he⟩ | ⟨hc, he⟩ | ⟨hc, -, he⟩ := request_cases b now <;> rw [he] at h ⊢
  · cases h
  · -- an ordinary call through a closed circuit: its failure counts, and may open the circuit
    cases h
    have hclosed : b.circuit = .closed := (circuit_refresh_closed b now).1 hc
    have hbelow := hlimit hclosed
    have hhave : b.allowance since = b.failureLimit - b.failures := by
      simp [allowance, openedSince, hclosed]
    rw [refresh_of_circuit_closed hclosed, hhave]
    rcases settle_ordinary_failure hclosed hbelow later with ⟨-, heq⟩ | heq
    · have hle := allowance_le { b with failures := b.failures + 1 } since
      rw [if_pos hclosed] at hle
      rw [heq]
      simp only [Breaker.failureLimit] at hle hbelow ⊢
      omega
    · rw [heq, allowance_of_openedSince (openedSince_trip _ hlater)]
      omega
  · -- a probe: its failure opens the circuit again
    cases h
    have hclosed : b.circuit ≠ .closed := fun h => by
      rw [(circuit_refresh_closed b now).2 h] at hc
      cases hc
    have hopen : b.openedSince since = false := by
      rw [← Bool.not_eq_true]
      intro hopen
      rw [refresh_of_openedSince hopen hsince hnow] at hc
      simp [openedSince, hc] at hopen
    have hhave : b.allowance since = 1 := by simp [allowance, hopen, hclosed]
    have hspent : ({ b.refresh now with probes := (b.refresh now).probes + 1 }.settle later
        ⟨true, (b.refresh now).epoch⟩ .failure).openedSince since = true :=
      openedSince_probe_failure hc hlater
    exact Nat.le_of_eq (by rw [hhave, allowance_of_openedSince hspent])

end

end TurnEngine.Breaker
