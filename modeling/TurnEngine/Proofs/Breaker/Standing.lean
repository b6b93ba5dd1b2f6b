import TurnEngine.Breaker.Basic
import TurnEngine.Proofs.Keyed

/-!
# Breakers and the calls in flight

`Standing b now calls` relates a breaker to the calls that it let through and that have not ended.
It says what the counters of each circuit stand for; most of all, the probe count of a half-open
circuit is the number of probes in flight that carry its epoch. A closed circuit owes nothing to
the calls in flight: probes that outlive the success of another one find no count to take from.

Each operation of a breaker keeps it (`Standing.refresh`, `Standing.grant`, `Standing.settle`,
`Standing.reset`). A call ends in two steps: its probe place is given back
(`Standing.release`), then the outcome counts if it is current.
-/

namespace TurnEngine.Breaker

/-- A call that was let through and has not ended. -/
structure Call where
  number : Nat
  admission : Admission
  deriving DecidableEq, Repr

/-- Whether a call is a probe of some epoch. -/
def Call.isProbeOf (c : Call) (epoch : Nat) : Bool :=
  c.admission.probe && epoch = c.admission.epoch

/-- The failures in a row that open the circuit: at least one. -/
def failureLimit (b : Breaker) : Nat :=
  max 1 b.config.failureThreshold.toNat

/-- What holds of a closed circuit. -/
structure ClosedFacts (b : Breaker) : Prop where
  openedAt : b.openedAt = none
  probes : b.probes = 0
  failures : b.failures < b.failureLimit

/-- What holds of an open circuit. -/
structure TrippedFacts (b : Breaker) (now : Nat) (calls : List Call) : Prop where
  openedAt : ∃ t ≤ now, b.openedAt = some t
  failures : b.failureLimit ≤ b.failures
  calls : ∀ c ∈ calls, c.admission.epoch ≠ b.epoch

/-- What holds of a half-open circuit. -/
structure HalfOpenFacts (b : Breaker) (now : Nat) (calls : List Call) : Prop where
  openedAt : ∃ t, b.openedAt = some t ∧ t + b.config.resetTimeoutMs.toNat ≤ now
  failures : b.failureLimit ≤ b.failures
  probes : b.probes = calls.countP (·.isProbeOf b.epoch)
  limit : b.probes ≤ b.probeLimit.toNat
  calls : ∀ c ∈ calls, c.admission.epoch = b.epoch → c.admission.probe = true

/-- What holds of a breaker in a circuit. -/
def FactsOf (b : Breaker) (now : Nat) (calls : List Call) : Circuit → Prop
  | .closed => ClosedFacts b
  | .tripped => TrippedFacts b now calls
  | .halfOpen => HalfOpenFacts b now calls

/-- What holds of a breaker, the time and the calls in flight (module doc). -/
structure Standing (b : Breaker) (now : Nat) (calls : List Call) : Prop where
  past : ∀ c ∈ calls, c.admission.epoch ≤ b.epoch
  facts : FactsOf b now calls b.circuit

variable {b : Breaker} {now : Nat} {calls : List Call}

theorem Standing.factsOf (h : Standing b now calls) {circuit : Circuit}
    (hc : b.circuit = circuit) : FactsOf b now calls circuit :=
  hc ▸ h.facts

theorem toNat_probeLimit (b : Breaker) :
    b.probeLimit.toNat = max 1 b.config.halfOpenMaxProbes.toNat := by
  unfold probeLimit
  rw [show (max 1 b.config.halfOpenMaxProbes : UInt32)
    = if 1 ≤ b.config.halfOpenMaxProbes then b.config.halfOpenMaxProbes else 1 from rfl]
  split
  · rename_i hle
    exact (Nat.max_eq_right (UInt32.le_iff_toNat_le.1 hle)).symm
  · rename_i hle
    exact (Nat.max_eq_left (Nat.le_of_not_le fun h => hle (UInt32.le_iff_toNat_le.2 h))).symm

theorem failureLimit_le (b : Breaker) : b.failureLimit ≤ maxFailures := by
  have := b.config.failureThreshold.toNat_lt
  unfold failureLimit maxFailures
  omega

/-! ## Time -/

theorem Standing.wait (h : Standing b now calls) (ms : Nat) : Standing b (now + ms) calls := by
  refine ⟨h.past, ?_⟩
  cases hc : b.circuit with
  | closed => exact h.factsOf hc
  | tripped =>
    have hb : TrippedFacts b now calls := h.factsOf hc
    obtain ⟨t, ht, hb'⟩ := hb.openedAt
    exact ⟨⟨t, Nat.le_add_right_of_le ht, hb'⟩, hb.failures, hb.calls⟩
  | halfOpen =>
    have hb : HalfOpenFacts b now calls := h.factsOf hc
    obtain ⟨t, hb', ht⟩ := hb.openedAt
    exact ⟨⟨t, hb', Nat.le_add_right_of_le ht⟩, hb.failures, hb.probes, hb.limit, hb.calls⟩

/-- A look at a breaker leaves it alone, or turns an open circuit half-open. -/
theorem refresh_cases (b : Breaker) (now : Nat) :
    b.refresh now = b ∨
      b.circuit = .tripped ∧
        (∀ t, b.openedAt = some t → b.config.resetTimeoutMs.toNat ≤ now - t) ∧
        b.refresh now = { b with circuit := .halfOpen, probes := 0 } := by
  unfold refresh
  split
  · rename_i hdue
    rw [Bool.and_eq_true, decide_eq_true_eq] at hdue
    refine .inr ⟨hdue.1, fun t ht => ?_, rfl⟩
    have := hdue.2
    rw [openFor, ht] at this
    exact of_decide_eq_true this
  · exact .inl rfl

theorem Standing.refresh (h : Standing b now calls) : Standing (b.refresh now) now calls := by
  obtain hb | ⟨hc, hdue, hb⟩ := refresh_cases b now
  · rw [hb]
    exact h
  · have hfacts : TrippedFacts b now calls := h.factsOf hc
    obtain ⟨t, ht, hopened⟩ := hfacts.openedAt
    have helapsed := hdue t hopened
    -- no call carries the epoch, so the new count of zero is right
    have hnone : calls.countP (·.isProbeOf b.epoch) = 0 := by
      refine List.countP_eq_zero.2 fun c hc => ?_
      simp [Call.isProbeOf, (hfacts.calls c hc).symm]
    rw [hb]
    exact ⟨h.past, ⟨t, hopened, by dsimp only; omega⟩, hfacts.failures, hnone.symm, Nat.zero_le _,
      fun c hc he => absurd he (hfacts.calls c hc)⟩

/-! ## Permissions -/

/-- What a breaker answers when it is asked for permission, and what becomes of it. -/
theorem request_cases (b : Breaker) (now : Nat) :
    (∃ f, b.request now = (b.refresh now, .error f)) ∨
      ((b.refresh now).circuit = .closed ∧
        b.request now = (b.refresh now, .ok ⟨false, (b.refresh now).epoch⟩)) ∨
      ((b.refresh now).circuit = .halfOpen ∧
        (b.refresh now).probes < (b.refresh now).probeLimit.toNat ∧
        b.request now =
          ({ b.refresh now with probes := (b.refresh now).probes + 1 },
            .ok ⟨true, (b.refresh now).epoch⟩)) := by
  unfold request
  dsimp only
  generalize b.refresh now = b'
  split
  · rename_i hc
    exact .inr (.inl ⟨hc, rfl⟩)
  · exact .inl ⟨_, rfl⟩
  · rename_i hc
    split
    · exact .inl ⟨_, rfl⟩
    · rename_i hroom
      exact .inr (.inr ⟨hc, Nat.lt_of_not_le hroom, rfl⟩)

theorem Standing.refused (h : Standing b now calls) {f : Failure}
    (hr : (b.request now).2 = .error f) : Standing (b.request now).1 now calls := by
  obtain ⟨g, he⟩ | ⟨-, he⟩ | ⟨-, -, he⟩ := request_cases b now <;> rw [he] at hr ⊢
  · exact h.refresh
  · cases hr
  · cases hr

theorem past_append (h : Standing b now calls) (number : Nat) (probe : Bool) :
    ∀ c ∈ calls ++ [⟨number, ⟨probe, b.epoch⟩⟩], c.admission.epoch ≤ b.epoch := by
  intro c hmem
  rcases List.mem_append.1 hmem with hmem | hmem
  · exact h.past c hmem
  · cases List.mem_singleton.1 hmem
    exact Nat.le_refl _

/-- A call that is let through is in flight from then on. -/
theorem Standing.grant (h : Standing b now calls) {a : Admission}
    (hr : (b.request now).2 = .ok a) (number : Nat) :
    Standing (b.request now).1 now (calls ++ [⟨number, a⟩]) := by
  have hb := h.refresh
  obtain ⟨f, he⟩ | ⟨hc, he⟩ | ⟨hc, hroom, he⟩ := request_cases b now <;> rw [he] at hr ⊢
  · cases hr
  · cases hr
    have hclosed : ClosedFacts (b.refresh now) := hb.factsOf hc
    refine ⟨past_append hb number false, ?_⟩
    dsimp only
    rw [hc]
    exact hclosed
  · cases hr
    have hhalf : HalfOpenFacts (b.refresh now) now calls := hb.factsOf hc
    refine ⟨past_append hb number true, ?_⟩
    dsimp only
    rw [hc]
    refine ⟨hhalf.openedAt, hhalf.failures, ?_, hroom, fun c hmem heq => ?_⟩
    · dsimp only
      rw [List.countP_append, hhalf.probes]
      simp [Call.isProbeOf]
    · rcases List.mem_append.1 hmem with hmem | hmem
      · exact hhalf.calls c hmem heq
      · cases List.mem_singleton.1 hmem
        rfl

/-! ## Ends of calls -/

/-- Giving a probe place back changes the probe count at most. -/
theorem releaseProbe_eq (b : Breaker) (a : Admission) :
    b.releaseProbe a =
      { b with probes := if a.probe && b.epoch = a.epoch then b.probes - 1 else b.probes } := by
  unfold releaseProbe
  split <;> rfl

/-- A call leaves, and gives its probe place back. -/
theorem Standing.release (h : Standing b now calls) (hn : (calls.map (·.number)).Nodup) {c : Call}
    (hc : c ∈ calls) :
    Standing (b.releaseProbe c.admission) now (calls.filter fun d => d.number ≠ c.number) := by
  have hsub : ∀ d ∈ calls.filter fun d => d.number ≠ c.number, d ∈ calls :=
    fun d hd => List.mem_of_mem_filter hd
  have hcount := Keyed.countP_remove hn hc (·.isProbeOf b.epoch)
  rw [releaseProbe_eq]
  refine ⟨fun d hd => h.past d (hsub d hd), ?_⟩
  dsimp only
  cases hcircuit : b.circuit with
  | closed =>
    have hb : ClosedFacts b := h.factsOf hcircuit
    refine ⟨hb.openedAt, ?_, hb.failures⟩
    -- the call may be a probe of this epoch, but the count is zero and stays there
    dsimp only
    rw [hb.probes]
    exact ite_self 0
  | tripped =>
    have hb : TrippedFacts b now calls := h.factsOf hcircuit
    exact ⟨hb.openedAt, hb.failures, fun d hd => hb.calls d (hsub d hd)⟩
  | halfOpen =>
    have hb : HalfOpenFacts b now calls := h.factsOf hcircuit
    have hprobes : (if c.admission.probe && b.epoch = c.admission.epoch then b.probes - 1
        else b.probes) =
          (calls.filter fun d => d.number ≠ c.number).countP (·.isProbeOf b.epoch) := by
      rw [hb.probes, ← hcount, Call.isProbeOf]
      split <;> omega
    refine ⟨hb.openedAt, hb.failures, hprobes, ?_, fun d hd => hb.calls d (hsub d hd)⟩
    dsimp only
    have := hb.limit
    rw [probeLimit] at this ⊢
    dsimp only
    split <;> omega

/-- The failures in a row after one more. -/
def nextFailures (b : Breaker) : Nat :=
  min (b.failures + 1) maxFailures

/-- The breaker after a success that counts. -/
def close (b : Breaker) : Breaker :=
  { b with circuit := .closed, failures := 0, openedAt := none, probes := 0 }

/-- All that the end of a call can do once its probe place is given back: nothing unless it is a
current success or failure, close the circuit, count a failure, or open the circuit. -/
theorem settle_cases (b : Breaker) (now : Nat) (a : Admission) (o : Outcome) :
    let b' := b.releaseProbe a
    ((o = .cancelled ∨ o = .dropped ∨ b'.isCurrent a = false) ∧ b.settle now a o = b') ∨
      b'.isCurrent a = true ∧
        (o = .success ∧ b.settle now a o = b'.close ∨
          o = .failure ∧
            (b'.circuit = .closed ∧ b'.nextFailures < b'.failureLimit ∧
                b.settle now a o = { b' with failures := b'.nextFailures } ∨
              b'.circuit = .closed ∧ b'.failureLimit ≤ b'.nextFailures ∧
                b.settle now a o = { b' with failures := b'.nextFailures }.trip now ∨
              b'.circuit = .halfOpen ∧
                b.settle now a o =
                  { b' with failures := b'.nextFailures, probes := 0 }.trip now)) := by
  dsimp only
  cases o with
  | cancelled => exact .inl ⟨.inl rfl, rfl⟩
  | dropped => exact .inl ⟨.inr (.inl rfl), rfl⟩
  | success =>
    unfold settle recordSuccess
    dsimp only
    generalize b.releaseProbe a = b'
    split
    · rename_i hcurrent
      exact .inr ⟨hcurrent, .inl ⟨rfl, rfl⟩⟩
    · rename_i hstale
      exact .inl ⟨.inr (.inr (Bool.eq_false_iff.2 hstale)), rfl⟩
  | failure =>
    unfold settle recordFailure
    dsimp only
    generalize b.releaseProbe a = b'
    split
    · rename_i hcurrent
      refine .inr ⟨hcurrent, .inr ⟨rfl, ?_⟩⟩
      have hpos : 1 ≤ b'.nextFailures := Nat.le_min.2 ⟨Nat.le_add_left .., by decide⟩
      split
      · rename_i hc
        exact .inr (.inr ⟨hc, rfl⟩)
      · rename_i hc
        split
        · rename_i hreached
          exact .inr (.inl ⟨hc, Nat.max_le.2 ⟨hpos, hreached⟩, rfl⟩)
        · rename_i hbelow
          exact .inl ⟨hc, Nat.lt_of_lt_of_le (Nat.lt_of_not_le hbelow) (Nat.le_max_right ..), rfl⟩
      · rename_i hc
        rw [isCurrent, hc, Bool.and_false] at hcurrent
        cases hcurrent
    · rename_i hstale
      exact .inl ⟨.inr (.inr (Bool.eq_false_iff.2 hstale)), rfl⟩

/-- A fresh circuit owes nothing to the calls in flight. -/
theorem standing_closed (hpast : ∀ c ∈ calls, c.admission.epoch ≤ b.epoch)
    (hc : b.circuit = .closed) (hopened : b.openedAt = none) (hprobes : b.probes = 0)
    (hfailures : b.failures < b.failureLimit) : Standing b now calls := by
  refine ⟨hpast, ?_⟩
  rw [hc]
  exact ⟨hopened, hprobes, hfailures⟩

theorem failureLimit_pos (b : Breaker) : 0 < b.failureLimit :=
  Nat.lt_of_lt_of_le Nat.zero_lt_one (Nat.le_max_left ..)

/-- An opening leaves all calls in flight in earlier epochs. -/
theorem standing_trip (hpast : ∀ c ∈ calls, c.admission.epoch ≤ b.epoch)
    (hfailures : b.failureLimit ≤ b.failures) : Standing (b.trip now) now calls := by
  refine ⟨fun c hc => Nat.le_succ_of_le (hpast c hc), ⟨now, Nat.le_refl _, rfl⟩, hfailures, ?_⟩
  intro c hc he
  have := hpast c hc
  rw [he] at this
  exact absurd this (Nat.not_succ_le_self _)

/-- A call ends. -/
theorem Standing.settle (h : Standing b now calls) (hn : (calls.map (·.number)).Nodup) {c : Call}
    (hc : c ∈ calls) (o : Outcome) :
    Standing (b.settle now c.admission o) now (calls.filter fun d => d.number ≠ c.number) := by
  have hb := h.release hn hc
  obtain ⟨-, he⟩ | ⟨-, ⟨-, he⟩ | ⟨-, hfailed⟩⟩ := settle_cases b now c.admission o
  · rw [he]
    exact hb
  · rw [he]
    exact standing_closed hb.past rfl rfl rfl (failureLimit_pos _)
  · obtain ⟨hcircuit, hbelow, he⟩ | ⟨-, hreached, he⟩ | ⟨hcircuit, he⟩ := hfailed
    · have hclosed : ClosedFacts (b.releaseProbe c.admission) := hb.factsOf hcircuit
      rw [he]
      exact standing_closed hb.past hcircuit hclosed.openedAt hclosed.probes hbelow
    · rw [he]
      exact standing_trip hb.past hreached
    · have hhalf : HalfOpenFacts (b.releaseProbe c.admission) now _ := hb.factsOf hcircuit
      have hreached : (b.releaseProbe c.admission).failureLimit
          ≤ (b.releaseProbe c.admission).nextFailures :=
        Nat.le_min.2 ⟨Nat.le_succ_of_le hhalf.failures, failureLimit_le _⟩
      rw [he]
      exact standing_trip hb.past hreached

theorem Standing.reset (h : Standing b now calls) : Standing b.reset now calls :=
  standing_closed (fun c hc => Nat.le_succ_of_le (h.past c hc)) rfl rfl rfl (failureLimit_pos _)

end TurnEngine.Breaker
