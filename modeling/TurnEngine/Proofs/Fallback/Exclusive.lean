import TurnEngine.Proofs.Breaker.Allowance
import TurnEngine.Proofs.Fallback.Tries

/-!
# Calls of a run that has the breakers to itself

`World.Exclusive` says that nobody but the run uses the breakers, and `Within` that a moment of the
run comes before a reset timeout is over. What a call does to the breakers then: it leaves those of
the other providers alone (`Try.Made.breaker_other`), and takes from the allowance of its own one
if it failed (`Try.Made.spends`). Once the circuit has opened it is turned away
(`Try.Made.of_opened`).
-/

namespace TurnEngine.Fallback

open Breaker (Registry)

variable {σ α : Type} {c : Chain} {w : World σ α} {config : Breaker.Config} {era start : Nat}

/-- Nobody but the run uses the breakers, and the clock does not run backwards. -/
structure World.Exclusive (w : World σ α) : Prop where
  breakers_setBreakers : ∀ r s, w.breakers (w.setBreakers r s) = r
  breakers_work : ∀ m s, w.breakers (w.work m s).2 = w.breakers s
  breakers_sleep : ∀ ms s, w.breakers (w.sleep ms s).2 = w.breakers s
  now_setBreakers : ∀ r s, w.now (w.setBreakers r s) = w.now s
  now_work : ∀ m s, w.now s ≤ w.now (w.work m s).2
  now_sleep : ∀ ms s, w.now s ≤ w.now (w.sleep ms s).2

/-- The breaker of a provider. -/
def World.breaker (w : World σ α) (s : σ) (provider : String) : Breaker :=
  (w.breakers s).get provider

/-- A moment of a run that began at `start`, before a reset timeout is over and in the same era of
the breakers. -/
structure Within (w : World σ α) (config : Breaker.Config) (era start : Nat) (s : σ) : Prop where
  era : (w.breakers s).era = era
  tame : (w.breakers s).Tame config
  begun : start ≤ w.now s
  early : w.now s < start + config.resetTimeoutMs.toNat

namespace Within

variable {s : σ} (h : Within w config era start s)
include h

theorem config_eq (provider : String) : (w.breaker s provider).config = config :=
  (h.tame.breakers provider).config

theorem wait {s' : σ} (hbreakers : w.breakers s' = w.breakers s) (hnow : w.now s ≤ w.now s')
    (hend : w.now s' < start + config.resetTimeoutMs.toNat) : Within w config era start s' := by
  have hbegun := h.begun
  refine ⟨?_, ?_, by omega, hend⟩ <;> rw [hbreakers]
  · exact h.era
  · exact h.tame

/-- A breaker of the era is the present one of its key. -/
theorem ref_eq (provider : String) : ⟨provider, era⟩ = (w.breakers s).ref provider :=
  congrArg (Breaker.Ref.mk provider) h.era.symm

theorem early_for (provider : String) :
    w.now s < start + (w.breaker s provider).config.resetTimeoutMs.toNat := by
  rw [h.config_eq]
  exact h.early

end Within

/-! ## One call -/

namespace Try

/-- It failed, and not by cancellation. -/
def Failed (t : Try σ α) : Prop :=
  ∃ f, t.result = .back (.error f) ∧ f.isCancelled = false

/-- It was turned away because the circuit of a provider was open. -/
def FoundOpen (provider : String) (t : Try σ α) : Prop :=
  t.invoked = false ∧ ∃ ms, t.result = .back (.error (.circuitOpen provider ms))

/-- Such a call leaves one entry, about the circuit. -/
theorem FoundOpen.entries {provider : String} {t : Try σ α} (h : t.FoundOpen provider)
    (w : World σ α) (name : String) : ∃ retry ms,
      t.entries w name = [.failed name (Failure.circuitOpen provider retry).message ms] := by
  obtain ⟨-, retry, hresult⟩ := h
  refine ⟨retry, Chain.since w (w.now t.before) t.after, ?_⟩
  simp [Try.entries, hresult, Failure.isCancelled]

theorem Worthy.failed {t : Try σ α} {reason : Reason} (h : t.Worthy c reason) : t.Failed := by
  obtain ⟨f, hresult, hcancelled, -⟩ := h
  exact ⟨f, hresult, hcancelled⟩

theorem Rejected.failed {t : Try σ α} (h : t.Rejected) : t.Failed := by
  obtain ⟨f, hresult, hrejection⟩ := h
  refine ⟨f, hresult, ?_⟩
  cases f <;> first | rfl | cases hrejection

/-- What its breaker is told about the call. -/
def outcome (t : Try σ α) : Breaker.Outcome :=
  match t.result with
  | .dropped => .dropped
  | .back result => Breaker.Outcome.ofResult result

theorem Failed.outcome {t : Try σ α} (h : t.Failed) : t.outcome = .failure := by
  obtain ⟨f, hresult, hcancelled⟩ := h
  simp [Try.outcome, hresult, Breaker.Outcome.ofResult, hcancelled]

/-- The call was turned away by its breaker. -/
structure Refused (w : World σ α) (held : Breaker.Ref) (t : Try σ α) (f : Failure) : Prop where
  invoked : t.invoked = false
  answer : (((w.breakers t.before).lookup held).request (w.now t.before)).2 = .error f
  result : t.result = .back (.error f)
  now : w.now t.after = w.now t.before
  breakers : w.breakers t.after = ((w.breakers t.before).requestAt (w.now t.before) held).1

/-- The call was let through by its breaker, which was told how it ended. -/
structure Admitted (w : World σ α) (held : Breaker.Ref) (t : Try σ α) (a : Breaker.Admission) :
    Prop where
  invoked : t.invoked = true
  answer : (((w.breakers t.before).lookup held).request (w.now t.before)).2 = .ok a
  now : w.now t.before ≤ w.now t.after
  breakers : w.breakers t.after =
    ((w.breakers t.before).requestAt (w.now t.before) held).1.settle (w.now t.after)
      ⟨held.key, held.era, a⟩ t.outcome

variable {t : Try σ α} {m : Model} {held : Breaker.Ref}

theorem Made.cases (h : t.Made w m held) (hw : w.Exclusive) :
    (∃ f, t.Refused w held f) ∨ ∃ a, t.Admitted w held a := by
  unfold Made Chain.callThrough at h
  cases hanswer : (((w.breakers t.before).lookup held).request (w.now t.before)).2 with
  | error f =>
    rw [Registry.requestAt_of_error _ _ _ hanswer, Prod.mk.injEq, Prod.mk.injEq] at h
    obtain ⟨hinvoked, hresult, hafter⟩ := h
    refine .inl ⟨f, by simpa using hinvoked, hanswer, hresult.symm, ?_, ?_⟩
    · rw [← hafter, hw.now_setBreakers]
    · rw [← hafter, hw.breakers_setBreakers]
  | ok a =>
    rw [Registry.requestAt_of_ok _ _ _ hanswer] at h
    simp only [Prod.mk.injEq, hw.breakers_work, hw.breakers_setBreakers] at h
    obtain ⟨hinvoked, hresult, hafter⟩ := h
    -- the clock moves while the work is done, and only then
    let asked := ((w.breakers t.before).requestAt (w.now t.before) held).1
    have hnow := hw.now_work m (w.setBreakers asked t.before)
    have hend : w.now t.after = w.now (w.work m (w.setBreakers asked t.before)).2 := by
      rw [← hafter, hw.now_setBreakers]
    rw [hw.now_setBreakers, ← hend] at hnow
    refine .inr ⟨a, by simpa using hinvoked, hanswer, hnow, ?_⟩
    rw [hend, Try.outcome, ← hresult]
    exact (congrArg w.breakers hafter.symm).trans (hw.breakers_setBreakers _ _)

theorem Made.now_le (h : t.Made w m held) (hw : w.Exclusive) : w.now t.before ≤ w.now t.after := by
  obtain ⟨f, hrefused⟩ | ⟨a, hadmitted⟩ := h.cases hw
  · exact Nat.le_of_eq hrefused.now.symm
  · exact hadmitted.now

/-- A call leaves the other providers alone. -/
theorem Made.breaker_other (h : t.Made w m held) (hw : w.Exclusive) {provider : String}
    (hp : provider ≠ held.key) : w.breaker t.after provider = w.breaker t.before provider := by
  have hrequest := Registry.get_requestAt_of_ne (w.breakers t.before) (w.now t.before) provider
    held hp
  obtain ⟨f, hrefused⟩ | ⟨a, hadmitted⟩ := h.cases hw
  · rw [World.breaker, hrefused.breakers]
    exact hrequest
  · rw [World.breaker, hadmitted.breakers, Registry.get_settle_of_ne _ _ _ hp]
    exact hrequest

section
variable (hs : Within w config era start t.before)
include hs

theorem Refused.answer_of_within {f : Failure} (h : t.Refused w ⟨m.provider, era⟩ f) :
    ((w.breaker t.before m.provider).request (w.now t.before)).2 = .error f := by
  have hanswer := h.answer
  rwa [hs.ref_eq, Registry.lookup_ref] at hanswer

theorem Refused.breaker {f : Failure} (h : t.Refused w ⟨m.provider, era⟩ f) :
    w.breaker t.after m.provider =
      ((w.breaker t.before m.provider).request (w.now t.before)).1 := by
  have hrequest := Registry.get_request (w.breakers t.before) (w.now t.before) m.provider m.provider
  rw [World.breaker, h.breakers, hs.ref_eq]
  exact hrequest.trans (if_pos rfl)

theorem Admitted.answer_of_within {a : Breaker.Admission}
    (h : t.Admitted w ⟨m.provider, era⟩ a) :
    ((w.breaker t.before m.provider).request (w.now t.before)).2 = .ok a := by
  have hanswer := h.answer
  rwa [hs.ref_eq, Registry.lookup_ref] at hanswer

theorem Admitted.breaker {a : Breaker.Admission} (h : t.Admitted w ⟨m.provider, era⟩ a) :
    w.breaker t.after m.provider =
      ((w.breaker t.before m.provider).request (w.now t.before)).1.settle (w.now t.after) a
        t.outcome := by
  have hsettle := Registry.get_settle_request (w.breakers t.before) (w.now t.before) m.provider
    m.provider (w.now t.after) a t.outcome
  rw [World.breaker, h.breakers, hs.ref_eq]
  exact hsettle.trans (if_pos rfl)

end

section
variable (h : t.Made w m ⟨m.provider, era⟩) (hw : w.Exclusive)
  (hs : Within w config era start t.before)
include h hw hs

theorem Made.within (hend : w.now t.after < start + config.resetTimeoutMs.toNat) :
    Within w config era start t.after := by
  have hbegun := hs.begun
  have hnow := h.now_le hw
  obtain ⟨f, hrefused⟩ | ⟨a, hadmitted⟩ := h.cases hw
  · have hbreakers := hrefused.breakers
    refine ⟨?_, ?_, by omega, hend⟩ <;> rw [hbreakers]
    · rw [Registry.era_requestAt, hs.era]
    · rw [hs.ref_eq]
      exact hs.tame.request _ _
  · have hbreakers := hadmitted.breakers
    refine ⟨?_, ?_, by omega, hend⟩ <;> rw [hbreakers]
    · rw [Registry.era_settle, Registry.era_requestAt, hs.era]
    · rw [hs.ref_eq]
      exact (hs.tame.request _ _).settle _ _ _

/-- A call that failed takes from the allowance of its provider, if the work was invoked. -/
theorem Made.spends (hfailed : t.Failed) :
    (if t.invoked then 1 else 0) + (w.breaker t.after m.provider).allowance start ≤
      (w.breaker t.before m.provider).allowance start := by
  have hearly := hs.early_for m.provider
  obtain ⟨f, hrefused⟩ | ⟨a, hadmitted⟩ := h.cases hw
  · have hle := Breaker.allowance_request_le hs.begun hearly (hrefused.answer_of_within hs)
    rw [hrefused.invoked, hrefused.breaker hs]
    simpa using hle
  · have hlater := Nat.le_trans hs.begun hadmitted.now
    have hle := Breaker.allowance_settle_failure hs.begun hearly (hadmitted.answer_of_within hs)
      (hs.tame.breakers m.provider).failures hlater
    rw [hadmitted.invoked, hadmitted.breaker hs, hfailed.outcome, Nat.add_comm]
    exact hle

/-- The work is invoked only if there is some allowance left. -/
theorem Made.allowance_pos (hinvoked : t.invoked = true) :
    1 ≤ (w.breaker t.before m.provider).allowance start := by
  obtain ⟨f, hrefused⟩ | ⟨a, hadmitted⟩ := h.cases hw
  · rw [hrefused.invoked] at hinvoked
    cases hinvoked
  · have hle := Breaker.allowance_settle_failure hs.begun (hs.early_for m.provider)
      (hadmitted.answer_of_within hs) (hs.tame.breakers m.provider).failures hs.begun
    omega

/-- While the circuit is open every call is turned away, and nothing changes. -/
theorem Made.of_opened (hopen : (w.breaker t.before m.provider).openedSince start = true) :
    t.FoundOpen m.provider ∧
      w.breaker t.after m.provider = w.breaker t.before m.provider := by
  have hrequest := Breaker.request_of_openedSince hopen hs.begun (hs.early_for m.provider)
  have hkey : (w.breaker t.before m.provider).key = m.provider :=
    (hs.tame.breakers m.provider).key
  obtain ⟨f, hrefused⟩ | ⟨a, hadmitted⟩ := h.cases hw
  · have hanswer := hrefused.answer_of_within hs
    rw [hrequest] at hanswer
    cases hanswer
    refine ⟨⟨hrefused.invoked, _, hkey ▸ hrefused.result⟩, ?_⟩
    rw [hrefused.breaker hs, hrequest]
  · have hanswer := hadmitted.answer_of_within hs
    rw [hrequest] at hanswer
    cases hanswer

end

end Try

end TurnEngine.Fallback
