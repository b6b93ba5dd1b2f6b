import TurnEngine.Proofs.Breaker.Keys
import TurnEngine.Proofs.Breaker.Window

/-!
# What an open circuit promises

A call that an open circuit turns away is told how long to wait. This is a promise: every call
that comes too early is told the rest of the same time, the first one that comes in time is let
through as a probe, and until then whoever looks sees an open circuit before that moment and a
half-open one from it on. Nothing but a reset breaks it, whatever becomes of the calls in flight
(`waiting_time_kept`).

The invariant that carries it is `Traffic.Awaiting`: the circuit is open, or half-open without a
probe because somebody looked, and no call in flight carries the epoch of the breaker.
-/

namespace TurnEngine.Breaker.Traffic

/-- The moments at which calls are made in a run. -/
def callTimes (t : Traffic) : List Op → List Nat
  | [] => []
  | op :: ops =>
    let rest := callTimes (t.apply op).1 ops
    if op = .call then t.now :: rest else rest

/-- A breaker that waits for a moment to let the next call through, its circuit open until then
(module doc). -/
structure Awaiting (key : String) (due : Nat) (t : Traffic) : Prop where
  key : t.breaker.key = key
  opened : ∃ opened ≤ t.now, t.breaker.openedAt = some opened ∧
    opened + t.breaker.config.resetTimeoutMs.toNat = due
  circuit : t.breaker.circuit = .tripped ∨
    t.breaker.circuit = .halfOpen ∧ t.breaker.probes = 0 ∧ due ≤ t.now
  strangers : ∀ c ∈ t.calls, c.admission.epoch ≠ t.breaker.epoch

variable {t : Traffic} {key : String} {due : Nat}

/-! ## Before the moment -/

theorem Awaiting.circuit_of_lt (h : Awaiting key due t) (hlt : t.now < due) :
    t.breaker.circuit = .tripped := by
  obtain hc | ⟨-, -, hle⟩ := h.circuit
  · exact hc
  · omega

theorem Awaiting.refresh_of_lt (h : Awaiting key due t) (hlt : t.now < due) :
    t.breaker.refresh t.now = t.breaker := by
  obtain hsame | ⟨-, hover, -⟩ := refresh_cases t.breaker t.now
  · exact hsame
  · obtain ⟨opened, hle, hopened, hdue⟩ := h.opened
    have := hover opened hopened
    omega

/-- A call that comes too early is told the rest of the time, and leaves nothing behind. -/
theorem Awaiting.call_of_lt (h : Awaiting key due t) (hlt : t.now < due) :
    t.apply .call = (t, .refused (.circuitOpen key (due - t.now))) := by
  obtain ⟨opened, hle, hopened, hdue⟩ := h.opened
  have hrest : t.breaker.retryIn t.now = due - t.now := by
    simp only [retryIn, openFor, hopened, Option.map_some]
    omega
  have hrequest : t.breaker.request t.now =
      (t.breaker, .error (.circuitOpen key (due - t.now))) := by
    simp [request, h.refresh_of_lt hlt, h.circuit_of_lt hlt, h.key, hrest]
  rw [apply_call_error hrequest, become_self]

theorem Awaiting.observe_of_lt (h : Awaiting key due t) (hlt : t.now < due) :
    t.apply .observe = (t, .circuit .tripped) := by
  simp [Traffic.apply, observe, h.refresh_of_lt hlt, h.circuit_of_lt hlt, become_self]

/-! ## From the moment on -/

/-- Whether somebody looked before or not, a look finds a half-open circuit without probes. -/
theorem Awaiting.refresh_of_le (h : Awaiting key due t) (hle : due ≤ t.now) :
    t.breaker.refresh t.now = { t.breaker with circuit := .halfOpen, probes := 0 } := by
  obtain ⟨opened, -, hopened, hdue⟩ := h.opened
  have helapsed : t.breaker.config.resetTimeoutMs.toNat ≤ t.now - opened := by omega
  obtain hc | ⟨hc, hprobes, -⟩ := h.circuit
  · simp [refresh, openFor, hc, hopened, helapsed]
  · rw [refresh_of_circuit_halfOpen hc, ← hc, ← hprobes]

theorem Awaiting.call_of_le (h : Awaiting key due t) (hle : due ≤ t.now) :
    (t.apply .call).2 = .admitted ⟨true, t.breaker.epoch⟩ ∧
      (t.apply .call).1.calls = t.calls ++ [⟨t.nextCall, ⟨true, t.breaker.epoch⟩⟩] := by
  have hlook := h.refresh_of_le hle
  have hroom : ¬ (t.breaker.refresh t.now).probeLimit.toNat ≤ 0 := by
    rw [toNat_probeLimit]
    omega
  have hcircuit : (t.breaker.refresh t.now).circuit = .halfOpen := by rw [hlook]
  have hrequest := request_of_circuit_halfOpen hcircuit
  dsimp only at hrequest
  have hprobes : (t.breaker.refresh t.now).probes = 0 := by rw [hlook]
  have hepoch : (t.breaker.refresh t.now).epoch = t.breaker.epoch := by rw [hlook]
  rw [hprobes, if_neg hroom, hepoch] at hrequest
  rw [apply_call_ok hrequest]
  exact ⟨rfl, rfl⟩

theorem Awaiting.observe_of_le (h : Awaiting key due t) (hle : due ≤ t.now) :
    (t.apply .observe).2 = .circuit .halfOpen := by
  simp [Traffic.apply, observe, h.refresh_of_le hle]

/-! ## What keeps a breaker waiting -/

theorem Awaiting.wait (h : Awaiting key due t) (ms : Nat) :
    Awaiting key due { t with now := t.now + ms } := by
  obtain ⟨opened, hle, hopened, hdue⟩ := h.opened
  refine ⟨h.key, ⟨opened, by dsimp only; omega, hopened, hdue⟩, ?_, h.strangers⟩
  obtain hc | ⟨hc, hprobes, hpast⟩ := h.circuit
  · exact .inl hc
  · exact .inr ⟨hc, hprobes, by dsimp only; omega⟩

/-- A call in flight carries another epoch, so its end leaves the breaker as it is. -/
theorem Awaiting.finish (h : Awaiting key due t) (n : Nat) (o : Outcome) :
    Awaiting key due (t.apply (.finish n o)).1 := by
  cases hn : t.call? n with
  | none =>
    rw [apply_finish_none hn]
    exact h
  | some c =>
    have hc := h.strangers c (mem_of_call? hn).1
    rw [apply_finish hn, settle_of_epoch_ne hc, become_self]
    exact ⟨h.key, h.opened, h.circuit, fun d hd => h.strangers d (List.mem_of_mem_filter hd)⟩

theorem Awaiting.observe (h : Awaiting key due t) : Awaiting key due (t.apply .observe).1 := by
  by_cases hlt : t.now < due
  · rw [h.observe_of_lt hlt]
    exact h
  · have hle : due ≤ t.now := by omega
    rw [apply_observe, h.refresh_of_le hle]
    exact ⟨h.key, h.opened, .inr ⟨rfl, rfl, hle⟩, h.strangers⟩

/-- What happens leaves a breaker waiting, but for a reset and a call that comes in time. -/
theorem Awaiting.apply (h : Awaiting key due t) {op : Op} (hreset : op ≠ .reset)
    (hcall : op = .call → t.now < due) : Awaiting key due (t.apply op).1 := by
  cases op with
  | wait ms => exact h.wait ms
  | call =>
    rw [h.call_of_lt (hcall rfl)]
    exact h
  | finish n o => exact h.finish n o
  | observe => exact h.observe
  | reset => exact absurd rfl hreset

theorem Awaiting.run (h : Awaiting key due t) {ops : List Op} (hreset : .reset ∉ ops)
    (hcalls : ∀ now ∈ t.callTimes ops, now < due) : Awaiting key due (t.run ops) := by
  induction ops generalizing t with
  | nil => exact h
  | cons op ops ih =>
    simp only [List.mem_cons, not_or] at hreset
    have hnow : op = .call → t.now < due := by
      intro hop
      exact hcalls t.now (by simp [callTimes, hop])
    refine ih (h.apply (Ne.symm hreset.1) hnow) hreset.2 fun now hmem => hcalls now ?_
    simp only [callTimes]
    split
    · exact List.mem_cons_of_mem _ hmem
    · exact hmem

/-! ## Time goes on -/

theorem now_apply (t : Traffic) (op : Op) : t.now ≤ (t.apply op).1.now := by
  cases op with
  | wait ms => exact Nat.le_add_right ..
  | call =>
    unfold Traffic.apply
    dsimp only
    split <;> exact Nat.le_refl _
  | finish n o =>
    unfold Traffic.apply
    dsimp only
    split <;> exact Nat.le_refl _
  | observe => exact Nat.le_refl _
  | reset => exact Nat.le_refl _

theorem now_run (t : Traffic) (ops : List Op) : t.now ≤ (t.run ops).now := by
  induction ops generalizing t with
  | nil => exact Nat.le_refl _
  | cons op ops ih => exact Nat.le_trans (now_apply t op) (ih (t.apply op).1)

/-- Calls are made before the end of a run. -/
theorem callTimes_le_now (t : Traffic) (ops : List Op) :
    ∀ now ∈ t.callTimes ops, now ≤ (t.run ops).now := by
  induction ops generalizing t with
  | nil => simp [callTimes]
  | cons op ops ih =>
    intro now hmem
    simp only [callTimes] at hmem
    split at hmem
    · rcases List.mem_cons.1 hmem with rfl | hmem
      · exact now_run t (op :: ops)
      · exact ih _ now hmem
    · exact ih _ now hmem

/-! ## The promise -/

theorem tame_apply {config : Config} (h : Tame config key t.breaker) (op : Op) :
    Tame config key (t.apply op).1.breaker := by
  cases op with
  | wait ms => exact h
  | call =>
    rw [breaker_call]
    exact h.request t.now
  | finish n o =>
    cases hn : t.call? n with
    | none =>
      rw [apply_finish_none hn]
      exact h
    | some c =>
      rw [breaker_finish hn]
      exact h.settle t.now c.admission o
  | observe => exact h.refresh t.now
  | reset => exact h.reset

theorem tame_run {config : Config} (h : Tame config key t.breaker) (ops : List Op) :
    Tame config key (t.run ops).breaker := by
  induction ops generalizing t with
  | nil => exact h
  | cons op ops ih => exact ih (tame_apply h op)

/-- A breaker says that its circuit is open only if a look leaves it open. -/
theorem circuit_of_request {b : Breaker} {now wait : Nat}
    (h : (b.request now).2 = .error (.circuitOpen key wait)) :
    b.circuit = .tripped ∧ b.refresh now = b ∧ key = b.key ∧ wait = b.retryIn now := by
  have hlooked : (b.refresh now).circuit = .tripped ∧ key = (b.refresh now).key ∧
      wait = (b.refresh now).retryIn now := by
    unfold request at h
    dsimp only at h
    split at h
    · cases h
    · rename_i hc
      cases h
      exact ⟨hc, rfl, rfl⟩
    · split at h <;> cases h
  obtain ⟨hc, hkey, hwait⟩ := hlooked
  obtain hsame | ⟨-, -, hhalf⟩ := refresh_cases b now
  · rw [hsame] at hc hkey hwait
    exact ⟨hc, hsame, hkey, hwait⟩
  · rw [hhalf] at hc
    cases hc

/-- A call that an open circuit turns away changes nothing, and leaves a breaker that waits for the
moment it was told of. -/
theorem Sound.awaiting_of_refused (h : t.Sound) {wait : Nat}
    (hrefused : (t.apply .call).2 = .refused (.circuitOpen key wait)) :
    1 ≤ wait ∧ (t.apply .call).1 = t ∧ Awaiting key (t.now + wait) t := by
  rcases hr : t.breaker.request t.now with ⟨b, f | a⟩
  · rw [apply_call_error hr] at hrefused ⊢
    cases hrefused
    obtain ⟨hc, hsame, hkey, hwait⟩ := circuit_of_request (congrArg Prod.snd hr)
    have hfacts : TrippedFacts t.breaker t.now t.calls := h.standing.factsOf hc
    obtain ⟨opened, hle, hopened⟩ := hfacts.openedAt
    have hearly : t.now - opened < t.breaker.config.resetTimeoutMs.toNat := by
      by_contra hover
      have hlook : (t.breaker.refresh t.now).circuit = .halfOpen := by
        simp [refresh, hc, openFor, hopened, Nat.not_lt.1 hover]
      rw [hsame, hc] at hlook
      cases hlook
    have hb : b = t.breaker := by
      have hfirst : (t.breaker.request t.now).1 = t.breaker := by
        simp [request, hsame, hc]
      rw [← hfirst, hr]
    simp only [retryIn, openFor, hopened, Option.map_some] at hwait
    refine ⟨by omega, by rw [hb, become_self], hkey.symm, ⟨opened, hle, hopened, by omega⟩,
      .inl hc, hfacts.calls⟩
  · rw [apply_call_ok hr] at hrefused
    cases hrefused

/-- What a call is told that an open circuit turns away holds, however the run goes on without a
reset: calls that come before the moment are turned away with the rest of the time, the first one
that comes later is let through as a probe, and looks in between see the circuit open until the
moment and half-open from then on. -/
theorem waiting_time_kept (key : String) (config : Config) (start : Nat) (ops : List Op)
    {name : String} {wait : Nat}
    (hrefused : (((new key config start).run ops).apply .call).2 =
      .refused (.circuitOpen name wait))
    (more : List Op) (hmore : .reset ∉ more) :
    let t := (new key config start).run ops
    let due := t.now + wait
    let before := (t.apply .call).1
    let s := before.run more
    name = key ∧ 1 ≤ wait ∧ before.calls = t.calls ∧ before.nextCall = t.nextCall ∧
      (s.now < due →
        (s.apply .call).2 = .refused (.circuitOpen key (due - s.now)) ∧
          (s.apply .call).1.calls = s.calls ∧ (s.apply .call).1.nextCall = s.nextCall ∧
          (s.apply .observe).2 = .circuit .tripped) ∧
      (due ≤ s.now → (∀ now ∈ before.callTimes more, now < due) →
        (∃ epoch, (s.apply .call).2 = .admitted ⟨true, epoch⟩ ∧
          (s.apply .call).1.calls = s.calls ++ [⟨s.nextCall, ⟨true, epoch⟩⟩]) ∧
          (s.apply .observe).2 = .circuit .halfOpen) := by
  have hsound := sound_run (sound_new key config start) ops
  have hkey := (tame_run (t := new key config start) (tame_new config key) ops).key
  generalize (new key config start).run ops = t at hrefused hsound hkey ⊢
  obtain ⟨hpos, hsame, hwaits⟩ := hsound.awaiting_of_refused hrefused
  obtain rfl : name = key := hwaits.key.symm.trans hkey
  dsimp only
  rw [hsame]
  refine ⟨rfl, hpos, rfl, rfl, fun hlt => ?_, fun hle hcalls => ?_⟩
  · have hearly : ∀ now ∈ t.callTimes more, now < t.now + wait := by
      intro now hmem
      have := callTimes_le_now t more now hmem
      omega
    have hs := hwaits.run hmore hearly
    rw [hs.call_of_lt hlt, hs.observe_of_lt hlt]
    exact ⟨rfl, rfl, rfl, rfl⟩
  · have hs := hwaits.run hmore hcalls
    exact ⟨⟨_, hs.call_of_le hle⟩, hs.observe_of_le hle⟩

/-- Somebody looks, a late success arrives and another call is turned away before the moment; the
next call comes four milliseconds after it. -/
theorem waiting_time_kept_late_success :
    let config : Config := { failureThreshold := 1, resetTimeoutMs := 10 }
    let t := (new "target" config 0).run [.call, .call, .finish 0 .failure, .wait 3]
    let before := (t.apply .call).1
    let early : List Op := [.observe, .finish 1 .success, .wait 2]
    let late : List Op := [.observe, .finish 1 .success, .wait 2, .call, .wait 9, .observe]
    (t.apply .call).2 = .refused (.circuitOpen "target" 7) ∧ .reset ∉ early ∧ .reset ∉ late ∧
      (before.run early).now = 5 ∧
      ((before.run early).apply .call).2 = .refused (.circuitOpen "target" 5) ∧
      before.callTimes late = [5] ∧ (before.run late).now = 14 ∧
      ∃ epoch, ((before.run late).apply .call).2 = .admitted ⟨true, epoch⟩ := by
  intro config t before early late
  have hrefused : (t.apply .call).2 = .refused (.circuitOpen "target" 7) := rfl
  have hearly : .reset ∉ early := by decide
  have hlate : .reset ∉ late := by decide
  have hsoon := waiting_time_kept "target" config 0 _ hrefused early hearly
  have hthen := waiting_time_kept "target" config 0 _ hrefused late hlate
  have hmoment : t.now = 3 := by decide +kernel
  have hnow : (before.run early).now = 5 := by decide +kernel
  have htimes : before.callTimes late = [5] := by decide +kernel
  have hlast : (before.run late).now = 14 := by decide +kernel
  -- the run is not to be evaluated again
  rw [show (new "target" config 0).run _ = t from rfl] at hsoon hthen
  clear_value t
  obtain ⟨-, -, -, -, hturnedAway, -⟩ := hsoon
  obtain ⟨-, -, -, -, -, hthrough⟩ := hthen
  have hrest := (hturnedAway (by rw [hmoment, hnow]; decide)).1
  rw [hmoment, hnow] at hrest
  have hcalls : ∀ now ∈ before.callTimes late, now < t.now + 7 := by simp [htimes, hmoment]
  obtain ⟨⟨epoch, hadmitted, -⟩, -⟩ := hthrough (by rw [hmoment, hlast]; decide) hcalls
  exact ⟨hrefused, hearly, hlate, hnow, hrest, htimes, hlast, epoch, hadmitted⟩

end TurnEngine.Breaker.Traffic
