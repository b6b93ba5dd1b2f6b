import TurnEngine.Proofs.Breaker.Standing

/-!
# Traffic through a breaker

A run of a breaker is any list of operations on it from its making: calls ask for permission, calls
in flight end in any order and any way, somebody looks at the circuit or resets it, and time passes
in between. `Traffic` keeps the calls in flight beside the breaker, and when the circuit opened
last. After every run the breaker stands as the calls in flight say (`sound_run`), which gives
what each circuit means (`circuit_run`).
-/

namespace TurnEngine.Breaker

/-- A breaker, the time, and the calls that it let through and that have not ended. -/
structure Traffic where
  breaker : Breaker
  now : Nat
  calls : List Call := []
  nextCall : Nat := 0
  /-- When the circuit opened last. -/
  lastOpening : Option Nat := none

namespace Traffic

/-- What happens to a breaker. -/
inductive Op where
  | wait (ms : Nat)
  /-- Somebody wants to make a call. -/
  | call
  /-- A call in flight ends. -/
  | finish (number : Nat) (outcome : Outcome)
  | observe
  | reset
  deriving DecidableEq, Repr

/-- What somebody learns from an operation. -/
inductive Reply where
  | none
  | admitted (a : Admission)
  | refused (f : Failure)
  | circuit (c : Circuit)

/-- A new breaker without calls. -/
def new (key : String) (config : Config) (now : Nat) : Traffic :=
  { breaker := { key, config }, now }

/-- The call in flight with a number. -/
def call? (t : Traffic) (n : Nat) : Option Call :=
  t.calls.find? (·.number = n)

/-- The breaker becomes another one; its circuit may open. -/
def become (t : Traffic) (b : Breaker) : Traffic :=
  { t with
    breaker := b
    lastOpening :=
      if b.circuit = .tripped ∧ t.breaker.circuit ≠ .tripped then some t.now else t.lastOpening }

/-- One operation. -/
def apply (t : Traffic) : Op → Traffic × Reply
  | .wait ms => ({ t with now := t.now + ms }, .none)
  | .call =>
    let (b, answer) := t.breaker.request t.now
    let t := t.become b
    match answer with
    | .ok a =>
      ({ t with calls := t.calls ++ [⟨t.nextCall, a⟩], nextCall := t.nextCall + 1 }, .admitted a)
    | .error f => (t, .refused f)
  | .finish n o =>
    match t.call? n with
    | some c =>
      ({ t.become (t.breaker.settle t.now c.admission o) with
          calls := t.calls.filter fun d => d.number ≠ n }, .none)
    | none => (t, .none)
  | .observe =>
    let (b, circuit) := t.breaker.observe t.now
    (t.become b, .circuit circuit)
  | .reset => (t.become t.breaker.reset, .none)

/-- The traffic after some operations. -/
def run (t : Traffic) (ops : List Op) : Traffic :=
  ops.foldl (fun t op => (t.apply op).1) t

/-- What holds after every run. -/
structure Sound (t : Traffic) : Prop where
  numbers : (t.calls.map (·.number)).Nodup
  issued : ∀ c ∈ t.calls, c.number < t.nextCall
  standing : t.breaker.Standing t.now t.calls
  opening : t.breaker.circuit = .tripped → t.breaker.openedAt = t.lastOpening

/-! ## Openings -/

end Traffic

/-- What any step of a breaker leaves as it is, and when a circuit that is open after it opened. -/
structure Follows (b b' : Breaker) (now : Nat) : Prop where
  config : b'.config = b.config
  opening : b'.circuit = .tripped →
    b.circuit = .tripped ∧ b'.openedAt = b.openedAt ∨
      b.circuit ≠ .tripped ∧ b'.openedAt = some now

theorem follows_refresh (b : Breaker) (now : Nat) : Follows b (b.refresh now) now := by
  obtain hb | ⟨-, -, hb⟩ := refresh_cases b now <;> rw [hb]
  · exact ⟨rfl, fun hc => .inl ⟨hc, rfl⟩⟩
  · exact ⟨rfl, fun hc => by cases hc⟩

theorem follows_request (b : Breaker) (now : Nat) : Follows b (b.request now).1 now := by
  have h := follows_refresh b now
  obtain ⟨f, he⟩ | ⟨-, he⟩ | ⟨-, -, he⟩ := request_cases b now <;> rw [he]
  · exact h
  · exact h
  · exact ⟨h.config, h.opening⟩

theorem follows_settle (b : Breaker) (now : Nat) (a : Admission) (o : Outcome) :
    Follows b (b.settle now a o) now := by
  have hcircuit : (b.releaseProbe a).circuit = b.circuit := by rw [releaseProbe_eq]
  have hopened : (b.releaseProbe a).openedAt = b.openedAt := by rw [releaseProbe_eq]
  have hconfig : (b.releaseProbe a).config = b.config := by rw [releaseProbe_eq]
  obtain ⟨-, he⟩ | ⟨-, ⟨-, he⟩ | ⟨-, hfailed⟩⟩ := settle_cases b now a o
  · rw [he]
    exact ⟨hconfig, fun hc => .inl ⟨hcircuit ▸ hc, hopened⟩⟩
  · rw [he]
    exact ⟨hconfig, fun hc => by cases hc⟩
  · obtain ⟨hclosed, -, he⟩ | ⟨hclosed, -, he⟩ | ⟨hhalf, he⟩ := hfailed <;> rw [he]
    · exact ⟨hconfig, fun hc => absurd (hclosed.symm.trans hc) (by decide)⟩
    · exact ⟨hconfig, fun _ => .inr ⟨by rw [← hcircuit, hclosed]; decide, rfl⟩⟩
    · exact ⟨hconfig, fun _ => .inr ⟨by rw [← hcircuit, hhalf]; decide, rfl⟩⟩

namespace Traffic

variable {t : Traffic}

theorem opening_become (ht : t.breaker.circuit = .tripped → t.breaker.openedAt = t.lastOpening)
    {b : Breaker} (hb : Follows t.breaker b t.now) (hc : b.circuit = .tripped) :
    b.openedAt = (t.become b).lastOpening := by
  unfold become
  obtain ⟨hold, he⟩ | ⟨hnew, he⟩ := hb.opening hc
  · rw [if_neg fun h => h.2 hold, he]
    exact ht hold
  · rw [if_pos ⟨hc, hnew⟩, he]

theorem mem_of_call? {n : Nat} {c : Call} (h : t.call? n = some c) :
    c ∈ t.calls ∧ c.number = n := by
  unfold call? at h
  exact ⟨List.mem_of_find?_eq_some h, by simpa using List.find?_some h⟩

/-! ## Runs -/

theorem Sound.wait (h : t.Sound) (ms : Nat) : ({ t with now := t.now + ms } : Traffic).Sound :=
  ⟨h.numbers, h.issued, h.standing.wait ms, h.opening⟩

theorem Sound.call (h : t.Sound) : (t.apply .call).1.Sound := by
  unfold Traffic.apply
  dsimp only
  have hopening := opening_become h.opening (follows_request t.breaker t.now)
  split
  · rename_i a ha
    exact ⟨Keyed.nodup_concat h.numbers h.issued,
      fun c hc => Keyed.lt_of_mem_concat h.issued hc, h.standing.grant ha t.nextCall, hopening⟩
  · rename_i f hf
    exact ⟨h.numbers, h.issued, h.standing.refused hf, hopening⟩

theorem Sound.finish (h : t.Sound) (n : Nat) (o : Outcome) : (t.apply (.finish n o)).1.Sound := by
  unfold Traffic.apply
  dsimp only
  split
  · rename_i c hc
    obtain ⟨hmem, rfl⟩ := mem_of_call? hc
    exact ⟨Keyed.nodup_remove h.numbers _, fun d hd => h.issued d (List.mem_of_mem_filter hd),
      h.standing.settle h.numbers hmem o,
      opening_become h.opening (follows_settle t.breaker t.now c.admission o)⟩
  · exact h

theorem Sound.observe (h : t.Sound) : (t.apply .observe).1.Sound :=
  ⟨h.numbers, h.issued, h.standing.refresh,
    opening_become h.opening (follows_refresh t.breaker t.now)⟩

theorem Sound.reset (h : t.Sound) : (t.apply .reset).1.Sound :=
  ⟨h.numbers, h.issued, h.standing.reset, fun hc => by cases hc⟩

theorem Sound.apply (h : t.Sound) (op : Op) : (t.apply op).1.Sound := by
  cases op with
  | wait ms => exact h.wait ms
  | call => exact h.call
  | finish n o => exact h.finish n o
  | observe => exact h.observe
  | reset => exact h.reset

theorem sound_new (key : String) (config : Config) (now : Nat) :
    (new key config now).Sound where
  numbers := List.nodup_nil
  issued := fun c hc => by cases hc
  standing := standing_closed (fun c hc => by cases hc) rfl rfl rfl (failureLimit_pos _)
  opening := fun hc => by cases hc

theorem sound_run (h : t.Sound) (ops : List Op) : (t.run ops).Sound := by
  induction ops generalizing t with
  | nil => exact h
  | cons op ops ih => exact ih (h.apply op)

theorem config_apply (t : Traffic) (op : Op) :
    (t.apply op).1.breaker.config = t.breaker.config := by
  cases op with
  | wait ms => rfl
  | call =>
    unfold Traffic.apply
    dsimp only
    split <;> exact (follows_request t.breaker t.now).config
  | finish n o =>
    unfold Traffic.apply
    dsimp only
    split
    · exact (follows_settle t.breaker t.now _ o).config
    · rfl
  | observe => exact (follows_refresh t.breaker t.now).config
  | reset => rfl

theorem config_run (t : Traffic) (ops : List Op) :
    (t.run ops).breaker.config = t.breaker.config := by
  induction ops generalizing t with
  | nil => rfl
  | cons op ops ih => exact (ih (t.apply op).1).trans (config_apply t op)

/-- What the circuit of a breaker means after any run, in the time and the calls in flight. -/
theorem circuit_run (key : String) (config : Config) (start : Nat) (ops : List Op) :
    let t := (new key config start).run ops
    (t.breaker.circuit = .closed →
      t.breaker.openedAt = none ∧ t.breaker.probes = 0 ∧
        t.breaker.failures < max 1 config.failureThreshold.toNat) ∧
    (t.breaker.circuit = .tripped →
      (∃ opened ≤ t.now, t.breaker.openedAt = some opened ∧ t.lastOpening = some opened) ∧
        max 1 config.failureThreshold.toNat ≤ t.breaker.failures ∧
        ∀ c ∈ t.calls, c.admission.epoch ≠ t.breaker.epoch) ∧
    (t.breaker.circuit = .halfOpen →
      (∃ opened, t.breaker.openedAt = some opened ∧
        opened + config.resetTimeoutMs.toNat ≤ t.now) ∧
        t.breaker.probes = t.calls.countP (·.isProbeOf t.breaker.epoch) ∧
        t.breaker.probes ≤ max 1 config.halfOpenMaxProbes.toNat ∧
        ∀ c ∈ t.calls, c.admission.probe = false → c.admission.epoch ≠ t.breaker.epoch) := by
  have hsound := sound_run (sound_new key config start) ops
  have hconfig := config_run (new key config start) ops
  generalize (new key config start).run ops = t at hsound hconfig ⊢
  have hb := hsound.standing
  dsimp only
  refine ⟨fun hc => ?_, fun hc => ?_, fun hc => ?_⟩
  · have hclosed : ClosedFacts t.breaker := hb.factsOf hc
    refine ⟨hclosed.openedAt, hclosed.probes, ?_⟩
    have := hclosed.failures
    rwa [failureLimit, hconfig] at this
  · have htripped : TrippedFacts t.breaker t.now t.calls := hb.factsOf hc
    obtain ⟨opened, hle, hopened⟩ := htripped.openedAt
    refine ⟨⟨opened, hle, hopened, (hsound.opening hc).symm.trans hopened⟩, ?_, htripped.calls⟩
    have := htripped.failures
    rwa [failureLimit, hconfig] at this
  · have hhalf : HalfOpenFacts t.breaker t.now t.calls := hb.factsOf hc
    obtain ⟨opened, hopened, helapsed⟩ := hhalf.openedAt
    have hlimit := hhalf.limit
    rw [toNat_probeLimit, hconfig] at hlimit
    rw [hconfig] at helapsed
    refine ⟨⟨opened, hopened, helapsed⟩, hhalf.probes, hlimit, fun c hmem hp he => ?_⟩
    rw [hhalf.calls c hmem he] at hp
    cases hp

/-- Two probes at once; one of them succeeds or fails while the other one is still in flight. -/
theorem circuit_run_two_probes :
    let config : Config := { failureThreshold := 1, resetTimeoutMs := 10, halfOpenMaxProbes := 2 }
    let ops := [.call, .finish 0 .failure, .wait 10, .call, .call]
    let probing := (new "target" config 0).run ops
    let closed := (new "target" config 0).run (ops ++ [.finish 1 .success])
    let tripped := (new "target" config 0).run (ops ++ [.finish 1 .failure])
    (probing.breaker.probes = probing.calls.countP (·.isProbeOf probing.breaker.epoch) ∧
      probing.breaker.probes = 2) ∧
    (closed.breaker.probes = 0 ∧ closed.calls.map (·.isProbeOf closed.breaker.epoch) = [true]) ∧
    (∀ c ∈ tripped.calls, c.admission.epoch ≠ tripped.breaker.epoch) ∧
      tripped.calls.length = 1 :=
  ⟨⟨((circuit_run _ _ _ _).2.2 rfl).2.1, rfl⟩, ⟨((circuit_run _ _ _ _).1 rfl).2.1, rfl⟩,
    ((circuit_run _ _ _ _).2.1 rfl).2.2, rfl⟩

end Traffic

end TurnEngine.Breaker
