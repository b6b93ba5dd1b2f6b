import Mathlib.Logic.Function.Basic
import TurnEngine.Proofs.Breaker.Keys

/-!
# Calls through a registry

A run of a registry is any list of steps from its making: on any key somebody asks for permission
to make a call, a call in flight ends in any way, somebody looks at the breaker or resets it; all
breakers are dropped at once; time passes. `Exchange` keeps the calls in flight beside the
registry, each under a key and a name that its caller chose. A call whose name is taken again
stays in flight for ever.

What is done on one key touches no other one (`Sound.touches`, `calls_act_of_ne`), and after every
run a call in flight is from an earlier era or from a breaker that is there still (`sound_run`).
-/

namespace TurnEngine.Breaker

/-! ## Steps and answers -/

/-- What is done on one key. -/
inductive Act where
  /-- Somebody wants to make a call, and gives it a name. -/
  | call (name : Nat)
  /-- The call of a name ends. -/
  | finish (name : Nat) (outcome : Outcome)
  | observe
  /-- Somebody takes the breaker, and looks at it. -/
  | look
  /-- Somebody takes the breaker, and reads its failure count. -/
  | count
  | reset
  /-- Somebody takes the breaker, and resets it. -/
  | resetBreaker
  deriving DecidableEq, Repr

/-- What happens to a registry. -/
inductive Step where
  | wait (ms : Nat)
  | act (key : String) (a : Act)
  | resetAll
  deriving DecidableEq, Repr

/-- What somebody learns from a step. -/
inductive Answer where
  | done
  | admitted
  | refused (f : Failure)
  | circuit (c : Circuit)
  | failures (n : Nat)
  deriving DecidableEq, Repr

/-- Whether a step is on a key or on all of them. -/
def Step.concerns (key : String) : Step → Bool
  | .act k _ => k = key
  | .wait _ => true
  | .resetAll => true

/-- Whether a step makes the breaker of a key, where there is none. -/
def Step.uses (key : String) : Step → Bool
  | .act k (.call _) => k = key
  | .act k .look => k = key
  | .act k .count => k = key
  | .act k .resetBreaker => k = key
  | _ => false

/-- The answers to the steps that concern a key, in a run of any kind. -/
def heard {σ : Type} (apply : σ → Step → σ × Answer) (key : String) (s : σ) :
    List Step → List Answer
  | [] => []
  | step :: steps =>
    let rest := heard apply key (apply s step).1 steps
    if step.concerns key then (apply s step).2 :: rest else rest

/-- A registry, the time, and the calls in flight, each under its key and its name. -/
structure Exchange where
  registry : Registry
  now : Nat
  calls : String × Nat → Option Pass := fun _ => none

namespace Exchange

/-- A new registry without calls. -/
def new (config : Config) (now : Nat) : Exchange :=
  { registry := { config }, now }

/-- Something is done on a key. -/
def act (x : Exchange) (key : String) : Act → Exchange × Answer
  | .call name =>
    match x.registry.request x.now key with
    | (r, .ok p) =>
      ({ x with registry := r, calls := Function.update x.calls (key, name) (some p) }, .admitted)
    | (r, .error f) => ({ x with registry := r }, .refused f)
  | .finish name o =>
    match x.calls (key, name) with
    | some p =>
      ({ x with
          registry := x.registry.settle x.now p o
          calls := Function.update x.calls (key, name) none }, .done)
    | none => (x, .done)
  | .observe =>
    let (r, circuit) := x.registry.observe x.now key
    ({ x with registry := r }, .circuit circuit)
  | .look =>
    let (b, circuit) := (x.registry.get key).observe x.now
    ({ x with registry := x.registry.put key b }, .circuit circuit)
  | .count =>
    let b := x.registry.get key
    ({ x with registry := x.registry.put key b }, .failures b.failures)
  | .reset => ({ x with registry := x.registry.reset key }, .done)
  | .resetBreaker =>
    ({ x with registry := x.registry.put key (x.registry.get key).reset }, .done)

/-- One step. -/
def apply (x : Exchange) : Step → Exchange × Answer
  | .wait ms => ({ x with now := x.now + ms }, .done)
  | .act key a => x.act key a
  | .resetAll => ({ x with registry := x.registry.resetAll }, .done)

/-- The exchange after some steps. -/
def run (x : Exchange) (steps : List Step) : Exchange :=
  steps.foldl (fun x step => (x.apply step).1) x

end Exchange

/-! ## What a step leaves alone -/

/-- Two registries of one era that differ in the breaker of one key at most, which is there still if
it was. -/
structure Registry.Touches (key : String) (r r' : Registry) : Prop where
  era : r'.era = r.era
  config : r'.config = r.config
  others : ∀ other, other ≠ key → r'.breakers.get? other = r.breakers.get? other
  kept : (r.breakers.get? key).isSome → (r'.breakers.get? key).isSome

namespace Registry

variable (r : Registry) (now : Nat) (key : String)

theorem get?_put (b : Breaker) (other : String) : (r.put key b).breakers.get? other =
    if other = key then some b else r.breakers.get? other :=
  Table.get?_insert r.breakers key other b

theorem touches_refl : Touches key r r :=
  ⟨rfl, rfl, fun _ _ => rfl, id⟩

theorem touches_put (b : Breaker) : Touches key r (r.put key b) where
  era := rfl
  config := rfl
  others := fun other hne => by rw [get?_put, if_neg hne]
  kept := fun _ => by rw [get?_put, if_pos rfl]; rfl

theorem touches_store (ref : Ref) (b : Breaker) : Touches ref.key r (r.store ref b) := by
  refine ⟨era_store r ref b, config_store r ref b, fun other hne => ?_, fun hthere => ?_⟩
  · unfold store
    split
    · exact (touches_put r ref.key b).others other hne
    · rfl
  · unfold store
    split
    · exact (touches_put r ref.key b).kept hthere
    · exact hthere

theorem touches_settle (p : Pass) (o : Outcome) : Touches p.key r (r.settle now p o) := by
  obtain he | he := settle_cases r now p o <;> rw [he]
  · exact touches_refl r p.key
  · exact touches_store r p.ref _

theorem touches_observe : Touches key r (r.observe now key).1 := by
  unfold observe
  split
  · exact touches_put r key _
  · exact touches_refl r key

theorem touches_reset : Touches key r (r.reset key) := by
  unfold reset
  split
  · exact touches_put r key _
  · exact touches_refl r key

variable {r key} in
theorem Touches.get_eq {r' : Registry} (h : Touches key r r') {other : String}
    (hne : other ≠ key) : r'.get other = r.get other := by
  rw [get, get, h.others other hne, h.config]

end Registry

namespace Exchange

variable {x : Exchange} {config : Config} {key : String}

theorem act_call_ok {b : Breaker} {a : Admission}
    (h : (x.registry.get key).request x.now = (b, .ok a)) (name : Nat) :
    x.act key (.call name) =
      ({ x with
          registry := x.registry.put key b
          calls := Function.update x.calls (key, name) (some ⟨key, x.registry.era, a⟩) },
        .admitted) := by
  simp [act, Registry.request_eq, h, Except.map]

theorem act_call_error {b : Breaker} {f : Failure}
    (h : (x.registry.get key).request x.now = (b, .error f)) (name : Nat) :
    x.act key (.call name) = ({ x with registry := x.registry.put key b }, .refused f) := by
  simp [act, Registry.request_eq, h, Except.map]

theorem act_finish {name : Nat} {p : Pass} (h : x.calls (key, name) = some p) (o : Outcome) :
    x.act key (.finish name o) =
      ({ x with
          registry := x.registry.settle x.now p o
          calls := Function.update x.calls (key, name) none }, .done) := by
  simp [act, h]

theorem act_finish_none {name : Nat} (h : x.calls (key, name) = none) (o : Outcome) :
    x.act key (.finish name o) = (x, .done) := by
  simp [act, h]

/-- What holds of every run: the breakers are what they should be, and a call in flight is from an
earlier era or from a breaker that is there. -/
structure Sound (config : Config) (x : Exchange) : Prop where
  tame : x.registry.Tame config
  calls : ∀ key name p, x.calls (key, name) = some p → p.key = key ∧ p.era ≤ x.registry.era ∧
    (p.era = x.registry.era → (x.registry.breakers.get? key).isSome)

theorem now_act (x : Exchange) (key : String) (a : Act) : (x.act key a).1.now = x.now := by
  cases a with
  | call name =>
    rcases hb : (x.registry.get key).request x.now with ⟨b, f | a⟩
    · rw [act_call_error hb]
    · rw [act_call_ok hb]
  | finish name o =>
    cases hp : x.calls (key, name) with
    | none => rw [act_finish_none hp]
    | some p => rw [act_finish hp]
  | _ => rfl

/-- What is done on a key leaves the calls in flight alone, but for one of the key, which is there
no more or was let through just now. -/
theorem calls_act (x : Exchange) (key : String) (a : Act) :
    (x.act key a).1.calls = x.calls ∨
      ∃ name, (x.act key a).1.calls = Function.update x.calls (key, name) none ∨
        ∃ admission, (x.act key a).1.calls =
            Function.update x.calls (key, name) (some ⟨key, x.registry.era, admission⟩) ∧
          ((x.act key a).1.registry.breakers.get? key).isSome := by
  cases a with
  | call name =>
    rcases hb : (x.registry.get key).request x.now with ⟨b, f | a⟩
    · rw [act_call_error hb]
      exact .inl rfl
    · rw [act_call_ok hb]
      refine .inr ⟨name, .inr ⟨a, rfl, ?_⟩⟩
      rw [Registry.get?_put, if_pos rfl]
      rfl
  | finish name o =>
    cases hp : x.calls (key, name) with
    | none =>
      rw [act_finish_none hp]
      exact .inl rfl
    | some p =>
      rw [act_finish hp]
      exact .inr ⟨name, .inl rfl⟩
  | _ => exact .inl rfl

theorem calls_act_of_ne (x : Exchange) (a : Act) {other : String} (hne : other ≠ key)
    (name : Nat) : (x.act key a).1.calls (other, name) = x.calls (other, name) := by
  have hpair (n : Nat) : (other, name) ≠ (key, n) := fun he => hne (congrArg Prod.fst he)
  obtain he | ⟨n, he | ⟨admission, he, -⟩⟩ := calls_act x key a <;> rw [he]
  · exact Function.update_of_ne (hpair n) _ _
  · exact Function.update_of_ne (hpair n) _ _

/-- What is done on a key touches no other one. -/
theorem Sound.touches (h : x.Sound config) (key : String) (a : Act) :
    Registry.Touches key x.registry (x.act key a).1.registry := by
  cases a with
  | call name =>
    rcases hb : (x.registry.get key).request x.now with ⟨b, f | a⟩
    · rw [act_call_error hb]
      exact Registry.touches_put x.registry key b
    · rw [act_call_ok hb]
      exact Registry.touches_put x.registry key b
  | finish name o =>
    cases hp : x.calls (key, name) with
    | none =>
      rw [act_finish_none hp]
      exact Registry.touches_refl x.registry key
    | some p =>
      obtain ⟨rfl, -⟩ := h.calls key name p hp
      rw [act_finish hp]
      exact Registry.touches_settle x.registry x.now p o
  | observe => exact Registry.touches_observe x.registry x.now key
  | look => exact Registry.touches_put x.registry key _
  | count => exact Registry.touches_put x.registry key _
  | reset => exact Registry.touches_reset x.registry key
  | resetBreaker => exact Registry.touches_put x.registry key _

theorem Sound.tame_act (h : x.Sound config) (key : String) (a : Act) :
    (x.act key a).1.registry.Tame config := by
  have hb := h.tame.breakers key
  cases a with
  | call name =>
    have hrequest := hb.request x.now
    rcases he : (x.registry.get key).request x.now with ⟨b, f | a⟩ <;> rw [he] at hrequest
    · rw [act_call_error he]
      exact h.tame.put hrequest
    · rw [act_call_ok he]
      exact h.tame.put hrequest
  | finish name o =>
    cases hp : x.calls (key, name) with
    | none =>
      rw [act_finish_none hp]
      exact h.tame
    | some p =>
      rw [act_finish hp]
      exact h.tame.settle x.now p o
  | observe => exact h.tame.observe x.now key
  | look => exact h.tame.put (hb.refresh x.now)
  | count => exact h.tame.put hb
  | reset => exact h.tame.reset key
  | resetBreaker => exact h.tame.put hb.reset

theorem Sound.act (h : x.Sound config) (key : String) (a : Act) :
    (x.act key a).1.Sound config := by
  have htouches := h.touches key a
  refine ⟨h.tame_act key a, fun k name p hp => ?_⟩
  -- a call from before has the breaker that it had
  have hold (hp : x.calls (k, name) = some p) : p.key = k ∧
      p.era ≤ (x.act key a).1.registry.era ∧ (p.era = (x.act key a).1.registry.era →
        ((x.act key a).1.registry.breakers.get? k).isSome) := by
    obtain ⟨hkey, hera, hthere⟩ := h.calls k name p hp
    rw [htouches.era]
    refine ⟨hkey, hera, fun he => ?_⟩
    by_cases hk : k = key
    · exact hk ▸ htouches.kept (hk ▸ hthere he)
    · exact htouches.others k hk ▸ hthere he
  obtain he | ⟨n, he | ⟨admission, he, hthere⟩⟩ := calls_act x key a
  · exact hold (he ▸ hp)
  · rw [he, Function.update_apply] at hp
    split at hp
    · cases hp
    · exact hold hp
  · rw [he, Function.update_apply] at hp
    split at hp
    · rename_i hk
      cases hp
      cases hk
      exact ⟨rfl, Nat.le_of_eq htouches.era.symm, fun _ => hthere⟩
    · exact hold hp

theorem Sound.apply (h : x.Sound config) (step : Step) : (x.apply step).1.Sound config := by
  cases step with
  | wait ms => exact ⟨h.tame, h.calls⟩
  | act key a => exact h.act key a
  | resetAll =>
    refine ⟨h.tame.resetAll, fun key name p hp => ?_⟩
    obtain ⟨hkey, hera, -⟩ := h.calls key name p hp
    have hlt : p.era < x.registry.resetAll.era := by
      rw [Registry.era_resetAll]
      exact Nat.lt_succ_of_le hera
    exact ⟨hkey, Nat.le_of_lt hlt, fun he => absurd he (Nat.ne_of_lt hlt)⟩

theorem sound_new (config : Config) (now : Nat) : (new config now).Sound config :=
  ⟨⟨rfl, tame_new config⟩, nofun⟩

theorem sound_run (h : x.Sound config) (steps : List Step) : (x.run steps).Sound config := by
  induction steps generalizing x with
  | nil => exact h
  | cons step steps ih => exact ih (h.apply step)

/-! ## Keys that were never used -/

theorem observe_of_unused (h : x.registry.breakers.get? key = none) :
    x.act key .observe = (x, .circuit .closed) := by
  have hobserve : x.registry.observe x.now key = (x.registry, .closed) := by
    rw [Registry.observe, h]
  exact congrArg (fun s => ({ x with registry := s.1 }, Answer.circuit s.2)) hobserve

theorem Sound.unused_act (hx : x.Sound config) (h : x.registry.breakers.get? key = none) {a : Act}
    (ha : (Step.act key a).uses key = false) :
    (x.act key a).1.registry.breakers.get? key = none := by
  cases a with
  | finish name o =>
    cases hp : x.calls (key, name) with
    | none => rwa [act_finish_none hp]
    | some p =>
      obtain ⟨rfl, -⟩ := hx.calls key name p hp
      rw [act_finish hp]
      exact (Registry.breakers_settle_of_unused x.registry x.now h o).symm ▸ h
  | observe => rwa [observe_of_unused h]
  | reset =>
    have hreset : x.registry.reset key = x.registry := by rw [Registry.reset, h]
    exact (congrArg (fun r : Registry => r.breakers.get? key) hreset).trans h
  | _ => simp [Step.uses] at ha

/-- Only a step that uses a key makes its breaker. -/
theorem Sound.unused (hx : x.Sound config) (h : x.registry.breakers.get? key = none) {step : Step}
    (hstep : step.uses key = false) : (x.apply step).1.registry.breakers.get? key = none := by
  cases step with
  | wait ms => exact h
  | resetAll => rfl
  | act k a =>
    by_cases hk : k = key
    · subst hk
      exact hx.unused_act h hstep
    · exact ((hx.touches k a).others key (Ne.symm hk)).trans h

theorem Sound.unused_run (hx : x.Sound config) (h : x.registry.breakers.get? key = none)
    (steps : List Step) (hsteps : ∀ step ∈ steps, step.uses key = false) :
    (x.run steps).registry.breakers.get? key = none := by
  induction steps generalizing x with
  | nil => exact h
  | cons step steps ih =>
    obtain ⟨hstep, hrest⟩ := List.forall_mem_cons.1 hsteps
    exact ih (hx.apply step) (hx.unused h hstep) hrest

end Exchange

end TurnEngine.Breaker
