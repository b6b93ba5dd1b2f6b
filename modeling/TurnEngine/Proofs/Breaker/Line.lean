import TurnEngine.Proofs.Breaker.Exchange

/-!
# Keys as lines of their own

A `Line` is one breaker by itself, with its own calls. `Serves.heard_eq` sets a key of an exchange
beside a line that is taken through the steps which concern the key, and no others: what is answered
is the same on both. When all breakers are dropped, a new breaker is put on the line and the calls
from before are forgotten; on the exchange those calls are still in flight, and their ends find
nothing to change.

A registry and a line can come to count epochs from different numbers, as resetting a key that has
no breaker makes none. Epochs are only ever compared, so no answer shows it (`request_shift`,
`settle_shift`).
-/

namespace TurnEngine.Breaker

/-! ## Where epochs begin -/

/-- The same admission, with epochs counted from another number. -/
def Admission.shift (d : Nat) (a : Admission) : Admission :=
  { a with epoch := a.epoch + d }

/-- The same breaker, with epochs counted from another number. -/
def shift (d : Nat) (b : Breaker) : Breaker :=
  { b with epoch := b.epoch + d }

section
variable (d : Nat) (b : Breaker)

theorem refresh_shift (now : Nat) : (b.shift d).refresh now = (b.refresh now).shift d := by
  unfold refresh
  rw [show (b.shift d).circuit = b.circuit from rfl,
    show (b.shift d).openFor now = b.openFor now from rfl,
    show (b.shift d).config = b.config from rfl]
  split <;> rfl

theorem request_shift (now : Nat) :
    (b.shift d).request now =
      ((b.request now).1.shift d, (b.request now).2.map (Admission.shift d)) := by
  unfold request
  dsimp only
  rw [refresh_shift]
  generalize b.refresh now = b'
  rw [show (b'.shift d).circuit = b'.circuit from rfl]
  cases b'.circuit with
  | closed => rfl
  | tripped => rfl
  | halfOpen =>
    dsimp only
    rw [show (b'.shift d).probeLimit = b'.probeLimit from rfl,
      show (b'.shift d).probes = b'.probes from rfl]
    split <;> rfl

theorem releaseProbe_shift (a : Admission) :
    (b.shift d).releaseProbe (a.shift d) = (b.releaseProbe a).shift d := by
  simp only [releaseProbe, shift, Admission.shift, Nat.add_right_cancel_iff]
  split <;> rfl

theorem isCurrent_shift (a : Admission) :
    (b.shift d).isCurrent (a.shift d) = b.isCurrent a := by
  simp only [isCurrent, shift, Admission.shift, Nat.add_right_cancel_iff]

theorem trip_shift (now : Nat) : (b.shift d).trip now = (b.trip now).shift d := by
  simp only [trip, shift, Nat.add_right_comm]

theorem reset_shift : (b.shift d).reset = b.reset.shift d := by
  simp only [reset, shift, Nat.add_right_comm]

theorem settle_shift (now : Nat) (a : Admission) (o : Outcome) :
    (b.shift d).settle now (a.shift d) o = (b.settle now a o).shift d := by
  cases o with
  | success =>
    unfold settle recordSuccess
    dsimp only
    rw [releaseProbe_shift, isCurrent_shift]
    split <;> rfl
  | failure =>
    unfold settle recordFailure
    dsimp only
    rw [releaseProbe_shift, isCurrent_shift]
    generalize b.releaseProbe a = b'
    split
    · rw [show (b'.shift d).circuit = b'.circuit from rfl]
      cases b'.circuit with
      | closed =>
        rw [show (b'.shift d).config = b'.config from rfl,
          show (b'.shift d).failures = b'.failures from rfl]
        dsimp only
        split
        · exact trip_shift d { b' with failures := min (b'.failures + 1) maxFailures } now
        · rfl
      | tripped => rfl
      | halfOpen =>
        have htrip := trip_shift d { b' with failures := min (b'.failures + 1) maxFailures } now
        exact congrArg (fun c : Breaker => { c with probes := 0 }) htrip
    · rfl
  | cancelled => exact releaseProbe_shift d b a
  | dropped => exact releaseProbe_shift d b a

end

/-! ## Lines -/

/-- A breaker by itself, the time, and its calls in flight. -/
structure Line where
  breaker : Breaker
  now : Nat
  calls : Nat → Option Admission := fun _ => none

namespace Line

/-- A new breaker without calls. -/
def new (key : String) (config : Config) (now : Nat) : Line :=
  { breaker := { key, config }, now }

/-- Something is done with the breaker. -/
def act (l : Line) : Act → Line × Answer
  | .call name =>
    match l.breaker.request l.now with
    | (b, .ok a) =>
      ({ l with breaker := b, calls := Function.update l.calls name (some a) }, .admitted)
    | (b, .error f) => ({ l with breaker := b }, .refused f)
  | .finish name o =>
    match l.calls name with
    | some a =>
      ({ l with
          breaker := l.breaker.settle l.now a o
          calls := Function.update l.calls name none }, .done)
    | none => (l, .done)
  | .observe | .look =>
    let (b, circuit) := l.breaker.observe l.now
    ({ l with breaker := b }, .circuit circuit)
  | .count => (l, .failures l.breaker.failures)
  | .reset | .resetBreaker => ({ l with breaker := l.breaker.reset }, .done)

/-- One step, whose key is not looked at. When all breakers are dropped, a new breaker is put in
place of this one, and nobody waits for the calls of this one any more. -/
def apply (l : Line) : Step → Line × Answer
  | .wait ms => ({ l with now := l.now + ms }, .done)
  | .act _ a => l.act a
  | .resetAll => (new l.breaker.key l.breaker.config l.now, .done)

variable {l : Line}

theorem act_call_ok {b : Breaker} {a : Admission} (h : l.breaker.request l.now = (b, .ok a))
    (name : Nat) : l.act (.call name) =
      ({ l with breaker := b, calls := Function.update l.calls name (some a) }, .admitted) := by
  simp [act, h]

theorem act_call_error {b : Breaker} {f : Failure} (h : l.breaker.request l.now = (b, .error f))
    (name : Nat) : l.act (.call name) = ({ l with breaker := b }, .refused f) := by
  simp [act, h]

theorem act_finish {name : Nat} {a : Admission} (h : l.calls name = some a) (o : Outcome) :
    l.act (.finish name o) =
      ({ l with
          breaker := l.breaker.settle l.now a o
          calls := Function.update l.calls name none }, .done) := by
  simp [act, h]

theorem act_finish_none {name : Nat} (h : l.calls name = none) (o : Outcome) :
    l.act (.finish name o) = (l, .done) := by
  simp [act, h]

end Line

/-! ## A key and a line -/

/-- The admission of a call in flight on a key, if it is from a breaker that is there still. -/
def Exchange.live (x : Exchange) (key : String) (name : Nat) : Option Admission :=
  ((x.calls (key, name)).filter (·.era = x.registry.era)).map (·.admission)

/-- A line answers as the key of an exchange does (module doc). -/
structure Serves (x : Exchange) (key : String) (d : Nat) (l : Line) : Prop where
  now : l.now = x.now
  breaker : l.breaker = (x.registry.get key).shift d
  calls : ∀ name, l.calls name = (x.live key name).map (Admission.shift d)

namespace Serves

open Exchange

variable {x : Exchange} {config : Config} {key : String} {d : Nat} {l : Line}

/-- Something is done on another key. -/
theorem elsewhere (h : Serves x key d l) (hx : x.Sound config) {k : String} (hne : k ≠ key)
    (a : Act) : Serves (x.act k a).1 key d l := by
  have htouches := hx.touches k a
  refine ⟨by rw [h.now, now_act], ?_, fun name => ?_⟩
  · rw [h.breaker, htouches.get_eq hne.symm]
  · rw [h.calls, live, live, htouches.era, calls_act_of_ne x a hne.symm]

/-- The breaker of the key becomes another one. -/
theorem become (h : Serves x key d l) {r : Registry} (hr : Registry.Touches key x.registry r)
    {b : Breaker} (hb : b = (r.get key).shift d) :
    Serves { x with registry := r } key d { l with breaker := b } := by
  refine ⟨h.now, hb, fun name => ?_⟩
  rw [h.calls]
  unfold live
  dsimp only
  rw [hr.era]

theorem put (h : Serves x key d l) (b : Breaker) :
    Serves { x with registry := x.registry.put key b } key d { l with breaker := b.shift d } := by
  refine h.become (Registry.touches_put x.registry key b) ?_
  rw [Registry.get_put, if_pos rfl]

/-- A call is let through on both sides. -/
theorem grant (h : Serves x key d l) (name : Nat) (a : Admission) :
    Serves
      { x with calls := Function.update x.calls (key, name) (some ⟨key, x.registry.era, a⟩) } key d
      { l with calls := Function.update l.calls name (some (a.shift d)) } := by
  refine ⟨h.now, h.breaker, fun other => ?_⟩
  unfold live
  by_cases hn : other = name
  · subst hn
    dsimp only
    rw [Function.update_self, Function.update_self, Option.filter_some_pos (by simp)]
    rfl
  · have hpair : (key, other) ≠ (key, name) := fun he => hn (congrArg Prod.snd he)
    dsimp only
    rw [Function.update_of_ne hn, Function.update_of_ne hpair, h.calls]
    rfl

/-- A call is in flight no more. -/
theorem close (h : Serves x key d l) (name : Nat) :
    Serves { x with calls := Function.update x.calls (key, name) none } key d
      { l with calls := Function.update l.calls name none } := by
  refine ⟨h.now, h.breaker, fun other => ?_⟩
  unfold live
  by_cases hn : other = name
  · subst hn
    simp
  · have hpair : (key, other) ≠ (key, name) := fun he => hn (congrArg Prod.snd he)
    dsimp only
    rw [Function.update_of_ne hn, Function.update_of_ne hpair, h.calls]
    rfl

/-! ### What is done on the key -/

theorem call (h : Serves x key d l) (name : Nat) :
    (x.act key (.call name)).2 = (l.act (.call name)).2 ∧
      Serves (x.act key (.call name)).1 key d (l.act (.call name)).1 := by
  have hshift := request_shift d (x.registry.get key) x.now
  rw [← h.breaker] at hshift
  rcases hb : (x.registry.get key).request x.now with ⟨b, f | a⟩ <;> rw [hb, ← h.now] at hshift
  · rw [act_call_error hb, Line.act_call_error hshift]
    exact ⟨rfl, h.put b⟩
  · rw [act_call_ok hb, Line.act_call_ok hshift]
    exact ⟨rfl, (h.put b).grant name a⟩

theorem finish (h : Serves x key d l) (hx : x.Sound config) (name : Nat) (o : Outcome) :
    (x.act key (.finish name o)).2 = (l.act (.finish name o)).2 ∧
      Serves (x.act key (.finish name o)).1 key d (l.act (.finish name o)).1 := by
  have hcall : l.calls name = (x.live key name).map (Admission.shift d) := h.calls name
  cases hp : x.calls (key, name) with
  | none =>
    have hnone : l.calls name = none := by
      rw [hcall, live, hp]
      rfl
    rw [act_finish_none hp, Line.act_finish_none hnone]
    exact ⟨rfl, h⟩
  | some p =>
    obtain ⟨rfl, -, hthere⟩ := hx.calls key name p hp
    rw [live, hp] at hcall
    rw [act_finish hp]
    by_cases hera : p.era = x.registry.era
    · have hsome : l.calls name = some (p.admission.shift d) := by
        rw [hcall, Option.filter_some_pos (by simpa using hera)]
        rfl
      obtain ⟨b, hb⟩ := Option.isSome_iff_exists.1 (hthere hera)
      have hkey : x.registry.settle x.now p o =
          x.registry.put p.key ((x.registry.get p.key).settle x.now p.admission o) := by
        rw [Registry.settle_of_present _ _ hera hb, Registry.get_of_get? _ _ hb]
      have hline : l.breaker.settle l.now (p.admission.shift d) o =
          ((x.registry.get p.key).settle x.now p.admission o).shift d := by
        rw [h.breaker, h.now, settle_shift]
      rw [hkey, Line.act_finish hsome, hline]
      exact ⟨rfl, (h.put _).close name⟩
    · -- the breaker that let the call through was dropped, and nobody sees what becomes of it
      have hnone : l.calls name = none := by
        rw [hcall, Option.filter_some_neg (by simpa using hera)]
        rfl
      have hkeep : Function.update l.calls name none = l.calls :=
        hnone ▸ Function.update_eq_self name l.calls
      have htouches := Registry.touches_settle x.registry x.now p o
      have hsame : (x.registry.settle x.now p o).get p.key = x.registry.get p.key := by
        rw [Registry.get, Registry.breakers_settle_of_over _ _ hera, htouches.config]
        rfl
      have hclose := (h.become htouches (b := l.breaker) (by rw [hsame, h.breaker])).close name
      rw [hkeep] at hclose
      rw [Line.act_finish_none hnone]
      exact ⟨rfl, hclose⟩

theorem observe (h : Serves x key d l) :
    (x.act key .observe).2 = (l.act .observe).2 ∧
      Serves (x.act key .observe).1 key d (l.act .observe).1 := by
  have hlook : l.breaker.refresh l.now = ((x.registry.get key).refresh x.now).shift d := by
    rw [h.breaker, h.now, refresh_shift]
  have hcircuit : (x.registry.observe x.now key).2 = (l.breaker.refresh l.now).circuit := by
    rw [Registry.circuit_observe, hlook]
    rfl
  refine ⟨congrArg Answer.circuit hcircuit,
    h.become (Registry.touches_observe x.registry x.now key) ?_⟩
  rw [Registry.get_observe, if_pos rfl]
  exact hlook

theorem look (h : Serves x key d l) :
    (x.act key .look).2 = (l.act .look).2 ∧
      Serves (x.act key .look).1 key d (l.act .look).1 := by
  have hlook : l.breaker.refresh l.now = ((x.registry.get key).refresh x.now).shift d := by
    rw [h.breaker, h.now, refresh_shift]
  have hput := h.put ((x.registry.get key).refresh x.now)
  rw [← hlook] at hput
  exact ⟨congrArg Answer.circuit (congrArg Breaker.circuit hlook).symm, hput⟩

theorem count (h : Serves x key d l) :
    (x.act key .count).2 = (l.act .count).2 ∧
      Serves (x.act key .count).1 key d (l.act .count).1 := by
  have hput := h.put (x.registry.get key)
  rw [← h.breaker] at hput
  exact ⟨congrArg Answer.failures (congrArg Breaker.failures h.breaker).symm, hput⟩

theorem resetBreaker (h : Serves x key d l) :
    Serves (x.act key .resetBreaker).1 key d (l.act .resetBreaker).1 := by
  have hput := h.put (x.registry.get key).reset
  rw [← reset_shift, ← h.breaker] at hput
  exact hput

/-- Where there is no breaker to reset, the epochs of the line begin one later from now on. -/
theorem reset (h : Serves x key d l) (hx : x.Sound config) :
    ∃ d, Serves (x.act key .reset).1 key d (l.act .reset).1 := by
  cases hb : x.registry.breakers.get? key with
  | some b =>
    have hreset : x.registry.reset key = x.registry.put key (x.registry.get key).reset := by
      rw [Registry.reset, hb, Registry.get_of_get? _ _ hb]
    have hact : x.act key .reset = x.act key .resetBreaker :=
      congrArg (fun r => ({ x with registry := r }, Answer.done)) hreset
    exact ⟨d, hact ▸ h.resetBreaker⟩
  | none =>
    have hreset : x.registry.reset key = x.registry := by rw [Registry.reset, hb]
    have hnew : x.registry.get key = { key, config := x.registry.config } := by
      rw [Registry.get, hb, Option.getD_none]
    have hact : x.act key .reset = (x, .done) :=
      congrArg (fun r => ({ x with registry := r }, Answer.done)) hreset
    -- no call in flight carries an epoch of the line
    have hnone (name : Nat) : x.live key name = none := by
      refine Option.map_eq_none_iff.2 (Option.filter_eq_none_iff.2 fun p hp => ?_)
      obtain ⟨-, -, hthere⟩ := hx.calls key name p hp
      rw [hb] at hthere
      simpa using hthere
    rw [hact]
    refine ⟨d + 1, h.now, ?_, fun name => ?_⟩
    · have hepoch : 0 + d + 1 = 0 + (d + 1) := rfl
      simp only [Line.act, h.breaker, hnew, Breaker.reset, shift, hepoch]
    · have hcall := h.calls name
      rw [hnone] at hcall ⊢
      exact hcall

theorem act (h : Serves x key d l) (hx : x.Sound config) (a : Act) :
    (x.act key a).2 = (l.act a).2 ∧ ∃ d, Serves (x.act key a).1 key d (l.act a).1 := by
  have hsame (hs : (x.act key a).2 = (l.act a).2 ∧ Serves (x.act key a).1 key d (l.act a).1) :
      (x.act key a).2 = (l.act a).2 ∧ ∃ d, Serves (x.act key a).1 key d (l.act a).1 :=
    hs.imp_right fun hs => ⟨d, hs⟩
  cases a with
  | call name => exact hsame (h.call name)
  | finish name o => exact hsame (h.finish hx name o)
  | observe => exact hsame h.observe
  | look => exact hsame h.look
  | count => exact hsame h.count
  | reset => exact ⟨rfl, h.reset hx⟩
  | resetBreaker => exact hsame ⟨rfl, h.resetBreaker⟩

/-- A line that is put up when all breakers are dropped serves any key: the calls in flight are
from breakers that were dropped. -/
theorem renew (hx : x.Sound config) (key : String) :
    Serves (x.apply .resetAll).1 key 0 (Line.new key config x.now) := by
  refine ⟨rfl, ?_, fun name => ?_⟩
  · rw [← hx.tame.tuning]
    rfl
  · have hnone : (x.apply .resetAll).1.live key name = none := by
      refine Option.map_eq_none_iff.2 (Option.filter_eq_none_iff.2 fun p hp => ?_)
      obtain ⟨-, hera, -⟩ := hx.calls key name p hp
      have hlt : p.era < x.registry.resetAll.era := by
        rw [Registry.era_resetAll]
        exact Nat.lt_succ_of_le hera
      exact fun he => Nat.ne_of_lt hlt (of_decide_eq_true he)
    rw [hnone]
    rfl

/-- A step that concerns the key is answered alike, and leaves the two alike. -/
theorem apply (h : Serves x key d l) (hx : x.Sound config) {step : Step}
    (hstep : step.concerns key) :
    (x.apply step).2 = (l.apply step).2 ∧ ∃ d, Serves (x.apply step).1 key d (l.apply step).1 := by
  cases step with
  | wait ms =>
    have hnow : l.now + ms = x.now + ms := congrArg (· + ms) h.now
    exact ⟨rfl, d, hnow, h.breaker, h.calls⟩
  | act k a =>
    obtain rfl : k = key := by simpa [Step.concerns] using hstep
    exact h.act hx a
  | resetAll =>
    have hb := hx.tame.breakers key
    have hline : (l.apply .resetAll).1 = Line.new key config x.now := by
      rw [Line.apply, h.now, h.breaker]
      exact congrArg₂ (Line.new · · x.now) hb.key hb.config
    rw [hline]
    exact ⟨rfl, 0, renew hx key⟩

/-- In every run of an exchange, the steps that concern a key are answered as a line answers them
on which nothing else happens. -/
theorem heard_eq (h : Serves x key d l) (hx : x.Sound config) (steps : List Step) :
    heard Exchange.apply key x steps =
      heard Line.apply key l (steps.filter (·.concerns key)) := by
  induction steps generalizing x d l with
  | nil => rfl
  | cons step steps ih =>
    cases hstep : step.concerns key with
    | true =>
      obtain ⟨hanswer, d, hnext⟩ := h.apply hx hstep
      rw [List.filter_cons_of_pos hstep]
      simp only [heard, hstep, if_true]
      rw [hanswer, ih hnext (hx.apply step)]
    | false =>
      obtain ⟨k, a, rfl, hne⟩ : ∃ k a, step = .act k a ∧ k ≠ key := by
        cases step with
        | act k a => exact ⟨k, a, rfl, by simpa [Step.concerns] using hstep⟩
        | _ => cases hstep
      rw [List.filter_cons_of_neg (by rw [hstep]; exact Bool.false_ne_true)]
      simp only [heard, hstep]
      exact ih (h.elsewhere hx hne a) (hx.act k a)

end Serves

theorem serves_new (config : Config) (now : Nat) (key : String) :
    Serves (Exchange.new config now) key 0 (Line.new key config now) :=
  ⟨rfl, rfl, fun _ => rfl⟩

end TurnEngine.Breaker
