import TurnEngine.Proofs.Breaker.Line

/-!
# Breakers that outlive their keys

A registry forgets its breakers when all of them are reset, yet a call in flight keeps hold of the
breaker that let it through, and tells that very breaker how it ended. A `Heap` has every breaker
that was ever made, by number; keys and calls in flight refer to breakers by their numbers, and a
new breaker may have the key of an older one. `Keeps.apply` sets a heap beside an exchange, which
knows eras and no numbers: the heap answers every step as the exchange does.

The invariant that carries it says that no two keys have the same number and no number is given
twice, so the breaker of a call in flight is that of its key, or that of no key (`SameCall`).

`keys_apart_run` collects what follows for the keys of a registry.
-/

namespace TurnEngine.Breaker

/-- All breakers ever made, by number, the numbers of the keys, the time, and the calls in flight
with the numbers of the breakers that let them through. -/
structure Heap where
  config : Config
  now : Nat
  breakers : Nat → Breaker
  /-- How many breakers were made. -/
  made : Nat := 0
  numbers : Table Nat := {}
  calls : String × Nat → Option (Nat × Admission) := fun _ => none

namespace Heap

/-- An empty heap without calls. -/
def new (config : Config) (now : Nat) : Heap :=
  { config, now, breakers := fun _ => { key := "", config } }

/-- A new breaker for a key. -/
def make (r : Heap) (key : String) : Heap :=
  { r with
    breakers := Function.update r.breakers r.made { key, config := r.config }
    made := r.made + 1
    numbers := r.numbers.insert key r.made }

/-- The number of the breaker of a key, which is made if there is none. -/
def get (r : Heap) (key : String) : Heap × Nat :=
  match r.numbers.get? key with
  | some n => (r, n)
  | none => (r.make key, r.made)

/-- A breaker becomes another one. -/
def set (r : Heap) (n : Nat) (b : Breaker) : Heap :=
  { r with breakers := Function.update r.breakers n b }

/-- Something is done on a key. -/
def act (r : Heap) (key : String) : Act → Heap × Answer
  | .call name =>
    let (r, n) := r.get key
    match (r.breakers n).request r.now with
    | (b, .ok a) =>
      ({ r.set n b with calls := Function.update r.calls (key, name) (some (n, a)) }, .admitted)
    | (b, .error f) => (r.set n b, .refused f)
  | .finish name o =>
    match r.calls (key, name) with
    | some (n, a) =>
      ({ r.set n ((r.breakers n).settle r.now a o) with
          calls := Function.update r.calls (key, name) none }, .done)
    | none => (r, .done)
  | .observe =>
    match r.numbers.get? key with
    | some n =>
      let (b, circuit) := (r.breakers n).observe r.now
      (r.set n b, .circuit circuit)
    | none => (r, .circuit .closed)
  | .look =>
    let (r, n) := r.get key
    let (b, circuit) := (r.breakers n).observe r.now
    (r.set n b, .circuit circuit)
  | .count =>
    let (r, n) := r.get key
    (r, .failures (r.breakers n).failures)
  | .reset =>
    match r.numbers.get? key with
    | some n => (r.set n (r.breakers n).reset, .done)
    | none => (r, .done)
  | .resetBreaker =>
    let (r, n) := r.get key
    (r.set n (r.breakers n).reset, .done)

/-- One step. -/
def apply (r : Heap) : Step → Heap × Answer
  | .wait ms => ({ r with now := r.now + ms }, .done)
  | .act key a => r.act key a
  | .resetAll => ({ r with numbers := {} }, .done)

variable {r : Heap} {key : String}

theorem act_call_ok {b : Breaker} {a : Admission}
    (h : ((r.get key).1.breakers (r.get key).2).request (r.get key).1.now = (b, .ok a))
    (name : Nat) : r.act key (.call name) =
      ({ (r.get key).1.set (r.get key).2 b with
          calls := Function.update (r.get key).1.calls (key, name) (some ((r.get key).2, a)) },
        .admitted) := by
  simp [act, h]

theorem act_call_error {b : Breaker} {f : Failure}
    (h : ((r.get key).1.breakers (r.get key).2).request (r.get key).1.now = (b, .error f))
    (name : Nat) :
    r.act key (.call name) = ((r.get key).1.set (r.get key).2 b, .refused f) := by
  simp [act, h]

theorem act_finish {name : Nat} {c : Nat × Admission} (h : r.calls (key, name) = some c)
    (o : Outcome) : r.act key (.finish name o) =
      ({ r.set c.1 ((r.breakers c.1).settle r.now c.2 o) with
          calls := Function.update r.calls (key, name) none }, .done) := by
  simp [act, h]

theorem act_finish_none {name : Nat} (h : r.calls (key, name) = none) (o : Outcome) :
    r.act key (.finish name o) = (r, .done) := by
  simp [act, h]

/-- A breaker that stays as it is. -/
theorem set_self (r : Heap) (n : Nat) : r.set n (r.breakers n) = r :=
  congrArg (fun breakers => { r with breakers }) (Function.update_eq_self n r.breakers)

/-- A new breaker has the next number. -/
theorem numbers_make (r : Heap) (key other : String) (b : Breaker) :
    ((r.make key).set r.made b).numbers.get? other =
      if other = key then some r.made else r.numbers.get? other :=
  Table.get?_insert r.numbers key other r.made

theorem breakers_make (r : Heap) (key : String) (b : Breaker) :
    ((r.make key).set r.made b).breakers = Function.update r.breakers r.made b :=
  Function.update_idem ..

end Heap

/-- A call in flight on a key, as an exchange and as a heap has it: the heap's breaker is that of
the key, or was forgotten. -/
structure SameCall (x : Exchange) (r : Heap) (key : String) (p : Pass) (c : Nat × Admission) :
    Prop where
  admission : c.2 = p.admission
  made : c.1 < r.made
  own : ∀ other, r.numbers.get? other = some c.1 → other = key
  current : r.numbers.get? key = some c.1 ↔ p.era = x.registry.era

/-- A call in flight is from an older breaker than one that is made. -/
theorem SameCall.make {x : Exchange} {r : Heap} {key k : String} {p : Pass} {c : Nat × Admission}
    (h : SameCall x r key p c) (hn : r.numbers.get? k = none) (b : Breaker) :
    SameCall { x with registry := x.registry.put k b } ((r.make k).set r.made b) key p c := by
  have hne : r.made ≠ c.1 := Nat.ne_of_gt h.made
  refine ⟨h.admission, Nat.lt_succ_of_lt h.made, fun other hother => ?_, ?_⟩
  · rw [Heap.numbers_make] at hother
    split at hother
    · exact absurd (Option.some.inj hother) hne
    · exact h.own other hother
  · rw [Heap.numbers_make]
    split
    · rename_i hk
      have hcurrent := h.current
      rw [hk, hn] at hcurrent
      rw [Option.some.injEq]
      exact ⟨fun he => absurd he hne, fun he => absurd (hcurrent.2 he) nofun⟩
    · exact h.current

/-- A heap has the breakers of a registry, and more (module doc). -/
structure Keeps (x : Exchange) (r : Heap) : Prop where
  now : r.now = x.now
  config : r.config = x.registry.config
  breakers : ∀ key, x.registry.breakers.get? key = (r.numbers.get? key).map r.breakers
  made : ∀ key n, r.numbers.get? key = some n → n < r.made
  apart : ∀ key other n, r.numbers.get? key = some n → r.numbers.get? other = some n → other = key
  calls : ∀ key name p, x.calls (key, name) = some p →
    ∃ c, r.calls (key, name) = some c ∧ SameCall x r key p c
  noCalls : ∀ key name, x.calls (key, name) = none → r.calls (key, name) = none

namespace Keeps

variable {x : Exchange} {r : Heap} {config : Config} {key : String}

/-- The breaker of a key, in a heap where it was made if there was none. -/
theorem breakers_get (h : Keeps x r) (key : String) :
    (r.get key).1.breakers (r.get key).2 = x.registry.get key := by
  unfold Heap.get Registry.get
  rw [h.breakers]
  cases hn : r.numbers.get? key with
  | some n => rfl
  | none =>
    rw [Option.map_none, Option.getD_none, ← h.config]
    exact Function.update_self _ _ _

theorem numbers_get (r : Heap) (key : String) :
    (r.get key).1.numbers.get? key = some (r.get key).2 := by
  unfold Heap.get
  cases hn : r.numbers.get? key with
  | some n => exact hn
  | none => exact (Table.get?_insert ..).trans (if_pos rfl)

theorem now_get (r : Heap) (key : String) : (r.get key).1.now = r.now := by
  unfold Heap.get
  split <;> rfl

/-- The breaker of a key that has one becomes another one. -/
theorem set (h : Keeps x r) {n : Nat} (hn : r.numbers.get? key = some n) (b : Breaker) :
    Keeps { x with registry := x.registry.put key b } (r.set n b) := by
  refine ⟨h.now, h.config, fun other => ?_, h.made, h.apart, fun other name p hp => ?_, h.noCalls⟩
  · show (x.registry.put key b).breakers.get? other =
      (r.numbers.get? other).map (Function.update r.breakers n b)
    rw [Registry.get?_put]
    split
    · rename_i hk
      rw [hk, hn, Option.map_some, Function.update_self]
    · rename_i hk
      rw [h.breakers]
      refine Option.map_congr fun m hm => (Function.update_of_ne ?_ b r.breakers).symm
      rintro rfl
      exact hk (h.apart key other m hn hm)
  · obtain ⟨c, hc, hsame⟩ := h.calls other name p hp
    exact ⟨c, hc, hsame.admission, hsame.made, hsame.own, hsame.current⟩

/-- Only breakers of eras that are over change. -/
theorem of_past (h : Keeps x r) {reg : Registry} (hreg : Registry.Touches key x.registry reg)
    (hbreakers : reg.breakers = x.registry.breakers) : Keeps { x with registry := reg } r := by
  refine ⟨h.now, h.config.trans hreg.config.symm, fun other => ?_, h.made, h.apart,
    fun other name p hp => ?_, h.noCalls⟩
  · exact hbreakers.symm ▸ h.breakers other
  · obtain ⟨c, hc, hsame⟩ := h.calls other name p hp
    exact ⟨c, hc, hsame.admission, hsame.made, hsame.own, hreg.era.symm ▸ hsame.current⟩

/-- A breaker is made for a key that has none. -/
theorem make (h : Keeps x r) (hn : r.numbers.get? key = none) (b : Breaker) :
    Keeps { x with registry := x.registry.put key b } ((r.make key).set r.made b) := by
  -- the number is above all that were given before
  have hfresh {other : String} {n : Nat} (hother : r.numbers.get? other = some n) : n < r.made :=
    h.made other n hother
  refine ⟨h.now, h.config, fun other => ?_, fun other n hother => ?_, fun k other n hk hother => ?_,
    fun other name p hp => ?_, h.noCalls⟩
  · rw [Heap.numbers_make, Heap.breakers_make]
    refine (Registry.get?_put x.registry key b other).trans ?_
    split
    · rw [Option.map_some, Function.update_self]
    · rw [h.breakers]
      refine Option.map_congr fun m hm => (Function.update_of_ne ?_ b r.breakers).symm
      exact Nat.ne_of_lt (hfresh hm)
  · rw [Heap.numbers_make] at hother
    split at hother
    · cases hother
      exact Nat.lt_succ_self _
    · exact Nat.lt_succ_of_lt (hfresh hother)
  · rw [Heap.numbers_make] at hk hother
    split at hk <;> split at hother
    · rename_i hk' hother'
      exact hother'.trans hk'.symm
    · cases hk
      exact absurd (hfresh hother) (Nat.lt_irrefl _)
    · cases hother
      exact absurd (hfresh hk) (Nat.lt_irrefl _)
    · exact h.apart k other n hk hother
  · obtain ⟨c, hc, hsame⟩ := h.calls other name p hp
    exact ⟨c, hc, hsame.make hn b⟩

/-- The breaker of a key, made if there is none, becomes another one. -/
theorem put (h : Keeps x r) (key : String) (b : Breaker) :
    Keeps { x with registry := x.registry.put key b } ((r.get key).1.set (r.get key).2 b) := by
  unfold Heap.get
  cases hn : r.numbers.get? key with
  | some n => exact h.set hn b
  | none => exact h.make hn b

/-- A breaker that no key has any more becomes another one. -/
theorem setForgotten (h : Keeps x r) {n : Nat} (hn : ∀ key, r.numbers.get? key ≠ some n)
    (b : Breaker) : Keeps x (r.set n b) := by
  refine ⟨h.now, h.config, fun key => ?_, h.made, h.apart, fun key name p hp => ?_, h.noCalls⟩
  · rw [h.breakers]
    refine Option.map_congr fun m hm => (Function.update_of_ne ?_ b r.breakers).symm
    rintro rfl
    exact hn key hm
  · obtain ⟨c, hc, hsame⟩ := h.calls key name p hp
    exact ⟨c, hc, hsame.admission, hsame.made, hsame.own, hsame.current⟩

/-- A name on a key gets a call on both sides, or none. -/
theorem rename (h : Keeps x r) (key : String) (name : Nat) {q : Option Pass}
    {e : Option (Nat × Admission)}
    (hsome : ∀ p, q = some p → ∃ c, e = some c ∧ SameCall x r key p c)
    (hnone : q = none → e = none) :
    Keeps { x with calls := Function.update x.calls (key, name) q }
      { r with calls := Function.update r.calls (key, name) e } := by
  refine ⟨h.now, h.config, h.breakers, h.made, h.apart, fun other m p hp => ?_,
    fun other m hm => ?_⟩
  · dsimp only at hp ⊢
    rw [Function.update_apply] at hp ⊢
    split at hp <;> rename_i hpair
    · rw [Prod.mk.injEq] at hpair
      obtain ⟨c, hc, hsame⟩ := hsome p hp
      obtain ⟨rfl, rfl⟩ := hpair
      exact ⟨c, (if_pos rfl).trans hc, hsame.admission, hsame.made, hsame.own, hsame.current⟩
    · obtain ⟨c, hc, hsame⟩ := h.calls other m p hp
      exact ⟨c, (if_neg hpair).trans hc, hsame.admission, hsame.made, hsame.own, hsame.current⟩
  · dsimp only at hm ⊢
    rw [Function.update_apply] at hm ⊢
    split at hm <;> rename_i hpair
    · exact (if_pos hpair).trans (hnone hm)
    · exact (if_neg hpair).trans (h.noCalls other m hm)

/-- The breaker of a key lets a call through. -/
theorem grant (h : Keeps x r) {n : Nat} (hn : r.numbers.get? key = some n) (name : Nat)
    (a : Admission) :
    Keeps
      { x with calls := Function.update x.calls (key, name) (some ⟨key, x.registry.era, a⟩) }
      { r with calls := Function.update r.calls (key, name) (some (n, a)) } := by
  refine h.rename key name (fun p hp => ?_) nofun
  cases hp
  exact ⟨(n, a), rfl, rfl, h.made key n hn, fun other ho => h.apart key other n hn ho,
    fun _ => rfl, fun _ => hn⟩

/-- A call is in flight no more. -/
theorem close (h : Keeps x r) (key : String) (name : Nat) :
    Keeps { x with calls := Function.update x.calls (key, name) none }
      { r with calls := Function.update r.calls (key, name) none } :=
  h.rename key name nofun fun _ => rfl

/-! ### Step by step -/

open Exchange

theorem call (h : Keeps x r) (key : String) (name : Nat) :
    (r.act key (.call name)).2 = (x.act key (.call name)).2 ∧
      Keeps (x.act key (.call name)).1 (r.act key (.call name)).1 := by
  rcases hb : (x.registry.get key).request x.now with ⟨b, f | a⟩
  all_goals
    have hput := h.put key b
    have hheap := hb
    rw [← h.breakers_get key, ← h.now, ← now_get r key] at hheap
  · rw [act_call_error hb, Heap.act_call_error hheap]
    exact ⟨rfl, hput⟩
  · rw [act_call_ok hb, Heap.act_call_ok hheap]
    exact ⟨rfl, hput.grant (numbers_get r key) name a⟩

theorem finish (h : Keeps x r) (hx : x.Sound config) (key : String) (name : Nat) (o : Outcome) :
    (r.act key (.finish name o)).2 = (x.act key (.finish name o)).2 ∧
      Keeps (x.act key (.finish name o)).1 (r.act key (.finish name o)).1 := by
  cases hp : x.calls (key, name) with
  | none =>
    rw [act_finish_none hp, Heap.act_finish_none (h.noCalls key name hp)]
    exact ⟨rfl, h⟩
  | some p =>
    obtain ⟨rfl, -, hthere⟩ := hx.calls key name p hp
    obtain ⟨⟨n, a⟩, hc, hsame⟩ := h.calls p.key name p hp
    obtain rfl : a = p.admission := hsame.admission
    rw [act_finish hp, Heap.act_finish hc]
    by_cases hera : p.era = x.registry.era
    · have hn : r.numbers.get? p.key = some n := hsame.current.2 hera
      have hb : x.registry.breakers.get? p.key = some (r.breakers n) := by
        rw [h.breakers, hn, Option.map_some]
      have hsettle : x.registry.settle x.now p o =
          x.registry.put p.key ((r.breakers n).settle r.now p.admission o) := by
        rw [Registry.settle_of_present _ _ hera hb, h.now]
      rw [hsettle]
      exact ⟨rfl, (h.set hn _).close p.key name⟩
    · have hforgotten (key : String) : r.numbers.get? key ≠ some n := fun hk => by
        obtain rfl := hsame.own key hk
        exact hera (hsame.current.1 hk)
      have hkeeps := h.of_past (Registry.touches_settle x.registry x.now p o)
        (Registry.breakers_settle_of_over _ _ hera o)
      exact ⟨rfl, (hkeeps.setForgotten hforgotten _).close p.key name⟩

theorem observe (h : Keeps x r) (key : String) :
    (r.act key .observe).2 = (x.act key .observe).2 ∧
      Keeps (x.act key .observe).1 (r.act key .observe).1 := by
  unfold Heap.act Exchange.act Registry.observe
  dsimp only
  rw [h.breakers]
  cases hn : r.numbers.get? key with
  | none => exact ⟨rfl, h⟩
  | some n =>
    dsimp only [Option.map_some]
    rw [h.now]
    exact ⟨rfl, h.set hn _⟩

theorem look (h : Keeps x r) (key : String) :
    (r.act key .look).2 = (x.act key .look).2 ∧
      Keeps (x.act key .look).1 (r.act key .look).1 := by
  have hput := h.put key ((x.registry.get key).observe x.now).1
  unfold Heap.act Exchange.act
  dsimp only
  rw [h.breakers_get key, now_get r key, h.now]
  exact ⟨rfl, hput⟩

theorem count (h : Keeps x r) (key : String) :
    (r.act key .count).2 = (x.act key .count).2 ∧
      Keeps (x.act key .count).1 (r.act key .count).1 := by
  have hput := h.put key (x.registry.get key)
  rw [← h.breakers_get key, Heap.set_self] at hput
  refine ⟨congrArg (fun b : Breaker => Answer.failures b.failures) (h.breakers_get key), ?_⟩
  rw [h.breakers_get key] at hput
  exact hput

theorem reset (h : Keeps x r) (key : String) :
    (r.act key .reset).2 = (x.act key .reset).2 ∧
      Keeps (x.act key .reset).1 (r.act key .reset).1 := by
  unfold Heap.act Exchange.act Registry.reset
  dsimp only
  rw [h.breakers]
  cases hn : r.numbers.get? key with
  | none => exact ⟨rfl, h⟩
  | some n => exact ⟨rfl, h.set hn _⟩

theorem resetBreaker (h : Keeps x r) (key : String) :
    (r.act key .resetBreaker).2 = (x.act key .resetBreaker).2 ∧
      Keeps (x.act key .resetBreaker).1 (r.act key .resetBreaker).1 := by
  have hput := h.put key (x.registry.get key).reset
  unfold Heap.act Exchange.act
  dsimp only
  rw [h.breakers_get key]
  exact ⟨rfl, hput⟩

/-- When all breakers are reset, no key has a number any more, and no call in flight is from a
breaker of the registry. -/
theorem resetAll (h : Keeps x r) (hx : x.Sound config) :
    Keeps (x.apply .resetAll).1 (r.apply .resetAll).1 := by
  refine ⟨h.now, h.config, fun _ => rfl, nofun, nofun, fun key name p hp => ?_, h.noCalls⟩
  obtain ⟨c, hc, hsame⟩ := h.calls key name p hp
  obtain ⟨-, hera, -⟩ := hx.calls key name p hp
  have hlt : p.era < x.registry.resetAll.era := by
    rw [Registry.era_resetAll]
    exact Nat.lt_succ_of_le hera
  exact ⟨c, hc, hsame.admission, hsame.made, nofun, nofun,
    fun he => absurd he (Nat.ne_of_lt hlt)⟩

theorem apply (h : Keeps x r) (hx : x.Sound config) (step : Step) :
    (r.apply step).2 = (x.apply step).2 ∧ Keeps (x.apply step).1 (r.apply step).1 := by
  cases step with
  | wait ms =>
    have hnow : r.now + ms = x.now + ms := congrArg (· + ms) h.now
    refine ⟨rfl, hnow, h.config, h.breakers, h.made, h.apart, fun key name p hp => ?_, h.noCalls⟩
    obtain ⟨c, hc, hsame⟩ := h.calls key name p hp
    exact ⟨c, hc, hsame.admission, hsame.made, hsame.own, hsame.current⟩
  | resetAll => exact ⟨rfl, h.resetAll hx⟩
  | act key a =>
    cases a with
    | call name => exact h.call key name
    | finish name o => exact h.finish hx key name o
    | observe => exact h.observe key
    | look => exact h.look key
    | count => exact h.count key
    | reset => exact h.reset key
    | resetBreaker => exact h.resetBreaker key

/-- A heap answers every run as an exchange does. -/
theorem heard_eq (h : Keeps x r) (hx : x.Sound config) (key : String) (steps : List Step) :
    heard Heap.apply key r steps = heard Exchange.apply key x steps := by
  induction steps generalizing x r with
  | nil => rfl
  | cons step steps ih =>
    obtain ⟨hanswer, hnext⟩ := h.apply hx step
    simp only [heard, hanswer, ih hnext (hx.apply step)]

end Keeps

theorem keeps_new (config : Config) (now : Nat) :
    Keeps (Exchange.new config now) (Heap.new config now) :=
  ⟨rfl, rfl, fun _ => rfl, nofun, nofun, nofun, fun _ _ _ => rfl⟩

/-! ## Keys apart -/

/-- The keys of a registry, after any run from its making and in any run. What is answered on a key
is what would be answered if nothing had happened on the other ones. From the moment when all
breakers are reset it is what a breaker answers that was made at that moment and has no calls,
whatever becomes of the calls in flight. A look at a key that was never used shows a closed circuit
and changes nothing. And a registry that has each call in flight tell its outcome to the very
breaker that let it through, forgotten or not, gives the same answers. -/
theorem keys_apart_run (config : Config) (start : Nat) (steps : List Step) (key : String) :
    let new := Exchange.new config start
    let x := new.run steps
    heard Exchange.apply key new steps =
        heard Exchange.apply key new (steps.filter (·.concerns key)) ∧
      (∀ later, heard Exchange.apply key (x.apply .resetAll).1 later =
        heard Line.apply key (Line.new key config x.now) (later.filter (·.concerns key))) ∧
      ((∀ step ∈ steps, step.uses key = false) → x.act key .observe = (x, .circuit .closed)) ∧
      heard Heap.apply key (Heap.new config start) steps = heard Exchange.apply key new steps := by
  intro new x
  have hnew : new.Sound config := Exchange.sound_new config start
  have hx : x.Sound config := Exchange.sound_run hnew steps
  refine ⟨?_, fun later => ?_, fun hunused => ?_, ?_⟩
  · have hserves := serves_new config start key
    rw [hserves.heard_eq hnew, hserves.heard_eq hnew, List.filter_filter]
    simp only [Bool.and_self]
  · exact (Serves.renew hx key).heard_eq (hx.apply .resetAll) later
  · exact Exchange.observe_of_unused (hnew.unused_run rfl steps hunused)
  · exact (keeps_new config start).heard_eq hnew key steps

/-- Two calls are in flight when the circuit of their key has opened and all breakers are reset.
Then one of them fails and the other one is dropped; the new breaker is closed all the while, and
opens at a failure of its own. -/
theorem keys_apart_run_late_failure :
    let config : Config := { failureThreshold := 1 }
    let steps : List Step := [.act "a" (.call 0), .act "a" (.call 1), .act "a" (.call 2),
      .act "a" (.finish 0 .failure), .act "b" .observe]
    let x := (Exchange.new config 0).run steps
    let later : List Step := [.act "a" (.finish 1 .failure), .act "b" (.call 0), .act "a" .observe,
      .act "a" (.finish 2 .dropped), .act "a" (.call 3), .act "a" (.finish 3 .failure),
      .act "a" .observe]
    x.act "b" .observe = (x, .circuit .closed) ∧
      heard Exchange.apply "a" x [.act "a" .observe] = [.circuit .tripped] ∧
      heard Exchange.apply "a" (x.apply .resetAll).1 later =
        [.done, .circuit .closed, .done, .admitted, .done, .circuit .tripped] := by
  intro config steps x later
  obtain ⟨-, hfresh, -, -⟩ := keys_apart_run config 0 steps "a"
  obtain ⟨-, -, hunused, -⟩ := keys_apart_run config 0 steps "b"
  exact ⟨hunused (by decide), by decide +kernel, (hfresh later).trans (by decide +kernel)⟩

end TurnEngine.Breaker
