import TurnEngine.Proofs.Breaker.Window

/-!
# Looking at a breaker

A look at a circuit is no mere reading: the breaker of an open circuit whose timeout is over
becomes half-open, and its count of probes starts again at zero. Yet nobody but the looker can
tell. `looks_unseen` puts looks into a run wherever one likes and finds every reply, every failure
count, the calls in flight and the clock as they are without them.

The proof compares two traffics by what a look would make of them (`looked`). An operation answers
a traffic and the looked at one alike, and leaves the two the same again for the next look
(`apply_looked`). The one case with an argument is the end of a call: ends do not refresh a
breaker, so the one side is still open where the other one is half-open already. No call in flight
carries the epoch of an open circuit, hence the end counts on neither side.
-/

namespace TurnEngine.Breaker

/-- A look is lost in a later one. -/
theorem refresh_refresh (b : Breaker) {now later : Nat} (h : now ≤ later) :
    (b.refresh now).refresh later = b.refresh later := by
  obtain hb | ⟨hc, hdue, hb⟩ := refresh_cases b now
  · rw [hb]
  · have hlater : (b.openFor later).all (fun elapsed => b.config.resetTimeoutMs.toNat ≤ elapsed)
        = true := by
      cases ho : b.openedAt with
      | none => simp [openFor, ho]
      | some opened =>
        have helapsed := hdue opened ho
        simp only [openFor, ho, Option.map_some, Option.all_some, decide_eq_true_eq]
        omega
    rw [hb]
    simp [refresh, hc, hlater]

theorem request_refresh (b : Breaker) (now : Nat) :
    (b.refresh now).request now = b.request now := by
  unfold request
  rw [refresh_refresh b (Nat.le_refl now)]

namespace Traffic

/-- The traffic after a look. -/
def looked (t : Traffic) : Traffic :=
  (t.apply .observe).1

/-- A look leaves a traffic alone, or finds an open circuit whose timeout is over. -/
theorem looked_cases (t : Traffic) :
    t.looked = t ∨
      t.breaker.circuit = .tripped ∧ (t.breaker.refresh t.now).circuit = .halfOpen ∧
        t.breaker.refresh t.now = { t.breaker with circuit := .halfOpen, probes := 0 } ∧
        t.looked = { t with breaker := t.breaker.refresh t.now } := by
  obtain hb | ⟨hc, -, hb⟩ := refresh_cases t.breaker t.now
  · left
    have hsame : t.looked = t.become t.breaker := congrArg t.become hb
    rw [hsame, become, if_neg fun h => h.2 h.1]
  · right
    have hhalf : (t.breaker.refresh t.now).circuit = .halfOpen := by rw [hb]
    have hkept : ¬ ((t.breaker.refresh t.now).circuit = .tripped ∧
        t.breaker.circuit ≠ .tripped) := fun h => h.2 hc
    exact ⟨hc, hhalf, hb, by simp [looked, Traffic.apply, Breaker.observe, become, hkept]⟩

theorem looked_eq (t : Traffic) :
    t.looked = { t with breaker := t.breaker.refresh t.now } := by
  obtain he | ⟨-, -, -, he⟩ := looked_cases t
  · have hb : t.breaker.refresh t.now = t.breaker := congrArg Traffic.breaker he
    rw [he, hb]
  · exact he

theorem looked_looked (t : Traffic) : t.looked.looked = t.looked := by
  rw [looked_eq t, looked_eq, refresh_refresh t.breaker (Nat.le_refl t.now)]

theorem looked_with_calls (t : Traffic) (calls : List Call) :
    ({ t.looked with calls } : Traffic).looked = ({ t with calls } : Traffic).looked := by
  simp only [looked_eq, refresh_refresh t.breaker (Nat.le_refl t.now)]

theorem failures_looked (t : Traffic) : t.looked.breaker.failures = t.breaker.failures := by
  rw [looked_eq]
  exact failures_refresh t.breaker t.now

theorem looked_wait (t : Traffic) (ms : Nat) :
    (t.looked.apply (.wait ms)).1.looked = (t.apply (.wait ms)).1.looked := by
  simp only [looked_eq, Traffic.apply]
  rw [refresh_refresh t.breaker (Nat.le_add_right t.now ms)]

/-- A traffic whose breaker a look would make half-open, beside the looked at one: what makes both
breakers the same one, half-open or closed, makes them the same traffic. -/
theorem become_looked {t : Traffic} (hc : t.breaker.circuit = .tripped)
    (hlooked : t.looked = { t with breaker := t.breaker.refresh t.now }) {b : Breaker}
    (hb : b.circuit ≠ .tripped) : t.looked.become b = t.become b := by
  rw [hlooked]
  simp [become, hb, hc]

/-- An operation does not notice a look that was made before it, and one made after it does away
with the difference. -/
theorem apply_looked {t : Traffic} (ht : t.Sound) (op : Op) :
    (t.looked.apply op).2 = (t.apply op).2 ∧
      (t.looked.apply op).1.looked = (t.apply op).1.looked := by
  obtain he | ⟨hc, hhalf, hb, he⟩ := looked_cases t
  · rw [he]
    exact ⟨rfl, rfl⟩
  have hnow : t.looked.now = t.now := by rw [he]
  have hbreaker : t.looked.breaker = t.breaker.refresh t.now := by rw [he]
  cases op with
  | wait ms => exact ⟨rfl, looked_wait t ms⟩
  | call =>
    have hrequest : t.looked.breaker.request t.looked.now = t.breaker.request t.now := by
      rw [hbreaker, hnow, request_refresh]
    have hsame : t.looked.become (t.breaker.request t.now).1 =
        t.become (t.breaker.request t.now).1 :=
      become_looked hc he (by rw [circuit_request, hhalf]; decide)
    simp [Traffic.apply, hrequest, hsame]
  | finish n o =>
    have hcall : t.looked.call? n = t.call? n := by rw [he]; rfl
    cases hn : t.call? n with
    | none =>
      rw [apply_finish_none hn, apply_finish_none (hcall.trans hn), looked_looked]
      simp [Traffic.apply, hn, hcall]
    | some c =>
      obtain ⟨hmem, -⟩ := mem_of_call? hn
      have hfacts : TrippedFacts t.breaker t.now t.calls := ht.standing.factsOf hc
      have hpast := hfacts.calls c hmem
      have hkept : t.breaker.settle t.now c.admission o = t.breaker := settle_of_epoch_ne hpast _ o
      have hkept' : t.looked.breaker.settle t.looked.now c.admission o = t.looked.breaker :=
        settle_of_epoch_ne (by rw [hbreaker, hb]; exact hpast) _ o
      refine ⟨by simp [Traffic.apply, hn, hcall], ?_⟩
      have hcalls : t.looked.calls = t.calls := by rw [he]
      rw [apply_finish hn, apply_finish (hcall.trans hn), hkept, hkept', become_self, become_self,
        hcalls]
      exact looked_with_calls t _
  | observe =>
    have hagain := refresh_refresh t.breaker (Nat.le_refl t.now)
    refine ⟨by simp [Traffic.apply, Breaker.observe, hbreaker, hnow, hagain], ?_⟩
    exact looked_looked t.looked
  | reset =>
    have hreset : t.looked.breaker.reset = t.breaker.reset := by
      rw [hbreaker, hb]
      rfl
    have hsame := become_looked hc he (b := t.breaker.reset) fun h => by cases h
    simp [Traffic.apply, hreset, hsame]

/-! ## Runs with looks in between -/

/-- What is learnt from the operations of a run, with the failure count after each. A step `none`
is a look that somebody puts in between; what it shows is left out. -/
def answers (t : Traffic) : List (Option Op) → List (Reply × Nat)
  | [] => []
  | none :: steps => t.looked.answers steps
  | some op :: steps =>
    let later := (t.apply op).1
    ((t.apply op).2, later.breaker.failures) :: later.answers steps

/-- All the operations of a run, the looks in between included. -/
def withLooks (steps : List (Option Op)) : List Op :=
  steps.map (·.getD .observe)

theorem Sound.looked {t : Traffic} (h : t.Sound) : t.looked.Sound := h.apply .observe

/-- Two traffics that a look makes the same answer the same, and end the same for the next look,
whatever further looks are put into the run of the one. -/
theorem answers_of_looked_eq {t t' : Traffic} (ht : t.Sound) (ht' : t'.Sound)
    (h : t.looked = t'.looked) (steps : List (Option Op)) :
    t.answers steps = t'.answers (steps.filter (·.isSome)) ∧
      (t.run (withLooks steps)).looked = (t'.run (steps.filterMap id)).looked := by
  induction steps generalizing t t' with
  | nil => exact ⟨rfl, h⟩
  | cons step steps ih =>
    cases step with
    | none => exact ih ht.looked ht' ((looked_looked t).trans h)
    | some op =>
      obtain ⟨hreply, hstate⟩ := apply_looked ht op
      obtain ⟨hreply', hstate'⟩ := apply_looked ht' op
      rw [h] at hreply hstate
      have hnext : (t.apply op).1.looked = (t'.apply op).1.looked := hstate.symm.trans hstate'
      obtain ⟨hanswers, hend⟩ := ih (ht.apply op) (ht'.apply op) hnext
      have hcount : (t.apply op).1.breaker.failures = (t'.apply op).1.breaker.failures := by
        rw [← failures_looked, hnext, failures_looked]
      refine ⟨?_, hend⟩
      simp [answers, ← hreply, hreply', hcount, hanswers]

/-- Looks at a breaker, put anywhere into any run of it, change none of the other replies and none
of the failure counts after them; at the end the calls in flight and the clock are the same, and so
is the breaker as it is seen from then on. -/
theorem looks_unseen (key : String) (config : Config) (start : Nat) (steps : List (Option Op)) :
    let t := new key config start
    let watched := t.run (withLooks steps)
    let alone := t.run (steps.filterMap id)
    t.answers steps = t.answers (steps.filter (·.isSome)) ∧
      watched.calls = alone.calls ∧ watched.now = alone.now ∧
      watched.breaker.failures = alone.breaker.failures ∧
      ∀ later ≥ watched.now, watched.breaker.refresh later = alone.breaker.refresh later := by
  intro t watched alone
  have ht := sound_new key config start
  obtain ⟨hanswers, hend⟩ := answers_of_looked_eq ht ht rfl steps
  have hfailures := failures_looked watched
  rw [show watched.looked = alone.looked from hend, failures_looked] at hfailures
  rw [looked_eq, looked_eq, Traffic.mk.injEq] at hend
  obtain ⟨hseen, hnow, hcalls, -, -⟩ := hend
  refine ⟨hanswers, hcalls, hnow, hfailures.symm, fun later hlater => ?_⟩
  rw [← refresh_refresh watched.breaker hlater, hseen,
    refresh_refresh alone.breaker (hnow ▸ hlater)]

/-- A look turns an open circuit half-open in time for the end of a call from before; without it,
the next admission does. -/
theorem looks_unseen_late_end :
    let t := new "target" { failureThreshold := 1, resetTimeoutMs := 10 } 0
    let steps : List (Option Op) := [some .call, some .call, some (.finish 0 .failure),
      some (.wait 10), none, some (.finish 1 .failure), some .call, some (.finish 2 .failure)]
    t.answers steps = t.answers (steps.filter (·.isSome)) ∧
      (t.run (withLooks steps)).breaker.refresh 20 =
        (t.run (steps.filterMap id)).breaker.refresh 20 := by
  intro t steps
  obtain ⟨hanswers, -, -, -, hseen⟩ :=
    looks_unseen "target" { failureThreshold := 1, resetTimeoutMs := 10 } 0 steps
  exact ⟨hanswers, hseen 20 (by decide +kernel)⟩

/-- A look at an open circuit whose timeout is over is written down in the breaker, while an
ordinary call from before the opening is still in flight. -/
example :
    let t := new "target" { failureThreshold := 1, resetTimeoutMs := 10 } 0
    let ops : List Op := [.call, .call, .finish 0 .failure, .wait 10]
    (t.run (ops ++ [.observe, .finish 1 .failure])).breaker.circuit = .halfOpen ∧
      (t.run (ops ++ [.finish 1 .failure])).breaker.circuit = .tripped := by
  decide +kernel

end Traffic

end TurnEngine.Breaker
