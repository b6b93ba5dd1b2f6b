import TurnEngine.Proofs.Breaker.Late

/-!
# Failures in a row

When a circuit opens is a matter of what callers could write down themselves. A `Streak` keeps,
beside the traffic of a breaker, how the ordinary calls ended that were let through since the
circuit was last closed afresh (made, reset, or closed by a probe), in the order in which they
ended; it knows nothing of epochs. While the circuit is closed the failure count is the number of
failures after the last success among these outcomes, and the circuit opens exactly at the failure
that brings this number to the limit (`opens_at_limit_run`).

The invariant that carries it (`Streak.Sound`): while the circuit is closed, an ordinary call in
flight has the breaker's epoch exactly if the streak counts it. `settle_of_circuit_closed` says
what the end of a call does to a closed circuit, in terms of the epoch.
-/

namespace TurnEngine.Breaker

/-- The failures after the last success; calls that were cancelled or dropped do not matter. -/
def failuresInRow (outcomes : List Outcome) : Nat :=
  (outcomes.reverse.takeWhile (· ≠ .success)).count .failure

theorem failuresInRow_success (outcomes : List Outcome) :
    failuresInRow (outcomes ++ [.success]) = 0 := by
  simp [failuresInRow]

theorem failuresInRow_failure (outcomes : List Outcome) :
    failuresInRow (outcomes ++ [.failure]) = failuresInRow outcomes + 1 := by
  simp [failuresInRow]

theorem failuresInRow_of_neutral (outcomes : List Outcome) {o : Outcome}
    (ho : o = .cancelled ∨ o = .dropped) :
    failuresInRow (outcomes ++ [o]) = failuresInRow outcomes := by
  rcases ho with rfl | rfl <;> simp [failuresInRow]

/-! ## Closed circuits -/

variable {b : Breaker}

section
variable (hc : b.circuit = .closed)
include hc

theorem refresh_of_circuit_closed (now : Nat) : b.refresh now = b := by
  obtain hb | ⟨htripped, -, -⟩ := refresh_cases b now
  · exact hb
  · rw [hc] at htripped
    cases htripped

theorem request_of_circuit_closed (now : Nat) :
    b.request now = (b, .ok ⟨false, b.epoch⟩) := by
  unfold request
  rw [refresh_of_circuit_closed hc]
  simp only [hc]

theorem isCurrent_of_circuit_closed (a : Admission) :
    b.isCurrent a = true ↔ a.probe = false ∧ a.epoch = b.epoch := by
  simp only [isCurrent, hc, Bool.and_eq_true, decide_eq_true_eq, Bool.not_eq_eq_eq_not,
    Bool.not_true]
  exact ⟨fun h => ⟨h.2, h.1.symm⟩, fun h => ⟨h.2.symm, h.1⟩⟩

/-- The end of a call leaves a closed circuit alone unless it is a success or a failure of an
ordinary call of its epoch: the one clears the count, the other one raises it and opens the circuit
at the limit. -/
theorem settle_of_circuit_closed (hb : ClosedFacts b) (now : Nat) (a : Admission) (o : Outcome) :
    b.settle now a o =
      if a.probe = false ∧ a.epoch = b.epoch then
        match o with
        | .success => b.close
        | .failure =>
          if b.failures + 1 = b.failureLimit then { b with failures := b.failures + 1 }.trip now
          else { b with failures := b.failures + 1 }
        | _ => b
      else b := by
  have hnext : b.nextFailures = b.failures + 1 := by
    have hbelow := hb.failures
    have hlimit := failureLimit_le b
    unfold nextFailures
    omega
  have hbelow := hb.failures
  have hcurrent := isCurrent_of_circuit_closed hc a
  have hcases := settle_cases b now a o
  dsimp only at hcases
  rw [releaseProbe_of_closedFacts hb a, hnext] at hcases
  split
  · rename_i hcounts
    rw [← hcurrent] at hcounts
    obtain ⟨hneutral, he⟩ | ⟨-, ⟨rfl, he⟩ | ⟨rfl, hfailed⟩⟩ := hcases
    · rcases hneutral with rfl | rfl | hstale
      · exact he
      · exact he
      · rw [hcounts] at hstale
        cases hstale
    · exact he
    · obtain ⟨-, hlt, he⟩ | ⟨-, hle, he⟩ | ⟨hhalf, -⟩ := hfailed
      · exact he.trans (if_neg (Nat.ne_of_lt hlt)).symm
      · exact he.trans (if_pos (Nat.le_antisymm hbelow hle)).symm
      · rw [hc] at hhalf
        cases hhalf
  · rename_i hstale
    rw [← hcurrent] at hstale
    obtain ⟨-, he⟩ | ⟨hlive, -⟩ := hcases
    · exact he
    · exact absurd hlive hstale

end

/-! ## Circuits that close -/

theorem circuit_refresh_closed (b : Breaker) (now : Nat) :
    (b.refresh now).circuit = .closed ↔ b.circuit = .closed := by
  obtain hb | ⟨hc, -, hb⟩ := refresh_cases b now <;> rw [hb]
  rw [hc]
  exact iff_of_false nofun nofun

theorem failures_refresh (b : Breaker) (now : Nat) : (b.refresh now).failures = b.failures := by
  obtain hb | ⟨-, -, hb⟩ := refresh_cases b now <;> rw [hb]

theorem circuit_request (b : Breaker) (now : Nat) :
    (b.request now).1.circuit = (b.refresh now).circuit := by
  obtain ⟨f, he⟩ | ⟨-, he⟩ | ⟨-, -, he⟩ := request_cases b now <;> rw [he]

/-- Only a success that counts in a half-open circuit closes it. -/
theorem settle_closing {now : Nat} {a : Admission} {o : Outcome} (hc : b.circuit ≠ .closed)
    (hclosed : (b.settle now a o).circuit = .closed) :
    o = .success ∧ b.circuit = .halfOpen ∧ (b.settle now a o).failures = 0 := by
  have hcircuit : (b.releaseProbe a).circuit = b.circuit := by rw [releaseProbe_eq]
  obtain ⟨-, he⟩ | ⟨hlive, ⟨ho, he⟩ | ⟨-, hfailed⟩⟩ := settle_cases b now a o
  · rw [he, hcircuit] at hclosed
    exact absurd hclosed hc
  · refine ⟨ho, ?_, by rw [he]; rfl⟩
    rw [isCurrent, hcircuit] at hlive
    cases hb : b.circuit with
    | closed => exact absurd hb hc
    | tripped => simp [hb] at hlive
    | halfOpen => rfl
  · obtain ⟨hb, -⟩ | ⟨hb, -⟩ | ⟨-, he⟩ := hfailed
    · exact absurd (hcircuit ▸ hb) hc
    · exact absurd (hcircuit ▸ hb) hc
    · rw [he] at hclosed
      cases hclosed

namespace Traffic

variable {t : Traffic}

theorem call?_of_mem (h : t.Sound) {c : Call} (hc : c ∈ t.calls) : t.call? c.number = some c :=
  Keyed.find?_of_mem h.numbers hc

theorem apply_finish {n : Nat} {c : Call} (hc : t.call? n = some c) (o : Outcome) :
    (t.apply (.finish n o)).1 =
      { t.become (t.breaker.settle t.now c.admission o) with
        calls := t.calls.filter fun d => d.number ≠ n } := by
  simp [Traffic.apply, hc]

theorem apply_finish_none {n : Nat} (hn : t.call? n = none) (o : Outcome) :
    (t.apply (.finish n o)).1 = t := by
  simp [Traffic.apply, hn]

theorem breaker_call (t : Traffic) :
    (t.apply .call).1.breaker = (t.breaker.request t.now).1 := by
  unfold Traffic.apply
  dsimp only
  split <;> rfl

theorem breaker_finish {n : Nat} {c : Call} (hc : t.call? n = some c) (o : Outcome) :
    (t.apply (.finish n o)).1.breaker = t.breaker.settle t.now c.admission o := by
  rw [apply_finish hc]
  rfl

/-- Only the end of a call can move a breaker whose circuit is closed, resets apart. -/
theorem apply_of_circuit_closed (hc : t.breaker.circuit = .closed) {op : Op} (hop : op ≠ .reset)
    (hfinish : ∀ n o, op ≠ .finish n o) : (t.apply op).1.breaker = t.breaker := by
  cases op with
  | wait ms => rfl
  | call => rw [breaker_call, request_of_circuit_closed hc]
  | finish n o => exact absurd rfl (hfinish n o)
  | observe => exact refresh_of_circuit_closed hc t.now
  | reset => exact absurd rfl hop

/-- Resets apart, only the success of a probe closes a circuit. -/
theorem closing {op : Op} (hop : op ≠ .reset) (hc : t.breaker.circuit ≠ .closed)
    (hclosed : (t.apply op).1.breaker.circuit = .closed) :
    ∃ n c, op = .finish n .success ∧ t.call? n = some c ∧ t.breaker.circuit = .halfOpen ∧
      (t.apply op).1.breaker.failures = 0 := by
  cases op with
  | wait ms => exact absurd hclosed hc
  | call =>
    rw [breaker_call, circuit_request, circuit_refresh_closed] at hclosed
    exact absurd hclosed hc
  | finish n o =>
    cases hcall : t.call? n with
    | none =>
      rw [apply_finish_none hcall] at hclosed
      exact absurd hclosed hc
    | some c =>
      rw [breaker_finish hcall] at hclosed ⊢
      obtain ⟨rfl, hhalf, hfailures⟩ := settle_closing hc hclosed
      exact ⟨n, c, rfl, hcall, hhalf, hfailures⟩
  | observe => exact absurd ((circuit_refresh_closed _ _).1 hclosed) hc
  | reset => exact absurd rfl hop

/-- The failure count stays, goes up by one unless it is at its largest, or is cleared by a reset or
a success. -/
theorem failures_apply (t : Traffic) (op : Op) :
    let n := (t.apply op).1.breaker.failures
    n = t.breaker.failures ∨ n = t.breaker.nextFailures ∨
      n = 0 ∧ (op = .reset ∨ ∃ k, op = .finish k .success) := by
  dsimp only
  cases op with
  | wait ms => exact .inl rfl
  | call =>
    rw [breaker_call]
    refine .inl ?_
    rw [← failures_refresh t.breaker t.now]
    obtain ⟨f, he⟩ | ⟨-, he⟩ | ⟨-, -, he⟩ := request_cases t.breaker t.now <;> rw [he]
  | finish n o =>
    cases hcall : t.call? n with
    | none => exact .inl (by rw [apply_finish_none hcall])
    | some c =>
      have hrelease : (t.breaker.releaseProbe c.admission).failures = t.breaker.failures := by
        rw [releaseProbe_eq]
      have hnext : (t.breaker.releaseProbe c.admission).nextFailures = t.breaker.nextFailures := by
        rw [nextFailures, hrelease, nextFailures]
      rw [breaker_finish hcall]
      obtain ⟨-, he⟩ | ⟨-, ⟨rfl, he⟩ | ⟨-, ⟨-, -, he⟩ | ⟨-, -, he⟩ | ⟨-, he⟩⟩⟩ :=
        settle_cases t.breaker t.now c.admission o <;> rw [he]
      · exact .inl hrelease
      · exact .inr (.inr ⟨rfl, .inr ⟨n, rfl⟩⟩)
      · exact .inr (.inl hnext)
      · exact .inr (.inl hnext)
      · exact .inr (.inl hnext)
  | observe => exact .inl (failures_refresh t.breaker t.now)
  | reset => exact .inr (.inr ⟨rfl, .inl rfl⟩)

end Traffic

/-! ## Streaks -/

open Traffic (Op)

/-- The traffic of a breaker, and how calls ended since its circuit was last closed afresh. -/
structure Streak where
  traffic : Traffic
  /-- How many calls had been let through when the circuit was last closed afresh. -/
  fresh : Nat := 0
  /-- How the ordinary calls ended that were let through since then. -/
  outcomes : List Outcome := []

namespace Streak

def new (key : String) (config : Config) (now : Nat) : Streak :=
  { traffic := Traffic.new key config now }

/-- Whether an operation closes the circuit afresh. -/
def renews (t : Traffic) (op : Op) : Bool :=
  op = .reset || t.breaker.circuit ≠ .closed && (t.apply op).1.breaker.circuit = .closed

/-- Whether a call is an ordinary one, let through since the circuit was last closed afresh. -/
def counts (s : Streak) (c : Call) : Bool :=
  !c.admission.probe && s.fresh ≤ c.number

/-- The outcome that an operation brings of a call that counts. -/
def outcome? (s : Streak) : Op → Option Outcome
  | .finish n o => if (s.traffic.call? n).any s.counts then some o else none
  | _ => none

def apply (s : Streak) (op : Op) : Streak :=
  let t := (s.traffic.apply op).1
  if renews s.traffic op then { traffic := t, fresh := t.nextCall }
  else { s with traffic := t, outcomes := s.outcomes ++ (s.outcome? op).toList }

def run (s : Streak) (ops : List Op) : Streak :=
  ops.foldl apply s

/-- What holds after every run. -/
structure Sound (s : Streak) : Prop where
  traffic : s.traffic.Sound
  fresh_le : s.fresh ≤ s.traffic.nextCall
  current : s.traffic.breaker.circuit = .closed → ∀ c ∈ s.traffic.calls,
    c.admission.probe = false →
      (s.fresh ≤ c.number ↔ c.admission.epoch = s.traffic.breaker.epoch)
  failures : s.traffic.breaker.circuit = .closed →
    s.traffic.breaker.failures = failuresInRow s.outcomes

variable {s : Streak}

theorem sound_new (key : String) (config : Config) (now : Nat) : (new key config now).Sound where
  traffic := Traffic.sound_new key config now
  fresh_le := Nat.le_refl _
  current := by simp [new, Traffic.new]
  failures := fun _ => rfl

theorem traffic_apply (s : Streak) (op : Op) :
    (s.apply op).traffic = (s.traffic.apply op).1 := by
  unfold apply
  dsimp only
  split <;> rfl

/-- In a closed circuit the streak counts the calls of the epoch. -/
theorem Sound.counts_iff (h : s.Sound) (hc : s.traffic.breaker.circuit = .closed) {c : Call}
    (hmem : c ∈ s.traffic.calls) :
    s.counts c = true ↔
      c.admission.probe = false ∧ c.admission.epoch = s.traffic.breaker.epoch := by
  simp only [counts, Bool.and_eq_true, Bool.not_eq_eq_eq_not, Bool.not_true, decide_eq_true_eq]
  exact and_congr_right fun hp => h.current hc c hmem hp

theorem Sound.settle_eq (h : s.Sound) (hc : s.traffic.breaker.circuit = .closed) {c : Call}
    (hmem : c ∈ s.traffic.calls) (now : Nat) (o : Outcome) :
    let b := s.traffic.breaker
    b.settle now c.admission o =
      if s.counts c then
        match o with
        | .success => b.close
        | .failure =>
          if b.failures + 1 = b.failureLimit then { b with failures := b.failures + 1 }.trip now
          else { b with failures := b.failures + 1 }
        | _ => b
      else b :=
  (settle_of_circuit_closed hc (h.traffic.standing.factsOf hc) now c.admission o).trans
    (if_congr (h.counts_iff hc hmem).symm rfl rfl)

/-- No ordinary call in flight has the epoch of a circuit that was just closed afresh. -/
theorem epoch_ne_of_renews {t : Traffic} (h : t.Sound) {op : Op} (hop : renews t op = true)
    {c : Call} (hc : c ∈ (t.apply op).1.calls) (hp : c.admission.probe = false) :
    c.admission.epoch ≠ (t.apply op).1.breaker.epoch := by
  by_cases hreset : op = .reset
  · subst hreset
    have := h.standing.past c hc
    show c.admission.epoch ≠ t.breaker.epoch + 1
    omega
  · simp only [renews, hreset, decide_false, Bool.false_or, Bool.and_eq_true,
      decide_eq_true_eq] at hop
    obtain ⟨n, c', rfl, hcall, hhalf, -⟩ := Traffic.closing hreset hop.1 hop.2
    have hages := Traffic.ages_apply t hreset
    rw [Ages, if_neg (by simp [hop.2])] at hages
    rw [Traffic.apply_finish hcall] at hc
    have hfacts : HalfOpenFacts t.breaker t.now t.calls := h.standing.factsOf hhalf
    intro he
    have := hfacts.calls c (List.mem_of_mem_filter hc) (he.trans hages.1)
    rw [hp] at this
    cases this

theorem Sound.renew (h : s.Sound) {op : Op} (hop : renews s.traffic op = true) :
    (s.apply op).Sound := by
  have hsound := h.traffic.apply op
  have happly : s.apply op =
      { traffic := (s.traffic.apply op).1, fresh := (s.traffic.apply op).1.nextCall } := by
    unfold apply
    exact if_pos hop
  rw [happly]
  refine ⟨hsound, Nat.le_refl _, fun _ c hc hp => ?_, fun _ => ?_⟩
  · refine iff_of_false ?_ (epoch_ne_of_renews h.traffic hop hc hp)
    exact Nat.not_le_of_lt (hsound.issued c hc)
  · by_cases hreset : op = .reset
    · subst hreset
      rfl
    · simp only [renews, hreset, decide_false, Bool.false_or, Bool.and_eq_true,
        decide_eq_true_eq] at hop
      obtain ⟨-, -, -, -, -, hfailures⟩ := Traffic.closing hreset hop.1 hop.2
      exact hfailures

/-- What an operation makes of the failure count of a closed circuit that stays closed. -/
theorem Sound.failures_apply (h : s.Sound) (hc : s.traffic.breaker.circuit = .closed) {op : Op}
    (hop : op ≠ .reset) (hclosed : (s.traffic.apply op).1.breaker.circuit = .closed) :
    (s.traffic.apply op).1.breaker.failures =
      failuresInRow (s.outcomes ++ (s.outcome? op).toList) := by
  have hbefore := h.failures hc
  have hsame (hb : (s.traffic.apply op).1.breaker = s.traffic.breaker)
      (ho : s.outcome? op = none) : (s.traffic.apply op).1.breaker.failures =
        failuresInRow (s.outcomes ++ (s.outcome? op).toList) := by
    rw [hb, ho, hbefore]
    simp
  cases op with
  | finish n o =>
    cases hcall : s.traffic.call? n with
    | none =>
      exact hsame (by rw [Traffic.apply_finish_none hcall]) (by simp [outcome?, hcall])
    | some c =>
      obtain ⟨hmem, rfl⟩ := Traffic.mem_of_call? hcall
      have hsettle := h.settle_eq hc hmem s.traffic.now o
      dsimp only at hsettle
      rw [Traffic.breaker_finish hcall] at hclosed ⊢
      by_cases hcount : s.counts c = true
      · rw [if_pos hcount] at hsettle
        rw [show s.outcome? (.finish c.number o) = some o by simp [outcome?, hcall, hcount]]
        rw [hsettle] at hclosed ⊢
        cases o with
        | success => exact (failuresInRow_success _).symm
        | failure =>
          dsimp only at hclosed ⊢
          split at hclosed
          · cases hclosed
          · rename_i hbelow
            rw [if_neg hbelow]
            exact (congrArg (· + 1) hbefore).trans (failuresInRow_failure _).symm
        | cancelled => exact hbefore.trans (failuresInRow_of_neutral _ (.inl rfl)).symm
        | dropped => exact hbefore.trans (failuresInRow_of_neutral _ (.inr rfl)).symm
      · rw [if_neg hcount] at hsettle
        rw [show s.outcome? (.finish c.number o) = none by simp [outcome?, hcall, hcount], hsettle,
          hbefore]
        simp
  | reset => exact absurd rfl hop
  | _ => exact hsame (Traffic.apply_of_circuit_closed hc hop (fun _ _ => nofun)) rfl

theorem Sound.keep (h : s.Sound) {op : Op} (hop : renews s.traffic op = false) :
    (s.apply op).Sound := by
  have hsound := h.traffic.apply op
  have hle := Traffic.nextCall_apply s.traffic op
  have hfresh := h.fresh_le
  have happly : s.apply op =
      { s with traffic := (s.traffic.apply op).1,
               outcomes := s.outcomes ++ (s.outcome? op).toList } := by
    unfold apply
    exact if_neg (by simp [hop])
  -- a circuit that is closed now was closed before
  have hbefore : (s.traffic.apply op).1.breaker.circuit = .closed →
      op ≠ .reset ∧ s.traffic.breaker.circuit = .closed := by
    intro hclosed
    simp only [renews, Bool.or_eq_false_iff, decide_eq_false_iff_not, hclosed, decide_true,
      Bool.and_true, ne_eq, not_not] at hop
    exact hop
  rw [happly]
  refine ⟨hsound, Nat.le_trans hfresh hle, fun hclosed c hc hp => ?_, fun hclosed => ?_⟩
  · obtain ⟨hreset, hwas⟩ := hbefore hclosed
    have hages := Traffic.ages_apply s.traffic hreset
    have hopen : (s.traffic.apply op).1.breaker.circuit ≠ .tripped := by
      dsimp only at hclosed
      simp [hclosed]
    rw [Ages, if_neg fun ho => hopen ho.2] at hages
    obtain hold | ⟨hnew, -, he⟩ := Traffic.epoch_of_let_through hc
    · dsimp only
      rw [hages.1]
      exact h.current hwas c hold hp
    · exact iff_of_true (hnew ▸ hfresh) he
  · obtain ⟨hreset, hwas⟩ := hbefore hclosed
    exact h.failures_apply hwas hreset hclosed

theorem sound_run (h : s.Sound) (ops : List Op) : (s.run ops).Sound := by
  induction ops generalizing s with
  | nil => exact h
  | cons op ops ih =>
    refine ih (s := s.apply op) ?_
    cases hop : renews s.traffic op with
    | true => exact h.renew hop
    | false => exact h.keep hop

/-! ## Openings -/

/-- A closed circuit opens exactly at a failure that counts and brings the failures in a row to the
limit. -/
theorem Sound.opens_iff (h : s.Sound) (hc : s.traffic.breaker.circuit = .closed) (op : Op) :
    (s.traffic.apply op).1.breaker.circuit = .tripped ↔
      ∃ n c, op = .finish n .failure ∧ s.traffic.call? n = some c ∧ s.counts c = true ∧
        failuresInRow (s.outcomes ++ [.failure]) = s.traffic.breaker.failureLimit := by
  rw [failuresInRow_failure, ← h.failures hc]
  constructor
  · intro hopen
    by_cases hfinish : ∃ n o, op = .finish n o
    · obtain ⟨n, o, rfl⟩ := hfinish
      cases hcall : s.traffic.call? n with
      | none =>
        rw [Traffic.apply_finish_none hcall, hc] at hopen
        cases hopen
      | some c =>
        rw [Traffic.breaker_finish hcall,
          h.settle_eq hc (Traffic.mem_of_call? hcall).1 s.traffic.now o] at hopen
        split at hopen
        · rename_i hcounts
          cases o with
          | failure =>
            dsimp only at hopen
            split at hopen
            · rename_i hlimit
              exact ⟨n, c, rfl, hcall, hcounts, hlimit⟩
            · exact absurd (hc.symm.trans hopen) nofun
          | success => cases hopen
          | cancelled => exact absurd (hc.symm.trans hopen) nofun
          | dropped => exact absurd (hc.symm.trans hopen) nofun
        · exact absurd (hc.symm.trans hopen) nofun
    · by_cases hreset : op = .reset
      · subst hreset
        cases hopen
      · rw [Traffic.apply_of_circuit_closed hc hreset fun n o ho => hfinish ⟨n, o, ho⟩, hc] at hopen
        cases hopen
  · rintro ⟨n, c, rfl, hcall, hcounts, hlimit⟩
    rw [Traffic.breaker_finish hcall, h.settle_eq hc (Traffic.mem_of_call? hcall).1,
      if_pos hcounts]
    dsimp only
    rw [if_pos hlimit]
    rfl

theorem traffic_run (s : Streak) (ops : List Op) : (s.run ops).traffic = s.traffic.run ops := by
  induction ops generalizing s with
  | nil => rfl
  | cons op ops ih => exact (ih (s.apply op)).trans (by rw [traffic_apply]; rfl)

theorem failures_le_run (t : Traffic) (ht : t.breaker.failures ≤ maxFailures) (ops : List Op) :
    (t.run ops).breaker.failures ≤ maxFailures := by
  induction ops generalizing t with
  | nil => exact ht
  | cons op ops ih =>
    refine ih (t.apply op).1 ?_
    obtain hn | hn | ⟨hn, -⟩ := Traffic.failures_apply t op <;> rw [hn]
    · exact ht
    · exact Nat.min_le_right ..
    · exact Nat.zero_le _

/-- After any run: what the failure count of a closed circuit counts, when the circuit opens, and
how the count moves. -/
theorem opens_at_limit_run (key : String) (config : Config) (start : Nat) (ops : List Op) :
    let s := (new key config start).run ops
    let b := s.traffic.breaker
    (b.circuit = .closed → b.failures = failuresInRow s.outcomes) ∧
    (∀ op, b.circuit = .closed ∧ (s.apply op).traffic.breaker.circuit = .tripped ↔
      b.circuit = .closed ∧ ∃ n c, op = .finish n .failure ∧ s.traffic.call? n = some c ∧
        c.admission.probe = false ∧ s.fresh ≤ c.number ∧
        failuresInRow (s.outcomes ++ [.failure]) = max 1 config.failureThreshold.toNat) ∧
    b.failures ≤ maxFailures ∧
    ∀ op, (s.apply op).traffic.breaker.failures = b.failures ∨
      (s.apply op).traffic.breaker.failures = min (b.failures + 1) maxFailures ∨
      (s.apply op).traffic.breaker.failures = 0 ∧
        (op = .reset ∨ ∃ k, op = .finish k .success) := by
  have h : ((new key config start).run ops).Sound := sound_run (sound_new key config start) ops
  have htraffic := traffic_run (new key config start) ops
  have hlimit : ((new key config start).run ops).traffic.breaker.failureLimit
      = max 1 config.failureThreshold.toNat := by
    rw [failureLimit, htraffic, Traffic.config_run]
    rfl
  have hle : ((new key config start).run ops).traffic.breaker.failures ≤ maxFailures := by
    rw [htraffic]
    exact failures_le_run _ (Nat.zero_le _) ops
  generalize (new key config start).run ops = s at h hlimit hle ⊢
  dsimp only
  refine ⟨h.failures, fun op => and_congr_right fun hc => ?_, hle, fun op => ?_⟩
  · rw [traffic_apply, h.opens_iff hc op, hlimit]
    simp [counts, and_assoc]
  · rw [traffic_apply]
    exact Traffic.failures_apply s.traffic op

/-- The circuit opens, a probe closes it, and it opens again: probe 3 fails late, call 4 counts,
call 5 is cancelled, and call 6 is the failure that brings two in a row. -/
theorem opens_at_limit_run_twice :
    let config : Config := { failureThreshold := 2, resetTimeoutMs := 10, halfOpenMaxProbes := 2 }
    let ops : List Op := [.call, .call, .finish 0 .failure, .finish 1 .failure, .wait 10, .call,
      .call, .finish 2 .success, .finish 3 .failure, .call, .call, .call, .finish 4 .failure,
      .finish 5 .cancelled]
    let s := (new "target" config 0).run ops
    s.traffic.breaker.circuit = .closed ∧ s.outcomes = [.failure, .cancelled] ∧
      s.traffic.breaker.failures = failuresInRow s.outcomes ∧
      (s.apply (.finish 6 .failure)).traffic.breaker.circuit = .tripped := by
  intro config ops s
  have hrun := opens_at_limit_run "target" config 0 ops
  have hclosed : s.traffic.breaker.circuit = .closed := by decide +kernel
  have hcall : s.traffic.call? 6 = some ⟨6, ⟨false, 1⟩⟩ := by decide +kernel
  have houtcomes : s.outcomes = [.failure, .cancelled] := by decide +kernel
  have hfresh : s.fresh ≤ 6 := by decide +kernel
  have hlimit : failuresInRow (s.outcomes ++ [.failure]) = max 1 config.failureThreshold.toNat := by
    decide +kernel
  -- the run is not to be evaluated again
  rw [show (new "target" config 0).run ops = s from rfl] at hrun
  clear_value s
  obtain ⟨hcount, hopens, -, -⟩ := hrun
  have hopen := (hopens (.finish 6 .failure)).2 ⟨hclosed, 6, _, rfl, hcall, rfl, hfresh, hlimit⟩
  exact ⟨hclosed, houtcomes, hcount hclosed, hopen.2⟩

end Streak

end TurnEngine.Breaker
