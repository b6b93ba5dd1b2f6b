import TurnEngine.Proofs.Breaker.Traffic

/-!
# Ends that come too late

A call can outlive the circuit that let it through: the circuit opens or is reset while the call is
in flight, or another probe closes the half-open circuit that the call was to test. A `Watch` keeps
beside the traffic of a breaker which calls these are, counted in calls let through, and knows
nothing of epochs. `Watch.timely` leaves the ends of such calls out of a run, and
`late_ends_unseen` says that nobody can tell: two runs with the same timely operations answer every
one of them alike and leave the same breaker behind.

The proof runs a watch beside one in which late calls never end (`Alike`). The invariant that
carries it (`Watch.Sound`) is that a late call has an earlier epoch than the breaker, or is a probe
that finds its circuit closed; either way `settle` gives the breaker back as it was
(`settle_outlived`).
-/

namespace TurnEngine.Breaker

/-! ## Epochs -/

/-- A step that is no reset moves the epoch on exactly when it opens the circuit, and only by
opening it can it leave a closed circuit. -/
def Ages (b b' : Breaker) : Prop :=
  if b.circuit ≠ .tripped ∧ b'.circuit = .tripped then b'.epoch = b.epoch + 1
  else b'.epoch = b.epoch ∧ (b.circuit = .closed → b'.circuit = .closed)

theorem ages_of_same {b b' : Breaker} (hc : b'.circuit = b.circuit) (he : b'.epoch = b.epoch) :
    Ages b b' := by
  unfold Ages
  rw [if_neg (by rw [hc]; exact fun h => h.1 h.2)]
  exact ⟨he, fun h => hc.trans h⟩

theorem ages_refresh (b : Breaker) (now : Nat) : Ages b (b.refresh now) := by
  obtain hb | ⟨hc, -, hb⟩ := refresh_cases b now
  · rw [hb]
    exact ages_of_same rfl rfl
  · simp [Ages, hb, hc]

theorem ages_request (b : Breaker) (now : Nat) : Ages b (b.request now).1 := by
  have h := ages_refresh b now
  obtain ⟨f, he⟩ | ⟨-, he⟩ | ⟨-, -, he⟩ := request_cases b now <;> rw [he]
  · exact h
  · exact h
  · exact h

theorem ages_settle (b : Breaker) (now : Nat) (a : Admission) (o : Outcome) :
    Ages b (b.settle now a o) := by
  have hcircuit : (b.releaseProbe a).circuit = b.circuit := by rw [releaseProbe_eq]
  have hepoch : (b.releaseProbe a).epoch = b.epoch := by rw [releaseProbe_eq]
  have hcurrent : (b.releaseProbe a).isCurrent a = true → b.circuit ≠ .tripped := by
    intro h hc
    simp [isCurrent, hcircuit, hc] at h
  obtain ⟨-, he⟩ | ⟨hlive, ⟨-, he⟩ | ⟨-, hfailed⟩⟩ := settle_cases b now a o
  · rw [he]
    exact ages_of_same hcircuit hepoch
  · rw [he]
    simp [Ages, close, hepoch]
  · obtain ⟨hc, -, he⟩ | ⟨hc, -, he⟩ | ⟨hc, he⟩ := hfailed
    · rw [he]
      exact ages_of_same hcircuit hepoch
    · rw [he]
      simp [Ages, trip, hepoch, hcurrent hlive]
    · rw [he]
      simp [Ages, trip, hepoch, hcurrent hlive]

/-- The end of a call from an earlier epoch changes nothing. -/
theorem settle_of_epoch_ne {b : Breaker} {a : Admission} (h : a.epoch ≠ b.epoch) (now : Nat)
    (o : Outcome) : b.settle now a o = b := by
  have hkeep : b.releaseProbe a = b := by simp [releaseProbe, h.symm]
  have hstale : b.isCurrent a = false := by simp [isCurrent, h.symm]
  have hcases := settle_cases b now a o
  rw [hkeep] at hcases
  obtain ⟨-, he⟩ | ⟨hlive, -⟩ := hcases
  · exact he
  · simp [hstale] at hlive

theorem releaseProbe_of_closedFacts {b : Breaker} (hb : ClosedFacts b) (a : Admission) :
    b.releaseProbe a = b := by
  rw [releaseProbe_eq, show (if a.probe && b.epoch = a.epoch then b.probes - 1 else b.probes)
    = b.probes by simp [hb.probes]]

/-- The end of a probe changes nothing once the circuit is closed. -/
theorem settle_of_closed {b : Breaker} {a : Admission} (hb : ClosedFacts b)
    (hc : b.circuit = .closed) (hp : a.probe = true) (now : Nat) (o : Outcome) :
    b.settle now a o = b := by
  have hstale : b.isCurrent a = false := by simp [isCurrent, hc, hp]
  have hcases := settle_cases b now a o
  rw [releaseProbe_of_closedFacts hb a] at hcases
  obtain ⟨-, he⟩ | ⟨hlive, -⟩ := hcases
  · exact he
  · simp [hstale] at hlive

namespace Traffic

theorem ages_apply (t : Traffic) {op : Op} (hop : op ≠ .reset) :
    Ages t.breaker (t.apply op).1.breaker := by
  cases op with
  | wait ms => exact ages_of_same rfl rfl
  | call =>
    unfold Traffic.apply
    dsimp only
    split <;> exact ages_request t.breaker t.now
  | finish n o =>
    unfold Traffic.apply
    dsimp only
    split
    · exact ages_settle t.breaker t.now _ o
    · exact ages_of_same rfl rfl
  | observe => exact ages_refresh t.breaker t.now
  | reset => exact absurd rfl hop

/-- A call that an operation lets through carries the epoch of the breaker. -/
theorem epoch_of_let_through {t : Traffic} {op : Op} {c : Call} (h : c ∈ (t.apply op).1.calls) :
    c ∈ t.calls ∨ c.number = t.nextCall ∧ (t.apply op).1.nextCall = t.nextCall + 1 ∧
      c.admission.epoch = (t.apply op).1.breaker.epoch := by
  cases op with
  | call =>
    unfold Traffic.apply at h ⊢
    dsimp only at h ⊢
    have hrequest := request_cases t.breaker t.now
    split at h
    · rename_i a ha
      rcases List.mem_append.1 h with h | h
      · exact .inl h
      · cases List.mem_singleton.1 h
        obtain ⟨f, he⟩ | ⟨-, he⟩ | ⟨-, -, he⟩ := hrequest <;> rw [he] at ha ⊢ <;> cases ha <;>
          exact .inr ⟨rfl, rfl, rfl⟩
    · exact .inl h
  | finish n o =>
    unfold Traffic.apply at h
    dsimp only at h
    split at h
    · exact .inl (List.mem_of_mem_filter h)
    · exact .inl h
  | _ => exact .inl h

theorem nextCall_apply (t : Traffic) (op : Op) : t.nextCall ≤ (t.apply op).1.nextCall := by
  cases op with
  | call =>
    unfold Traffic.apply
    dsimp only
    split
    · exact Nat.le_succ _
    · exact Nat.le_refl _
  | finish n o =>
    unfold Traffic.apply
    dsimp only
    split <;> exact Nat.le_refl _
  | _ => exact Nat.le_refl _

/-- Two traffics that an operation treats alike: it changes the calls in flight of both by the same
removal and the same addition. -/
theorem apply_congr {t t' : Traffic} (hbreaker : t'.breaker = t.breaker)
    (hnow : t'.now = t.now) (hnext : t'.nextCall = t.nextCall) (op : Op)
    (hcall : ∀ n o, op = .finish n o → ∃ c, t.call? n = some c ∧ t'.call? n = some c) :
    (t'.apply op).2 = (t.apply op).2 ∧
      (t'.apply op).1.breaker = (t.apply op).1.breaker ∧
      (t'.apply op).1.now = (t.apply op).1.now ∧
      (t'.apply op).1.nextCall = (t.apply op).1.nextCall ∧
      ∃ kept more, (t.apply op).1.calls = t.calls.filter kept ++ more ∧
        (t'.apply op).1.calls = t'.calls.filter kept ++ more := by
  obtain ⟨b, now, calls, next, l⟩ := t
  obtain ⟨b', now', calls', next', l'⟩ := t'
  dsimp only at hbreaker hnow hnext
  subst hbreaker hnow hnext
  have hkeep : ∀ cs : List Call, cs = cs.filter (fun _ => true) ++ [] := by simp
  cases op with
  | wait ms => exact ⟨rfl, rfl, rfl, rfl, _, [], hkeep _, hkeep _⟩
  | call =>
    unfold Traffic.apply
    dsimp only [become]
    generalize b'.request now' = answer
    obtain ⟨b, f | a⟩ := answer
    · exact ⟨rfl, rfl, rfl, rfl, _, [], hkeep _, hkeep _⟩
    · exact ⟨rfl, rfl, rfl, rfl, fun _ => true, [⟨next', a⟩], by simp, by simp⟩
  | finish n o =>
    obtain ⟨c, hc, hc'⟩ := hcall n o rfl
    simp only [Traffic.apply, hc, hc']
    exact ⟨trivial, rfl, rfl, rfl, _, [], (List.append_nil _).symm, (List.append_nil _).symm⟩
  | observe => exact ⟨rfl, rfl, rfl, rfl, _, [], hkeep _, hkeep _⟩
  | reset => exact ⟨rfl, rfl, rfl, rfl, _, [], hkeep _, hkeep _⟩

end Traffic

/-! ## Late calls -/

open Traffic (Op Reply)

/-- The traffic of a breaker, and how many calls were let through by the moments that matter. -/
structure Watch where
  traffic : Traffic
  /-- When the circuit last opened or was reset. -/
  turned : Nat := 0
  /-- When a probe last closed the circuit. -/
  closed : Nat := 0

namespace Watch

/-- A new breaker that is watched. -/
def new (key : String) (config : Config) (now : Nat) : Watch :=
  { traffic := Traffic.new key config now }

/-- Whether an operation opens or resets the circuit. -/
def turns (t : Traffic) (op : Op) : Bool :=
  op = .reset || t.breaker.circuit ≠ .tripped && (t.apply op).1.breaker.circuit = .tripped

/-- Whether an operation is the end of a probe that closes the circuit. -/
def closes (t : Traffic) (op : Op) : Bool :=
  op ≠ .reset && t.breaker.circuit = .halfOpen && (t.apply op).1.breaker.circuit = .closed

/-- One operation. -/
def apply (w : Watch) (op : Op) : Watch where
  traffic := (w.traffic.apply op).1
  turned := if turns w.traffic op then (w.traffic.apply op).1.nextCall else w.turned
  closed := if closes w.traffic op then (w.traffic.apply op).1.nextCall else w.closed

/-- The watch after some operations. -/
def run (w : Watch) (ops : List Op) : Watch :=
  ops.foldl apply w

/-- Whether a call was let through before the circuit last opened or was reset, or is a probe let
through before another one closed the circuit. -/
def outlived (w : Watch) (c : Call) : Bool :=
  c.number < w.turned || c.admission.probe && c.number < w.closed

/-- Whether an operation is the end of a late call, or of no call in flight at all. -/
def isLate (w : Watch) : Op → Bool
  | .finish n _ => (w.traffic.call? n).all w.outlived
  | _ => false

/-- The operations without late ends. -/
def timely (w : Watch) : List Op → List Op
  | [] => []
  | op :: ops => if w.isLate op then (w.apply op).timely ops else op :: (w.apply op).timely ops

/-- What is learnt from each timely operation, with the failure count after it. -/
def answers (w : Watch) : List Op → List (Reply × Nat)
  | [] => []
  | op :: ops =>
    let later := (w.apply op).answers ops
    if w.isLate op then later
    else ((w.traffic.apply op).2, (w.apply op).traffic.breaker.failures) :: later

/-- What holds of the late calls after every run. -/
structure Sound (w : Watch) : Prop where
  traffic : w.traffic.Sound
  turned_le : w.turned ≤ w.traffic.nextCall
  closed_le : w.closed ≤ w.traffic.nextCall
  turned : ∀ c ∈ w.traffic.calls, c.number < w.turned →
    c.admission.epoch ≠ w.traffic.breaker.epoch
  closed : ∀ c ∈ w.traffic.calls, c.admission.probe = true → c.number < w.closed →
    c.admission.epoch = w.traffic.breaker.epoch → w.traffic.breaker.circuit = .closed

variable {w w' : Watch}

theorem sound_new (key : String) (config : Config) (now : Nat) : (new key config now).Sound where
  traffic := Traffic.sound_new key config now
  turned_le := Nat.le_refl _
  closed_le := Nat.le_refl _
  turned := by simp [new, Traffic.new]
  closed := by simp [new, Traffic.new]

theorem turned_le_apply (h : w.turned ≤ w.traffic.nextCall) (op : Op) :
    w.turned ≤ (w.apply op).turned ∧ (w.apply op).turned ≤ (w.apply op).traffic.nextCall := by
  have hle := Traffic.nextCall_apply w.traffic op
  unfold apply
  dsimp only
  split <;> omega

theorem closed_le_apply (h : w.closed ≤ w.traffic.nextCall) (op : Op) :
    w.closed ≤ (w.apply op).closed ∧ (w.apply op).closed ≤ (w.apply op).traffic.nextCall := by
  have hle := Traffic.nextCall_apply w.traffic op
  unfold apply
  dsimp only
  split <;> omega

/-- The epoch moves on with every turn and only then; without a turn a closed circuit stays
closed. -/
theorem epoch_apply (t : Traffic) (op : Op) :
    turns t op = true ∧ (t.apply op).1.breaker.epoch = t.breaker.epoch + 1 ∨
      turns t op = false ∧ (t.apply op).1.breaker.epoch = t.breaker.epoch ∧
        (t.breaker.circuit = .closed → (t.apply op).1.breaker.circuit = .closed) := by
  by_cases hop : op = .reset
  · subst hop
    exact .inl ⟨rfl, rfl⟩
  · have hages := Traffic.ages_apply t hop
    by_cases hopens : t.breaker.circuit ≠ .tripped ∧ (t.apply op).1.breaker.circuit = .tripped
    · rw [Ages, if_pos hopens] at hages
      exact .inl ⟨by simp [turns, hopens.1, hopens.2], hages⟩
    · rw [Ages, if_neg hopens] at hages
      exact .inr ⟨by simpa [turns, hop] using hopens, hages⟩

theorem Sound.apply (h : w.Sound) (op : Op) : (w.apply op).Sound := by
  have hpast : ∀ c ∈ w.traffic.calls, c.admission.epoch ≤ w.traffic.breaker.epoch :=
    h.traffic.standing.past
  have hsound := h.traffic.apply op
  obtain ⟨-, hturned⟩ := turned_le_apply h.turned_le op
  obtain ⟨-, hclosed⟩ := closed_le_apply h.closed_le op
  have hold : ∀ c ∈ (w.traffic.apply op).1.calls, c.number < w.traffic.nextCall →
      c ∈ w.traffic.calls := fun c hc hlt =>
    (Traffic.epoch_of_let_through hc).resolve_right fun hnew => Nat.ne_of_lt hlt hnew.1
  refine ⟨hsound, hturned, hclosed, fun c hc hlate => ?_, fun c hc hp hlate he => ?_⟩
  · obtain ⟨hturns, hepoch⟩ | ⟨hturns, hepoch, -⟩ := epoch_apply w.traffic op
    · by_cases hop : op = .reset
      · subst hop
        have := hpast c hc
        simp only [Watch.apply, hepoch]
        omega
      · have hopen : (w.traffic.apply op).1.breaker.circuit = .tripped := by
          simp [turns, hop] at hturns
          exact hturns.2
        have hfacts : TrippedFacts _ _ _ := hsound.standing.factsOf hopen
        exact hfacts.calls c hc
    · simp only [Watch.apply, hturns, hepoch] at hlate ⊢
      have := h.turned_le
      exact h.turned c (hold c hc (by simp at hlate; omega)) (by simpa using hlate)
  · by_cases hcloses : closes w.traffic op = true
    · simp [closes] at hcloses
      exact hcloses.2
    · simp only [Watch.apply, hcloses] at hlate he ⊢
      have hlt : c.number < w.closed := by simpa using hlate
      have hmem := hold c hc (Nat.lt_of_lt_of_le hlt h.closed_le)
      obtain ⟨-, hepoch⟩ | ⟨-, hepoch, hstays⟩ := epoch_apply w.traffic op
      · have := hpast c hmem
        omega
      · exact hstays (h.closed c hmem hp hlt (he.trans hepoch))

/-! ## A run beside one in which late calls never end -/

theorem settle_outlived (h : w.Sound) {c : Call} (hc : c ∈ w.traffic.calls)
    (hlate : w.outlived c = true) (o : Outcome) :
    w.traffic.breaker.settle w.traffic.now c.admission o = w.traffic.breaker := by
  by_cases he : c.admission.epoch = w.traffic.breaker.epoch
  · -- not late by epoch, so a probe that another one has overtaken
    have hturned : ¬ c.number < w.turned := fun hlt => h.turned c hc hlt he
    have hprobe : c.admission.probe = true ∧ c.number < w.closed := by
      simpa [outlived, hturned] using hlate
    have hcircuit := h.closed c hc hprobe.1 hprobe.2 he
    exact settle_of_closed (h.traffic.standing.factsOf hcircuit) hcircuit hprobe.1 _ o
  · exact settle_of_epoch_ne he _ o

/-- A late end takes a late call out of the traffic at most. -/
theorem Sound.apply_late (h : w.Sound) {op : Op} (hlate : w.isLate op = true) :
    ∃ calls, w.apply op = { w with traffic := { w.traffic with calls := calls } } ∧
      calls.filter (fun c => !w.outlived c) = w.traffic.calls.filter fun c => !w.outlived c := by
  cases op with
  | finish n o =>
    have hended : ∃ calls, (w.traffic.apply (.finish n o)).1 = { w.traffic with calls := calls } ∧
        calls.filter (fun c => !w.outlived c) =
          w.traffic.calls.filter fun c => !w.outlived c := by
      cases hcall : w.traffic.call? n with
      | none => exact ⟨w.traffic.calls, by simp [Traffic.apply, hcall], rfl⟩
      | some c =>
        obtain ⟨hmem, rfl⟩ := Traffic.mem_of_call? hcall
        have hout : w.outlived c = true := by simpa [isLate, hcall] using hlate
        refine ⟨w.traffic.calls.filter fun d => d.number ≠ c.number, ?_, ?_⟩
        · simp [Traffic.apply, hcall, settle_outlived h hmem hout, Traffic.become]
        · rw [List.filter_filter]
          refine List.filter_congr fun d hd => ?_
          by_cases hdc : d.number = c.number
          · have : d = c := List.inj_on_of_nodup_map h.traffic.numbers hd hmem hdc
            simp [this, hout]
          · simp [hdc]
    obtain ⟨calls, htraffic, hcalls⟩ := hended
    refine ⟨calls, ?_, hcalls⟩
    have hturns : turns w.traffic (.finish n o) = false := by simp [turns, htraffic]
    have hcloses : closes w.traffic (.finish n o) = false := by
      cases hc : w.traffic.breaker.circuit <;> simp [closes, htraffic, hc]
    simp [Watch.apply, htraffic, hturns, hcloses]
  | wait ms => simp [isLate] at hlate
  | call => simp [isLate] at hlate
  | observe => simp [isLate] at hlate
  | reset => simp [isLate] at hlate

/-- A call that is late stays late. -/
theorem Sound.outlived_apply (h : w.Sound) {c : Call} (hc : w.outlived c = true) (op : Op) :
    (w.apply op).outlived c = true := by
  have hturned := (turned_le_apply h.turned_le op).1
  have hclosed := (closed_le_apply h.closed_le op).1
  simp only [outlived, Bool.or_eq_true, Bool.and_eq_true, decide_eq_true_eq] at hc ⊢
  rcases hc with hlt | ⟨hp, hlt⟩
  · exact .inl (by omega)
  · exact .inr ⟨hp, by omega⟩

theorem traffic_run (w : Watch) (ops : List Op) :
    (w.run ops).traffic = w.traffic.run ops := by
  induction ops generalizing w with
  | nil => rfl
  | cons op ops ih => exact ih (w.apply op)

theorem sound_run (h : w.Sound) (ops : List Op) : (w.run ops).Sound := by
  induction ops generalizing w with
  | nil => exact h
  | cons op ops ih => exact ih (h.apply op)

theorem outlived_run (h : w.Sound) {c : Call} (hc : w.outlived c = true)
    (ops : List Op) : (w.run ops).outlived c = true := by
  induction ops generalizing w with
  | nil => exact hc
  | cons op ops ih => exact ih (h.apply op) (h.outlived_apply hc op)

/-- Two watches that differ in the late calls in flight at most. -/
structure Alike (w w' : Watch) : Prop where
  breaker : w'.traffic.breaker = w.traffic.breaker
  now : w'.traffic.now = w.traffic.now
  nextCall : w'.traffic.nextCall = w.traffic.nextCall
  turned : w'.turned = w.turned
  closed : w'.closed = w.closed
  calls : w'.traffic.calls.filter (fun c => !w.outlived c) =
    w.traffic.calls.filter fun c => !w.outlived c

theorem Alike.outlived (h : Alike w w') : w'.outlived = w.outlived := by
  funext c
  simp [Watch.outlived, h.turned, h.closed]

theorem Alike.refl (w : Watch) : Alike w w := ⟨rfl, rfl, rfl, rfl, rfl, rfl⟩

theorem Alike.apply_late (h : Alike w w') (hw : w.Sound) {op : Op} (hlate : w.isLate op = true) :
    Alike (w.apply op) w' := by
  obtain ⟨calls, he, hcalls⟩ := hw.apply_late hlate
  rw [he]
  exact ⟨h.breaker, h.now, h.nextCall, h.turned, h.closed, h.calls.trans hcalls.symm⟩

/-- The call that a timely end is about is in flight in both. -/
theorem Alike.call? (h : Alike w w') (hw' : w'.Sound) {n : Nat} {o : Outcome}
    (ht : w.isLate (.finish n o) = false) :
    ∃ c, w.traffic.call? n = some c ∧ w'.traffic.call? n = some c ∧ w.outlived c = false := by
  cases hcall : w.traffic.call? n with
  | none => simp [isLate, hcall] at ht
  | some c =>
    have hout : w.outlived c = false := by simpa [isLate, hcall] using ht
    obtain ⟨hmem, rfl⟩ := Traffic.mem_of_call? hcall
    have hmem' : c ∈ w'.traffic.calls := by
      have : c ∈ w'.traffic.calls.filter fun c => !w.outlived c := by
        rw [h.calls]
        exact List.mem_filter.2 ⟨hmem, by simp [hout]⟩
      exact List.mem_of_mem_filter this
    exact ⟨c, rfl, Keyed.find?_of_mem hw'.traffic.numbers hmem', hout⟩

theorem Alike.apply (h : Alike w w') (hw : w.Sound) (hw' : w'.Sound) {op : Op}
    (ht : w.isLate op = false) :
    w'.isLate op = false ∧ (w'.traffic.apply op).2 = (w.traffic.apply op).2 ∧
      Alike (w.apply op) (w'.apply op) := by
  have hcall : ∀ n o, op = .finish n o →
      ∃ c, w.traffic.call? n = some c ∧ w'.traffic.call? n = some c ∧ w.outlived c = false := by
    rintro n o rfl
    exact h.call? hw' ht
  have htimely : w'.isLate op = false := by
    cases op with
    | finish n o =>
      obtain ⟨c, -, hc, hout⟩ := hcall n o rfl
      simp [isLate, hc, h.outlived, hout]
    | _ => rfl
  obtain ⟨hreply, hbreaker, hnow, hnext, kept, more, hcalls, hcalls'⟩ :=
    Traffic.apply_congr h.breaker h.now h.nextCall op fun n o ho =>
      (hcall n o ho).imp fun c hc => ⟨hc.1, hc.2.1⟩
  have hturns : turns w'.traffic op = turns w.traffic op := by
    simp [turns, h.breaker, hbreaker]
  have hcloses : closes w'.traffic op = closes w.traffic op := by
    simp [closes, h.breaker, hbreaker]
  refine ⟨htimely, hreply, hbreaker, hnow, hnext, ?_, ?_, ?_⟩
  · simp [Watch.apply, hturns, hnext, h.turned]
  · simp [Watch.apply, hcloses, hnext, h.closed]
  · -- what is late now was late before or is so from now on, on both sides
    have hshrink : ∀ cs : List Call, cs.filter (fun c => !(w.apply op).outlived c) =
        (cs.filter fun c => !w.outlived c).filter fun c => !(w.apply op).outlived c := by
      intro cs
      rw [List.filter_filter]
      refine List.filter_congr fun c _ => ?_
      cases hc : w.outlived c with
      | true => simp [hw.outlived_apply hc op]
      | false => simp
    have hkept : ∀ cs : List Call,
        (cs.filter kept).filter (fun c => !(w.apply op).outlived c) =
          ((cs.filter fun c => !w.outlived c).filter fun c => !(w.apply op).outlived c).filter
            kept := by
      intro cs
      rw [← hshrink, List.filter_filter, List.filter_filter]
      exact List.filter_congr fun c _ => Bool.and_comm _ _
    simp only [Watch.apply] at hkept ⊢
    rw [hcalls, hcalls', List.filter_append, List.filter_append, hkept, hkept, h.calls]

/-- A run is told what it would be told without its late ends, and leaves the same breaker. -/
theorem Alike.answers (h : Alike w w') (hw : w.Sound) (hw' : w'.Sound) (ops : List Op) :
    w'.answers (w.timely ops) = w.answers ops ∧
      (w'.run (w.timely ops)).traffic.breaker = (w.run ops).traffic.breaker := by
  induction ops generalizing w w' with
  | nil => exact ⟨rfl, h.breaker⟩
  | cons op ops ih =>
    cases hl : w.isLate op with
    | true =>
      have hlater := ih (h.apply_late hw hl) (hw.apply op) hw'
      simpa [timely, Watch.answers, hl, run] using hlater
    | false =>
      obtain ⟨hl', hreply, hsame⟩ := h.apply hw hw' hl
      obtain ⟨hanswers, hbreaker⟩ := ih hsame (hw.apply op) (hw'.apply op)
      have hcount := congrArg Breaker.failures hsame.breaker
      refine ⟨?_, ?_⟩
      · simp [timely, Watch.answers, hl, hl', hreply, hanswers, hcount]
      · simpa [timely, hl, run] using hbreaker

/-- How late calls end, and whether they end at all, changes no answer, no failure count and
nothing of the breaker. -/
theorem late_ends_unseen (key : String) (config : Config) (now : Nat) {ops ops' : List Op}
    (h : (new key config now).timely ops = (new key config now).timely ops') :
    (new key config now).answers ops = (new key config now).answers ops' ∧
      ((new key config now).run ops).traffic.breaker =
        ((new key config now).run ops').traffic.breaker := by
  have hw := sound_new key config now
  obtain ⟨hanswers, hbreaker⟩ := (Alike.refl (new key config now)).answers hw hw ops
  obtain ⟨hanswers', hbreaker'⟩ := (Alike.refl (new key config now)).answers hw hw ops'
  rw [h] at hanswers hbreaker
  exact ⟨hanswers.symm.trans hanswers', hbreaker.symm.trans hbreaker'⟩

/-- Call 1 outlives an opening, and probe 3 the probe that closes the circuit. -/
theorem late_ends_unseen_two_kinds :
    let config : Config := { failureThreshold := 1, resetTimeoutMs := 10, halfOpenMaxProbes := 2 }
    let ops : List Op := [.call, .call, .finish 0 .failure, .finish 1 .success, .wait 10, .call,
      .call, .finish 2 .success, .finish 3 .failure, .call]
    let ops' : List Op := [.call, .call, .finish 0 .failure, .wait 10, .call, .call,
      .finish 2 .success, .finish 1 .failure, .call]
    (new "target" config 0).timely ops = (new "target" config 0).timely ops' ∧
      (new "target" config 0).answers ops = (new "target" config 0).answers ops' ∧
      ((new "target" config 0).run ops).traffic.breaker =
        ((new "target" config 0).run ops').traffic.breaker ∧
      ((new "target" config 0).run ops).traffic.calls.length = 1 ∧
      ((new "target" config 0).run ops').traffic.calls.length = 2 := by
  intro config ops ops'
  have h : (new "target" config 0).timely ops = (new "target" config 0).timely ops' := by
    decide +kernel
  have hunseen := late_ends_unseen "target" config 0 h
  exact ⟨h, hunseen.1, hunseen.2, by decide +kernel, by decide +kernel⟩

end Watch

end TurnEngine.Breaker
