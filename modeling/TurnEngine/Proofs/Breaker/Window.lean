import TurnEngine.Proofs.Breaker.Streak

/-!
# Half-open windows

A window lasts from the look that makes a circuit half-open until the circuit is closed, opened
again or reset. `Window` keeps beside the traffic of a breaker how many calls had been let through
when the last window began; the probes of the window are the calls in flight that were let through
since then. It knows neither epochs nor the breaker's own count of probes.

`WindowRules` says what may happen in a window and what comes after it, `window_rules_run` that
this holds after every run. The invariant (`Window.Sound`): while the circuit is half-open, the
calls in flight that carry its epoch are the probes of the window. What happens to the probes of a
window that is over goes back to the calls that outlive a circuit (`Watch.outlived`).
-/

namespace TurnEngine.Breaker

/-! ## Half-open circuits -/

section
variable {b : Breaker} {now : Nat}

theorem refresh_of_circuit_halfOpen (hc : b.circuit = .halfOpen) : b.refresh now = b := by
  obtain hb | ⟨htripped, -, -⟩ := refresh_cases b now
  · exact hb
  · rw [hc] at htripped
    cases htripped

/-- A half-open circuit lets a call through as a probe, or says that it has enough of them. -/
theorem request_of_circuit_halfOpen (hc : (b.refresh now).circuit = .halfOpen) :
    let b' := b.refresh now
    b.request now =
      if b'.probeLimit.toNat ≤ b'.probes then (b', .error (.probeLimit b'.key b'.probeLimit))
      else ({ b' with probes := b'.probes + 1 }, .ok ⟨true, b'.epoch⟩) := by
  unfold request
  dsimp only
  rw [hc]

/-- What the end of a probe of its epoch does to a half-open circuit. -/
theorem settle_of_circuit_halfOpen (hc : b.circuit = .halfOpen) {a : Admission}
    (hp : a.probe = true) (he : a.epoch = b.epoch) (o : Outcome) :
    b.settle now a o =
      match o with
      | .success => b.close
      | .failure => { b with failures := b.nextFailures, probes := 0 }.trip now
      | _ => { b with probes := b.probes - 1 } := by
  have hrelease : b.releaseProbe a = { b with probes := b.probes - 1 } := by
    simp [releaseProbe_eq, hp, he]
  have hcurrent : (b.releaseProbe a).isCurrent a = true := by
    rw [hrelease]
    simp [isCurrent, hc, hp, he]
  have hcases := settle_cases b now a o
  dsimp only at hcases
  rw [hcurrent, hrelease] at hcases
  obtain ⟨hneutral, h⟩ | ⟨-, ⟨rfl, h⟩ | ⟨rfl, hfailed⟩⟩ := hcases
  · rcases hneutral with rfl | rfl | hstale
    · exact h
    · exact h
    · cases hstale
  · exact h
  · obtain ⟨hclosed, -⟩ | ⟨hclosed, -⟩ | ⟨-, h⟩ := hfailed
    · cases hc.symm.trans hclosed
    · cases hc.symm.trans hclosed
    · exact h

theorem key_refresh (b : Breaker) (now : Nat) : (b.refresh now).key = b.key := by
  obtain hb | ⟨-, -, hb⟩ := refresh_cases b now <;> rw [hb]

theorem probeLimit_refresh (b : Breaker) (now : Nat) :
    (b.refresh now).probeLimit = b.probeLimit := by
  rw [probeLimit, (follows_refresh b now).config, probeLimit]

end

namespace Traffic

variable {t : Traffic}

theorem become_self (t : Traffic) : t.become t.breaker = t := by
  unfold become
  rw [if_neg fun h => h.2 h.1]

theorem apply_observe (t : Traffic) :
    (t.apply .observe).1 = t.become (t.breaker.refresh t.now) := rfl

theorem apply_call_ok {b : Breaker} {a : Admission} (h : t.breaker.request t.now = (b, .ok a)) :
    t.apply .call =
      ({ t.become b with calls := t.calls ++ [⟨t.nextCall, a⟩], nextCall := t.nextCall + 1 },
        .admitted a) := by
  simp only [Traffic.apply, h]
  rfl

theorem apply_call_error {b : Breaker} {f : Failure}
    (h : t.breaker.request t.now = (b, .error f)) : t.apply .call = (t.become b, .refused f) := by
  simp only [Traffic.apply, h]

end Traffic

/-! ## Windows -/

open Traffic (Op)

/-- The traffic of a breaker, and when its circuit last became half-open. -/
structure Window where
  traffic : Traffic
  /-- How many calls had been let through when the circuit last became half-open. -/
  entered : Nat := 0

namespace Window

def new (key : String) (config : Config) (now : Nat) : Window :=
  { traffic := Traffic.new key config now }

def apply (w : Window) (op : Op) : Window where
  traffic := (w.traffic.apply op).1
  entered :=
    if w.traffic.breaker.circuit ≠ .halfOpen ∧ (w.traffic.apply op).1.breaker.circuit = .halfOpen
    then w.traffic.nextCall else w.entered

def run (w : Window) (ops : List Op) : Window :=
  ops.foldl apply w

/-- The calls in flight that were let through since the circuit last became half-open. -/
def probes (w : Window) : List Call :=
  w.traffic.calls.filter fun c => w.entered ≤ c.number

/-- The window once somebody has looked at the circuit; the look may begin it. -/
def seen (w : Window) : Window :=
  w.apply .observe

/-- What holds after every run. -/
structure Sound (w : Window) : Prop where
  traffic : w.traffic.Sound
  entered_le : w.entered ≤ w.traffic.nextCall
  current : w.traffic.breaker.circuit = .halfOpen → ∀ c ∈ w.traffic.calls,
    (w.entered ≤ c.number ↔ c.admission.epoch = w.traffic.breaker.epoch)

variable {w : Window}

theorem sound_new (key : String) (config : Config) (now : Nat) : (new key config now).Sound where
  traffic := Traffic.sound_new key config now
  entered_le := Nat.le_refl _
  current := fun hc => by cases hc

theorem mem_probes {c : Call} :
    c ∈ w.probes ↔ c ∈ w.traffic.calls ∧ w.entered ≤ c.number := by
  simp [probes]

theorem Sound.apply (h : w.Sound) (op : Op) : (w.apply op).Sound := by
  have hsound := h.traffic.apply op
  have hle := Traffic.nextCall_apply w.traffic op
  have hentered := h.entered_le
  refine ⟨hsound, ?_, fun hhalf c hc => ?_⟩
  · unfold Window.apply
    dsimp only
    split <;> omega
  · have hhalf : (w.traffic.apply op).1.breaker.circuit = .halfOpen := hhalf
    have hreset : op ≠ .reset := by
      rintro rfl
      cases hhalf
    have hages := Traffic.ages_apply w.traffic hreset
    rw [Ages, if_neg (by simp [hhalf])] at hages
    have hcases := Traffic.epoch_of_let_through hc
    unfold Window.apply
    dsimp only
    by_cases hbefore : w.traffic.breaker.circuit = .halfOpen
    · rw [if_neg fun ho => ho.1 hbefore]
      obtain hold | ⟨hnew, -, he⟩ := hcases
      · rw [hages.1]
        exact h.current hbefore c hold
      · exact iff_of_true (by omega) he
    · rw [if_pos ⟨hbefore, hhalf⟩]
      -- only an open circuit becomes half-open, and no call in flight has its epoch
      have htripped : w.traffic.breaker.circuit = .tripped := by
        cases hb : w.traffic.breaker.circuit with
        | closed => cases hhalf.symm.trans (hages.2 hb)
        | halfOpen => exact absurd hb hbefore
        | tripped => rfl
      have hfacts : TrippedFacts w.traffic.breaker w.traffic.now w.traffic.calls :=
        h.traffic.standing.factsOf htripped
      obtain hold | ⟨hnew, -, he⟩ := hcases
      · refine iff_of_false (Nat.not_le_of_lt (h.traffic.issued c hold)) ?_
        rw [hages.1]
        exact hfacts.calls c hold
      · exact iff_of_true (by omega) he

theorem sound_run (h : w.Sound) (ops : List Op) : (w.run ops).Sound := by
  induction ops generalizing w with
  | nil => exact h
  | cons op ops ih => exact ih (h.apply op)

theorem traffic_run (w : Window) (ops : List Op) : (w.run ops).traffic = w.traffic.run ops := by
  induction ops generalizing w with
  | nil => rfl
  | cons op ops ih => exact ih (w.apply op)

/-! ## In a window -/

theorem seen_of_circuit_halfOpen (hc : w.traffic.breaker.circuit = .halfOpen) : w.seen = w := by
  have hb : w.traffic.breaker.refresh w.traffic.now = w.traffic.breaker :=
    refresh_of_circuit_halfOpen hc
  have ht : (w.traffic.apply .observe).1 = w.traffic := by
    rw [Traffic.apply_observe, hb, Traffic.become_self]
  simp only [seen, Window.apply, ht]
  rw [if_neg fun hbefore => hbefore.1 hc]

section
variable (h : w.Sound) (hc : w.traffic.breaker.circuit = .halfOpen)
include h hc

theorem halfOpenFacts : HalfOpenFacts w.traffic.breaker w.traffic.now w.traffic.calls :=
  h.traffic.standing.factsOf hc

/-- The calls of the window are probes of the epoch. -/
theorem admission_of_mem_probes {c : Call} (hmem : c ∈ w.probes) :
    c.admission.probe = true ∧ c.admission.epoch = w.traffic.breaker.epoch := by
  obtain ⟨hcall, hentered⟩ := mem_probes.1 hmem
  have he := (h.current hc c hcall).1 hentered
  exact ⟨(halfOpenFacts h hc).calls c hcall he, he⟩

/-- The breaker counts the probes of the window. -/
theorem length_probes : w.probes.length = w.traffic.breaker.probes := by
  rw [(halfOpenFacts h hc).probes, probes, ← List.countP_eq_length_filter]
  refine List.countP_congr fun c hmem => ?_
  have hcurrent := h.current hc c hmem
  simp only [Call.isProbeOf, Bool.and_eq_true, decide_eq_true_eq]
  constructor
  · intro hentered
    have he := hcurrent.1 hentered
    exact ⟨(halfOpenFacts h hc).calls c hmem he, he.symm⟩
  · intro hprobe
    exact hcurrent.2 hprobe.2.symm

theorem breaker_finish_probe {c : Call} (hmem : c ∈ w.probes) (o : Outcome) :
    (w.apply (.finish c.number o)).traffic.breaker =
      match o with
      | .success => w.traffic.breaker.close
      | .failure => { w.traffic.breaker with
          failures := w.traffic.breaker.nextFailures, probes := 0 }.trip w.traffic.now
      | _ => { w.traffic.breaker with probes := w.traffic.breaker.probes - 1 } := by
  obtain ⟨hp, he⟩ := admission_of_mem_probes h hc hmem
  have hcall := Traffic.call?_of_mem h.traffic (mem_probes.1 hmem).1
  exact (Traffic.breaker_finish hcall o).trans (settle_of_circuit_halfOpen hc hp he o)

/-- The end of any other call changes nothing. -/
theorem breaker_finish_other {c : Call} (hcall : c ∈ w.traffic.calls) (hmem : c ∉ w.probes)
    (o : Outcome) : (w.apply (.finish c.number o)).traffic.breaker = w.traffic.breaker := by
  have he : c.admission.epoch ≠ w.traffic.breaker.epoch := by
    intro he
    exact hmem (mem_probes.2 ⟨hcall, (h.current hc c hcall).2 he⟩)
  exact (Traffic.breaker_finish (Traffic.call?_of_mem h.traffic hcall) o).trans
    (settle_of_epoch_ne he _ o)

/-- A probe that says nothing about the target leaves the window, which goes on. -/
theorem apply_finish_neutral {c : Call} (hmem : c ∈ w.probes) {o : Outcome}
    (ho : o = .cancelled ∨ o = .dropped) :
    let w' := w.apply (.finish c.number o)
    w'.traffic.breaker.circuit = .halfOpen ∧
      w'.probes = w.probes.filter (·.number ≠ c.number) ∧
      w'.probes.length + 1 = w.probes.length := by
  have hcall := Traffic.call?_of_mem h.traffic (mem_probes.1 hmem).1
  have hcircuit : (w.apply (.finish c.number o)).traffic.breaker.circuit = .halfOpen := by
    rw [breaker_finish_probe h hc hmem]
    rcases ho with rfl | rfl <;> exact hc
  have hprobes : (w.apply (.finish c.number o)).probes
      = w.probes.filter (·.number ≠ c.number) := by
    have hentered : (w.apply (.finish c.number o)).entered = w.entered :=
      if_neg fun hbefore => hbefore.1 hc
    rw [probes, probes, hentered]
    simp only [Window.apply, Traffic.apply_finish hcall, List.filter_filter]
    exact List.filter_congr fun d _ => Bool.and_comm _ _
  have hnodup : (w.probes.map (·.number)).Nodup :=
    h.traffic.numbers.sublist (List.filter_sublist.map _)
  have hcount := Keyed.countP_remove hnodup hmem fun _ => true
  refine ⟨hcircuit, hprobes, ?_⟩
  rw [hprobes]
  simpa using hcount

/-- Nothing ends the window but a reset, or the success or the failure of one of its probes. -/
theorem ends_of_circuit_ne {op : Op}
    (hend : (w.apply op).traffic.breaker.circuit ≠ .halfOpen) :
    op = .reset ∨ ∃ c ∈ w.probes, op = .finish c.number .success ∨
      op = .finish c.number .failure := by
  cases op with
  | wait ms => exact absurd hc hend
  | call =>
    refine absurd ?_ hend
    show (w.traffic.apply .call).1.breaker.circuit = .halfOpen
    rw [Traffic.breaker_call, circuit_request, refresh_of_circuit_halfOpen hc, hc]
  | finish n o =>
    cases hcall : w.traffic.call? n with
    | none =>
      refine absurd ?_ hend
      show (w.traffic.apply (.finish n o)).1.breaker.circuit = .halfOpen
      rw [Traffic.apply_finish_none hcall, hc]
    | some c =>
      obtain ⟨hmem, rfl⟩ := Traffic.mem_of_call? hcall
      by_cases hprobe : c ∈ w.probes
      · refine .inr ⟨c, hprobe, ?_⟩
        cases o with
        | success => exact .inl rfl
        | failure => exact .inr rfl
        | cancelled => exact absurd (apply_finish_neutral h hc hprobe (.inl rfl)).1 hend
        | dropped => exact absurd (apply_finish_neutral h hc hprobe (.inr rfl)).1 hend
      · rw [breaker_finish_other h hc hmem hprobe] at hend
        exact absurd hc hend
  | observe =>
    refine absurd ?_ hend
    show (w.traffic.breaker.refresh w.traffic.now).circuit = .halfOpen
    rw [refresh_of_circuit_halfOpen hc, hc]
  | reset => exact .inl rfl

end

/-! ## Calls -/

section
variable (h : w.Sound) (hc : w.seen.traffic.breaker.circuit = .halfOpen)
include h hc

/-- What the breaker has room for is what the window has room for. -/
theorem probes_refresh :
    (w.traffic.breaker.refresh w.traffic.now).probes = w.seen.probes.length :=
  (length_probes (h.apply .observe) hc).symm

/-- A call is let through as a probe while there is room for it. -/
theorem apply_call_of_lt
    (hroom : w.seen.probes.length < w.traffic.breaker.probeLimit.toNat) :
    ∃ epoch, (w.traffic.apply .call).2 = .admitted ⟨true, epoch⟩ ∧
      (w.apply .call).traffic.breaker.circuit = .halfOpen ∧
      (w.apply .call).probes = w.seen.probes ++ [⟨w.traffic.nextCall, ⟨true, epoch⟩⟩] := by
  let b := w.traffic.breaker.refresh w.traffic.now
  have hrequest : w.traffic.breaker.request w.traffic.now =
      ({ b with probes := b.probes + 1 }, .ok ⟨true, b.epoch⟩) := by
    rw [request_of_circuit_halfOpen hc, probes_refresh h hc, probeLimit_refresh]
    exact if_neg (Nat.not_le_of_lt hroom)
  have hcall := Traffic.apply_call_ok hrequest
  have hcircuit : (w.apply .call).traffic.breaker.circuit = .halfOpen := by
    simp only [Window.apply, hcall]
    exact hc
  have hentered : (w.apply .call).entered = w.seen.entered := by
    have hbefore : (w.traffic.apply .call).1.breaker.circuit = .halfOpen := hcircuit
    have hseen : (w.traffic.apply .observe).1.breaker.circuit = .halfOpen := hc
    simp only [Window.apply, seen, hbefore, hseen]
  refine ⟨b.epoch, by rw [hcall], hcircuit, ?_⟩
  have hle : w.seen.entered ≤ w.traffic.nextCall := (h.apply .observe).entered_le
  rw [probes, hentered, probes]
  simp only [Window.apply, hcall]
  rw [List.filter_append, List.filter_cons_of_pos (by simpa using hle), List.filter_nil]
  rfl

/-- A call is turned away when there is no room, and leaves no more behind than a look. -/
theorem apply_call_of_le
    (hfull : w.traffic.breaker.probeLimit.toNat ≤ w.seen.probes.length) :
    (w.traffic.apply .call).2 =
        .refused (.probeLimit w.traffic.breaker.key w.traffic.breaker.probeLimit) ∧
      w.apply .call = w.seen := by
  have hrequest : w.traffic.breaker.request w.traffic.now =
      (w.traffic.breaker.refresh w.traffic.now,
        .error (.probeLimit w.traffic.breaker.key w.traffic.breaker.probeLimit)) := by
    rw [request_of_circuit_halfOpen hc, probes_refresh h hc, probeLimit_refresh, key_refresh]
    exact if_pos hfull
  have hcall := Traffic.apply_call_error hrequest
  refine ⟨by rw [hcall], ?_⟩
  simp only [seen, Window.apply, hcall, Traffic.apply_observe]
  rfl

end

/-! ## After a window -/

/-- The probes of a window outlive what ends it. -/
theorem outlived_of_end (h : w.Sound) (hc : w.traffic.breaker.circuit = .halfOpen) {v : Watch}
    (htraffic : v.traffic = w.traffic) {op : Op}
    (hend : (w.apply op).traffic.breaker.circuit ≠ .halfOpen) {c : Call} (hmem : c ∈ w.probes) :
    (v.apply op).outlived c = true := by
  have hp := (admission_of_mem_probes h hc hmem).1
  have hissued := h.traffic.issued c (mem_probes.1 hmem).1
  have hnext := Traffic.nextCall_apply w.traffic op
  have hlt : c.number < (w.traffic.apply op).1.nextCall := by omega
  have hend : (w.traffic.apply op).1.breaker.circuit ≠ .halfOpen := hend
  simp only [Watch.outlived, Watch.apply, htraffic, Bool.or_eq_true, Bool.and_eq_true,
    decide_eq_true_eq, hp, true_and]
  by_cases hturns : Watch.turns w.traffic op = true
  · rw [if_pos hturns]
    exact .inl hlt
  · have hcloses : Watch.closes w.traffic op = true := by
      simp only [Watch.turns, hc, Bool.or_eq_true, decide_eq_true_eq, Bool.and_eq_true] at hturns
      cases hafter : (w.traffic.apply op).1.breaker.circuit with
      | halfOpen => exact absurd hafter hend
      | tripped => simp [hafter] at hturns
      | closed =>
        have hreset : op ≠ .reset := fun hop => hturns (.inl hop)
        simp [Watch.closes, hc, hafter, hreset]
    rw [if_pos hcloses]
    exact .inr hlt

/-- A probe that is still in flight when its window is over has no effect ever after. -/
theorem breaker_finish_after (h : w.Sound) (hc : w.traffic.breaker.circuit = .halfOpen) {v : Watch}
    (hv : v.Sound) (htraffic : v.traffic = w.traffic) {op : Op}
    (hend : (w.apply op).traffic.breaker.circuit ≠ .halfOpen) (ops : List Op) {c : Call}
    (hmem : c ∈ w.probes) (hstill : c ∈ ((w.apply op).run ops).traffic.calls) (o : Outcome) :
    (((w.apply op).run ops).apply (.finish c.number o)).traffic.breaker
      = ((w.apply op).run ops).traffic.breaker := by
  have hlate := Watch.outlived_run (hv.apply op) (outlived_of_end h hc htraffic hend hmem) ops
  have hsame : ((v.apply op).run ops).traffic = ((w.apply op).run ops).traffic := by
    rw [Watch.traffic_run, traffic_run]
    simp only [Watch.apply, Window.apply, htraffic]
  have hsound := Watch.sound_run (hv.apply op) ops
  have hcall := Traffic.call?_of_mem (sound_run (h.apply op) ops).traffic hstill
  have hsettle := Watch.settle_outlived hsound (hsame ▸ hstill) hlate o
  rw [hsame] at hsettle
  exact (Traffic.breaker_finish hcall o).trans hsettle

/-! ## Runs -/

/-- What happens in a half-open window, and after it. A call is judged by the window as it is once
the circuit has been looked at, because the call itself may begin the window. -/
structure WindowRules (config : Config) (w : Window) : Prop where
  looks : w.traffic.breaker.circuit = .halfOpen → w.seen = w
  probes : w.traffic.breaker.circuit = .halfOpen → ∀ c ∈ w.probes, c.admission.probe = true
  admits : w.seen.traffic.breaker.circuit = .halfOpen →
    w.seen.probes.length < max 1 config.halfOpenMaxProbes.toNat →
      ∃ epoch, (w.traffic.apply .call).2 = .admitted ⟨true, epoch⟩ ∧
        (w.apply .call).traffic.breaker.circuit = .halfOpen ∧
        (w.apply .call).probes = w.seen.probes ++ [⟨w.traffic.nextCall, ⟨true, epoch⟩⟩]
  rejects : w.seen.traffic.breaker.circuit = .halfOpen →
    max 1 config.halfOpenMaxProbes.toNat ≤ w.seen.probes.length →
      (w.traffic.apply .call).2 =
          .refused (.probeLimit w.traffic.breaker.key (max 1 config.halfOpenMaxProbes)) ∧
        w.apply .call = w.seen
  /-- A window without probes lets the next call through. -/
  unstuck : w.seen.traffic.breaker.circuit = .halfOpen → w.seen.probes = [] →
    ∃ a, (w.traffic.apply .call).2 = .admitted a
  /-- A probe that is cancelled or dropped frees its own place. -/
  frees : w.traffic.breaker.circuit = .halfOpen → ∀ c ∈ w.probes, ∀ o : Outcome,
    o = .cancelled ∨ o = .dropped →
      let w' := w.apply (.finish c.number o)
      w'.traffic.breaker.circuit = .halfOpen ∧
        w'.probes = w.probes.filter (·.number ≠ c.number) ∧
        w'.probes.length + 1 = w.probes.length
  closes : w.traffic.breaker.circuit = .halfOpen → ∀ c ∈ w.probes,
    let b := (w.apply (.finish c.number .success)).traffic.breaker
    b.circuit = .closed ∧ b.failures = 0
  reopens : w.traffic.breaker.circuit = .halfOpen → ∀ c ∈ w.probes,
    let b := (w.apply (.finish c.number .failure)).traffic.breaker
    b.circuit = .tripped ∧ b.openedAt = some w.traffic.now
  others : w.traffic.breaker.circuit = .halfOpen → ∀ c ∈ w.traffic.calls, c ∉ w.probes →
    ∀ o, (w.apply (.finish c.number o)).traffic.breaker = w.traffic.breaker
  ends : w.traffic.breaker.circuit = .halfOpen → ∀ op,
    (w.apply op).traffic.breaker.circuit ≠ .halfOpen → op = .reset ∨
      ∃ c ∈ w.probes, op = .finish c.number .success ∨ op = .finish c.number .failure
  /-- The probes that are left when the window ends have no effect, however it goes on. -/
  after : w.traffic.breaker.circuit = .halfOpen → ∀ op,
    (w.apply op).traffic.breaker.circuit ≠ .halfOpen → ∀ ops, ∀ c ∈ w.probes,
      let w' := (w.apply op).run ops
      c ∈ w'.traffic.calls →
        ∀ o, (w'.apply (.finish c.number o)).traffic.breaker = w'.traffic.breaker

/-- The rules of a window hold after every run. -/
theorem window_rules_run (key : String) (config : Config) (start : Nat) (ops : List Op) :
    WindowRules config ((new key config start).run ops) := by
  have h : ((new key config start).run ops).Sound := sound_run (sound_new key config start) ops
  have htraffic := traffic_run (new key config start) ops
  have hlimit : ((new key config start).run ops).traffic.breaker.probeLimit
      = max 1 config.halfOpenMaxProbes := by
    rw [probeLimit, htraffic, Traffic.config_run]
    rfl
  have hroom := toNat_probeLimit ((new key config start).run ops).traffic.breaker
  rw [htraffic, Traffic.config_run, ← htraffic] at hroom
  let v := (Watch.new key config start).run ops
  have hv : v.Sound := Watch.sound_run (Watch.sound_new key config start) ops
  have hsame : v.traffic = ((new key config start).run ops).traffic := by
    rw [htraffic]
    exact Watch.traffic_run _ ops
  change _ = max 1 config.halfOpenMaxProbes.toNat at hroom
  generalize (new key config start).run ops = w at h hlimit hroom hsame ⊢
  exact {
    looks := seen_of_circuit_halfOpen
    probes := fun hc c hmem => (admission_of_mem_probes h hc hmem).1
    admits := fun hc hlt => apply_call_of_lt h hc (hroom ▸ hlt)
    rejects := fun hc hle => hlimit ▸ apply_call_of_le h hc (hroom ▸ hle)
    unstuck := fun hc hnone => by
      have hlt : w.seen.probes.length < w.traffic.breaker.probeLimit.toNat := by
        rw [hnone, hroom]
        exact Nat.lt_of_lt_of_le Nat.zero_lt_one (Nat.le_max_left ..)
      obtain ⟨epoch, hadmitted, -⟩ := apply_call_of_lt h hc hlt
      exact ⟨_, hadmitted⟩
    frees := fun hc c hmem o ho => apply_finish_neutral h hc hmem ho
    closes := fun hc c hmem => by
      rw [breaker_finish_probe h hc hmem]
      exact ⟨rfl, rfl⟩
    reopens := fun hc c hmem => by
      rw [breaker_finish_probe h hc hmem]
      exact ⟨rfl, rfl⟩
    others := fun hc c hcall hmem o => breaker_finish_other h hc hcall hmem o
    ends := fun hc op hend => ends_of_circuit_ne h hc hend
    after := fun hc op hend ops c hmem hstill o =>
      breaker_finish_after h hc hv hsame hend ops hmem hstill o }

/-- Two windows with two places: probe 3 outlives the first window, in which probe 2 was dropped
and call 4 took its place and failed; in the second window it takes no place. -/
theorem window_rules_run_left_over :
    let config : Config := { failureThreshold := 1, resetTimeoutMs := 10, halfOpenMaxProbes := 2 }
    let ops : List Op := [.call, .call, .finish 0 .failure, .wait 10, .call, .call,
      .finish 2 .dropped, .call, .finish 4 .failure, .wait 10, .observe, .call]
    let w := (new "target" config 0).run ops
    WindowRules config w ∧ w.traffic.breaker.circuit = .halfOpen ∧
      w.traffic.calls.map (·.number) = [1, 3, 5] ∧ w.probes.map (·.number) = [5] ∧
      (∃ a, (w.traffic.apply .call).2 = .admitted a) ∧
      (w.apply (.finish 3 .failure)).traffic.breaker = w.traffic.breaker ∧
      (w.apply (.finish 5 .success)).traffic.breaker.circuit = .closed := by
  intro config ops w
  have hrules := window_rules_run "target" config 0 ops
  have hc : w.traffic.breaker.circuit = .halfOpen := by decide +kernel
  have hseen : w.seen.traffic.breaker.circuit = .halfOpen := by decide +kernel
  have hcalls : w.traffic.calls.map (·.number) = [1, 3, 5] := by decide +kernel
  have hprobes : w.probes.map (·.number) = [5] := by decide +kernel
  have hthree : ⟨3, ⟨true, 1⟩⟩ ∈ w.traffic.calls ∧ ⟨3, ⟨true, 1⟩⟩ ∉ w.probes := by decide +kernel
  have hfive : ⟨5, ⟨true, 2⟩⟩ ∈ w.probes := by decide +kernel
  have hroom : w.seen.probes.length < max 1 config.halfOpenMaxProbes.toNat := by decide +kernel
  -- the run is not to be evaluated again
  rw [show (new "target" config 0).run ops = w from rfl] at hrules
  clear_value w
  obtain ⟨epoch, hadmitted, -⟩ := hrules.admits hseen hroom
  exact ⟨hrules, hc, hcalls, hprobes, ⟨_, hadmitted⟩,
    hrules.others hc _ hthree.1 hthree.2 .failure, (hrules.closes hc _ hfive).1⟩

end Window

end TurnEngine.Breaker
