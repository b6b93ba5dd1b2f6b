import TurnEngine.Proofs.Usage.Crossings
import TurnEngine.Proofs.Usage.Sum

/-!
# Warnings, each once

A meter through any run of additions and checks: its flags only say which thresholds were reached
at a check before (`foldl_perform`), a check before a listener tells it what is due, one after the
other (`checkBefore_eq`), and over the whole run every stored threshold that was reached at a check
was told once (`told_perm`). `warnings_run` is all of it, for the next check of any run.
-/

namespace TurnEngine.Meter

/-! ## One check -/

section
variable {σ : Type} (m : Meter) (tell : ThresholdWarning → σ → σ)

/-- What is left of a threshold after a check. -/
def marked (t : Threshold) : Threshold := { t with fired := t.fired || m.isDue t }

theorem marked_of_isDue {t : Threshold} (h : m.isDue t = true) :
    m.marked t = { t with fired := true } := by
  rw [marked, h, Bool.or_true]

theorem marked_of_not_isDue {t : Threshold} (h : m.isDue t = false) : m.marked t = t := by
  rw [marked, h, Bool.or_false]

/-- The listener is told all that is due, in order. -/
theorem warnEach_eq (ts : List Threshold) (s : σ) :
    m.warnEach tell ts s =
      ((ts.filter m.isDue).length, ts.map m.marked,
        ((ts.filter m.isDue).map m.warning).foldl (fun s w => tell w s) s) := by
  induction ts generalizing s with
  | nil => rfl
  | cons t ts ih =>
    by_cases hdue : m.isDue t = true
    · rw [warnEach, if_pos hdue, ih, List.filter_cons_of_pos hdue, List.map_cons,
        m.marked_of_isDue hdue]
      rfl
    · have hnot : m.isDue t = false := Bool.not_eq_true _ ▸ hdue
      rw [warnEach, if_neg hdue, ih, List.filter_cons_of_neg hdue, List.map_cons,
        m.marked_of_not_isDue hnot]

theorem checkBefore_eq (s : σ) :
    m.checkBefore tell s =
      (m.check.1.length, m.check.2, m.check.1.foldl (fun s w => tell w s) s) := by
  rw [checkBefore, warnEach_eq, check, List.length_map]
  rfl

/-- A check that warns of nothing changes nothing. -/
theorem check_of_silent (h : m.check.1 = []) : m.check.2 = m := by
  have hnone : m.thresholds.filter m.isDue = [] := List.map_eq_nil_iff.1 h
  have hmarked : m.thresholds.map m.marked = m.thresholds := by
    refine (List.map_congr_left fun t ht => ?_).trans (List.map_id _)
    exact m.marked_of_not_isDue (Bool.eq_false_iff.2 (List.filter_eq_nil_iff.1 hnone t ht))
  exact congrArg (fun thresholds => { m with thresholds }) hmarked

end

/-! ## Runs -/

/-- Something that is done with a meter. -/
inductive Op where
  | add (delta : Usage)
  | check

/-- The meter after an operation, and the warnings told so far. -/
def perform (r : Meter × List ThresholdWarning) : Op → Meter × List ThresholdWarning
  | .add delta => (r.1.add delta, r.2)
  | .check => (r.1.checkBefore (fun w told => told ++ [w]) r.2).2

/-- The meter after some operations, and all warnings told on the way. -/
def run (m : Meter) (ops : List Op) : Meter × List ThresholdWarning :=
  ops.foldl perform (m, [])

/-- What is added in a run. -/
def added : List Op → List Usage
  | [] => []
  | .add delta :: ops => delta :: added ops
  | .check :: ops => added ops

/-- The totals at the checks of a run that begins with a total. -/
def checked (u : Usage) : List Op → List Usage
  | [] => []
  | .add delta :: ops => checked (u + delta) ops
  | .check :: ops => u :: checked u ops

theorem perform_check (r : Meter × List ThresholdWarning) :
    perform r .check = (r.1.check.2, r.2 ++ r.1.check.1) := by
  have hfold (ws told : List ThresholdWarning) :
      ws.foldl (fun told w => told ++ [w]) told = told ++ ws := by
    induction ws generalizing told with
    | nil => simp
    | cons w ws ih => simp [ih]
  rw [perform, checkBefore_eq, hfold]

section
variable (m : Meter)

/-- A run from a meter that was checked at some counts. -/
theorem foldl_perform (counts : List Usage) (u : Usage) (told : List ThresholdWarning)
    (ops : List Op) :
    (ops.foldl perform (m.standing counts u, told)).1 =
      m.standing (counts ++ checked u ops) (u + (added ops).sum) := by
  induction ops generalizing counts u told with
  | nil => simp [checked, added]
  | cons op ops ih =>
    cases op with
    | add delta =>
      have hadd : perform (m.standing counts u, told) (.add delta) =
          (m.standing counts (u + delta), told) := rfl
      rw [List.foldl_cons, hadd, ih, checked, added, List.sum_cons, add_assoc]
    | check =>
      rw [List.foldl_cons, perform_check, check_standing_meter, ih, checked, added,
        List.append_assoc, List.singleton_append]

/-- The thresholds reached at some counts and one more: those reached before, and those newly
reached. -/
theorem filter_reaches_concat (counts : List Usage) (u : Usage) :
    (m.thresholds.filter (m.reaches (counts ++ [u]))).Perm
      (m.thresholds.filter (m.reaches counts) ++
        m.thresholds.filter fun t => !m.reaches counts t && m.reaches [u] t) := by
  have hsplit := List.filter_append_perm (m.reaches counts)
    (m.thresholds.filter (m.reaches (counts ++ [u])))
  rw [List.filter_filter, List.filter_filter] at hsplit
  have hbefore (t : Threshold) :
      (m.reaches counts t && m.reaches (counts ++ [u]) t) = m.reaches counts t := by
    rw [reaches_concat]
    cases m.reaches counts t <;> rfl
  have hnewly (t : Threshold) :
      (!m.reaches counts t && m.reaches (counts ++ [u]) t) =
        (!m.reaches counts t && m.reaches [u] t) := by
    rw [reaches_concat]
    cases m.reaches counts t <;> rfl
  simp only [hbefore, hnewly] at hsplit
  exact hsplit.symm

/-- All that is told in a run are the thresholds that were reached at a check, each told once. -/
theorem told_perm (counts : List Usage) (u : Usage) (told : List ThresholdWarning) (ops : List Op)
    (h : (told.map (·.threshold)).Perm ((m.thresholds.filter (m.reaches counts)).map (·.value))) :
    (((ops.foldl perform (m.standing counts u, told)).2).map (·.threshold)).Perm
      ((m.thresholds.filter (m.reaches (counts ++ checked u ops))).map (·.value)) := by
  induction ops generalizing counts u told with
  | nil => simpa [checked] using h
  | cons op ops ih =>
    cases op with
    | add delta => exact ih counts (u + delta) told h
    | check =>
      have hcrossings : (m.crossings counts u).map (·.threshold) =
          (m.thresholds.filter fun t => !m.reaches counts t && m.reaches [u] t).map (·.value) := by
        rw [crossings, List.map_map]
        rfl
      have hnext : ((told ++ m.crossings counts u).map (·.threshold)).Perm
          ((m.thresholds.filter (m.reaches (counts ++ [u]))).map (·.value)) := by
        rw [List.map_append, hcrossings]
        refine (h.append_right _).trans ?_
        rw [← List.map_append]
        exact ((m.filter_reaches_concat counts u).map _).symm
      rw [List.foldl_cons, perform_check, check_standing_warnings, check_standing_meter]
      have hlater := ih (counts ++ [u]) u _ hnext
      rwa [List.append_assoc, List.singleton_append] at hlater

end

/-! ## Meters in use -/

/-- The next check of a meter in use tells the thresholds that the ratio is not below and that no
total at a check before reached, in order, with what the meter says at this moment; it gives their
number, leaves the total alone, and a further check tells nothing. In all, the thresholds that were
reached at a check are told, each once. -/
theorem warnings_run (contextWindow : UInt64) (thresholds : List Float) (ops : List Op) :
    let start := new contextWindow thresholds
    let m := (start.run ops).1
    let told := (start.run ops).2
    let before := checked 0 ops
    let warnings : List ThresholdWarning :=
      (start.thresholds.filter fun t => !start.reaches before t && !(m.ratio < t.value)).map
        fun t => ⟨t.value, m.ratio, m.usage.input, contextWindow⟩
    m.usage = (added ops).sum ∧
    (∀ (σ : Type) (tell : ThresholdWarning → σ → σ) (s : σ), ∃ m',
      m.checkBefore tell s = (warnings.length, m', warnings.foldl (fun s w => tell w s) s) ∧
      m'.usage = m.usage ∧
      ∀ s', m'.checkBefore tell s' = (0, m', s')) ∧
    (told.map (·.threshold)).Perm
      ((start.thresholds.filter (start.reaches before)).map (·.value)) := by
  intro start m told before warnings
  have hstart : start.standing [] 0 = start := standing_nil contextWindow thresholds
  have hm : m = start.standing before (added ops).sum := by
    have hrun := start.foldl_perform [] 0 [] ops
    rwa [hstart, List.nil_append, zero_add] at hrun
  have hwarnings : m.check.1 = warnings := by
    have hreaches (t : Threshold) :
        start.reaches [(added ops).sum] t = !((start.withUsage (added ops).sum).ratio < t.value) :=
      Bool.or_false _
    rw [hm, check_standing_warnings, crossings]
    simp only [hreaches, warnings, hm]
    rfl
  refine ⟨by rw [hm]; rfl, fun σ tell s => ⟨m.check.2, ?_, rfl, fun s' => ?_⟩, ?_⟩
  · rw [checkBefore_eq, hwarnings]
  · -- what the total reaches is marked by now, so nothing is newly reached
    have hsilent : m.check.2.check.1 = [] := by
      rw [hm, check_standing_meter, check_standing_warnings, crossings_concat_self]
    rw [checkBefore_eq, hsilent, check_of_silent _ hsilent]
    rfl
  · have htold := start.told_perm [] 0 [] ops (by simp [reaches])
    rwa [hstart, List.nil_append] at htold

/-- Thresholds out of order, one of them twice and one that is no fraction: the first check warned
of the lowest, and a jump past the other two has the next one warn of both. -/
theorem warnings_run_jump :
    let start := new 100 [0.8, 1.5, 0.5, 0.95, 0.8]
    let ops : List Op := [.add { input := 60 }, .check, .add { input := 36 }]
    let m := (start.run ops).1
    m.usage.input = 96 ∧
    (∀ (σ : Type) (tell : ThresholdWarning → σ → σ) (s : σ), ∃ m',
      m.checkBefore tell s =
        (2, m', tell ⟨0.95, 0.96, 96, 100⟩ (tell ⟨0.8, 0.96, 96, 100⟩ s)) ∧
      ∀ s', m'.checkBefore tell s' = (0, m', s')) ∧
    (start.run ops).2.map (·.threshold) = [0.5] := by
  intro start ops m
  obtain ⟨-, hcheck, htold⟩ := warnings_run 100 [0.8, 1.5, 0.5, 0.95, 0.8] ops
  have hdue : (start.thresholds.filter fun t =>
      !start.reaches (checked 0 ops) t && !(m.ratio < t.value)).map
        (fun t => ThresholdWarning.mk t.value m.ratio m.usage.input 100) =
      [⟨0.8, 0.96, 96, 100⟩, ⟨0.95, 0.96, 96, 100⟩] := by
    decide +kernel
  have hbefore : (start.thresholds.filter (start.reaches (checked 0 ops))).map (·.value) =
      [0.5] := by
    decide +kernel
  refine ⟨by decide +kernel, fun σ tell s => ?_, ?_⟩
  · obtain ⟨m', hwarns, -, hagain⟩ := hcheck σ tell s
    rw [hdue] at hwarns
    exact ⟨m', hwarns, hagain⟩
  · rw [hbefore] at htold
    exact List.perm_singleton.1 htold

end TurnEngine.Meter
