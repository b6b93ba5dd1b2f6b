import TurnEngine.Usage.Meter

/-!
# Thresholds that are crossed

A meter keeps for every threshold whether it has warned. It need not: the flag only says whether the
threshold was reached at one of the checks before (`Meter.standing`). So a check warns of the
thresholds that are reached at its count and were reached at none of the counts checked before
(`Meter.check_standing_warnings`).
-/

namespace TurnEngine.Meter

/-- The meter at another count. -/
def withUsage (m : Meter) (u : Usage) : Meter := { m with usage := u }

/-- Whether a threshold is reached at one of some counts. -/
def reaches (m : Meter) (counts : List Usage) (t : Threshold) : Bool :=
  counts.any fun u => !((m.withUsage u).ratio < t.value)

/-- The warnings of the thresholds reached at a count, and at none of the counts before. -/
def crossings (m : Meter) (counts : List Usage) (u : Usage) : List ThresholdWarning :=
  (m.thresholds.filter fun t => !m.reaches counts t && m.reaches [u] t).map
    (m.withUsage u).warning

/-- The meter at a count, after checks at some counts. -/
def standing (m : Meter) (counts : List Usage) (u : Usage) : Meter :=
  { m with
    usage := u
    thresholds := m.thresholds.map fun t => { t with fired := m.reaches counts t } }

/-- The last of some counts. -/
def lastCount (counts : List Usage) : Usage := counts.getLastD {}

/-- The meter after checks at some counts. -/
def after (m : Meter) (counts : List Usage) : Meter :=
  { m with
    usage := lastCount counts
    thresholds := m.thresholds.map fun t => { t with fired := m.reaches counts t } }

theorem standing_nil (contextWindow : UInt64) (thresholds : List Float) :
    (new contextWindow thresholds).standing [] {} = new contextWindow thresholds := by
  simp [standing, new, reaches]

theorem after_nil (contextWindow : UInt64) (thresholds : List Float) :
    (new contextWindow thresholds).after [] = new contextWindow thresholds :=
  standing_nil contextWindow thresholds

section
variable (m : Meter) (counts : List Usage) (u delta : Usage)

theorem after_add :
    (m.after counts).add delta = m.standing counts (lastCount counts + delta) :=
  rfl

/-- What is due at a check is read off the value of a threshold and its flag. -/
theorem isDue_standing (t : Threshold) :
    (m.standing counts u).isDue { t with fired := m.reaches counts t } =
      (!m.reaches counts t && m.reaches [u] t) := by
  simp only [reaches, List.any_cons, List.any_nil, Bool.or_false]
  rfl

theorem reaches_concat (t : Threshold) :
    m.reaches (counts ++ [u]) t =
      (m.reaches counts t || (!m.reaches counts t && m.reaches [u] t)) := by
  have happend : m.reaches (counts ++ [u]) t = (m.reaches counts t || m.reaches [u] t) :=
    List.any_append
  rw [happend]
  cases m.reaches counts t <;> rfl

/-- A check warns of what is newly reached. -/
theorem check_standing_warnings : (m.standing counts u).check.1 = m.crossings counts u := by
  show ((m.thresholds.map fun t => { t with fired := m.reaches counts t }).filter _).map _ = _
  rw [List.filter_map, List.map_map, crossings]
  congr 1
  exact List.filter_congr fun t _ => isDue_standing m counts u t

/-- Nothing is newly reached at a count that was checked just before. -/
theorem crossings_concat_self : m.crossings (counts ++ [u]) u = [] := by
  have hnone (t : Threshold) :
      (!m.reaches (counts ++ [u]) t && m.reaches [u] t) = false := by
    rw [reaches_concat]
    cases m.reaches counts t <;> cases m.reaches [u] t <;> rfl
  simp [crossings, hnone]

/-- A check remembers its count. -/
theorem check_standing_meter :
    (m.standing counts u).check.2 = m.standing (counts ++ [u]) u := by
  have hthresholds : (m.standing counts u).check.2.thresholds =
      (m.standing (counts ++ [u]) u).thresholds := by
    show (m.thresholds.map fun t => { t with fired := m.reaches counts t }).map _ = _
    rw [List.map_map]
    refine List.map_congr_left fun t _ => ?_
    rw [reaches_concat, ← isDue_standing]
    rfl
  exact congrArg (fun thresholds : List Threshold =>
    ({ m with usage := u, thresholds } : Meter)) hthresholds

/-- The next check warns of what is newly reached. -/
theorem check_after_warnings : ((m.after counts).add delta).check.1 =
    m.crossings counts (lastCount counts + delta) := by
  rw [after_add, check_standing_warnings]

/-- The next check remembers its count. -/
theorem check_after_meter : ((m.after counts).add delta).check.2 =
    m.after (counts ++ [lastCount counts + delta]) := by
  have hlast : lastCount (counts ++ [lastCount counts + delta]) = lastCount counts + delta := by
    simp [lastCount]
  rw [after_add, check_standing_meter, after, hlast]
  rfl

end

end TurnEngine.Meter
