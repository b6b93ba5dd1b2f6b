/-!
# Words that stay at their ends

Sums and differences of 64-bit words that do not wrap: a sum stays at the largest word
(`toNat_addSat`), a difference at zero (`toNat_subSat`).
-/

/-- The largest 64-bit word. -/
def UInt64.largest : UInt64 := 18446744073709551615

/-- The sum, or the largest word when it does not fit. -/
def UInt64.addSat (a b : UInt64) : UInt64 :=
  if a + b < a then .largest else a + b

/-- The difference, or zero when it would be negative. -/
def UInt64.subSat (a b : UInt64) : UInt64 :=
  if a ≤ b then 0 else a - b

theorem UInt64.toNat_addSat (a b : UInt64) :
    (a.addSat b).toNat = min (a.toNat + b.toNat) (UInt64.size - 1) := by
  have ha := a.toNat_lt
  have hb := b.toNat_lt
  simp only [addSat, largest, UInt64.size]
  split
  · rename_i h
    rw [UInt64.lt_iff_toNat_lt, UInt64.toNat_add] at h
    show (18446744073709551615 : Nat) = _
    omega
  · rename_i h
    rw [UInt64.lt_iff_toNat_lt, UInt64.toNat_add] at h
    rw [UInt64.toNat_add]
    omega

theorem UInt64.toNat_subSat (a b : UInt64) : (a.subSat b).toNat = a.toNat - b.toNat := by
  simp only [subSat]
  split
  · rename_i h
    rw [UInt64.le_iff_toNat_le] at h
    show 0 = _
    omega
  · rename_i h
    rw [UInt64.le_iff_toNat_le] at h
    rw [UInt64.toNat_sub_of_le]
    rw [UInt64.le_iff_toNat_le]
    omega
