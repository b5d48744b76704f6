import LinearAssignment.Proofs.FloatOrder

/-! # Rounding keeps the order

    The exact result of an operation on floats is a whole number of small units, and rounding
    replaces it by the nearest number with at most 53 binary digits, in the middle between two
    by the even one.  What is cut off depends on the number of digits, so that rounding is not
    the same function in all binades; it keeps the order all the same.

    * `nearest`: the nearest multiple of a power of two.
    * `rounded`, `rounded_mono`: rounding to 53 digits, and that it keeps the order.
    * `roundedMantissa_shiftRight`: two residual bits are enough to find the nearest multiple. -/

namespace LinearAssignment.FloatRounding

open Float.Model Float.Model.UnpackedFloat

/-! ## The nearest multiple of a power of two -/

/-- How often `2 ^ k` goes into `m`, to the nearest count and in the middle to the even one. -/
def nearest (m k : Nat) : Nat :=
  if 2 * (m % 2 ^ k) < 2 ^ k then m / 2 ^ k
  else if 2 ^ k < 2 * (m % 2 ^ k) then m / 2 ^ k + 1
  else m / 2 ^ k + m / 2 ^ k % 2

theorem nearest_mono {m m' : Nat} (h : m ≤ m') (k : Nat) : nearest m k ≤ nearest m' k := by
  have hdiv : m / 2 ^ k ≤ m' / 2 ^ k := Nat.div_le_div_right h
  have hm := Nat.div_add_mod m (2 ^ k)
  have hm' := Nat.div_add_mod m' (2 ^ k)
  unfold nearest
  rcases hdiv.lt_or_eq with hlt | heq
  · split_ifs <;> omega
  · -- With the same quotient the remainders are in order.
    rw [heq] at hm ⊢
    split_ifs <;> omega

/-- Zeros at the end of both numbers do not matter. -/
theorem nearest_mul_pow (m j k : Nat) : nearest (m * 2 ^ j) (k + j) = nearest m k := by
  have hpos : 0 < 2 ^ j := Nat.two_pow_pos j
  have hdiv : m * 2 ^ j / 2 ^ (k + j) = m / 2 ^ k := by
    rw [pow_add, Nat.mul_div_mul_right _ _ hpos]
  have hmod : m * 2 ^ j % 2 ^ (k + j) = m % 2 ^ k * 2 ^ j := by
    rw [pow_add, Nat.mul_mod_mul_right]
  have hscale : ∀ a b : Nat, a * 2 ^ j < b * 2 ^ j ↔ a < b := fun a b =>
    Nat.mul_lt_mul_right hpos
  unfold nearest
  rw [hdiv, hmod, pow_add, ← mul_assoc]
  simp only [hscale]

theorem nearest_zero (m : Nat) : nearest m 0 = m := by
  unfold nearest
  rw [pow_zero, Nat.mod_one, Nat.div_one, if_pos (by decide)]

theorem nearest_mul (m k : Nat) : nearest (m * 2 ^ k) k = m := by
  have := nearest_mul_pow m k 0
  rwa [zero_add, nearest_zero] at this

theorem nearest_le {m b k : Nat} (h : m ≤ b * 2 ^ k) : nearest m k ≤ b :=
  nearest_mul b k ▸ nearest_mono h k

theorem le_nearest {m b k : Nat} (h : b * 2 ^ k ≤ m) : b ≤ nearest m k :=
  nearest_mul b k ▸ nearest_mono h k

/-! ## Numbers with at most 53 digits -/

/-- How many of the last digits of `n` are cut off: all but 53, and at least `scale` of them. -/
def dropped (scale n : Nat) : Nat := max (n.log2 - 52) scale

/-- The number `n / 2 ^ scale`, rounded to a whole number of at most 53 digits, zeros at the end
    aside. -/
def rounded (scale n : Nat) : Nat :=
  nearest n (dropped scale n) * 2 ^ (dropped scale n - scale)

theorem log2_mono {n n' : Nat} (h : n ≤ n') : n.log2 ≤ n'.log2 := by
  by_cases hn : n = 0
  · rw [hn, Nat.log2_zero]
    exact Nat.zero_le _
  · rw [Nat.le_log2 (by omega)]
    exact (Nat.log2_self_le hn).trans h

theorem log2_mul_pow {m : Nat} (hm : 0 < m) (j : Nat) : (m * 2 ^ j).log2 = m.log2 + j := by
  rw [Nat.log2_eq_iff (by positivity), pow_add, add_right_comm, pow_add]
  exact ⟨Nat.mul_le_mul_right _ (Nat.log2_self_le hm.ne'),
    Nat.mul_lt_mul_of_pos_right Nat.lt_log2_self (by positivity)⟩

theorem nearest_dropped_le (scale n : Nat) : nearest n (dropped scale n) ≤ 2 ^ 53 := by
  refine nearest_le ?_
  rw [← pow_add]
  refine (Nat.lt_log2_self (n := n)).le.trans (Nat.pow_le_pow_right (by decide) ?_)
  unfold dropped
  omega

/-- Where more digits are cut off than have to be, 53 of them are left. -/
theorem le_nearest_dropped {scale n : Nat} (h : scale < dropped scale n) :
    2 ^ 52 ≤ nearest n (dropped scale n) := by
  have hlog : dropped scale n = n.log2 - 52 := by
    unfold dropped at h ⊢
    omega
  have hn : n ≠ 0 := by
    rintro rfl
    rw [hlog, Nat.log2_zero] at h
    omega
  refine le_nearest ?_
  rw [← pow_add]
  refine (Nat.pow_le_pow_right (by decide) ?_).trans (Nat.log2_self_le hn)
  omega

/-- **Rounding keeps the order.** -/
theorem rounded_mono (scale : Nat) {n n' : Nat} (h : n ≤ n') :
    rounded scale n ≤ rounded scale n' := by
  have hlog := log2_mono h
  have hle : dropped scale n ≤ dropped scale n' := by
    unfold dropped
    omega
  unfold rounded
  rcases hle.lt_or_eq with hlt | heq
  · -- The larger number has more digits, and after rounding at least as many.
    have hscale : scale ≤ dropped scale n := le_max_right ..
    calc nearest n (dropped scale n) * 2 ^ (dropped scale n - scale)
        ≤ 2 ^ 53 * 2 ^ (dropped scale n - scale) :=
          Nat.mul_le_mul_right _ (nearest_dropped_le scale n)
      _ ≤ 2 ^ 52 * 2 ^ (dropped scale n' - scale) := by
          rw [← pow_add, ← pow_add]
          exact Nat.pow_le_pow_right (by decide) (by omega)
      _ ≤ nearest n' (dropped scale n') * 2 ^ (dropped scale n' - scale) :=
          Nat.mul_le_mul_right _ (le_nearest_dropped (hscale.trans_lt hlt))
  · rw [heq]
    exact Nat.mul_le_mul_right _ (nearest_mono h _)

theorem rounded_zero (scale : Nat) : rounded scale 0 = 0 := by
  have hzero : nearest 0 (dropped scale 0) = 0 := Nat.le_zero.mp (nearest_le (Nat.zero_le _))
  rw [rounded, hzero, Nat.zero_mul]

/-- A number that has at most 53 digits, zeros at the end aside, is kept. -/
theorem rounded_mul_pow {m k : Nat} (hlt : m < 2 ^ 53) (hle : 2 ^ 52 ≤ m ∨ k = 0) :
    rounded 0 (m * 2 ^ k) = m * 2 ^ k := by
  rcases Nat.eq_zero_or_pos m with rfl | hm
  · rw [Nat.zero_mul, rounded_zero]
  have hdropped : dropped 0 (m * 2 ^ k) = k := by
    have hupper : m.log2 < 53 := (Nat.log2_lt hm.ne').mpr hlt
    rw [dropped, log2_mul_pow hm]
    rcases hle with hle | rfl
    · have hlower : 52 ≤ m.log2 := (Nat.le_log2 hm.ne').mpr hle
      omega
    · omega
  rw [rounded, hdropped, nearest_mul, Nat.sub_zero]

/-! ## Residual bits -/

/-- What is left of a mantissa after some shifts: the next bit, and whether there was any
    behind it. -/
theorem repeat_shiftRightOne (m k : Nat) :
    Nat.repeat ExtendedMantissa.shiftRightOne (k + 1) ⟨m, false, false⟩ =
      ⟨m / 2 ^ (k + 1), m / 2 ^ k % 2 != 0, m % 2 ^ k != 0⟩ := by
  -- With every shift the bit that was next joins those behind it.
  induction k with
  | zero =>
    simp [Nat.repeat, ExtendedMantissa.shiftRightOne, Nat.mod_one]
  | succ k ih =>
    rw [Nat.repeat, ih]
    have hbit : m / 2 ^ k % 2 < 2 := Nat.mod_lt _ (by decide)
    have hsticky : (m / 2 ^ k % 2 != 0 || m % 2 ^ k != 0) = (m % 2 ^ (k + 1) != 0) := by
      rw [Nat.mod_pow_succ, Bool.eq_iff_iff]
      simp only [Bool.or_eq_true, bne_iff_ne, ne_eq, Nat.add_eq_zero_iff, Nat.mul_eq_zero,
        Nat.pow_eq_zero]
      omega
    rw [ExtendedMantissa.shiftRightOne, hsticky, Nat.div_div_eq_div_mul, ← pow_succ]

/-- What a mantissa is rounded to, by the bit behind it and the rest. -/
theorem roundedMantissa_eq {q b rest p : Nat} (hb : b < 2) (hrest : rest < p) :
    (⟨q, b != 0, rest != 0⟩ : ExtendedMantissa).roundedMantissa =
      if rest + p * b < p then q else if p < rest + p * b then q + 1 else q + q % 2 := by
  -- The bit is worth `p`, one half of a unit, and the rest is less.
  obtain rfl | rfl : b = 0 ∨ b = 1 := by omega
  · rw [Nat.mul_zero, Nat.add_zero, if_pos hrest]
    by_cases h : rest = 0
    · rw [h]
      rfl
    · rw [bne_iff_ne.mpr h]
      rfl
  · rw [Nat.mul_one, if_neg (by omega)]
    by_cases h : rest = 0
    · rw [h, if_neg (by omega)]
      rfl
    · rw [bne_iff_ne.mpr h, if_pos (by omega)]
      rfl

/-- **The residual bits round to the nearest multiple.** -/
theorem roundedMantissa_shiftRight (m k : Nat) :
    (ExtendedMantissa.ofMantissaAndAccuracy m .exact >>> k).roundedMantissa = nearest m k := by
  show (Nat.repeat ExtendedMantissa.shiftRightOne k ⟨m, false, false⟩).roundedMantissa = _
  cases k with
  | zero => exact (nearest_zero m).symm
  | succ k =>
    have hbit : m / 2 ^ k % 2 < 2 := Nat.mod_lt _ (by decide)
    have hrest : m % 2 ^ k < 2 ^ k := Nat.mod_lt _ (Nat.two_pow_pos k)
    have hdouble : ∀ a b : Nat, 2 * a < 2 * b ↔ a < b := by omega
    rw [repeat_shiftRightOne, roundedMantissa_eq hbit hrest, nearest, Nat.mod_pow_succ]
    simp only [pow_succ', hdouble]

end LinearAssignment.FloatRounding
