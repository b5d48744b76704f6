import LinearAssignment.Proofs.FloatRounding

/-! # Floats as whole numbers of units

    Every finite float is a whole number of the smallest positive one.  Differences and products
    of floats are computed exactly and then rounded, so in units they are roundings of whole
    numbers, and everything about their order and size is about these.

    * `units`: the number of units of a float.
    * `IsRounded`: the form of a rounded result; the order of such floats is that of their units.
    * `isUnits_sub`, `natAbs_units_mul`: the operations in units.
    * `isFinite_sub_iff`, `isFinite_mul_iff`: results are finite below a number of units. -/

namespace LinearAssignment.FloatRounding

open Float.Model Float.Model.UnpackedFloat FloatOrder

/-! ## Units -/

/-- How often the smallest positive float goes into a number. -/
def units : UnpackedFloat → Int
  | .finite s m e _ => s.apply (m * 2 ^ (e + 1074).toNat : Nat)
  | _ => 0

/-- The form that rounding leaves: at most 53 digits, and no fewer above the lowest exponent. -/
def IsRounded : UnpackedFloat → Prop
  | .finite _ m e _ => m < 2 ^ 53 ∧ -1074 ≤ e ∧ (2 ^ 52 ≤ m ∨ e = -1074)
  | .zero _ => True
  | _ => False

theorem IsRounded.ne_notANumber {u : UnpackedFloat} (h : IsRounded u) : u ≠ .notANumber := by
  rintro rfl
  exact h

/-- Digits and exponents compare as the numbers do. -/
theorem digits_lt_iff {m m' : Nat} {e e' : Int} (hm : m < 2 ^ 53) (he : -1074 ≤ e)
    (hlow : 2 ^ 52 ≤ m ∨ e = -1074) (hm' : m' < 2 ^ 53) (he' : -1074 ≤ e')
    (hlow' : 2 ^ 52 ≤ m' ∨ e' = -1074) :
    (e < e' ∨ e = e' ∧ m < m') ↔ m * 2 ^ (e + 1074).toNat < m' * 2 ^ (e' + 1074).toNat := by
  -- Above the lowest exponent there are 53 digits, which no smaller exponent makes up for.
  have hbelow : ∀ {m m' : Nat} {e e' : Int}, m < 2 ^ 53 → -1074 ≤ e → e < e' →
      (2 ^ 52 ≤ m' ∨ e' = -1074) → m * 2 ^ (e + 1074).toNat < m' * 2 ^ (e' + 1074).toNat := by
    intro m m' e e' hm he hlt hlow'
    calc m * 2 ^ (e + 1074).toNat < 2 ^ 53 * 2 ^ (e + 1074).toNat :=
          Nat.mul_lt_mul_of_pos_right hm (Nat.two_pow_pos _)
      _ ≤ 2 ^ 52 * 2 ^ (e' + 1074).toNat := by
          rw [← pow_add, ← pow_add]
          exact Nat.pow_le_pow_right (by decide) (by omega)
      _ ≤ m' * 2 ^ (e' + 1074).toNat := Nat.mul_le_mul_right _ (hlow'.resolve_right (by omega))
  rcases lt_trichotomy e e' with hlt | rfl | hgt
  · exact iff_of_true (.inl hlt) (hbelow hm he hlt hlow')
  · rw [Nat.mul_lt_mul_right (Nat.two_pow_pos _)]
    omega
  · exact iff_of_false (by omega) (hbelow hm' he' hgt hlow).le.not_gt

theorem units_pos {m : Nat} (hm : 0 < m) (e : Int) : 0 < m * 2 ^ (e + 1074).toNat :=
  Nat.mul_pos hm (Nat.two_pow_pos _)

/-- **Rounded numbers are in the order of their units.** -/
theorem before_iff_units_lt {u v : UnpackedFloat} (hu : IsRounded u) (hv : IsRounded v) :
    Before (place u) (place v) ↔ units u < units v := by
  rcases u with _ | _ | _ | ⟨s, m, e, hm⟩ <;> rcases v with _ | _ | _ | ⟨s', m', e', hm'⟩
  all_goals try exact absurd hu id
  all_goals try exact absurd hv id
  case zero.zero => simp [place, units, Before]
  case zero.finite =>
    have := units_pos hm' e'
    cases s' <;> simp only [place, units, Sign.apply, Before] <;> omega
  case finite.zero =>
    have := units_pos hm e
    cases s <;> simp only [place, units, Sign.apply, Before] <;> omega
  case finite.finite =>
    have hpos := units_pos hm e
    have hpos' := units_pos hm' e'
    have hlt := digits_lt_iff hu.1 hu.2.1 hu.2.2 hv.1 hv.2.1 hv.2.2
    have hgt := digits_lt_iff hv.1 hv.2.1 hv.2.2 hu.1 hu.2.1 hu.2.2
    simp only [units]
    generalize m * 2 ^ (e + 1074).toNat = n at *
    generalize m' * 2 ^ (e' + 1074).toNat = n' at *
    -- Different signs decide alone, and the same signs leave it to the sizes.
    cases s <;> cases s' <;> simp [place, Sign.apply, Before] <;> omega

/-! ## Rounded results -/

/-- The float is rounded, and it is this number of units. -/
structure IsUnits (u : UnpackedFloat) (z : Int) : Prop where
  isRounded : IsRounded u
  units_eq : units u = z

/-- The float with a mantissa of at most 53 digits; one that is carried to 54 is a power of
    two. -/
def withMantissa (s : Sign) (r : Nat) (t : Int) : UnpackedFloat :=
  if h : r = 0 then .zero s
  else if r < 2 ^ 53 then .finite s r t (Nat.pos_of_ne_zero h)
  else .finite s (2 ^ 52) (t + 1) (by decide)

theorem isUnits_withMantissa {s : Sign} {r : Nat} {t : Int} (hr : r ≤ 2 ^ 53) (ht : -1074 ≤ t)
    (hlow : 2 ^ 52 ≤ r ∨ t = -1074) :
    IsUnits (withMantissa s r t) (s.apply (r * 2 ^ (t + 1074).toNat : Nat)) := by
  unfold withMantissa
  split_ifs with hzero hlt
  · rw [hzero, Nat.zero_mul]
    exact ⟨trivial, by cases s <;> rfl⟩
  · exact ⟨⟨hlt, ht, hlow⟩, rfl⟩
  · have hr : r = 2 ^ 53 := le_antisymm hr (not_lt.mp hlt)
    have hexp : (t + 1 + 1074).toNat = (t + 1074).toNat + 1 := by omega
    refine ⟨⟨by decide, by omega, .inl le_rfl⟩, ?_⟩
    rw [units, hexp, hr, pow_succ 2 52, pow_succ' 2 (t + 1074).toNat, mul_assoc]

/-- The exponent that a result with these digits gets. -/
theorem targetExponent_eq (m : Nat) (e : Int) :
    Format.binary64.targetExponent (totalExponent m e) = max (m.log2 + e - 52) (-1074) := by
  have hmin : Format.binary64.minExponent = -1074 := by decide
  have hbits : (Format.binary64.mantissaBits : Int) = 53 := by decide
  rw [Format.targetExponent, totalExponent, hmin, hbits]
  omega

theorem shiftToTargetExponent_eq (m : Nat) (e : Int) {k : Nat}
    (hk : k = (Format.binary64.targetExponent (totalExponent m e) - e).toNat) :
    shiftToTargetExponent Format.binary64 m e .exact =
      (ExtendedMantissa.ofMantissaAndAccuracy m .exact >>> k, e + k) := by
  rw [hk]
  rfl

/-- A rounded mantissa shifted once more. -/
def shiftedAgain (s : Sign) (r : Nat) (t : Int) : UnpackedFloat :=
  let p := shiftToTargetExponent Format.binary64 r t .exact
  if h : p.1.mantissa = 0 then .zero s else .finite s p.1.mantissa p.2 (Nat.pos_of_ne_zero h)

/-- After the first rounding at most a carry is left to be shifted. -/
theorem shiftedAgain_eq {s : Sign} {r : Nat} {t : Int} (hr : r ≤ 2 ^ 53) (ht : -1074 ≤ t) :
    shiftedAgain s r t = withMantissa s r t := by
  have hlog : r < 2 ^ 53 → r.log2 ≤ 52 := by
    intro hlt
    by_cases h : r = 0
    · rw [h, Nat.log2_zero]
      omega
    · exact Nat.lt_succ_iff.mp ((Nat.log2_lt h).mpr hlt)
  unfold shiftedAgain withMantissa
  -- Up to 53 digits nothing is shifted; what was carried to 54 loses a zero.
  by_cases hlt : r < 2 ^ 53
  · have hshift : 0 = (Format.binary64.targetExponent (totalExponent r t) - t).toNat := by
      have := hlog hlt
      rw [targetExponent_eq]
      omega
    simp only [shiftToTargetExponent_eq r t hshift, if_pos hlt]
    simp [ExtendedMantissa.ofMantissaAndAccuracy, HShiftRight.hShiftRight, Nat.repeat]
  · obtain rfl : r = 2 ^ 53 := le_antisymm hr (not_lt.mp hlt)
    have hshift : 1 = (Format.binary64.targetExponent (totalExponent (2 ^ 53) t) - t).toNat := by
      rw [targetExponent_eq, Nat.log2_two_pow]
      omega
    simp only [shiftToTargetExponent_eq (2 ^ 53) t hshift, if_neg hlt]
    rfl

theorem roundWithAccuracy_eq {s : Sign} {m k : Nat} {e : Int}
    (hk : k = (Format.binary64.targetExponent (totalExponent m e) - e).toNat)
    (hr : nearest m k ≤ 2 ^ 53) (ht : -1074 ≤ e + k) :
    roundWithAccuracy Format.binary64 s m e .exact = withMantissa s (nearest m k) (e + k) := by
  rw [roundWithAccuracy, shiftToTargetExponent_eq m e hk]
  show shiftedAgain s (ExtendedMantissa.roundedMantissa _) (e + k) = _
  rw [roundedMantissa_shiftRight, shiftedAgain_eq hr ht]

/-- **Rounding digits that are not too few rounds the number of units.** -/
theorem isUnits_roundWithAccuracy (s : Sign) {m : Nat} (hm : 0 < m) {e : Int} {j scale : Nat}
    (hj : e + 1074 + scale = j) (hlow : 52 ≤ m.log2 ∨ e ≤ -1074) :
    IsUnits (roundWithAccuracy Format.binary64 s m e .exact)
      (s.apply (rounded scale (m * 2 ^ j) : Nat)) := by
  obtain ⟨k, hk⟩ :
      ∃ k, k = (Format.binary64.targetExponent (totalExponent m e) - e).toNat := ⟨_, rfl⟩
  have hlog := log2_mul_pow hm j
  have htarget := targetExponent_eq m e
  -- In units, the `j` zeros at the end are dropped along with the digits shifted out.
  have hdropped : dropped scale (m * 2 ^ j) = k + j := by
    unfold dropped
    omega
  have hr := nearest_dropped_le scale (m * 2 ^ j)
  have hlarge := @le_nearest_dropped scale (m * 2 ^ j)
  rw [rounded]
  rw [hdropped, nearest_mul_pow] at *
  have hexp : k + j - scale = (e + k + 1074).toNat := by omega
  rw [roundWithAccuracy_eq hk hr (by omega), hexp]
  refine isUnits_withMantissa hr (by omega) ?_
  by_cases hmin : e + k = -1074
  · exact .inr hmin
  · exact .inl (hlarge (by omega))

/-- Rounding fits the exponent to the digits first. -/
theorem isUnits_round (s : Sign) {m : Nat} (hm : 0 < m) {e : Int} {j scale : Nat}
    (hj : e + 1074 + scale = j) :
    IsUnits (UnpackedFloat.round Format.binary64 s m e)
      (s.apply (rounded scale (m * 2 ^ j) : Nat)) := by
  have htarget := targetExponent_eq m e
  -- A mantissa with too few digits gets `a` zeros first.
  obtain ⟨a, ha⟩ :
      ∃ a, a = (e - Format.binary64.targetExponent (totalExponent m e)).toNat := ⟨_, rfl⟩
  have hround : UnpackedFloat.round Format.binary64 s m e =
      roundWithAccuracy Format.binary64 s (m * 2 ^ a) (e - a) .exact := by
    rw [UnpackedFloat.round, decreaseExponent, ← ha, Nat.shiftLeft_eq]
  have hlog := log2_mul_pow hm a
  have hsum : m * 2 ^ j = m * 2 ^ a * 2 ^ (j - a) := by
    rw [mul_assoc, ← pow_add, Nat.add_sub_cancel' (by omega)]
  rw [hround, hsum]
  exact isUnits_roundWithAccuracy s (by positivity) (by omega) (by omega)

/-! ## Operations -/

theorem natAbs_apply (s : Sign) (n : Nat) : (s.apply n).natAbs = n := by
  cases s
  · exact Int.natAbs_neg _
  · rfl

theorem rounded_units {u : UnpackedFloat} (hu : IsRounded u) :
    rounded 0 (units u).natAbs = (units u).natAbs := by
  rcases u with _ | _ | _ | ⟨s, m, e, hm⟩
  · exact absurd hu id
  · exact absurd hu id
  · exact rounded_zero 0
  · have hlow : 2 ^ 52 ≤ m ∨ (e + 1074).toNat = 0 := hu.2.2.imp_right (by omega)
    rw [units, natAbs_apply, rounded_mul_pow hu.1 hlow]

/-- A whole number of units is rounded to a float. -/
theorem isUnits_normalize {z e : Int} (hz : 0 ≤ z) {j : Nat} (hj : e + 1074 = j) :
    IsUnits (UnpackedFloat.normalize Format.binary64 z e .positive)
      (rounded 0 (z.toNat * 2 ^ j) : Nat) := by
  rcases hz.lt_or_eq with hpos | rfl
  · have hcompare : compare z 0 = .gt := compare_gt_iff_gt.mpr hpos
    unfold UnpackedFloat.normalize
    rw [hcompare]
    exact isUnits_round .positive (by omega) (by omega)
  · rw [Int.toNat_zero, Nat.zero_mul, rounded_zero]
    exact ⟨trivial, rfl⟩

/-- The difference of two signed mantissas, brought to one exponent, in units. -/
theorem units_sub_eq (s s' : Sign) {m m' : Nat} {e e' : Int} (hm : 0 < m) (hm' : 0 < m')
    (he : -1074 ≤ e) (he' : -1074 ≤ e') :
    units (.finite s m e hm) - units (.finite s' m' e' hm') =
      (s.apply (decreaseExponent m e (min e e')).1 -
        s'.apply (decreaseExponent m' e' (min e e')).1) * 2 ^ (min e e' + 1074).toNat := by
  have hshift : ∀ (s : Sign) (m : Nat) {e t : Int}, -1074 ≤ t → t ≤ e →
      s.apply (m * 2 ^ (e + 1074).toNat : Nat) =
        s.apply (decreaseExponent m e t).1 * 2 ^ (t + 1074).toNat := by
    intro s m e t ht hle
    have hexp : (e + 1074).toNat = (e - t).toNat + (t + 1074).toNat := by omega
    rw [decreaseExponent, Nat.shiftLeft_eq, hexp, pow_add, ← mul_assoc]
    cases s <;> simp [Sign.apply]
  rw [units, units, hshift s m (le_min he he') (min_le_left ..),
    hshift s' m' (le_min he he') (min_le_right ..), sub_mul]

/-- **A difference that is not negative is the exact one, rounded.** -/
theorem isUnits_sub {u v : UnpackedFloat} (hu : IsRounded u) (hv : IsRounded v)
    (hle : units v ≤ units u) :
    IsUnits (UnpackedFloat.sub Format.binary64 u v)
      (rounded 0 (units u - units v).toNat : Nat) := by
  rcases u with _ | _ | s | ⟨s, m, e, hm⟩ <;> rcases v with _ | _ | s' | ⟨s', m', e', hm'⟩
  all_goals try exact absurd hu id
  all_goals try exact absurd hv id
  case zero.zero =>
    have hzero : units (.zero s) - units (.zero s') = 0 := rfl
    rw [hzero, Int.toNat_zero, rounded_zero]
    cases s <;> cases s' <;> exact ⟨trivial, rfl⟩
  case zero.finite =>
    have hneg : units (.zero s) - units (.finite s' m' e' hm') =
        (units (.finite s' m' e' hm')).natAbs := by
      rw [Int.ofNat_natAbs_of_nonpos hle]
      exact zero_sub _
    rw [hneg, Int.toNat_natCast, rounded_units hv, Int.ofNat_natAbs_of_nonpos hle]
    refine ⟨hv, ?_⟩
    cases s'
    · exact (neg_neg _).symm
    · rfl
  case finite.zero =>
    have habs : units (.finite s m e hm) - units (.zero s') =
        (units (.finite s m e hm)).natAbs := by
      rw [Int.natAbs_of_nonneg hle]
      exact sub_zero _
    rw [habs, Int.toNat_natCast, rounded_units hu, Int.natAbs_of_nonneg hle]
    exact ⟨hu, rfl⟩
  case finite.finite =>
    -- At the smaller of the exponents the difference is one of whole numbers.
    have hunits := units_sub_eq s s' hm hm' hu.2.1 hv.2.1
    have hexp : min e e' + 1074 = (min e e' + 1074).toNat := by
      have := hu.2.1
      have := hv.2.1
      omega
    show IsUnits (UnpackedFloat.normalize Format.binary64
      (s.apply (decreaseExponent m e (min e e')).1 - s'.apply (decreaseExponent m' e' (min e e')).1)
      (min e e') .positive) _
    generalize s.apply (decreaseExponent m e (min e e')).1 -
      s'.apply (decreaseExponent m' e' (min e e')).1 = z at hunits
    have hz : 0 ≤ z := by
      have hpow : (0 : Int) < 2 ^ (min e e' + 1074).toNat := by positivity
      rw [← mul_nonneg_iff_of_pos_right hpow, ← hunits]
      exact sub_nonneg.mpr hle
    obtain ⟨n, rfl⟩ := Int.eq_ofNat_of_zero_le hz
    have hnat := isUnits_normalize hz hexp
    rw [Int.toNat_natCast] at hnat
    rw [hunits]
    exact_mod_cast hnat

/-- **A product is the exact one, rounded.** -/
theorem natAbs_units_mul {u v : UnpackedFloat} (hu : IsRounded u) (hv : IsRounded v) :
    IsRounded (UnpackedFloat.mul Format.binary64 u v) ∧
      (units (UnpackedFloat.mul Format.binary64 u v)).natAbs =
        rounded 1074 ((units u).natAbs * (units v).natAbs) := by
  have hzero : ∀ (s : Sign) {n : Nat}, n = 0 →
      IsRounded (.zero s) ∧ (units (.zero s)).natAbs = rounded 1074 n := by
    rintro s n rfl
    exact ⟨trivial, (rounded_zero 1074).symm⟩
  rcases u with _ | _ | s | ⟨s, m, e, hm⟩ <;> rcases v with _ | _ | s' | ⟨s', m', e', hm'⟩
  all_goals try exact absurd hu id
  all_goals try exact absurd hv id
  case zero.zero => exact hzero _ (zero_mul _)
  case zero.finite => exact hzero _ (zero_mul _)
  case finite.zero => exact hzero _ (mul_zero _)
  case finite.finite =>
    have hprod : (units (.finite s m e hm)).natAbs * (units (.finite s' m' e' hm')).natAbs =
        m * m' * 2 ^ ((e + 1074).toNat + (e' + 1074).toNat) := by
      rw [units, units, natAbs_apply, natAbs_apply, mul_mul_mul_comm, ← pow_add]
    -- One factor with 53 digits gives enough of them; without one both exponents are lowest.
    have hlow : 52 ≤ (m * m').log2 ∨ e + e' ≤ -1074 := by
      rw [Nat.le_log2 (Nat.mul_pos hm hm').ne']
      rcases hu.2.2 with hlarge | he
      · exact .inl (hlarge.trans (Nat.le_mul_of_pos_right m hm'))
      · rcases hv.2.2 with hlarge | he'
        · exact .inl (hlarge.trans (Nat.le_mul_of_pos_left m' hm))
        · exact .inr (by omega)
    have hexp : e + e' + 1074 + (1074 : Nat) =
        ((e + 1074).toNat + (e' + 1074).toNat : Nat) := by
      have := hu.2.1
      have := hv.2.1
      omega
    obtain ⟨hrounded, hunits⟩ :=
      isUnits_roundWithAccuracy (s * s') (Nat.mul_pos hm hm') hexp hlow
    rw [hprod]
    exact ⟨hrounded, (congrArg Int.natAbs hunits).trans (natAbs_apply _ _)⟩

/-! ## Overflow -/

/-- How many binary digits the number of units of a finite float can have. -/
def unitDigits : Nat := 2098

/-- The number of units that no finite float reaches. -/
def unitBound : Nat := 2 ^ unitDigits

theorem exponent_le_iff {s : Sign} {m : Nat} {e : Int} {hm : 0 < m}
    (h : IsRounded (.finite s m e hm)) :
    e ≤ 971 ↔ (units (.finite s m e hm)).natAbs < unitBound := by
  obtain ⟨hlt, he, hlow⟩ := h
  -- The bound has one digit more than 53 digits at the largest exponent.
  rw [units, natAbs_apply, unitBound]
  constructor
  · intro hle
    calc m * 2 ^ (e + 1074).toNat < 2 ^ 53 * 2 ^ (e + 1074).toNat :=
          Nat.mul_lt_mul_of_pos_right hlt (Nat.two_pow_pos _)
      _ ≤ 2 ^ unitDigits := by
          rw [← pow_add]
          exact Nat.pow_le_pow_right (by decide) (by unfold unitDigits; omega)
  · intro hbound
    by_contra hgt
    refine hbound.not_ge ?_
    calc 2 ^ unitDigits ≤ 2 ^ 52 * 2 ^ (e + 1074).toNat := by
          rw [← pow_add]
          exact Nat.pow_le_pow_right (by decide) (by unfold unitDigits; omega)
      _ ≤ m * 2 ^ (e + 1074).toNat := Nat.mul_le_mul_right _ (hlow.resolve_right (by omega))

theorem finite_congr {s : Sign} {m m' : Nat} {e e' : Int} {hm : 0 < m} {hm' : 0 < m'}
    (h : m = m') (he : e = e') :
    UnpackedFloat.finite s m e hm = UnpackedFloat.finite s m' e' hm' := by
  subst h he
  rfl

theorem toNat_ofNat_of_lt {w n : Nat} (h : n < 2 ^ w) : (BitVec.ofNat w n).toNat = n := by
  rw [BitVec.toNat_ofNat, Nat.mod_eq_of_lt h]

/-- What the exponent field of a packed number with 53 digits holds. -/
theorem biasedExponent_eq (e : Int) :
    e + (Format.binary64.exponentBias : Nat) + Format.binary64.mantissaBitsWithoutImplicit =
      e + 1075 := by
  rw [add_assoc]
  exact congrArg (e + ·) (by decide)

/-- A number with 53 digits is packed with its exponent. -/
theorem unpack_packComponents_normal {s : Sign} {m b : Nat} {e : Int} {hm : 0 < m}
    (hlow : 2 ^ 52 ≤ m) (hlt : m < 2 ^ 53) (hb : e + 1075 = b) (hmin : 1 ≤ b) (hmax : b < 2047) :
    UnpackedFloat.unpack Format.binary64
      (packComponents Format.binary64 s (BitVec.ofNat 11 b) (BitVec.ofNat 52 m)) =
        .finite s m e hm := by
  have hexp : (BitVec.ofNat 11 b).toNat = b := toNat_ofNat_of_lt (by omega)
  -- The field is neither that of infinities nor that of subnormal numbers.
  have hones : BitVec.ofNat 11 b ≠ -1#11 := by
    intro h
    have := congrArg BitVec.toNat h
    rw [hexp] at this
    have hall : (-1#11).toNat = 2047 := by decide
    omega
  have hzero : BitVec.ofNat 11 b ≠ 0#11 := by
    intro h
    have := congrArg BitVec.toNat h
    rw [hexp] at this
    have hnone : (0#11).toNat = 0 := by decide
    omega
  -- The leading digit is not stored.
  have hdigits : (1#1 ++ BitVec.ofNat 52 m).toNat = m := by
    rw [BitVec.toNat_append, BitVec.toNat_ofNat, BitVec.toNat_ofNat,
      ← Nat.shiftLeft_add_eq_or_of_lt (Nat.mod_lt _ (Nat.two_pow_pos _)), Nat.shiftLeft_eq]
    omega
  have hbias : ((Format.binary64.exponentBias : Nat) : Int) +
      Format.binary64.mantissaBitsWithoutImplicit = 1075 := by decide
  unfold UnpackedFloat.unpack
  simp only [unpackMantissa_packComponents, unpackExponent_packComponents,
    unpackSign_packComponents, Sign.ofBitVec_toBitVec, if_neg hones, if_neg hzero]
  exact finite_congr hdigits (by rw [hexp, hbias]; omega)

/-- A number with fewer digits is packed as it is. -/
theorem unpack_packComponents_subnormal {s : Sign} {m : Nat} {hm : 0 < m} (hlt : m < 2 ^ 52) :
    UnpackedFloat.unpack Format.binary64
      (packComponents Format.binary64 s 0#11 (BitVec.ofNat 52 m)) = .finite s m (-1074) hm := by
  have hdigits : (BitVec.ofNat 52 m).toNat = m := toNat_ofNat_of_lt hlt
  have hones : (0#11) ≠ -1#11 := by decide
  have hzero : BitVec.ofNat 52 m ≠ 0#52 := by
    intro h
    have := congrArg BitVec.toNat h
    rw [hdigits] at this
    exact hm.ne' this
  unfold UnpackedFloat.unpack
  simp only [unpackMantissa_packComponents, unpackExponent_packComponents,
    unpackSign_packComponents, Sign.ofBitVec_toBitVec, if_neg hones, if_true, dif_neg hzero]
  exact finite_congr hdigits (by decide)

/-- **A rounded number below the bound is packed without loss.** -/
theorem unpack_pack {u : UnpackedFloat} (hu : IsRounded u)
    (h : (units u).natAbs < unitBound) : (Float.Model.pack u).unpack = u := by
  rcases u with _ | _ | s | ⟨s, m, e, hm⟩
  · exact absurd hu id
  · exact absurd hu id
  · cases s <;> rfl
  · have he := (exponent_le_iff hu).mpr h
    obtain ⟨hlt, hmin, hlow⟩ := hu
    have hbits : Format.binary64.mantissaBits = 53 := by decide
    have hbias := biasedExponent_eq e
    have hrange : ¬ 2 ^ Format.binary64.exponentBits ≤ (e + 1075).toNat + 1 := by
      show ¬ 2 ^ 11 ≤ (e + 1075).toNat + 1
      omega
    show UnpackedFloat.unpack Format.binary64 (UnpackedFloat.pack Format.binary64 _) = _
    unfold UnpackedFloat.pack
    simp only [hbias, hbits, if_neg hrange]
    -- Fewer than 53 digits come with the lowest exponent only.
    by_cases hnormal : 2 ^ 52 ≤ m
    · have hlog : m.log2 + 1 = 53 := by
        rw [(Nat.log2_eq_iff hm.ne').mpr ⟨hnormal, hlt⟩]
      rw [if_pos hlog]
      exact unpack_packComponents_normal hnormal hlt (by omega) (by omega) (by omega)
    · have hlog : m.log2 + 1 ≠ 53 := by
        have := (Nat.log2_lt hm.ne').mpr (not_le.mp hnormal)
        omega
      obtain rfl := hlow.resolve_left hnormal
      rw [if_neg hlog]
      exact unpack_packComponents_subnormal (not_le.mp hnormal)

/-- A rounded number beyond the bound is packed as an infinity. -/
theorem isFinite_unpack_pack {u : UnpackedFloat} (hu : IsRounded u)
    (h : unitBound ≤ (units u).natAbs) : (Float.Model.pack u).unpack.isFinite = false := by
  rcases u with _ | _ | s | ⟨s, m, e, hm⟩
  · exact absurd hu id
  · exact absurd hu id
  · have hpos : 0 < unitBound := Nat.two_pow_pos _
    exact absurd h hpos.not_ge
  · have he := mt (exponent_le_iff hu).mp h.not_gt
    have hbias := biasedExponent_eq e
    have hrange : 2 ^ Format.binary64.exponentBits ≤ (e + 1075).toNat + 1 := by
      show 2 ^ 11 ≤ (e + 1075).toNat + 1
      omega
    show (UnpackedFloat.unpack Format.binary64 (UnpackedFloat.pack Format.binary64 _)).isFinite = _
    unfold UnpackedFloat.pack
    simp only [hbias, if_pos hrange]
    cases s <;> rfl

/-- What a pattern of bits stands for is rounded, and it is below the bound. -/
theorem isRounded_unpack {b : BitVec Format.binary64.numBits}
    (h : (UnpackedFloat.unpack Format.binary64 b).isFinite = true) :
    IsRounded (UnpackedFloat.unpack Format.binary64 b) ∧
      (units (UnpackedFloat.unpack Format.binary64 b)).natAbs < unitBound := by
  have hbias : Format.binary64.exponentBias = 1023 := by decide
  have hdigits : Format.binary64.mantissaBitsWithoutImplicit = 52 := rfl
  have hmantissa : (unpackMantissa b).toNat < 2 ^ 52 := (unpackMantissa b).isLt
  have hfield : (unpackExponent b).toNat < 2 ^ 11 := (unpackExponent b).isLt
  have hfinite : ∀ {s : Sign} {m : Nat} {e : Int} {hm : 0 < m}, IsRounded (.finite s m e hm) →
      e ≤ 971 → IsRounded (.finite s m e hm) ∧ (units (.finite s m e hm)).natAbs < unitBound :=
    fun hrounded he => ⟨hrounded, (exponent_le_iff hrounded).mp he⟩
  unfold UnpackedFloat.unpack at h ⊢
  dsimp only at h ⊢
  split_ifs at h ⊢ with hones hzero hleast hzero
  · cases h
  · cases h
  · exact ⟨trivial, Nat.two_pow_pos _⟩
  · -- Subnormal numbers.
    have hexp : (unpackExponent b).toNat = 0 := congrArg BitVec.toNat hleast
    refine hfinite ⟨?_, ?_, ?_⟩ ?_ <;> omega
  · -- Normal numbers.
    have hpos : (unpackExponent b).toNat ≠ 0 := fun h => hleast (BitVec.eq_of_toNat_eq h)
    have hmax : (unpackExponent b).toNat ≠ 2047 := fun h => hones (BitVec.eq_of_toNat_eq h)
    have hnormal : (1#1 ++ unpackMantissa b).toNat = 2 ^ 52 + (unpackMantissa b).toNat := by
      rw [BitVec.toNat_append, ← Nat.shiftLeft_add_eq_or_of_lt hmantissa, Nat.shiftLeft_eq]
      rfl
    refine hfinite ⟨?_, ?_, ?_⟩ ?_ <;> omega

/-! ## Floats -/

/-- A rounded result is finite below the bound. -/
theorem isFinite_pack_iff {u : UnpackedFloat} (hu : IsRounded u) :
    (Float.Model.pack u).unpack.isFinite = true ↔ (units u).natAbs < unitBound := by
  by_cases h : (units u).natAbs < unitBound
  · rw [unpack_pack hu h]
    refine iff_of_true ?_ h
    rcases u with _ | _ | _ | _
    · exact absurd hu id
    · exact absurd hu id
    · rfl
    · rfl
  · rw [isFinite_unpack_pack hu (not_lt.mp h)]
    exact iff_of_false Bool.false_ne_true h

/-- How often the smallest positive float goes into a float. -/
def unitsOf (x : Float) : Int := units x.toModel.unpack

variable {x y : Float}

theorem isRounded_of_isFinite (hx : Scalar.isFinite x = true) : IsRounded x.toModel.unpack :=
  (isRounded_unpack hx).1

theorem natAbs_unitsOf_lt (hx : Scalar.isFinite x = true) : (unitsOf x).natAbs < unitBound :=
  (isRounded_unpack hx).2

/-- **Finite floats are in the order of their units.** -/
theorem lt_iff_unitsOf_lt (hx : Scalar.isFinite x = true) (hy : Scalar.isFinite y = true) :
    x < y ↔ unitsOf x < unitsOf y := by
  have hrounded := isRounded_of_isFinite hx
  have hrounded' := isRounded_of_isFinite hy
  rw [FloatOrder.lt_iff, before_iff_units_lt hrounded hrounded']
  exact ⟨fun h => h.2.2, fun h => ⟨hrounded.ne_notANumber, hrounded'.ne_notANumber, h⟩⟩

theorem isFinite_sub_iff (hx : Scalar.isFinite x = true) (hy : Scalar.isFinite y = true)
    (hle : unitsOf y ≤ unitsOf x) :
    Scalar.isFinite (x - y) = true ↔ rounded 0 (unitsOf x - unitsOf y).toNat < unitBound := by
  have hunits := isUnits_sub (isRounded_of_isFinite hx) (isRounded_of_isFinite hy) hle
  refine (isFinite_pack_iff hunits.isRounded).trans ?_
  rw [hunits.units_eq, Int.natAbs_natCast]
  rfl

theorem unitsOf_sub (hx : Scalar.isFinite x = true) (hy : Scalar.isFinite y = true)
    (hle : unitsOf y ≤ unitsOf x) (hfinite : Scalar.isFinite (x - y) = true) :
    unitsOf (x - y) = (rounded 0 (unitsOf x - unitsOf y).toNat : Nat) := by
  have hunits := isUnits_sub (isRounded_of_isFinite hx) (isRounded_of_isFinite hy) hle
  have hlt := (isFinite_pack_iff hunits.isRounded).mp hfinite
  exact (congrArg units (unpack_pack hunits.isRounded hlt)).trans hunits.units_eq

theorem isFinite_mul_iff (hx : Scalar.isFinite x = true) (hy : Scalar.isFinite y = true) :
    Scalar.isFinite (x * y) = true ↔
      rounded 1074 ((unitsOf x).natAbs * (unitsOf y).natAbs) < unitBound := by
  have hunits := natAbs_units_mul (isRounded_of_isFinite hx) (isRounded_of_isFinite hy)
  refine (isFinite_pack_iff hunits.1).trans ?_
  rw [hunits.2]
  rfl

theorem natAbs_unitsOf_mul (hx : Scalar.isFinite x = true) (hy : Scalar.isFinite y = true)
    (hfinite : Scalar.isFinite (x * y) = true) :
    (unitsOf (x * y)).natAbs = rounded 1074 ((unitsOf x).natAbs * (unitsOf y).natAbs) := by
  have hunits := natAbs_units_mul (isRounded_of_isFinite hx) (isRounded_of_isFinite hy)
  have hlt := (isFinite_pack_iff hunits.1).mp hfinite
  exact (congrArg (fun u => (units u).natAbs) (unpack_pack hunits.1 hlt)).trans hunits.2

theorem mul_eq_of_not_isFinite {spec : Format} {u v : UnpackedFloat}
    (h : ¬ (u.isFinite = true ∧ v.isFinite = true)) :
    UnpackedFloat.mul spec u v = .notANumber ∨
      ∃ s, UnpackedFloat.mul spec u v = .infinity s := by
  rcases u with _ | _ | _ | _ <;> rcases v with _ | _ | _ | _
  all_goals first
    | exact absurd ⟨rfl, rfl⟩ h
    | exact .inl rfl
    | exact .inr ⟨_, rfl⟩

/-- A finite product has finite factors. -/
theorem isFinite_of_isFinite_mul (h : Scalar.isFinite (x * y) = true) :
    Scalar.isFinite x = true ∧ Scalar.isFinite y = true := by
  by_contra hne
  have hpack : (Float.Model.pack (UnpackedFloat.mul Format.binary64 x.toModel.unpack
      y.toModel.unpack)).unpack.isFinite = true := h
  rcases @mul_eq_of_not_isFinite Format.binary64 _ _ hne with hnan | ⟨s, hinf⟩
  · rw [hnan] at hpack
    exact absurd hpack (by decide)
  · rw [hinf] at hpack
    cases s <;> exact absurd hpack (by decide)

end LinearAssignment.FloatRounding
