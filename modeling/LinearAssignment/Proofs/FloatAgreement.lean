import LinearAssignment.Proofs.Agreement
import LinearAssignment.Proofs.FloatOrder

/-! # Floats that agree as numbers

    Two floats agree as numbers when they are one number, where a zero may stand for the other
    zero, or when neither is a number.  Sums, differences and tests do not tell such floats
    apart, so the runs of the solver do not depend on the signs of zeros.

    * `alike_iff_agree`: two ways to say that floats agree.
    * `eq_of_alike`: only zeros agree without being the same value.
    * `Scalar.Numeric Float`: what the solver asks of the operations. -/

namespace LinearAssignment.FloatOrder

open Float.Model Float.Model.UnpackedFloat

/-! ## Agreement -/

/-- **Floats are equal as numbers when both are numbers and they share a place.** -/
theorem compare_eq_eq_iff (a b : UnpackedFloat) :
    a.compare b = some .eq ↔
      a ≠ .notANumber ∧ b ≠ .notANumber ∧ place a = place b := by
  rcases a with ⟨⟨⟩⟩ | _ | _ | ⟨⟨⟩, m, e, hm⟩ <;>
    rcases b with ⟨⟨⟩⟩ | _ | _ | ⟨⟨⟩, m', e', hm'⟩
  all_goals simp [UnpackedFloat.compare, place]
  all_goals rfl

theorem beq_iff {a b : Float} :
    (a == b) = true ↔ a.toModel.unpack ≠ .notANumber ∧ b.toModel.unpack ≠ .notANumber ∧
      place a.toModel.unpack = place b.toModel.unpack := by
  rw [← compare_eq_eq_iff]
  show (a.toModel.unpack.compare b.toModel.unpack == some .eq) = true ↔ _
  rw [beq_iff_eq]

theorem isNumber_eq_false_iff {a : Float} :
    Scalar.isNumber a = false ↔ a.toModel.unpack = .notANumber := by
  rw [← Bool.not_eq_true, isNumber_iff, not_not]

/-- Floats are alike when they are equal as numbers or neither is a number. -/
theorem alike_iff_agree {a b : Float} : Alike a b ↔ Scalar.Agree a b := by
  unfold Scalar.Agree
  rw [beq_iff, isNumber_eq_false_iff, isNumber_eq_false_iff]
  constructor
  · intro h
    by_cases ha : a.toModel.unpack = .notANumber
    · exact .inr ⟨ha, not_not.mp (mt h.ne_notANumber_iff.mpr (not_not.mpr ha))⟩
    · exact .inl ⟨ha, h.ne_notANumber_iff.mp ha, h.place_eq⟩
  · rintro (⟨ha, hb, hplace⟩ | ⟨ha, hb⟩)
    · exact same_of_place_eq ha hb hplace
    · exact .inl (ha.trans hb.symm)

/-- Only zeros are alike without being the same value. -/
theorem eq_of_alike {a b : Float} (h : Alike a b) (hzero : ¬ Alike a 0) : a = b := by
  rcases h with h | ⟨s, t, ha, _⟩
  · obtain ⟨⟨bits, hbits⟩⟩ := a
    obtain ⟨⟨bits', hbits'⟩⟩ := b
    obtain rfl : bits = bits' :=
      UInt64.toBitVec_inj.mp ((unpack_inj_of_valid hbits hbits').mp h)
    rfl
  · exact absurd (.inr ⟨s, .positive, ha, rfl⟩) hzero

/-! ## Sums -/

theorem Same.add {spec : Format} {u u' v v' : UnpackedFloat} (hu : Same u u')
    (hv : Same v v') : Same (UnpackedFloat.add spec u v) (UnpackedFloat.add spec u' v') := by
  rcases hu with rfl | ⟨s, t, rfl, rfl⟩ <;> rcases hv with rfl | ⟨s', t', rfl, rfl⟩
  · exact .refl _
  · cases u with
    | zero r => cases r <;> cases s' <;> cases t' <;> exact .inr ⟨_, _, rfl, rfl⟩
    | infinity | notANumber | finite => exact .refl _
  · cases v with
    | zero r => cases r <;> cases s <;> cases t <;> exact .inr ⟨_, _, rfl, rfl⟩
    | infinity | notANumber | finite => exact .refl _
  · cases s <;> cases t <;> cases s' <;> cases t' <;> exact .inr ⟨_, _, rfl, rfl⟩

theorem Alike.add {a a' b b' : Float} (ha : Alike a a') (hb : Alike b b') :
    Alike (a + b) (a' + b') :=
  (Same.add ha hb).pack

/-! ## Tests -/

theorem Alike.isNumber_eq {a a' : Float} (ha : Alike a a') :
    Scalar.isNumber a = Scalar.isNumber a' := by
  rw [Bool.eq_iff_iff, isNumber_iff, isNumber_iff, ha.ne_notANumber_iff]

theorem Alike.isZero_eq {a a' : Float} (ha : Alike a a') :
    Scalar.isZero a = Scalar.isZero a' := by
  unfold Scalar.isZero
  rw [Bool.eq_iff_iff, beq_iff, beq_iff, ha.ne_notANumber_iff, ha.place_eq]

/-- **The operations of the solver do not tell apart floats that agree.** -/
instance : Scalar.Numeric Float where
  isNumber_congr h := (alike_iff_agree.mpr h).isNumber_eq
  isFinite_congr h := (alike_iff_agree.mpr h).isFinite_eq
  isZero_congr h := (alike_iff_agree.mpr h).isZero_eq
  lt_congr ha hb := (alike_iff_agree.mpr ha).lt_iff (alike_iff_agree.mpr hb)
  add_congr ha hb := alike_iff_agree.mp ((alike_iff_agree.mpr ha).add (alike_iff_agree.mpr hb))
  sub_congr ha hb := alike_iff_agree.mp ((alike_iff_agree.mpr ha).sub (alike_iff_agree.mpr hb))
  inRange_congr dim hlo hhi :=
    inRange_eq_of_alike (alike_iff_agree.mpr hlo) (alike_iff_agree.mpr hhi) dim
  eq_of_agree := by
    intro a b h hnum hzero
    refine eq_of_alike (alike_iff_agree.mpr h) fun hzero' => ?_
    rcases alike_iff_agree.mp hzero' with heq | ⟨hnan, _⟩
    · rw [Scalar.isZero, heq] at hzero
      cases hzero
    · rw [hnum] at hnan
      cases hnan

end LinearAssignment.FloatOrder
