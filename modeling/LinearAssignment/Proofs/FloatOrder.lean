import Mathlib
import LinearAssignment.Proofs.ScalarOrder
import LinearAssignment.Scalar.Instances

/-! # Floats are ordered

    A float that is a number has a place: first the infinities and the sign, then the exponent,
    then the digits.  Floats compare as their places do, so the order of the places carries
    over to floats.  Only the two zeros share a place, and no operation of the range check
    tells them apart but by giving one or the other of them.

    * `compare_eq_lt_iff`: floats compare as their places do.
    * `Same`: one number, where a zero may stand for the other zero.
    * `Scalar.Ordered Float`: the laws of the order hold of floats. -/

namespace LinearAssignment.FloatOrder

open Float.Model Float.Model.UnpackedFloat

/-! ## Places -/

/-- The place of a number: its side of zero, with the infinities outside; then, for a finite
    number, exponent and digits, both turned around below zero. -/
def place : UnpackedFloat → Int × Int × Int
  | .infinity .negative => (-2, 0, 0)
  | .finite .negative m e _ => (-1, -e, -m)
  | .finite .positive m e _ => (1, e, m)
  | .infinity .positive => (2, 0, 0)
  | .zero _ | .notANumber => (0, 0, 0)

/-- One place comes before another. -/
def Before (p q : Int × Int × Int) : Prop :=
  p.1 < q.1 ∨ p.1 = q.1 ∧ (p.2.1 < q.2.1 ∨ p.2.1 = q.2.1 ∧ p.2.2 < q.2.2)

theorem compare_then_eq_lt_iff {e e' : Int} {m m' : Nat} :
    (compare e e').then (compare m m') = .lt ↔ e < e' ∨ e = e' ∧ m < m' := by
  rw [Ordering.then_eq_lt, compare_lt_iff_lt, compare_eq_iff_eq, compare_lt_iff_lt]

theorem compare_then_eq_gt_iff {e e' : Int} {m m' : Nat} :
    (compare e e').then (compare m m') = .gt ↔ e' < e ∨ e = e' ∧ m' < m := by
  rw [Ordering.then_eq_gt, compare_gt_iff_gt, compare_eq_iff_eq, compare_gt_iff_gt]

/-- **One float is below another when both are numbers and its place comes before.** -/
theorem compare_eq_lt_iff (a b : UnpackedFloat) :
    a.compare b = some .lt ↔
      a ≠ .notANumber ∧ b ≠ .notANumber ∧ Before (place a) (place b) := by
  -- One case for each pair of kinds and signs; exponents and digits meet in two of them.
  rcases a with ⟨⟨⟩⟩ | _ | _ | ⟨⟨⟩, m, e, hm⟩ <;>
    rcases b with ⟨⟨⟩⟩ | _ | _ | ⟨⟨⟩, m', e', hm'⟩
  all_goals simp [UnpackedFloat.compare, place, Before, compare_then_eq_lt_iff,
    compare_then_eq_gt_iff]
  rfl

theorem lt_iff {a b : Float} :
    a < b ↔ a.toModel.unpack ≠ .notANumber ∧ b.toModel.unpack ≠ .notANumber ∧
      Before (place a.toModel.unpack) (place b.toModel.unpack) := by
  rw [← compare_eq_lt_iff]
  show decide (a.toModel.lt b.toModel = true) = true ↔ _
  rw [decide_eq_true_eq, Float.Model.lt, UnpackedFloat.lt, beq_iff_eq]

theorem isNumber_iff {a : Float} :
    Scalar.isNumber a = true ↔ a.toModel.unpack ≠ .notANumber := by
  show (a.toModel.unpack.compare a.toModel.unpack == some .eq) = true ↔ _
  rcases a.toModel.unpack with ⟨⟨⟩⟩ | _ | _ | ⟨⟨⟩, m, e, hm⟩ <;> simp [UnpackedFloat.compare]
  all_goals rfl

/-! ## One number, two zeros -/

/-- The same number, or two zeros. -/
def Same (u v : UnpackedFloat) : Prop := u = v ∨ ∃ s t, u = .zero s ∧ v = .zero t

theorem Same.refl (u : UnpackedFloat) : Same u u := .inl rfl

theorem Same.place_eq {u v : UnpackedFloat} (h : Same u v) : place u = place v := by
  rcases h with rfl | ⟨s, t, rfl, rfl⟩ <;> rfl

theorem Same.isFinite_eq {u v : UnpackedFloat} (h : Same u v) : u.isFinite = v.isFinite := by
  rcases h with rfl | ⟨s, t, rfl, rfl⟩ <;> rfl

theorem Same.ne_notANumber_iff {u v : UnpackedFloat} (h : Same u v) :
    u ≠ .notANumber ↔ v ≠ .notANumber := by
  rcases h with rfl | ⟨s, t, rfl, rfl⟩ <;> simp

/-- Packing keeps a zero and its sign. -/
theorem Same.pack {u v : UnpackedFloat} (h : Same u v) :
    Same (Float.Model.pack u).unpack (Float.Model.pack v).unpack := by
  rcases h with rfl | ⟨s, t, rfl, rfl⟩
  · exact .refl _
  · refine .inr ⟨s, t, ?_, ?_⟩
    · cases s <;> rfl
    · cases t <;> rfl

theorem Same.sub {spec : Format} {u u' v v' : UnpackedFloat} (hu : Same u u')
    (hv : Same v v') : Same (UnpackedFloat.sub spec u v) (UnpackedFloat.sub spec u' v') := by
  rcases hu with rfl | ⟨s, t, rfl, rfl⟩ <;> rcases hv with rfl | ⟨s', t', rfl, rfl⟩
  · exact .refl _
  · cases u with
    | zero r => cases r <;> cases s' <;> cases t' <;> exact .inr ⟨_, _, rfl, rfl⟩
    | infinity | notANumber | finite => exact .refl _
  · cases v with
    | zero r => cases r <;> cases s <;> cases t <;> exact .inr ⟨_, _, rfl, rfl⟩
    | infinity | notANumber | finite => exact .refl _
  · cases s <;> cases t <;> cases s' <;> cases t' <;> exact .inr ⟨_, _, rfl, rfl⟩

theorem Same.mul_right {spec : Format} {u u' : UnpackedFloat} (hu : Same u u')
    (v : UnpackedFloat) : Same (UnpackedFloat.mul spec u v) (UnpackedFloat.mul spec u' v) := by
  rcases hu with rfl | ⟨s, t, rfl, rfl⟩
  · exact .refl _
  · cases v with
    | zero | finite => exact .inr ⟨_, _, rfl, rfl⟩
    | infinity | notANumber => exact .refl _

theorem place_eq_of_not_before {p q : Int × Int × Int} (h : ¬ Before p q)
    (h' : ¬ Before q p) : p = q := by
  unfold Before at h h'
  refine Prod.ext ?_ (Prod.ext ?_ ?_) <;> omega

/-- Only the zeros share a place. -/
theorem same_of_place_eq {u v : UnpackedFloat} (hu : u ≠ .notANumber) (hv : v ≠ .notANumber)
    (h : place u = place v) : Same u v := by
  rcases u with ⟨⟨⟩⟩ | _ | _ | ⟨⟨⟩, m, e, hm⟩ <;>
    rcases v with ⟨⟨⟩⟩ | _ | _ | ⟨⟨⟩, m', e', hm'⟩
  all_goals simp [place, Same] at *
  all_goals omega

/-- Numbers that are tied are one number. -/
theorem same_of_tied {a b : Float} (ha : Scalar.isNumber a = true)
    (hb : Scalar.isNumber b = true) (h : Scalar.Tied a b) :
    Same a.toModel.unpack b.toModel.unpack := by
  rw [isNumber_iff] at ha hb
  refine same_of_place_eq ha hb (place_eq_of_not_before ?_ ?_)
  · exact fun hbefore => h.1 (lt_iff.mpr ⟨ha, hb, hbefore⟩)
  · exact fun hbefore => h.2 (lt_iff.mpr ⟨hb, ha, hbefore⟩)

/-! ## The range check -/

/-- Floats that are the same number. -/
def Alike (a b : Float) : Prop := Same a.toModel.unpack b.toModel.unpack

theorem Alike.sub {a a' b b' : Float} (ha : Alike a a') (hb : Alike b b') :
    Alike (a - b) (a' - b') :=
  (Same.sub ha hb).pack

theorem Alike.mul_right {a a' : Float} (ha : Alike a a') (b : Float) :
    Alike (a * b) (a' * b) :=
  (Same.mul_right ha _).pack

theorem Alike.lt_iff {a a' b b' : Float} (ha : Alike a a') (hb : Alike b b') :
    a < b ↔ a' < b' := by
  rw [FloatOrder.lt_iff, FloatOrder.lt_iff, ha.ne_notANumber_iff, hb.ne_notANumber_iff,
    ha.place_eq, hb.place_eq]

theorem Alike.isFinite_eq {a a' : Float} (ha : Alike a a') :
    Scalar.isFinite a = Scalar.isFinite a' :=
  Same.isFinite_eq ha

theorem Alike.larger {a a' b b' : Float} (ha : Alike a a') (hb : Alike b b') :
    Alike (Scalar.larger a b) (Scalar.larger a' b') := by
  unfold Scalar.larger
  by_cases h : a < b
  · rw [if_pos h, if_pos ((ha.lt_iff hb).mp h)]
    exact hb
  · rw [if_neg h, if_neg (mt (ha.lt_iff hb).mpr h)]
    exact ha

theorem Alike.magnitude {a a' : Float} (ha : Alike a a') :
    Alike (Scalar.magnitude a) (Scalar.magnitude a') := by
  have hzero : Alike 0 0 := .refl _
  unfold Scalar.magnitude
  by_cases h : a < 0
  · rw [if_pos h, if_pos ((ha.lt_iff hzero).mp h)]
    exact hzero.sub ha
  · rw [if_neg h, if_neg (mt (ha.lt_iff hzero).mpr h)]
    exact ha

theorem inRange_eq_of_alike {lo lo' hi hi' : Float} (hlo : Alike lo lo') (hhi : Alike hi hi')
    (dim : Nat) : Scalar.inRange lo hi dim = Scalar.inRange lo' hi' dim := by
  have hspan : Alike (hi - lo) (hi' - lo') := hhi.sub hlo
  have hreach : Alike (Scalar.reach lo hi) (Scalar.reach lo' hi') :=
    (hspan.larger hlo.magnitude).larger hhi.magnitude
  have hbound := (hreach.mul_right (Scalar.ofNat 2)).mul_right
    (Scalar.ofNat dim + Scalar.ofNat 1)
  unfold Scalar.inRange
  rw [hspan.isFinite_eq, hbound.isFinite_eq]

/-- **The numbers among the floats are ordered, up to ties of the two zeros.** -/
instance : Scalar.Ordered Float where
  isNumber_of_isFinite := by
    intro v h
    rw [isNumber_iff]
    intro hnan
    have hfinite : v.toModel.unpack.isFinite = true := h
    rw [hnan] at hfinite
    cases hfinite
  lt_asymm := by
    intro a b hab hba
    rw [lt_iff] at hab hba
    have h := hab.2.2
    have h' := hba.2.2
    unfold Before at h h'
    omega
  lt_or_lt := by
    intro a b c hc hab
    rw [isNumber_iff] at hc
    obtain ⟨ha, hb, h⟩ := lt_iff.mp hab
    by_cases hac : Before (place a.toModel.unpack) (place c.toModel.unpack)
    · exact .inl (lt_iff.mpr ⟨ha, hc, hac⟩)
    · refine .inr (lt_iff.mpr ⟨hc, hb, ?_⟩)
      unfold Before at h hac ⊢
      omega
  inRange_congr := by
    intro lo lo' hi hi' dim hlo hlo' hhi hhi' htlo hthi
    exact inRange_eq_of_alike (same_of_tied hlo hlo' htlo) (same_of_tied hhi hhi' hthi) dim

end LinearAssignment.FloatOrder
