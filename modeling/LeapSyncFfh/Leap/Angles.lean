/-
  LeapSyncFfh.Leap.Angles — `angleTo` over the real numbers.

  Its quotient is the cosine of the angle between the vectors, so its three results are
  those of that angle: 0 where the cosine is 1, `LEAP_PI` where it is -1, and in between the
  `acos` (`angleTo_eq`). `LEAP_PI` is a little more than π, so no other angle comes near it.
  Below the cut-off at `LEAP_EPSILON` the angle is 0.

  `angleTo_law` is what follows: the range, the two ends, the symmetry, that only the
  directions count, and that `acos` is not asked for anything outside of (-1, 1).
-/

import LeapSyncFfh.Leap.Euclid

namespace LeapSyncFfh

open InnerProductGeometry RealInnerProductSpace

namespace Vector3

/-- The vectors are long enough together. -/
def Long (u v : Vector3 ℝ) : Prop := LEAP_EPSILON < u.magnitudeSquared * v.magnitudeSquared

/-- `θ` is the angle between `u` and `v`, with the cut-off and the ends of `angleTo`. -/
structure IsAngle (u v : Vector3 ℝ) (θ : ℝ) : Prop where
  nonneg : 0 ≤ θ
  le : θ ≤ LEAP_PI
  short : ¬ Long u v → θ = 0
  same : Long u v → (θ = 0 ↔ ∃ r : ℝ, 0 < r ∧ v = u.scale r)
  opposite : Long u v → (θ = LEAP_PI ↔ ∃ r : ℝ, r < 0 ∧ v = u.scale r)

/-- `angleTo` with another function in the place of `acos`. -/
noncomputable def angleToBy (acos : ℝ → ℝ) (u v : Vector3 ℝ) : ℝ :=
  letI : Libm ℝ := ⟨Real.sqrt, acos⟩
  u.angleTo v

theorem pi_lt_LEAP_PI : Real.pi < LEAP_PI := by
  refine Real.pi_lt_d20.trans ?_
  unfold LEAP_PI
  norm_num

section Long

variable {u v : Vector3 ℝ}

theorem long_comm : Long u v ↔ Long v u := by
  unfold Long
  rw [mul_comm]

theorem long_ne_zero (h : Long u v) : u ≠ zero := by
  rintro rfl
  have heps : (0 : ℝ) < LEAP_EPSILON := by
    unfold LEAP_EPSILON
    norm_num
  have hzero : (zero : Vector3 ℝ).magnitudeSquared = 0 := by simp [magnitudeSquared, zero]
  rw [Long, hzero, zero_mul] at h
  exact absurd h heps.le.not_gt

/-- The quotient of `angleTo` is the cosine. -/
theorem quotient_eq (u v : Vector3 ℝ) :
    u.dot v / Real.sqrt (u.magnitudeSquared * v.magnitudeSquared) = Real.cos (angle u.euclid v.euclid) := by
  rw [cos_angle, euclid_inner, euclid_norm, euclid_norm, Real.sqrt_mul (magnitudeSquared_nonneg u)]
  rfl

/-- The two ends are the equality cases of Cauchy and Schwarz. -/
theorem one_le_cos_iff : 1 ≤ Real.cos (angle u.euclid v.euclid) ↔ angle u.euclid v.euclid = 0 :=
  (Real.cos_le_one _).ge_iff_eq.trans cos_eq_one_iff_angle_eq_zero

theorem cos_le_neg_one_iff : Real.cos (angle u.euclid v.euclid) ≤ -1 ↔ angle u.euclid v.euclid = Real.pi :=
  (Real.neg_one_le_cos _).ge_iff_eq'.trans cos_eq_neg_one_iff_angle_eq_pi

/-- The angle of Mathlib, but at π. -/
theorem angleToBy_eq (acos : ℝ → ℝ) (hacos : ∀ x, -1 < x → x < 1 → acos x = Real.arccos x) (h : Long u v) :
    angleToBy acos u v = if angle u.euclid v.euclid = Real.pi then LEAP_PI else angle u.euclid v.euclid := by
  have hlong : ¬ u.magnitudeSquared * v.magnitudeSquared ≤ LEAP_EPSILON := not_le.mpr h
  have hcut : angleToBy acos u v =
      if 1 ≤ Real.cos (angle u.euclid v.euclid) then 0
      else if Real.cos (angle u.euclid v.euclid) ≤ -1 then LEAP_PI
      else acos (Real.cos (angle u.euclid v.euclid)) := by
    rw [← quotient_eq]
    exact if_neg hlong
  rw [hcut]
  by_cases h0 : angle u.euclid v.euclid = 0
  · rw [if_pos (one_le_cos_iff.mpr h0), h0, if_neg Real.pi_ne_zero.symm]
  rw [if_neg (mt one_le_cos_iff.mp h0)]
  by_cases hpi : angle u.euclid v.euclid = Real.pi
  · rw [if_pos (cos_le_neg_one_iff.mpr hpi), if_pos hpi]
  rw [if_neg (mt cos_le_neg_one_iff.mp hpi), if_neg hpi]
  -- strictly between the ends
  have hlower : -1 < Real.cos (angle u.euclid v.euclid) := not_le.mp (mt cos_le_neg_one_iff.mp hpi)
  have hupper : Real.cos (angle u.euclid v.euclid) < 1 := not_le.mp (mt one_le_cos_iff.mp h0)
  rw [hacos _ hlower hupper, Real.arccos_cos (angle_nonneg _ _) (angle_le_pi _ _)]

theorem angleTo_eq (h : Long u v) :
    u.angleTo v = if angle u.euclid v.euclid = Real.pi then LEAP_PI else angle u.euclid v.euclid :=
  angleToBy_eq Real.arccos (fun _ _ _ => rfl) h

theorem angleToBy_short (acos : ℝ → ℝ) (h : ¬ Long u v) : angleToBy acos u v = 0 := if_pos (not_lt.mp h)

theorem angleTo_short (h : ¬ Long u v) : u.angleTo v = 0 := angleToBy_short Real.arccos h

theorem multiple_iff {r : ℝ} : v.euclid = r • u.euclid ↔ v = u.scale r := by
  rw [← euclid_scale, euclid_injective.eq_iff]

theorem angleTo_isAngle (u v : Vector3 ℝ) : IsAngle u v (u.angleTo v) := by
  by_cases h : Long u v
  · have hu : u.euclid ≠ 0 := euclid_ne_zero (long_ne_zero h)
    have hle := angle_le_pi u.euclid v.euclid
    have hpi := pi_lt_LEAP_PI
    have hpos := Real.pi_pos
    rw [angleTo_eq h]
    by_cases he : angle u.euclid v.euclid = Real.pi
    · rw [if_pos he]
      obtain ⟨-, r, hr, hv⟩ := angle_eq_pi_iff.mp he
      have hne : (LEAP_PI : ℝ) ≠ 0 := by linarith
      refine ⟨by linarith, le_refl _, fun hn => absurd h hn, fun _ => iff_of_false hne ?_, fun _ => ?_⟩
      · rintro ⟨r, hr, hv⟩
        have h0 := angle_eq_zero_iff.mpr ⟨hu, r, hr, multiple_iff.mpr hv⟩
        rw [he] at h0
        exact hpos.ne' h0
      · exact iff_of_true rfl ⟨r, hr, multiple_iff.mp hv⟩
    · rw [if_neg he]
      have hlt : angle u.euclid v.euclid ≠ LEAP_PI := by linarith
      refine ⟨angle_nonneg _ _, by linarith, fun hn => absurd h hn, fun _ => ?_, fun _ => iff_of_false hlt ?_⟩
      · rw [angle_eq_zero_iff, and_iff_right hu]
        simp only [multiple_iff]
      · rintro ⟨r, hr, hv⟩
        exact he (angle_eq_pi_iff.mpr ⟨hu, r, hr, multiple_iff.mpr hv⟩)
  · have hpi := pi_lt_LEAP_PI
    have hpos := Real.pi_pos
    rw [angleTo_short h]
    exact ⟨le_refl _, by linarith, fun _ => rfl, fun hl => absurd hl h, fun hl => absurd hl h⟩

theorem angleTo_comm (u v : Vector3 ℝ) : u.angleTo v = v.angleTo u := by
  by_cases h : Long u v
  · rw [angleTo_eq h, angleTo_eq (long_comm.mp h), angle_comm]
  · rw [angleTo_short h, angleTo_short (mt long_comm.mpr h)]

/-- Only the directions count. -/
theorem angleTo_scale (h : Long u v) {c d : ℝ} (hc : 0 < c) (hd : 0 < d) (hcd : Long (u.scale c) (v.scale d)) :
    (u.scale c).angleTo (v.scale d) = u.angleTo v := by
  rw [angleTo_eq h, angleTo_eq hcd, euclid_scale, euclid_scale, angle_smul_left_of_pos _ _ hc, angle_smul_right_of_pos _ _ hd]

theorem angleToBy_congr (acos : ℝ → ℝ) (hacos : ∀ x, -1 < x → x < 1 → acos x = Real.arccos x) :
    angleToBy acos u v = u.angleTo v := by
  by_cases h : Long u v
  · rw [angleToBy_eq acos hacos h, angleTo_eq h]
  · rw [angleToBy_short acos h, angleTo_short h]

end Long

/-- `angleTo` of any two vectors: an angle, whichever of them is asked; unchanged by an `acos`
    that is different at -1, at 1 and outside; and a matter of directions, of bones too. -/
theorem angleTo_law (u v : Vector3 ℝ) :
    IsAngle u v (u.angleTo v) ∧ u.angleTo v = v.angleTo u ∧
    (∀ acos : ℝ → ℝ, (∀ x, -1 < x → x < 1 → acos x = Real.arccos x) → angleToBy acos u v = u.angleTo v) ∧
    (Long u v → ∀ c d : ℝ, 0 < c → 0 < d → Long (u.scale c) (v.scale d) → (u.scale c).angleTo (v.scale d) = u.angleTo v) ∧
    ∀ b1 b2 b1' b2' : LEAP_BONE ℝ, b1.direction = u → b2.direction = v → Long u v →
      (∃ c, 0 < c ∧ b1'.direction = u.scale c) → (∃ d, 0 < d ∧ b2'.direction = v.scale d) →
      Long b1'.direction b2'.direction → LeapTool.getBonesAngle b1' b2' = LeapTool.getBonesAngle b1 b2 := by
  refine ⟨angleTo_isAngle u v, angleTo_comm u v, fun acos => angleToBy_congr acos,
    fun h c d hc hd hcd => angleTo_scale h hc hd hcd, ?_⟩
  rintro b1 b2 b1' b2' rfl rfl h ⟨c, hc, hb1⟩ ⟨d, hd, hb2⟩ hlong
  rw [hb1, hb2] at hlong
  simp only [LeapTool.getBonesAngle, hb1, hb2]
  exact angleTo_scale h hc hd hlong

/-- Opposite vectors. -/
theorem angleTo_law_opposite : (⟨1, 0, 0⟩ : Vector3 ℝ).angleTo ⟨-2, 0, 0⟩ = LEAP_PI := by
  have hlong : Long ⟨1, 0, 0⟩ ⟨-2, 0, 0⟩ := by
    unfold Long magnitudeSquared LEAP_EPSILON
    norm_num
  refine ((angleTo_law ⟨1, 0, 0⟩ ⟨-2, 0, 0⟩).1.opposite hlong).mpr ⟨-2, by norm_num, ?_⟩
  simp [scale]

end Vector3

end LeapSyncFfh
