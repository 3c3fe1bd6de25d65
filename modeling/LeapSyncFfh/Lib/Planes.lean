/-
  LeapSyncFfh.Lib.Planes — a vector against the plane with a given normal, in a real inner
  product space.

  `onPlane n v` is the orthogonal projection of `v`, `swing n u v` the angle between the
  projections of `u` and `v`. It is zero when `v` is a positive multiple of `u` up to a
  multiple of the normal (`swing_eq_zero_iff`).

  `elevation n v` is the angle of `v` to the plane, the only one between -π/2 and π/2 with
  the right sine (`isElevation_iff`). The angle to the normal is its complement, and the
  two are one number at 45 degrees only (`angle_isElevation_iff`).
-/

import Mathlib

namespace Planes

open InnerProductGeometry RealInnerProductSpace

variable {V : Type} [NormedAddCommGroup V] [InnerProductSpace ℝ V]

noncomputable def onPlane (n v : V) : V := (ℝ ∙ n)ᗮ.starProjection v

noncomputable def swing (n u v : V) : ℝ := angle (onPlane n u) (onPlane n v)

noncomputable def elevation (n v : V) : ℝ := Real.pi / 2 - angle v n

/-- `θ` is the angle between `v` and the plane. -/
structure IsElevation (n v : V) (θ : ℝ) : Prop where
  lower : -(Real.pi / 2) ≤ θ
  upper : θ ≤ Real.pi / 2
  sin : Real.sin θ = ⟪v, n⟫ / (‖v‖ * ‖n‖)

/-! ## Projections -/

theorem onPlane_eq (n v : V) : onPlane n v = v - (⟪n, v⟫ / ‖n‖ ^ 2) • n := by
  rw [onPlane, Submodule.starProjection_orthogonal']
  simp [Submodule.starProjection_singleton]

theorem onPlane_normal (n : V) : onPlane n n = 0 := by
  unfold onPlane
  rw [Submodule.starProjection_orthogonal_apply_eq_zero (Submodule.mem_span_singleton_self n)]

theorem onPlane_eq_zero_iff {n v : V} : onPlane n v = 0 ↔ ∃ c : ℝ, v = c • n := by
  constructor
  · intro h
    rw [onPlane_eq, sub_eq_zero] at h
    exact ⟨_, h⟩
  · rintro ⟨c, rfl⟩
    rw [onPlane, map_smul, ← onPlane, onPlane_normal, smul_zero]

theorem onPlane_sub_smul (n u v : V) (r : ℝ) : onPlane n (v - r • u) = onPlane n v - r • onPlane n u := by
  simp only [onPlane, map_sub, map_smul]

theorem swing_eq_zero_iff {n u v : V} (hu : onPlane n u ≠ 0) :
    swing n u v = 0 ↔ ∃ r : ℝ, 0 < r ∧ ∃ c : ℝ, v - r • u = c • n := by
  unfold swing
  rw [angle_eq_zero_iff]
  constructor
  · rintro ⟨-, r, hr, h⟩
    refine ⟨r, hr, onPlane_eq_zero_iff.mp ?_⟩
    rw [onPlane_sub_smul, h, sub_self]
  · rintro ⟨r, hr, h⟩
    have hzero := onPlane_eq_zero_iff.mpr h
    rw [onPlane_sub_smul, sub_eq_zero] at hzero
    exact ⟨hu, r, hr, hzero⟩

/-! ## The angle to a plane -/

theorem elevation_isElevation (n v : V) : IsElevation n v (elevation n v) where
  lower := by
    have := angle_le_pi v n
    unfold elevation
    linarith
  upper := by
    have := angle_nonneg v n
    unfold elevation
    linarith
  sin := by rw [elevation, Real.sin_pi_div_two_sub, cos_angle]

theorem isElevation_iff {n v : V} {θ : ℝ} : IsElevation n v θ ↔ θ = elevation n v := by
  constructor
  · intro h
    have he := elevation_isElevation n v
    exact Real.injOn_sin ⟨h.lower, h.upper⟩ ⟨he.lower, he.upper⟩ (h.sin.trans he.sin.symm)
  · rintro rfl
    exact elevation_isElevation n v

theorem elevation_eq_zero_iff {n v : V} : elevation n v = 0 ↔ ⟪v, n⟫ = 0 := by
  rw [elevation, sub_eq_zero, eq_comm]
  exact (inner_eq_zero_iff_angle_eq_pi_div_two v n).symm

theorem elevation_eq_right_iff {n v : V} (hn : n ≠ 0) : elevation n v = Real.pi / 2 ↔ ∃ r : ℝ, 0 < r ∧ v = r • n := by
  rw [elevation, sub_eq_self, angle_comm, angle_eq_zero_iff]
  exact ⟨fun h => h.2, fun h => ⟨hn, h⟩⟩

theorem angle_isElevation_iff {n v : V} : IsElevation n v (angle v n) ↔ angle v n = Real.pi / 4 := by
  rw [isElevation_iff, elevation]
  constructor
  · intro h
    linarith
  · intro h
    linarith

/-- At 45 degrees the product is positive and half the largest it can be, squared. -/
theorem angle_eq_pi_div_four_iff {n v : V} (hv : v ≠ 0) (hn : n ≠ 0) :
    angle v n = Real.pi / 4 ↔ 0 < ⟪v, n⟫ ∧ 2 * ⟪v, n⟫ ^ 2 = ⟪v, v⟫ * ⟪n, n⟫ := by
  have hpos : 0 < ‖v‖ * ‖n‖ := mul_pos (norm_pos_iff.mpr hv) (norm_pos_iff.mpr hn)
  have hcos : Real.cos (angle v n) * (‖v‖ * ‖n‖) = ⟪v, n⟫ := cos_angle_mul_norm_mul_norm v n
  have hsqrt : Real.sqrt 2 ^ 2 = 2 := Real.sq_sqrt (by norm_num)
  rw [real_inner_self_eq_norm_sq, real_inner_self_eq_norm_sq, ← mul_pow, ← hcos]
  constructor
  · intro h
    rw [h, Real.cos_pi_div_four]
    refine ⟨mul_pos (by positivity) hpos, ?_⟩
    rw [mul_pow, div_pow, hsqrt]
    ring
  · rintro ⟨hp, h⟩
    have hc : 0 < Real.cos (angle v n) := (mul_pos_iff_of_pos_right hpos).mp hp
    have hsq : (2 * Real.cos (angle v n) ^ 2) * (‖v‖ * ‖n‖) ^ 2 = 1 * (‖v‖ * ‖n‖) ^ 2 := by linear_combination h
    have hhalf : 2 * Real.cos (angle v n) ^ 2 = 1 := mul_right_cancel₀ (pow_ne_zero 2 hpos.ne') hsq
    have hval : Real.cos (angle v n) = Real.sqrt 2 / 2 := by
      refine (sq_eq_sq₀ hc.le (by positivity)).mp ?_
      rw [div_pow, hsqrt]
      linarith
    rw [← Real.arccos_cos (angle_nonneg v n) (angle_le_pi v n), hval, ← Real.cos_pi_div_four]
    exact Real.arccos_cos (by positivity) (by linarith [Real.pi_pos])

end Planes
