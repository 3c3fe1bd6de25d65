/-
  LeapSyncFfh.Leap.Euclid — the vectors of `leapMotionV2Math.h` as those of the Euclidean
  space.

  `dot`, `magnitude`, `sub` and `scale` are the inner product, the norm and the vector
  operations (`euclid_inner`, ...). So `angleToPlane` is the angle of the vector to the
  plane's normal (`angleToPlane_eq`), and a vector is at angle zero to itself
  (`angleTo_self`).
-/

import LeapSyncFfh.Leap.Projection
import LeapSyncFfh.Lib.Planes

namespace LeapSyncFfh

open InnerProductGeometry RealInnerProductSpace

namespace Vector3

noncomputable def euclid (v : Vector3 ℝ) : EuclideanSpace ℝ (Fin 3) := !₂[v.x, v.y, v.z]

@[simp] theorem euclid_inner (a b : Vector3 ℝ) : ⟪a.euclid, b.euclid⟫ = a.dot b := by
  simp only [euclid, dot, PiLp.inner_apply, Fin.sum_univ_three, RCLike.inner_apply, conj_trivial]
  simp
  ring

@[simp] theorem euclid_norm (a : Vector3 ℝ) : ‖a.euclid‖ = a.magnitude := by
  rw [norm_eq_sqrt_real_inner, euclid_inner]
  rfl

@[simp] theorem euclid_sub (a b : Vector3 ℝ) : (a.sub b).euclid = a.euclid - b.euclid := by
  ext i
  fin_cases i <;> simp [euclid, sub]

@[simp] theorem euclid_scale (a : Vector3 ℝ) (c : ℝ) : (a.scale c).euclid = c • a.euclid := by
  ext i
  fin_cases i <;> simp [euclid, scale, mul_comm]

theorem euclid_injective : Function.Injective euclid := by
  intro a b h
  ext
  · simpa [euclid] using congrArg (fun v : EuclideanSpace ℝ (Fin 3) => v 0) h
  · simpa [euclid] using congrArg (fun v : EuclideanSpace ℝ (Fin 3) => v 1) h
  · simpa [euclid] using congrArg (fun v : EuclideanSpace ℝ (Fin 3) => v 2) h

theorem euclid_ne_zero {a : Vector3 ℝ} (h : a ≠ zero) : a.euclid ≠ 0 := by
  intro he
  have hdot : a.dot a = 0 := by rw [← euclid_inner, he, inner_zero_left]
  exact h (dot_self_eq_zero.mp hdot)

/-! ## Angles -/

/-- The angle to the normal, not to the plane. -/
theorem angleToPlane_eq (v n : Vector3 ℝ) : v.angleToPlane n = angle v.euclid n.euclid := by
  rw [angle, euclid_inner, euclid_norm, euclid_norm]
  rfl

theorem angleTo_self (a : Vector3 ℝ) : a.angleTo a = 0 := by
  simp only [angleTo]
  split
  · rfl
  · rename_i heps
    have hne : a.magnitudeSquared ≠ 0 := by
      intro h0
      rw [h0, mul_zero] at heps
      exact heps (by unfold LEAP_EPSILON; norm_num)
    have hval : a.dot a / Libm.sqrt (a.magnitudeSquared * a.magnitudeSquared) = 1 := by
      show a.magnitudeSquared / Real.sqrt (a.magnitudeSquared * a.magnitudeSquared) = 1
      rw [Real.sqrt_mul_self (magnitudeSquared_nonneg a), div_self hne]
    simp only [hval, le_refl, if_true]

end Vector3

end LeapSyncFfh
