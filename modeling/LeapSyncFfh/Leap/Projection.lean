/-
  LeapSyncFfh.Leap.Projection — `calProjToPlane` against the projection its comment
  promises.

  `onPlane n v` takes the part along `n` off `v`: the orthogonal projection of `v` on the
  plane with normal `n` (`onPlane_projects`). `calProjToPlane` takes it off `n`, so what it
  returns is a multiple of the normal (`calProjToPlane_multiple`), and for no vector the
  projection (`calProjToPlane_never`).
-/

import LeapSyncFfh.Leap.Rotation

namespace LeapSyncFfh

namespace Vector3

variable {F : Type} [Field F]

omit [Field F] in
@[ext] theorem ext {a b : Vector3 F} (hx : a.x = b.x) (hy : a.y = b.y) (hz : a.z = b.z) : a = b := by
  cases a; cases b; cases hx; cases hy; cases hz; rfl

/-! ## The vector operations -/

@[simp] theorem dot_scale (a b : Vector3 F) (c : F) : a.dot (b.scale c) = a.dot b * c := by
  simp only [dot, scale]; ring

theorem dot_sub (a b c : Vector3 F) : a.dot (b.sub c) = a.dot b - a.dot c := by
  simp only [dot, sub]; ring

theorem dot_comm (a b : Vector3 F) : a.dot b = b.dot a := by
  simp only [dot]; ring

theorem sub_scale (a : Vector3 F) (c d : F) : (a.scale c).sub (a.scale d) = a.scale (c - d) := by
  ext <;> simp only [sub, scale] <;> ring

@[simp] theorem scale_one (a : Vector3 F) : a.scale 1 = a := by
  ext <;> simp only [scale, mul_one]

@[simp] theorem sub_sub_self (a b : Vector3 F) : a.sub (a.sub b) = b := by
  ext <;> simp only [sub] <;> ring

@[simp] theorem sub_zero (a : Vector3 F) : a.sub zero = a := by
  ext <;> simp only [sub, zero] <;> ring

/-! ## The two projections -/

/-- `v` without its part along `n`. -/
def onPlane (n v : Vector3 F) : Vector3 F := v.sub (n.calProj v)

/-- `proj n v` is the orthogonal projection of `v` on the plane with normal `n`. -/
structure Projects (proj : Vector3 F → Vector3 F → Vector3 F) (n v : Vector3 F) : Prop where
  normal : n.dot (proj n v) = 0
  along : ∃ c, v.sub (proj n v) = n.scale c
  again : proj n (proj n v) = proj n v

/-- The code's result is a multiple of the normal. -/
theorem calProjToPlane_multiple (n v : Vector3 F) : n.calProjToPlane v = n.scale (1 - n.dot v / n.dot n) := by
  calc n.calProjToPlane v = (n.scale 1).sub (n.scale (n.dot v / n.dot n)) := by
        rw [scale_one, calProjToPlane_eq, calProj_eq]
    _ = n.scale (1 - n.dot v / n.dot n) := sub_scale n _ _

theorem onPlane_projects {n : Vector3 F} (hn : n.dot n ≠ 0) (v : Vector3 F) : Projects onPlane n v := by
  have normal : n.dot (n.onPlane v) = 0 := by
    rw [onPlane, dot_sub, calProj_eq, dot_scale, mul_div_cancel₀ _ hn, sub_self]
  refine ⟨normal, ⟨_, sub_sub_self v (n.calProj v)⟩, ?_⟩
  have idle : n.calProj (n.onPlane v) = zero := by
    rw [calProj_eq, normal, zero_div, ← zero_eq]
  rw [onPlane, idle, sub_zero]

theorem calProjToPlane_normal_iff {n : Vector3 F} (hn : n.dot n ≠ 0) (v : Vector3 F) :
    n.dot (n.calProjToPlane v) = 0 ↔ n.dot v = n.dot n := by
  rw [calProjToPlane_multiple, dot_scale, mul_sub, mul_one, mul_div_cancel₀ _ hn, sub_eq_zero]
  exact eq_comm

/-- Projected again it is the part of `v` along the normal. -/
theorem calProjToPlane_twice {n : Vector3 F} (hn : n.dot n ≠ 0) (v : Vector3 F) :
    n.calProjToPlane (n.calProjToPlane v) = n.calProj v := by
  rw [calProjToPlane_multiple, calProjToPlane_multiple n v, dot_scale, mul_div_cancel_left₀ _ hn, sub_sub_cancel, calProj_eq]

variable [LinearOrder F] [IsStrictOrderedRing F]

theorem magnitudeSquared_nonneg (a : Vector3 F) : 0 ≤ a.magnitudeSquared :=
  add_nonneg (add_nonneg (mul_self_nonneg a.x) (mul_self_nonneg a.y)) (mul_self_nonneg a.z)

theorem dot_self_eq_zero {n : Vector3 F} : n.dot n = 0 ↔ n = zero := by
  constructor
  · intro h
    have hx := mul_self_nonneg n.x
    have hy := mul_self_nonneg n.y
    have hz := mul_self_nonneg n.z
    simp only [dot] at h
    ext
    · exact mul_self_eq_zero.mp (by linarith)
    · exact mul_self_eq_zero.mp (by linarith)
    · exact mul_self_eq_zero.mp (by linarith)
  · rintro rfl
    simp [dot, zero]

theorem dot_self_ne_zero {n : Vector3 F} : n.dot n ≠ 0 ↔ n ≠ zero := dot_self_eq_zero.not

/-- The normal's own plane is missed: a result in the plane is the zero vector, and
    projected again that is the normal. -/
theorem calProjToPlane_never (n v : Vector3 F) (hn : n ≠ zero) : ¬ Projects calProjToPlane n v := by
  have hnn : n.dot n ≠ 0 := dot_self_ne_zero.mpr hn
  rintro ⟨normal, -, again⟩
  have hv : n.dot v = n.dot n := (calProjToPlane_normal_iff hnn v).mp normal
  have hproj : n.calProj v = n := by rw [calProj_eq, hv, div_self hnn, scale_one]
  rw [calProjToPlane_twice hnn, hproj] at again
  rw [← again] at normal
  exact hnn normal

theorem calProjToPlane_never_axis : (⟨0, 0, 1⟩ : Vector3 ℚ) ≠ zero ∧
    ¬ Projects calProjToPlane (⟨0, 0, 1⟩ : Vector3 ℚ) ⟨1, 0, 0⟩ := by
  have hn : (⟨0, 0, 1⟩ : Vector3 ℚ) ≠ zero := fun h => one_ne_zero (congrArg Vector3.z h)
  exact ⟨hn, calProjToPlane_never _ _ hn⟩

/-- The first axis lies in the plane of the third; what is returned is the third. -/
theorem calProjToPlane_returns_the_normal :
    ¬ ∀ n v : Vector3 ℚ, n ≠ zero → n.dot (n.calProjToPlane v) = 0 ∧ (∃ c, v.sub (n.calProjToPlane v) = n.scale c) ∧
      n.calProjToPlane (n.calProjToPlane v) = n.calProjToPlane v := by
  intro h
  have hn : (⟨0, 0, 1⟩ : Vector3 ℚ) ≠ zero := fun h => one_ne_zero (congrArg Vector3.z h)
  have hnormal := (h ⟨0, 0, 1⟩ ⟨1, 0, 0⟩ hn).1
  simp [calProjToPlane, calProj, dot] at hnormal

end Vector3

end LeapSyncFfh
