/-
  LeapSyncFfh.Leap.Partial — the functions of `leapMotionV2Math.h` with their partial
  operations checked.

  `/`, `sqrt` and `acos` have no value for a divisor of zero, a negative number and a
  number outside [-1, 1]; here they fault there (`Undefined`). Over the real numbers
  `normalized` and `angleTo` never fault, their guards see to that (`normalized_ok`,
  `angleTo_ok`); `calProjToPlane` faults for a normal of zero, `angleToPlane` for a zero
  vector on either side. Where a function does not fault it returns what the unchecked one
  does.
-/

import LeapSyncFfh.Leap.Euclid

namespace LeapSyncFfh

/-- An operation reached with operands it has no value for. -/
inductive Undefined where
  | division
  | sqrt
  | acos
  deriving DecidableEq, Repr

namespace Checked

variable {F : Type} [Field F] [LinearOrder F] [Libm F]

def div (a b : F) : Except Undefined F := if b = 0 then .error .division else .ok (a / b)

def sqrt (a : F) : Except Undefined F := if a < 0 then .error .sqrt else .ok (Libm.sqrt a)

def acos (a : F) : Except Undefined F := if -1 ≤ a ∧ a ≤ 1 then .ok (Libm.acos a) else .error .acos

/-! ## The functions -/

def normalized (a : Vector3 F) : Except Undefined (Vector3 F) :=
  let denom := a.magnitudeSquared
  if denom ≤ LEAP_EPSILON then .ok .zero
  else do
    let root ← sqrt denom
    let denom ← div 1 root
    .ok (a.scale denom)

/-- `normalize()`: the same in place. -/
def normalize (a : Vector3 F) : Except Undefined (Vector3 F) := normalized a

def magnitude (a : Vector3 F) : Except Undefined F := sqrt (a.x * a.x + a.y * a.y + a.z * a.z)

def angleTo (a other : Vector3 F) : Except Undefined F :=
  let denom := a.magnitudeSquared * other.magnitudeSquared
  if denom ≤ LEAP_EPSILON then .ok 0
  else do
    let root ← sqrt denom
    let val ← div (a.dot other) root
    if 1 ≤ val then .ok 0
    else if val ≤ -1 then .ok LEAP_PI
    else acos val

def calProj (a v : Vector3 F) : Except Undefined (Vector3 F) := do
  let scalar ← div (a.dot v) (a.dot a)
  .ok ⟨a.x * scalar, a.y * scalar, a.z * scalar⟩

def calProjToPlane (a v : Vector3 F) : Except Undefined (Vector3 F) := do
  let proj ← calProj a v
  .ok ⟨a.x - proj.x, a.y - proj.y, a.z - proj.z⟩

def angleToPlane (a planeNormal : Vector3 F) : Except Undefined F := do
  let m ← magnitude a
  let n ← magnitude planeNormal
  let cosTheta ← div (a.dot planeNormal) (m * n)
  acos cosTheta

/-! ## Where they are defined -/

omit [Libm F] in
theorem div_ok {a b : F} (h : b ≠ 0) : div a b = .ok (a / b) := if_neg h

omit [Libm F] in
theorem div_error {a : F} : div a 0 = .error .division := if_pos rfl

theorem sqrt_ok {a : F} (h : 0 ≤ a) : sqrt a = .ok (Libm.sqrt a) := if_neg (not_lt.mpr h)

theorem acos_ok {a : F} (h : -1 ≤ a ∧ a ≤ 1) : acos a = .ok (Libm.acos a) := if_pos h

omit [Libm F] in
theorem calProjToPlane_ok {a : Vector3 F} (h : a.dot a ≠ 0) (v : Vector3 F) :
    calProjToPlane a v = .ok (a.calProjToPlane v) := by
  simp only [calProjToPlane, calProj, div_ok h, bind, Except.bind]
  rfl

omit [Libm F] in
theorem calProjToPlane_error {a : Vector3 F} (h : a.dot a = 0) (v : Vector3 F) :
    calProjToPlane a v = .error .division := by
  simp only [calProjToPlane, calProj, h, div_error, bind, Except.bind]

/-! ## Over the real numbers -/

section Real

theorem epsilon_pos : (0 : ℝ) < LEAP_EPSILON := by
  unfold LEAP_EPSILON
  norm_num

/-- A denominator past the guard has a root that is not zero. -/
theorem root_pos {denom : ℝ} (h : ¬ denom ≤ LEAP_EPSILON) : 0 ≤ denom ∧ (Libm.sqrt denom : ℝ) ≠ 0 := by
  have hpos : 0 < denom := epsilon_pos.trans (not_le.mp h)
  exact ⟨hpos.le, (Real.sqrt_pos.mpr hpos).ne'⟩

theorem normalized_ok (a : Vector3 ℝ) : normalized a = .ok a.normalized := by
  simp only [normalized, Vector3.normalized]
  split
  · rfl
  · rename_i h
    obtain ⟨hle, hroot⟩ := root_pos h
    simp only [sqrt_ok hle, div_ok hroot, bind, Except.bind]

/-- What a normalisation gives up on is the zero vector. -/
theorem normalized_eq_zero {a : Vector3 ℝ} : a.normalized = Vector3.zero ↔ a.magnitudeSquared ≤ LEAP_EPSILON := by
  constructor
  · intro h
    by_contra heps
    obtain ⟨-, hroot⟩ := root_pos heps
    have hdot : a.normalized.dot a = 0 := by rw [h]; simp [Vector3.dot, Vector3.zero]
    simp only [Vector3.normalized, if_neg heps] at hdot
    rw [Vector3.dot_comm, Vector3.dot_scale] at hdot
    have ha : a.dot a = 0 := (mul_eq_zero.mp hdot).resolve_right (one_div_ne_zero hroot)
    exact heps (by rw [show a.magnitudeSquared = 0 from ha]; exact epsilon_pos.le)
  · intro h
    simp only [Vector3.normalized, if_pos h]

theorem angleTo_ok (a b : Vector3 ℝ) : angleTo a b = .ok (a.angleTo b) := by
  simp only [angleTo, Vector3.angleTo]
  split
  · rfl
  · rename_i h
    obtain ⟨hle, hroot⟩ := root_pos h
    simp only [sqrt_ok hle, div_ok hroot, bind, Except.bind]
    split
    · rfl
    split
    · rfl
    · rename_i h1 h2
      exact acos_ok ⟨(not_le.mp h2).le, (not_le.mp h1).le⟩

theorem magnitude_ok (a : Vector3 ℝ) : magnitude a = .ok a.magnitude := sqrt_ok (Vector3.magnitudeSquared_nonneg a)

theorem magnitude_eq_zero {a : Vector3 ℝ} : a.magnitude = 0 ↔ a = Vector3.zero := by
  rw [← Vector3.euclid_norm, norm_eq_zero]
  constructor
  · intro h
    by_contra hne
    exact Vector3.euclid_ne_zero hne h
  · rintro rfl
    ext i
    fin_cases i <;> simp [Vector3.euclid, Vector3.zero]

/-- The quotient is the cosine of an angle. -/
theorem angleToPlane_ok {v n : Vector3 ℝ} (hv : v ≠ Vector3.zero) (hn : n ≠ Vector3.zero) :
    angleToPlane v n = .ok (v.angleToPlane n) := by
  have hne : v.magnitude * n.magnitude ≠ 0 :=
    mul_ne_zero (fun h => hv (magnitude_eq_zero.mp h)) (fun h => hn (magnitude_eq_zero.mp h))
  have hcos : Real.cos (InnerProductGeometry.angle v.euclid n.euclid) = v.dot n / (v.magnitude * n.magnitude) := by
    rw [InnerProductGeometry.cos_angle, Vector3.euclid_inner, Vector3.euclid_norm, Vector3.euclid_norm]
  have hrange : -1 ≤ v.dot n / (v.magnitude * n.magnitude) ∧ v.dot n / (v.magnitude * n.magnitude) ≤ 1 := by
    rw [← hcos]
    exact ⟨Real.neg_one_le_cos _, Real.cos_le_one _⟩
  simp only [angleToPlane, magnitude_ok, div_ok hne, bind, Except.bind, acos_ok hrange]
  rfl

theorem angleToPlane_error {v n : Vector3 ℝ} (h : v = Vector3.zero ∨ n = Vector3.zero) :
    angleToPlane v n = .error .division := by
  have hzero : v.magnitude * n.magnitude = 0 := by
    rcases h with h | h
    · rw [magnitude_eq_zero.mpr h, zero_mul]
    · rw [magnitude_eq_zero.mpr h, mul_zero]
  simp only [angleToPlane, magnitude_ok, hzero, div_error, bind, Except.bind]

end Real

end Checked

end LeapSyncFfh
