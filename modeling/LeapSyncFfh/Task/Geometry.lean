/-
  LeapSyncFfh.Task.Geometry — the side swing and the palm angle against the geometry they
  stand for, over the real numbers.

  `sideSwing` is the angle between the projections of a digit's first two bones on the
  palm plane. `calFingerAdduction` takes both directions from the same bone, so it is zero
  whatever the digit does (`calFingerAdduction_zero`).

  `AngleToPlane v n θ`: `θ` is the angle between `v` and the plane with normal `n`.
  `angleToPlane` returns the angle to the normal, and `ThumbPalm` is that in degrees
  (`thumbPalm_eq`): 90 for a thumb that lies in the palm plane.
-/

import LeapSyncFfh.Leap.Euclid
import LeapSyncFfh.Task.Mapping

namespace LeapSyncFfh

open InnerProductGeometry RealInnerProductSpace

/-! ## The side swing -/

section Digit

variable {F : Type} [Field F]

/-- The direction of a digit's metacarpal bone. -/
def LEAP_DIGIT.hand (data : LEAP_DIGIT F) : Vector3 F := (data.bones handBone).direction

/-- The direction of its proximal bone. -/
def LEAP_DIGIT.prox (data : LEAP_DIGIT F) : Vector3 F := (data.bones proxBone).direction

/-- The same digit with another proximal bone. -/
def LEAP_DIGIT.withProx (data : LEAP_DIGIT F) (bone : LEAP_BONE F) : LEAP_DIGIT F :=
  ⟨Function.update data.bones proxBone bone⟩

/-- A bone from the origin. -/
def boneTo (v : LEAP_VECTOR F) : LEAP_BONE F := ⟨⟨0, 0, 0⟩, v⟩

/-- A digit by the ends of its first two bones; the others point like the second. -/
def digitOf (hand prox : LEAP_VECTOR F) : LEAP_DIGIT F := ⟨![boneTo hand, boneTo prox, boneTo prox, boneTo prox]⟩

end Digit

noncomputable def sideSwing (n : Vector3 ℝ) (data : LEAP_DIGIT ℝ) : ℝ :=
  Planes.swing n.euclid data.hand.euclid data.prox.euclid

/-- Neither projection is the zero vector. -/
structure Projectable (n : Vector3 ℝ) (data : LEAP_DIGIT ℝ) : Prop where
  normal : n ≠ Vector3.zero
  hand : Planes.onPlane n.euclid data.hand.euclid ≠ 0
  prox : Planes.onPlane n.euclid data.prox.euclid ≠ 0

/-- `angle` is the side swing in degrees. -/
structure Swings (n : Vector3 ℝ) (data : LEAP_DIGIT ℝ) (angle : ℝ) : Prop where
  swing : angle = 180 / Real.pi * sideSwing n data
  parallel : angle = 0 →
    ∃ r : ℝ, 0 < r ∧ Planes.onPlane n.euclid data.prox.euclid = r • Planes.onPlane n.euclid data.hand.euclid

theorem Vector3.onPlane_eq_zero_iff {n v : Vector3 ℝ} :
    Planes.onPlane n.euclid v.euclid = 0 ↔ ∃ c, v = n.scale c := by
  rw [Planes.onPlane_eq_zero_iff]
  constructor
  · rintro ⟨c, h⟩
    exact ⟨c, euclid_injective (h.trans (euclid_scale n c).symm)⟩
  · rintro ⟨c, rfl⟩
    exact ⟨c, euclid_scale n c⟩

theorem sideSwing_eq_zero_iff {n : Vector3 ℝ} {data : LEAP_DIGIT ℝ} (h : Projectable n data) :
    sideSwing n data = 0 ↔ ∃ r : ℝ, 0 < r ∧ ∃ c : ℝ, data.prox.sub (data.hand.scale r) = n.scale c := by
  rw [sideSwing, Planes.swing_eq_zero_iff h.hand]
  refine exists_congr fun r => and_congr_right fun _ => exists_congr fun c => ?_
  rw [← Vector3.euclid_injective.eq_iff, Vector3.euclid_sub, Vector3.euclid_scale, Vector3.euclid_scale]

/-- The two vectors between which it measures are one. -/
theorem calFingerAdduction_zero (n : Vector3 ℝ) (data : LEAP_DIGIT ℝ) : calFingerAdduction n data = 0 := by
  simp only [calFingerAdduction, LeapTool.getVectorAngle, Vector3.angleTo_self, mul_zero]

/-- The side swing comes out right exactly where there is none, up to a multiple of the
    normal; the proximal bone does not enter. -/
theorem calFingerAdduction_swings_iff (n : Vector3 ℝ) (data : LEAP_DIGIT ℝ) (h : Projectable n data) :
    (Swings n data (calFingerAdduction n data) ↔
      ∃ r : ℝ, 0 < r ∧ ∃ c : ℝ, data.prox.sub (data.hand.scale r) = n.scale c) ∧
    ∀ bone, calFingerAdduction n (data.withProx bone) = calFingerAdduction n data := by
  refine ⟨?_, fun bone => by rw [calFingerAdduction_zero, calFingerAdduction_zero]⟩
  rw [calFingerAdduction_zero, ← sideSwing_eq_zero_iff h]
  constructor
  · intro hs
    have hpi : (180 / Real.pi : ℝ) ≠ 0 := by positivity
    exact (mul_eq_zero.mp hs.swing.symm).resolve_left hpi
  · intro hs
    refine ⟨by rw [hs, mul_zero], fun _ => ?_⟩
    obtain ⟨-, r, hr, hprox⟩ := angle_eq_zero_iff.mp hs
    exact ⟨r, hr, hprox⟩

/-- A vector off the axis is no multiple of the normal. -/
theorem onPlane_axis_ne_zero {v : Vector3 ℝ} (h : v.x ≠ 0 ∨ v.y ≠ 0) :
    Planes.onPlane (⟨0, 0, 1⟩ : Vector3 ℝ).euclid v.euclid ≠ 0 := by
  rw [Ne, Vector3.onPlane_eq_zero_iff]
  rintro ⟨c, rfl⟩
  rcases h with hx | hy
  · exact hx (zero_mul c)
  · exact hy (zero_mul c)

theorem boneTo_direction {F : Type} [Field F] (v : LEAP_VECTOR F) : (boneTo v).direction = ⟨v.x, v.y, v.z⟩ := by
  simp [boneTo, LEAP_BONE.direction]

theorem projectable_axes (hand prox : LEAP_VECTOR ℝ) (hh : hand.x ≠ 0 ∨ hand.y ≠ 0) (hp : prox.x ≠ 0 ∨ prox.y ≠ 0) :
    Projectable ⟨0, 0, 1⟩ (digitOf hand prox) where
  normal := fun h => one_ne_zero (congrArg Vector3.z h)
  hand := by
    have hdir : (digitOf hand prox).hand = ⟨hand.x, hand.y, hand.z⟩ := boneTo_direction hand
    rw [hdir]
    exact onPlane_axis_ne_zero hh
  prox := by
    have hdir : (digitOf hand prox).prox = ⟨prox.x, prox.y, prox.z⟩ := boneTo_direction prox
    rw [hdir]
    exact onPlane_axis_ne_zero hp

theorem calFingerAdduction_swings_straight :
    Projectable ⟨0, 0, 1⟩ (digitOf ⟨1, 0, 0⟩ ⟨2, 0, 1⟩) ∧
      Swings ⟨0, 0, 1⟩ (digitOf ⟨1, 0, 0⟩ ⟨2, 0, 1⟩) (calFingerAdduction ⟨0, 0, 1⟩ (digitOf ⟨1, 0, 0⟩ ⟨2, 0, 1⟩)) := by
  have h : Projectable ⟨0, 0, 1⟩ (digitOf ⟨1, 0, 0⟩ ⟨2, 0, 1⟩) :=
    projectable_axes _ _ (Or.inl one_ne_zero) (Or.inl two_ne_zero)
  refine ⟨h, (calFingerAdduction_swings_iff _ _ h).1.mpr ⟨2, two_pos, 1, ?_⟩⟩
  ext <;> simp [LEAP_DIGIT.hand, LEAP_DIGIT.prox, digitOf, boneTo, LEAP_BONE.direction, handBone, proxBone, Vector3.scale,
    Vector3.sub]

/-- A finger spread by a right angle: the swing is 90 degrees, the code's value zero. -/
theorem calFingerAdduction_misses_a_spread_finger :
    ¬ ∀ (n : Vector3 ℝ) (data : LEAP_DIGIT ℝ), Projectable n data → Swings n data (calFingerAdduction n data) := by
  intro hall
  have h : Projectable ⟨0, 0, 1⟩ (digitOf ⟨1, 0, 0⟩ ⟨0, 1, 0⟩) :=
    projectable_axes _ _ (Or.inl one_ne_zero) (Or.inr one_ne_zero)
  have hswing := (hall _ _ h).swing
  have hpi : (180 / Real.pi : ℝ) ≠ 0 := by positivity
  rw [calFingerAdduction_zero] at hswing
  obtain ⟨r, hr, c, heq⟩ := (sideSwing_eq_zero_iff h).mp ((mul_eq_zero.mp hswing.symm).resolve_left hpi)
  have hx := congrArg Vector3.x heq
  simp [LEAP_DIGIT.hand, LEAP_DIGIT.prox, digitOf, boneTo, LEAP_BONE.direction, handBone, proxBone, Vector3.scale,
    Vector3.sub] at hx
  exact hr.ne' hx

/-! ## The palm angle -/

/-- `θ` is the angle between `v` and the plane with normal `n`. -/
structure AngleToPlane (v n : Vector3 ℝ) (θ : ℝ) : Prop where
  elevation : Planes.IsElevation n.euclid v.euclid θ
  flat : θ = 0 ↔ v.dot n = 0
  upright : θ = Real.pi / 2 ↔ ∃ r : ℝ, 0 < r ∧ v = n.scale r

/-- The direction of the bone the palm angle is taken from. -/
def LEAP_HAND.thumb {F : Type} [Field F] (hand : LEAP_HAND F) : Vector3 F :=
  ((hand.digits 0).bones middleBone).direction

theorem angleToPlane_of_elevation {v n : Vector3 ℝ} {θ : ℝ} (hn : n ≠ Vector3.zero) :
    AngleToPlane v n θ ↔ Planes.IsElevation n.euclid v.euclid θ := by
  refine ⟨fun h => h.elevation, fun h => ⟨h, ?_, ?_⟩⟩
  · rw [Planes.isElevation_iff.mp h, Planes.elevation_eq_zero_iff, Vector3.euclid_inner]
  · rw [Planes.isElevation_iff.mp h, Planes.elevation_eq_right_iff (Vector3.euclid_ne_zero hn)]
    refine exists_congr fun r => and_congr_right fun _ => ?_
    rw [← Vector3.euclid_scale, Vector3.euclid_injective.eq_iff]

theorem r2d_pos : (0 : ℝ) < r2d := by
  unfold r2d
  norm_num

/-- A right angle in the code's degrees. -/
theorem right_angle_mem : 90 / (r2d : ℝ) ∈ Set.Icc 0 Real.pi := by
  have hpi := Real.pi_gt_three
  refine ⟨div_nonneg (by norm_num) r2d_pos.le, ?_⟩
  rw [div_le_iff₀ r2d_pos]
  unfold r2d
  linarith

/-- The cut at zero never happens. -/
theorem thumbPalm_eq {handCmd cmd : udp_hand_cmd ℝ} {hand : LEAP_HAND ℝ} (h : calPubFingerAngle handCmd hand = some cmd) :
    cmd.get 0 FJIndex.ThumbPalm.toFin = r2d * angle hand.thumb.euclid (palmNormal hand).euclid := by
  have hto : thumbToPalm (palmNormal hand) (hand.digits 0) = r2d * angle hand.thumb.euclid (palmNormal hand).euclid := by
    rw [thumbToPalm, Vector3.angleToPlane_eq]
    rfl
  have hnonneg : 0 ≤ r2d * angle hand.thumb.euclid (palmNormal hand).euclid := mul_nonneg r2d_pos.le (angle_nonneg _ _)
  rw [mapped_thumb h, hto, if_neg (not_lt.mpr hnonneg)]

theorem thumbPalm_le_iff {v n : Vector3 ℝ} (hv : v ≠ Vector3.zero) (hn : n ≠ Vector3.zero) :
    r2d * angle v.euclid n.euclid ≤ 90 ↔ Real.cos (90 / r2d) * (v.magnitude * n.magnitude) ≤ v.dot n := by
  have hpos : 0 < ‖v.euclid‖ * ‖n.euclid‖ :=
    mul_pos (norm_pos_iff.mpr (Vector3.euclid_ne_zero hv)) (norm_pos_iff.mpr (Vector3.euclid_ne_zero hn))
  calc r2d * angle v.euclid n.euclid ≤ 90
      ↔ angle v.euclid n.euclid ≤ 90 / r2d := (le_div_iff₀' r2d_pos).symm
    _ ↔ Real.cos (90 / r2d) ≤ Real.cos (angle v.euclid n.euclid) :=
        (Real.strictAntiOn_cos.le_iff_ge right_angle_mem ⟨angle_nonneg _ _, angle_le_pi _ _⟩).symm
    _ ↔ Real.cos (90 / r2d) * (v.magnitude * n.magnitude) ≤ v.dot n := by
        rw [cos_angle, le_div_iff₀ hpos, Vector3.euclid_inner, Vector3.euclid_norm, Vector3.euclid_norm]

/-- `angleToPlane` is right at 45 degrees only. The palm angle stored is between 0 and 90,
    and 0 for a thumb in the palm plane, exactly when the thumb is not in that plane and
    its angle to the normal is no more than a right one. -/
theorem angleToPlane_exact (v n : Vector3 ℝ) (hv : v ≠ Vector3.zero) (hn : n ≠ Vector3.zero)
    (handCmd cmd : udp_hand_cmd ℝ) (hand : LEAP_HAND ℝ) (h : calPubFingerAngle handCmd hand = some cmd)
    (hthumb : hand.thumb ≠ Vector3.zero) (hpalm : palmNormal hand ≠ Vector3.zero) :
    (AngleToPlane v n (v.angleToPlane n) ↔ 0 < v.dot n ∧ 2 * v.dot n ^ 2 = v.dot v * n.dot n) ∧
    (((0 ≤ cmd.get 0 FJIndex.ThumbPalm.toFin ∧ cmd.get 0 FJIndex.ThumbPalm.toFin ≤ 90) ∧
        (hand.thumb.dot (palmNormal hand) = 0 → cmd.get 0 FJIndex.ThumbPalm.toFin = 0)) ↔
      hand.thumb.dot (palmNormal hand) ≠ 0 ∧
        Real.cos (90 / r2d) * (hand.thumb.magnitude * (palmNormal hand).magnitude) ≤ hand.thumb.dot (palmNormal hand)) := by
  constructor
  · have hve := Vector3.euclid_ne_zero hv
    have hne := Vector3.euclid_ne_zero hn
    rw [angleToPlane_of_elevation hn, Vector3.angleToPlane_eq, Planes.angle_isElevation_iff,
      Planes.angle_eq_pi_div_four_iff hve hne]
    simp only [Vector3.euclid_inner]
  · rw [thumbPalm_eq h, thumbPalm_le_iff hthumb hpalm]
    have hflat : hand.thumb.dot (palmNormal hand) = 0 →
        r2d * angle hand.thumb.euclid (palmNormal hand).euclid ≠ 0 := by
      intro hdot
      rw [← Vector3.euclid_inner, inner_eq_zero_iff_angle_eq_pi_div_two] at hdot
      rw [hdot]
      exact mul_ne_zero r2d_pos.ne' (by positivity)
    constructor
    · rintro ⟨⟨-, hle⟩, hzero⟩
      exact ⟨fun hdot => hflat hdot (hzero hdot), hle⟩
    · rintro ⟨hdot, hle⟩
      exact ⟨⟨mul_nonneg r2d_pos.le (angle_nonneg _ _), hle⟩, fun h0 => absurd h0 hdot⟩

/-- A hand with the palm normal `normal` whose bones all point to `bone`. -/
def poseOf {F : Type} [Field F] (normal bone : LEAP_VECTOR F) : LEAP_HAND F :=
  ⟨.eLeapHandType_Left, 1, ⟨normal, ⟨0, 1, 0⟩⟩, fun _ => digitOf bone bone⟩

theorem pose_mapped (handCmd : udp_hand_cmd ℝ) (normal bone : LEAP_VECTOR ℝ) :
    ∃ cmd, calPubFingerAngle handCmd (poseOf normal bone) = some cmd := by
  rw [calPubFingerAngle_eq, if_neg (by simp only [poseOf]; norm_num)]
  exact ⟨_, rfl⟩

theorem pose_thumb {F : Type} [Field F] (normal bone : LEAP_VECTOR F) :
    (poseOf normal bone).thumb = ⟨bone.x, bone.y, bone.z⟩ := boneTo_direction bone

theorem pose_normal (bone : LEAP_VECTOR ℝ) : palmNormal (poseOf ⟨0, 0, 1⟩ bone) = ⟨0, 0, 1⟩ := by
  have heps : ¬ (1 : ℝ) ≤ LEAP_EPSILON := by
    unfold LEAP_EPSILON
    norm_num
  have hsqrt : Libm.sqrt (1 : ℝ) = 1 := Real.sqrt_one
  simp [palmNormal, poseOf, Vector3.ofLeap, Vector3.normalized, Vector3.magnitudeSquared, heps, hsqrt, Vector3.scale]

theorem angleToPlane_exact_poses :
    AngleToPlane ⟨1, 0, 1⟩ ⟨0, 0, 1⟩ ((⟨1, 0, 1⟩ : Vector3 ℝ).angleToPlane ⟨0, 0, 1⟩) ∧
      ∃ cmd : udp_hand_cmd ℝ, calPubFingerAngle .zero (poseOf ⟨0, 0, 1⟩ ⟨0, 0, 1⟩) = some cmd ∧
        0 ≤ cmd.get 0 FJIndex.ThumbPalm.toFin ∧ cmd.get 0 FJIndex.ThumbPalm.toFin ≤ 90 := by
  have hn : (⟨0, 0, 1⟩ : Vector3 ℝ) ≠ Vector3.zero := fun h => one_ne_zero (congrArg Vector3.z h)
  have hv : (⟨1, 0, 1⟩ : Vector3 ℝ) ≠ Vector3.zero := fun h => one_ne_zero (congrArg Vector3.z h)
  obtain ⟨cmd, hcmd⟩ := pose_mapped .zero ⟨0, 0, 1⟩ ⟨0, 0, 1⟩
  have hdot : (⟨0, 0, 1⟩ : Vector3 ℝ).dot ⟨0, 0, 1⟩ = 1 := by simp [Vector3.dot]
  have hmag : (⟨0, 0, 1⟩ : Vector3 ℝ).magnitude = 1 := by
    have hsqrt : Libm.sqrt (1 : ℝ) = 1 := Real.sqrt_one
    simp [Vector3.magnitude, hsqrt]
  obtain ⟨hplane, hpalm⟩ := angleToPlane_exact _ _ hv hn .zero cmd _ hcmd (by rwa [pose_thumb]) (by rwa [pose_normal])
  refine ⟨hplane.mpr ?_, cmd, hcmd, (hpalm.mpr ?_).1⟩
  · simp [Vector3.dot]
    norm_num
  · rw [pose_thumb, pose_normal, hdot, hmag, mul_one, mul_one]
    exact ⟨one_ne_zero, Real.cos_le_one _⟩

/-- A vector in the plane: its angle to the plane is 0, the code's a right one. -/
theorem angleToPlane_of_a_flat_thumb :
    ¬ ∀ v n : Vector3 ℝ, v ≠ Vector3.zero → n ≠ Vector3.zero → AngleToPlane v n (v.angleToPlane n) := by
  intro h
  have hn : (⟨0, 0, 1⟩ : Vector3 ℝ) ≠ Vector3.zero := fun h => one_ne_zero (congrArg Vector3.z h)
  have hv : (⟨1, 0, 0⟩ : Vector3 ℝ) ≠ Vector3.zero := fun h => one_ne_zero (congrArg Vector3.x h)
  have hdot : (⟨1, 0, 0⟩ : Vector3 ℝ).dot ⟨0, 0, 1⟩ = 0 := by simp [Vector3.dot]
  have hzero := (h _ _ hv hn).flat.mpr hdot
  rw [← Vector3.euclid_inner, inner_eq_zero_iff_angle_eq_pi_div_two, ← Vector3.angleToPlane_eq] at hdot
  rw [hdot] at hzero
  exact absurd hzero (by positivity)

end LeapSyncFfh
