/-
  LeapSyncFfh.Task.Divisions — `calPubFingerAngle` with every division, root and `acos` it
  reaches checked, those of the unused `tipDir` included.

  Two guards are missing. `calProj` divides by the square of the palm normal, which is the
  zero vector for a normal below the normalisation threshold; `angleToPlane` divides by the
  length of the thumb's middle bone. Everything else is defined for every hand, so the call
  is defined exactly where these two are not zero (`calPubFingerAngle_defined_iff`), and
  then it returns what the unchecked one does (`calPubFingerAngle_ok`).
-/

import LeapSyncFfh.Leap.Partial
import LeapSyncFfh.Task.Geometry

namespace LeapSyncFfh

variable {F : Type} [Field F]

def Vector3.getCross (a other : Vector3 F) : Vector3 F :=
  ⟨a.y * other.z - a.z * other.y, a.z * other.x - a.x * other.z, a.x * other.y - a.y * other.x⟩

namespace Checked

variable [LinearOrder F] [Libm F]

def getBonesAngle (b1 b2 : LEAP_BONE F) : Except Undefined F := angleTo b1.direction b2.direction

def calFingerAdduction (palmNormal : Vector3 F) (data : LEAP_DIGIT F) : Except Undefined F := do
  let handBoneData := data.bones handBone
  let directionHand := handBoneData.direction
  let directionProx := handBoneData.direction
  let projDirectionHand ← calProjToPlane palmNormal directionHand
  let projDirectionProx ← calProjToPlane palmNormal directionProx
  let angle ← angleTo projDirectionHand projDirectionProx
  .ok (r2d * angle)

/-- The body of the loop over fingers 1 to 4. -/
def mapFinger (palm_normal tipDir : Vector3 F) (fingers : Fin 5 → LEAP_DIGIT F) (cmd : udp_hand_cmd F) (i : Fin 5) :
    Except Undefined (udp_hand_cmd F) := do
  let data := fingers i
  let distal ← getBonesAngle (data.bones middleBone) (data.bones distalBone)
  let cmd := cmd.set i FJIndex.Distal.toFin (turned palm_normal (data.bones distalBone).direction (r2d * distal))
  let fbDir ← getBonesAngle (data.bones proxBone) (data.bones middleBone)
  let cmd := cmd.set i FJIndex.FbDir.toFin
    (turned palm_normal ((data.bones middleBone).direction.scale r2d) (r2d * fbDir))
  let _angle ← angleTo tipDir (data.bones proxBone).direction
  let lrDir ← calFingerAdduction palm_normal data
  .ok (cmd.set i FJIndex.LrDir.toFin (turned palm_normal (data.bones proxBone).direction lrDir))

def mapThumb (palm_normal : Vector3 F) (fingers : Fin 5 → LEAP_DIGIT F) (cmd : udp_hand_cmd F) :
    Except Undefined (udp_hand_cmd F) := do
  let data := fingers 0
  let distal ← getBonesAngle (data.bones middleBone) (data.bones distalBone)
  let cmd := cmd.set 0 FJIndex.Distal.toFin (turned palm_normal (data.bones distalBone).direction (r2d * distal))
  let cmd := cmd.set 0 FJIndex.FbDir.toFin (cmd.get 0 FJIndex.Distal.toFin)
  let lrDir ← calFingerAdduction palm_normal data
  let cmd := cmd.set 0 FJIndex.LrDir.toFin (turned palm_normal (data.bones distalBone).direction lrDir)
  let angle ← angleToPlane (data.bones middleBone).direction palm_normal
  .ok (cmd.set 0 FJIndex.ThumbPalm.toFin (if r2d * angle < 0 then 0 else r2d * angle))

def calPubFingerAngle (handCmd : udp_hand_cmd F) (hand : LEAP_HAND F) :
    Except Undefined (Option (udp_hand_cmd F)) :=
  if hand.confidence < 3 / 10 then .ok none
  else do
    let palm_normal ← normalized (Vector3.ofLeap hand.palm.normal)
    let handDir ← normalized (Vector3.ofLeap hand.palm.direction)
    let tipDir ← normalize (Vector3.zero.sub (palm_normal.getCross handDir))
    let fingerCmd ← [1, 2, 3, 4].foldlM (mapFinger palm_normal tipDir hand.digits) handCmd
    let cmd ← mapThumb palm_normal hand.digits fingerCmd
    .ok (some cmd)

/-! ## Where they are defined -/

theorem getBonesAngle_ok (b1 b2 : LEAP_BONE ℝ) : getBonesAngle b1 b2 = .ok (LeapTool.getBonesAngle b1 b2) :=
  angleTo_ok _ _

theorem calFingerAdduction_ok {n : Vector3 ℝ} (hn : n ≠ Vector3.zero) (data : LEAP_DIGIT ℝ) :
    calFingerAdduction n data = .ok (LeapSyncFfh.calFingerAdduction n data) := by
  simp only [calFingerAdduction, calProjToPlane_ok (Vector3.dot_self_ne_zero.mpr hn), angleTo_ok, bind, Except.bind]
  rfl

theorem calFingerAdduction_error {n : Vector3 ℝ} (hn : n = Vector3.zero) (data : LEAP_DIGIT ℝ) :
    calFingerAdduction n data = .error .division := by
  simp only [calFingerAdduction, calProjToPlane_error (Vector3.dot_self_eq_zero.mpr hn), bind, Except.bind]

theorem mapFinger_ok {n : Vector3 ℝ} (hn : n ≠ Vector3.zero) (tipDir : Vector3 ℝ) (fingers : Fin 5 → LEAP_DIGIT ℝ)
    (cmd : udp_hand_cmd ℝ) (i : Fin 5) :
    mapFinger n tipDir fingers cmd i = .ok (LeapSyncFfh.mapFinger n fingers cmd i) := by
  simp only [mapFinger, getBonesAngle_ok, angleTo_ok, calFingerAdduction_ok hn, bind, Except.bind]
  rfl

theorem mapFinger_error {n : Vector3 ℝ} (hn : n = Vector3.zero) (tipDir : Vector3 ℝ) (fingers : Fin 5 → LEAP_DIGIT ℝ)
    (cmd : udp_hand_cmd ℝ) (i : Fin 5) : mapFinger n tipDir fingers cmd i = .error .division := by
  simp only [mapFinger, getBonesAngle_ok, angleTo_ok, calFingerAdduction_error hn, bind, Except.bind]

theorem mapThumb_ok {n : Vector3 ℝ} {fingers : Fin 5 → LEAP_DIGIT ℝ} (hn : n ≠ Vector3.zero)
    (hv : ((fingers 0).bones middleBone).direction ≠ Vector3.zero) (cmd : udp_hand_cmd ℝ) :
    mapThumb n fingers cmd = .ok (LeapSyncFfh.mapThumb n fingers cmd) := by
  simp only [mapThumb, getBonesAngle_ok, calFingerAdduction_ok hn, angleToPlane_ok hv hn, bind, Except.bind,
    udp_hand_cmd.get_set_same]
  rfl

theorem mapThumb_error {n : Vector3 ℝ} {fingers : Fin 5 → LEAP_DIGIT ℝ} (hn : n ≠ Vector3.zero)
    (hv : ((fingers 0).bones middleBone).direction = Vector3.zero) (cmd : udp_hand_cmd ℝ) :
    mapThumb n fingers cmd = .error .division := by
  simp only [mapThumb, getBonesAngle_ok, calFingerAdduction_ok hn, angleToPlane_error (Or.inl hv), bind, Except.bind]

theorem loop_ok {n : Vector3 ℝ} (hn : n ≠ Vector3.zero) (tipDir : Vector3 ℝ) (fingers : Fin 5 → LEAP_DIGIT ℝ) :
    ∀ (is : List (Fin 5)) (cmd : udp_hand_cmd ℝ),
      is.foldlM (mapFinger n tipDir fingers) cmd = .ok (is.foldl (LeapSyncFfh.mapFinger n fingers) cmd) := by
  intro is cmd
  have hstep : ∀ (a c : udp_hand_cmd ℝ) (i : Fin 5), a = c →
      ∃ d, mapFinger n tipDir fingers c i = .ok d ∧ LeapSyncFfh.mapFinger n fingers a i = d := by
    rintro a c i rfl
    exact ⟨_, mapFinger_ok hn tipDir fingers a i, rfl⟩
  obtain ⟨cmd', hcmd, rfl⟩ := Cells.foldlM_follows hstep rfl is
  exact hcmd

/-- The normalisations never fault, whatever the palm. -/
theorem calPubFingerAngle_loop {hand : LEAP_HAND ℝ} (hc : ¬ hand.confidence < 3 / 10) (handCmd : udp_hand_cmd ℝ) :
    ∃ tipDir, calPubFingerAngle handCmd hand =
      ([1, 2, 3, 4].foldlM (mapFinger (palmNormal hand) tipDir hand.digits) handCmd >>= fun fingerCmd =>
        mapThumb (palmNormal hand) hand.digits fingerCmd >>= fun cmd => .ok (some cmd)) := by
  unfold calPubFingerAngle
  simp only [if_neg hc, normalize, normalized_ok]
  exact ⟨_, rfl⟩

theorem calPubFingerAngle_ok {hand : LEAP_HAND ℝ} (hn : palmNormal hand ≠ Vector3.zero)
    (hv : hand.thumb ≠ Vector3.zero) (handCmd : udp_hand_cmd ℝ) :
    calPubFingerAngle handCmd hand = .ok (LeapSyncFfh.calPubFingerAngle handCmd hand) := by
  by_cases hc : hand.confidence < 3 / 10
  · rw [calPubFingerAngle, if_pos hc, calPubFingerAngle_eq, if_pos hc]
  · obtain ⟨tipDir, h⟩ := calPubFingerAngle_loop hc handCmd
    rw [h, loop_ok hn, calPubFingerAngle_eq, if_neg hc]
    simp only [bind, Except.bind]
    rw [mapThumb_ok hn hv]

/-- The first division by zero is in the side swing of finger 1, or at the thumb. -/
theorem calPubFingerAngle_error {hand : LEAP_HAND ℝ} (hc : ¬ hand.confidence < 3 / 10)
    (h : palmNormal hand = Vector3.zero ∨ hand.thumb = Vector3.zero) (handCmd : udp_hand_cmd ℝ) :
    calPubFingerAngle handCmd hand = .error .division := by
  obtain ⟨tipDir, heq⟩ := calPubFingerAngle_loop hc handCmd
  rw [heq]
  by_cases hn : palmNormal hand = Vector3.zero
  · rw [List.foldlM_cons, mapFinger_error hn]
    rfl
  · rw [loop_ok hn]
    simp only [bind, Except.bind]
    rw [mapThumb_error hn (h.resolve_left hn)]

/-- For a hand that is believed, every operation reached is defined exactly when the palm
    normal is long enough to be normalised and the thumb's middle bone is not a point; the
    command is then the one of the unchecked functions. -/
theorem calPubFingerAngle_defined_iff (handCmd : udp_hand_cmd ℝ) (hand : LEAP_HAND ℝ)
    (hc : 3 / 10 ≤ hand.confidence) :
    (∃ cmd, calPubFingerAngle handCmd hand = .ok (some cmd) ∧ LeapSyncFfh.calPubFingerAngle handCmd hand = some cmd) ↔
      LEAP_EPSILON < (Vector3.ofLeap hand.palm.normal).magnitudeSquared ∧ hand.thumb ≠ Vector3.zero := by
  have hnormal : palmNormal hand ≠ Vector3.zero ↔ LEAP_EPSILON < (Vector3.ofLeap hand.palm.normal).magnitudeSquared :=
    (not_congr normalized_eq_zero).trans not_le
  rw [← hnormal]
  constructor
  · rintro ⟨cmd, h, -⟩
    by_contra hbad
    have hzero : palmNormal hand = Vector3.zero ∨ hand.thumb = Vector3.zero := by
      by_contra hor
      exact hbad (not_or.mp hor)
    rw [calPubFingerAngle_error (not_lt.mpr hc) hzero] at h
    cases h
  · rintro ⟨hn, hv⟩
    rw [calPubFingerAngle_ok hn hv, calPubFingerAngle_eq, if_neg (not_lt.mpr hc)]
    exact ⟨_, rfl, rfl⟩

theorem calPubFingerAngle_defined_pose :
    (3 : ℝ) / 10 ≤ (poseOf ⟨0, 0, 1⟩ ⟨1, 0, 0⟩ : LEAP_HAND ℝ).confidence ∧
      ∃ cmd, calPubFingerAngle .zero (poseOf ⟨0, 0, 1⟩ ⟨1, 0, 0⟩ : LEAP_HAND ℝ) = .ok (some cmd) := by
  have hc : (3 : ℝ) / 10 ≤ (poseOf ⟨0, 0, 1⟩ ⟨1, 0, 0⟩ : LEAP_HAND ℝ).confidence := by
    simp only [poseOf]
    norm_num
  refine ⟨hc, ?_⟩
  obtain ⟨cmd, h, -⟩ := (calPubFingerAngle_defined_iff .zero _ hc).mpr (by
    constructor
    · simp only [poseOf, Vector3.ofLeap, Vector3.magnitudeSquared, LEAP_EPSILON]
      norm_num
    · rw [pose_thumb]
      exact fun h => one_ne_zero (congrArg Vector3.x h))
  exact ⟨cmd, h⟩

/-- A palm normal of zero, which the normalisation lets through. -/
theorem calPubFingerAngle_divides_by_zero :
    ¬ ∀ (handCmd : udp_hand_cmd ℝ) (hand : LEAP_HAND ℝ), 3 / 10 ≤ hand.confidence →
      ∃ cmd, calPubFingerAngle handCmd hand = .ok (some cmd) := by
  intro hall
  have hc : (3 : ℝ) / 10 ≤ (poseOf ⟨0, 0, 0⟩ ⟨1, 0, 0⟩ : LEAP_HAND ℝ).confidence := by
    simp only [poseOf]
    norm_num
  obtain ⟨cmd, h⟩ := hall .zero _ hc
  have hn : palmNormal (poseOf ⟨0, 0, 0⟩ ⟨1, 0, 0⟩ : LEAP_HAND ℝ) = Vector3.zero := by
    refine normalized_eq_zero.mpr ?_
    simp only [poseOf, Vector3.ofLeap, Vector3.magnitudeSquared, LEAP_EPSILON]
    norm_num
  rw [calPubFingerAngle_error (not_lt.mpr hc) (Or.inl hn)] at h
  cases h

end Checked

end LeapSyncFfh
