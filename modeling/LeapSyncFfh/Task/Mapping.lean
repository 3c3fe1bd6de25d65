/-
  LeapSyncFfh.Task.Mapping — `calPubFingerAngle` (lpV2SyncFfh.cpp): a tracked hand to a
  hand command.

  It writes thirteen of the twenty angles: the thumb's four, and three of each other
  finger's. The `ThumbPalm` angle of fingers 1 to 4 stays what it was in the command
  (`mapped_thumbPalm`), and the thumb's is `r2d` times an angle between two vectors, cut
  at zero from below only (`mapped_thumb`).

  `tipDir` and the `angle` taken from it are not used by the source and left out.
-/

import LeapSyncFfh.Ffh.HandTypes
import LeapSyncFfh.Leap.Math

namespace LeapSyncFfh

variable {F : Type} [Field F] [LinearOrder F] [Libm F]

/-! ## `BoneType` -/

def handBone : Fin 4 := 0

def proxBone : Fin 4 := 1

def middleBone : Fin 4 := 2

def distalBone : Fin 4 := 3

/-! ## The angles of one finger -/

/-- Both directions are taken from the hand bone. -/
def calFingerAdduction (palmNormal : Vector3 F) (data : LEAP_DIGIT F) : F :=
  let handBoneData := data.bones handBone
  let directionHand := handBoneData.direction
  let directionProx := handBoneData.direction
  let projDirectionHand := palmNormal.calProjToPlane directionHand
  let projDirectionProx := palmNormal.calProjToPlane directionProx
  r2d * LeapTool.getVectorAngle projDirectionHand projDirectionProx

/-- An angle, or 0 for a finger turned away from the palm. -/
def turned (palm_normal direction : Vector3 F) (angle : F) : F := if palm_normal.dot direction < 0 then 0 else angle

/-- The body of the loop over fingers 1 to 4. -/
def mapFinger (palm_normal : Vector3 F) (fingers : Fin 5 → LEAP_DIGIT F) (cmd : udp_hand_cmd F) (i : Fin 5) :
    udp_hand_cmd F :=
  let data := fingers i
  let distal := turned palm_normal (data.bones distalBone).direction
    (r2d * LeapTool.getBonesAngle (data.bones middleBone) (data.bones distalBone))
  let fbDir := turned palm_normal ((data.bones middleBone).direction.scale r2d)
    (r2d * LeapTool.getBonesAngle (data.bones proxBone) (data.bones middleBone))
  let lrDir := turned palm_normal (data.bones proxBone).direction (calFingerAdduction palm_normal data)
  ((cmd.set i FJIndex.Distal.toFin distal).set i FJIndex.FbDir.toFin fbDir).set i FJIndex.LrDir.toFin lrDir

/-- The angle of the thumb's middle bone to the palm, before the cut at zero. -/
def thumbToPalm (palm_normal : Vector3 F) (data : LEAP_DIGIT F) : F :=
  r2d * (data.bones middleBone).direction.angleToPlane palm_normal

def mapThumb (palm_normal : Vector3 F) (fingers : Fin 5 → LEAP_DIGIT F) (cmd : udp_hand_cmd F) : udp_hand_cmd F :=
  let data := fingers 0
  let distal := turned palm_normal (data.bones distalBone).direction
    (r2d * LeapTool.getBonesAngle (data.bones middleBone) (data.bones distalBone))
  let lrDir := turned palm_normal (data.bones distalBone).direction (calFingerAdduction palm_normal data)
  let thumbPalm := if thumbToPalm palm_normal data < 0 then 0 else thumbToPalm palm_normal data
  (((cmd.set 0 FJIndex.Distal.toFin distal).set 0 FJIndex.FbDir.toFin distal).set 0 FJIndex.LrDir.toFin lrDir).set 0
    FJIndex.ThumbPalm.toFin thumbPalm

/-- The command after `calPubFingerAngle`, or `none` where it returns false. -/
def calPubFingerAngle (handCmd : udp_hand_cmd F) (hand : LEAP_HAND F) : Option (udp_hand_cmd F) :=
  if hand.confidence < 3 / 10 then none
  else
    let palm_normal := (Vector3.ofLeap hand.palm.normal).normalized
    let fingerCmd := [1, 2, 3, 4].foldl (mapFinger palm_normal hand.digits) handCmd
    some (mapThumb palm_normal hand.digits fingerCmd)

/-! ## What it writes -/

/-- The palm normal the angles of a hand are taken from. -/
def palmNormal (hand : LEAP_HAND F) : Vector3 F := (Vector3.ofLeap hand.palm.normal).normalized

theorem calPubFingerAngle_eq (handCmd : udp_hand_cmd F) (hand : LEAP_HAND F) :
    calPubFingerAngle handCmd hand =
      if hand.confidence < 3 / 10 then none
      else some (mapThumb (palmNormal hand) hand.digits
        ([1, 2, 3, 4].foldl (mapFinger (palmNormal hand) hand.digits) handCmd)) := rfl

theorem calPubFingerAngle_none {handCmd : udp_hand_cmd F} {hand : LEAP_HAND F} :
    calPubFingerAngle handCmd hand = none ↔ hand.confidence < 3 / 10 := by
  unfold calPubFingerAngle
  split
  · simpa
  · rename_i h; simpa using h

/-- A finger's `ThumbPalm` angle is none of those the loop writes. -/
theorem mapFinger_get (n : Vector3 F) (fingers : Fin 5 → LEAP_DIGIT F) (cmd : udp_hand_cmd F) (i k : Fin 5) :
    (mapFinger n fingers cmd i).get k FJIndex.ThumbPalm.toFin = cmd.get k FJIndex.ThumbPalm.toFin := by
  unfold mapFinger
  rw [udp_hand_cmd.get_set_other _ _ (Or.inr (by decide)), udp_hand_cmd.get_set_other _ _ (Or.inr (by decide)),
    udp_hand_cmd.get_set_other _ _ (Or.inr (by decide))]

theorem mapThumb_other (n : Vector3 F) (fingers : Fin 5 → LEAP_DIGIT F) (cmd : udp_hand_cmd F) {k : Fin 5} (j : Fin 4)
    (h : k ≠ 0) : (mapThumb n fingers cmd).get k j = cmd.get k j := by
  unfold mapThumb
  rw [udp_hand_cmd.get_set_other _ _ (Or.inl h), udp_hand_cmd.get_set_other _ _ (Or.inl h),
    udp_hand_cmd.get_set_other _ _ (Or.inl h), udp_hand_cmd.get_set_other _ _ (Or.inl h)]

/-- Fingers 1 to 4 keep the `ThumbPalm` angle the command had. -/
theorem mapped_thumbPalm {handCmd cmd : udp_hand_cmd F} {hand : LEAP_HAND F}
    (h : calPubFingerAngle handCmd hand = some cmd) {k : Fin 5} (hk : k ≠ 0) :
    cmd.get k FJIndex.ThumbPalm.toFin = handCmd.get k FJIndex.ThumbPalm.toFin := by
  unfold calPubFingerAngle at h
  split at h
  · cases h
  · cases h
    rw [mapThumb_other _ _ _ _ hk]
    simp only [List.foldl_cons, List.foldl_nil, mapFinger_get]

/-- The thumb's `ThumbPalm` angle has no upper cut. -/
theorem mapped_thumb {handCmd cmd : udp_hand_cmd F} {hand : LEAP_HAND F}
    (h : calPubFingerAngle handCmd hand = some cmd) :
    cmd.get 0 FJIndex.ThumbPalm.toFin =
      if thumbToPalm (palmNormal hand) (hand.digits 0) < 0 then 0
      else thumbToPalm (palmNormal hand) (hand.digits 0) := by
  unfold calPubFingerAngle at h
  split at h
  · cases h
  · cases h
    simp only [mapThumb, udp_hand_cmd.get_set_same]
    rfl

end LeapSyncFfh
