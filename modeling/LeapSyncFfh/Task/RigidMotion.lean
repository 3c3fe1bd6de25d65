/-
  LeapSyncFfh.Task.RigidMotion — the command of a hand that is moved and turned as a whole.

  Each part of `calPubFingerAngle` is taken from bone directions and the palm normal by
  lengths, angles, projections and signs of dot products, and these move along or stay
  (`Vector3.Keeps`). So the command is the same (`calPubFingerAngle_moved`): the pose of
  the robot hand is a matter of the operator's fingers, not of where the wrist points.
-/

import LeapSyncFfh.Leap.Rotation
import LeapSyncFfh.Task.Mapping

namespace LeapSyncFfh

variable {F : Type} [Field F] [LinearOrder F] [Libm F]

namespace Motion

variable (g : Motion F)

theorem getBonesAngle_moved (b1 b2 : LEAP_BONE F) :
    LeapTool.getBonesAngle (g.moveBone b1) (g.moveBone b2) = LeapTool.getBonesAngle b1 b2 := by
  simp only [LeapTool.getBonesAngle, direction_moved, g.keeps.angleTo]

theorem calFingerAdduction_moved (n : Vector3 F) (data : LEAP_DIGIT F) :
    calFingerAdduction (g.act n) (g.moveDigit data) = calFingerAdduction n data := by
  simp only [calFingerAdduction, moveDigit, direction_moved, g.keeps.calProjToPlane, LeapTool.getVectorAngle,
    g.keeps.angleTo]

omit [Libm F] in
theorem turned_moved (n direction : Vector3 F) (angle : F) :
    turned (g.act n) (g.act direction) angle = turned n direction angle := by
  simp only [turned, g.keeps.dot]

theorem mapFinger_moved (n : Vector3 F) (fingers : Fin 5 → LEAP_DIGIT F) (cmd : udp_hand_cmd F) (i : Fin 5) :
    mapFinger (g.act n) (fun k => g.moveDigit (fingers k)) cmd i = mapFinger n fingers cmd i := by
  have hbone : ∀ k, (g.moveDigit (fingers i)).bones k = g.moveBone ((fingers i).bones k) := fun _ => rfl
  simp only [mapFinger, hbone, direction_moved, ← g.keeps.scale, turned_moved, getBonesAngle_moved,
    calFingerAdduction_moved]

omit [LinearOrder F] in
theorem thumbToPalm_moved (n : Vector3 F) (data : LEAP_DIGIT F) :
    thumbToPalm (g.act n) (g.moveDigit data) = thumbToPalm n data := by
  simp only [thumbToPalm, moveDigit, direction_moved, g.keeps.angleToPlane]

theorem mapThumb_moved (n : Vector3 F) (fingers : Fin 5 → LEAP_DIGIT F) (cmd : udp_hand_cmd F) :
    mapThumb (g.act n) (fun k => g.moveDigit (fingers k)) cmd = mapThumb n fingers cmd := by
  have hbone : ∀ k, (g.moveDigit (fingers 0)).bones k = g.moveBone ((fingers 0).bones k) := fun _ => rfl
  simp only [mapThumb, hbone, direction_moved, turned_moved, getBonesAngle_moved, calFingerAdduction_moved,
    thumbToPalm_moved]

theorem palmNormal_moved (hand : LEAP_HAND F) : palmNormal (g.moveHand hand) = g.act (palmNormal hand) :=
  g.keeps.normalized (Vector3.ofLeap hand.palm.normal)

/-- A hand moved and turned as a whole gives the same command, or none as before. -/
theorem calPubFingerAngle_moved (handCmd : udp_hand_cmd F) (hand : LEAP_HAND F) :
    calPubFingerAngle handCmd (g.moveHand hand) = calPubFingerAngle handCmd hand := by
  have hdigits : (g.moveHand hand).digits = fun k => g.moveDigit (hand.digits k) := rfl
  have hfinger : mapFinger (g.act (palmNormal hand)) (fun k => g.moveDigit (hand.digits k)) =
      mapFinger (palmNormal hand) hand.digits := by
    funext cmd i
    exact g.mapFinger_moved (palmNormal hand) hand.digits cmd i
  rw [calPubFingerAngle_eq, calPubFingerAngle_eq, palmNormal_moved, hdigits, hfinger, mapThumb_moved]
  rfl

end Motion

end LeapSyncFfh
