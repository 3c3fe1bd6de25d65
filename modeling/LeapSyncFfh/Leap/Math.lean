/-
  LeapSyncFfh.Leap.Math — `leapMotionV2Math.h`: vectors, bones and angles between them.

  The arithmetic is exact, in a field; `sqrt` and `acos` are the C library's. A quotient
  by zero, an infinity or not-a-number in the code, is the field's own `x / 0`.
-/

import LeapSyncFfh.Common.Literals
import LeapSyncFfh.Leap.LeapC

namespace LeapSyncFfh

class Libm (F : Type) where
  sqrt : F → F
  acos : F → F

noncomputable instance : Libm ℝ := ⟨Real.sqrt, Real.arccos⟩

variable {F : Type} [Field F]

/-- 1.192092896e-07 -/
def LEAP_EPSILON : F := 1192092896 / 10 ^ 16

/-- 3.1415926536 -/
def LEAP_PI : F := 31415926536 / 10 ^ 10

/-- 57.295779513 -/
def r2d : F := 57295779513 / 10 ^ 9

structure Vector3 (F : Type) where
  x : F
  y : F
  z : F

namespace Vector3

def ofLeap (vector : LEAP_VECTOR F) : Vector3 F := ⟨vector.x, vector.y, vector.z⟩

def zero : Vector3 F := ⟨0, 0, 0⟩

def dot (a v : Vector3 F) : F := a.x * v.x + a.y * v.y + a.z * v.z

def magnitudeSquared (a : Vector3 F) : F := a.x * a.x + a.y * a.y + a.z * a.z

/-- `operator*`. -/
def scale (a : Vector3 F) (scalar : F) : Vector3 F := ⟨a.x * scalar, a.y * scalar, a.z * scalar⟩

def calProj (a v : Vector3 F) : Vector3 F :=
  let scalar := a.dot v / a.dot a
  ⟨a.x * scalar, a.y * scalar, a.z * scalar⟩

/-- It subtracts the projection from `this`, not from `v`. -/
def calProjToPlane (a v : Vector3 F) : Vector3 F :=
  let proj := a.calProj v
  ⟨a.x - proj.x, a.y - proj.y, a.z - proj.z⟩

variable [Libm F]

def magnitude (a : Vector3 F) : F := Libm.sqrt (a.x * a.x + a.y * a.y + a.z * a.z)

def angleToPlane (a planeNormal : Vector3 F) : F :=
  Libm.acos (a.dot planeNormal / (a.magnitude * planeNormal.magnitude))

variable [LinearOrder F]

def normalized (a : Vector3 F) : Vector3 F :=
  let denom := a.magnitudeSquared
  if denom ≤ LEAP_EPSILON then zero
  else a.scale (1 / Libm.sqrt denom)

def angleTo (a other : Vector3 F) : F :=
  let denom := a.magnitudeSquared * other.magnitudeSquared
  if denom ≤ LEAP_EPSILON then 0
  else
    let val := a.dot other / Libm.sqrt denom
    if 1 ≤ val then 0
    else if val ≤ -1 then LEAP_PI
    else Libm.acos val

end Vector3

/-- `Bone(bone).direction()`. -/
def LEAP_BONE.direction (bone : LEAP_BONE F) : Vector3 F :=
  ⟨bone.next_joint.x - bone.prev_joint.x, bone.next_joint.y - bone.prev_joint.y,
    bone.next_joint.z - bone.prev_joint.z⟩

namespace LeapTool

variable [Libm F] [LinearOrder F]

def getBonesAngle (b1 b2 : LEAP_BONE F) : F := b1.direction.angleTo b2.direction

def getVectorAngle (v1 v2 : Vector3 F) : F := v1.angleTo v2

end LeapTool

end LeapSyncFfh
