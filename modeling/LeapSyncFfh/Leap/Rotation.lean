/-
  LeapSyncFfh.Leap.Rotation — what moving the operator's hand does to the vectors of
  `leapMotionV2Math.h`.

  `Keeps f`: `f` commutes with multiples and differences and keeps the dot product. Under
  such an `f` a length and an angle stay, and a normalised or projected vector moves along;
  none of these looks at a coordinate by itself. A rotation is one (`Motion.keeps`), and a
  translation drops out of a bone's direction (`direction_moved`).
-/

import LeapSyncFfh.Leap.Math
import Mathlib.LinearAlgebra.Matrix.Determinant.Basic
import Mathlib.Tactic.LinearCombination

namespace LeapSyncFfh

open Matrix

variable {F : Type} [Field F]

namespace Vector3

def sub (a v : Vector3 F) : Vector3 F := ⟨a.x - v.x, a.y - v.y, a.z - v.z⟩

structure Keeps (f : Vector3 F → Vector3 F) : Prop where
  dot : ∀ a b, (f a).dot (f b) = a.dot b
  scale : ∀ a c, f (a.scale c) = (f a).scale c
  sub : ∀ a b, f (a.sub b) = (f a).sub (f b)

theorem calProj_eq (a v : Vector3 F) : a.calProj v = a.scale (a.dot v / a.dot a) := rfl

theorem calProjToPlane_eq (a v : Vector3 F) : a.calProjToPlane v = a.sub (a.calProj v) := rfl

theorem zero_eq (a : Vector3 F) : zero = a.scale 0 := by
  simp only [zero, scale, mul_zero]

section Keeps

variable {f : Vector3 F → Vector3 F} (h : Keeps f)
include h

theorem Keeps.zero : f zero = zero :=
  calc f Vector3.zero = f (Vector3.zero.scale 0) := congrArg f (zero_eq Vector3.zero)
    _ = (f Vector3.zero).scale 0 := h.scale _ _
    _ = Vector3.zero := (zero_eq _).symm

theorem Keeps.magnitudeSquared (a : Vector3 F) : (f a).magnitudeSquared = a.magnitudeSquared := h.dot a a

theorem Keeps.calProj (a v : Vector3 F) : (f a).calProj (f v) = f (a.calProj v) := by
  rw [calProj_eq, calProj_eq, h.scale, h.dot, h.dot]

theorem Keeps.calProjToPlane (a v : Vector3 F) : (f a).calProjToPlane (f v) = f (a.calProjToPlane v) := by
  rw [calProjToPlane_eq, calProjToPlane_eq, h.sub, h.calProj]

variable [Libm F]

theorem Keeps.magnitude (a : Vector3 F) : (f a).magnitude = a.magnitude := by
  show Libm.sqrt (f a).magnitudeSquared = Libm.sqrt a.magnitudeSquared
  rw [h.magnitudeSquared]

theorem Keeps.angleToPlane (a n : Vector3 F) : (f a).angleToPlane (f n) = a.angleToPlane n := by
  rw [Vector3.angleToPlane, Vector3.angleToPlane, h.dot, h.magnitude, h.magnitude]

variable [LinearOrder F]

theorem Keeps.normalized (a : Vector3 F) : (f a).normalized = f a.normalized := by
  simp only [Vector3.normalized, h.magnitudeSquared]
  split
  · exact h.zero.symm
  · exact (h.scale _ _).symm

theorem Keeps.angleTo (a b : Vector3 F) : (f a).angleTo (f b) = a.angleTo b := by
  simp only [Vector3.angleTo, h.magnitudeSquared, h.dot]

end Keeps

end Vector3

/-! ## Motions -/

/-- `p ↦ rotation p + translation`. -/
structure Motion (F : Type) [Field F] where
  rotation : Matrix (Fin 3) (Fin 3) F
  translation : LEAP_VECTOR F
  orthogonal : rotationᵀ * rotation = 1
  det : rotation.det = 1

/-- A turn about the third axis. -/
example : ∃ g : Motion ℚ, g.rotation 0 1 = -4 / 5 :=
  ⟨⟨Matrix.of ![![3 / 5, -4 / 5, 0], ![4 / 5, 3 / 5, 0], ![0, 0, 1]], ⟨1, 2, 3⟩, by decide +kernel, by decide +kernel⟩,
    rfl⟩

namespace Motion

def turn (g : Motion F) (v : LEAP_VECTOR F) : LEAP_VECTOR F :=
  ⟨g.rotation 0 0 * v.x + g.rotation 0 1 * v.y + g.rotation 0 2 * v.z,
    g.rotation 1 0 * v.x + g.rotation 1 1 * v.y + g.rotation 1 2 * v.z,
    g.rotation 2 0 * v.x + g.rotation 2 1 * v.y + g.rotation 2 2 * v.z⟩

def move (g : Motion F) (p : LEAP_VECTOR F) : LEAP_VECTOR F :=
  ⟨(g.turn p).x + g.translation.x, (g.turn p).y + g.translation.y, (g.turn p).z + g.translation.z⟩

/-- The rotation on the program's own vectors. -/
def act (g : Motion F) (v : Vector3 F) : Vector3 F := Vector3.ofLeap (g.turn ⟨v.x, v.y, v.z⟩)

theorem columns (g : Motion F) (i j : Fin 3) :
    g.rotation 0 i * g.rotation 0 j + g.rotation 1 i * g.rotation 1 j + g.rotation 2 i * g.rotation 2 j =
      (1 : Matrix (Fin 3) (Fin 3) F) i j := by
  rw [← g.orthogonal, Matrix.mul_apply, Fin.sum_univ_three]
  simp only [Matrix.transpose_apply]

theorem keeps (g : Motion F) : Vector3.Keeps g.act where
  dot a b := by
    have h00 := g.columns 0 0
    have h11 := g.columns 1 1
    have h22 := g.columns 2 2
    have h01 := g.columns 0 1
    have h02 := g.columns 0 2
    have h12 := g.columns 1 2
    simp only [Matrix.one_apply, Fin.isValue, if_true, Fin.reduceEq, if_false] at h00 h11 h22 h01 h02 h12
    simp only [act, turn, Vector3.ofLeap, Vector3.dot]
    linear_combination a.x * b.x * h00 + a.y * b.y * h11 + a.z * b.z * h22 + (a.x * b.y + a.y * b.x) * h01 +
      (a.x * b.z + a.z * b.x) * h02 + (a.y * b.z + a.z * b.y) * h12
  scale a c := by
    simp only [act, turn, Vector3.ofLeap, Vector3.scale, Vector3.mk.injEq]
    exact ⟨by ring, by ring, by ring⟩
  sub a b := by
    simp only [act, turn, Vector3.ofLeap, Vector3.sub, Vector3.mk.injEq]
    exact ⟨by ring, by ring, by ring⟩

def moveBone (g : Motion F) (bone : LEAP_BONE F) : LEAP_BONE F := ⟨g.move bone.prev_joint, g.move bone.next_joint⟩

def moveDigit (g : Motion F) (digit : LEAP_DIGIT F) : LEAP_DIGIT F := ⟨fun i => g.moveBone (digit.bones i)⟩

/-- The same hand elsewhere: its joints moved, its palm vectors turned. -/
def moveHand (g : Motion F) (hand : LEAP_HAND F) : LEAP_HAND F :=
  { hand with
    palm := ⟨g.turn hand.palm.normal, g.turn hand.palm.direction⟩
    digits := fun i => g.moveDigit (hand.digits i) }

theorem direction_moved (g : Motion F) (bone : LEAP_BONE F) : (g.moveBone bone).direction = g.act bone.direction := by
  simp only [LEAP_BONE.direction, moveBone, move, act, turn, Vector3.ofLeap, Vector3.mk.injEq]
  exact ⟨by ring, by ring, by ring⟩

end Motion

end LeapSyncFfh
