/-
  LeapSyncFfh.Leap.LeapC — the LeapC data the program reads, with the SDK's field names.

  Numbers are an exact type `F` (a field with a linear order where the program computes
  with them). Of `LEAP_HAND` the fields that some function here reads are kept; a hand
  is copied as a whole everywhere. `zero` is the value-initialised struct.
-/

import Mathlib.Algebra.Group.Defs

namespace LeapSyncFfh

variable {F : Type}

structure LEAP_VECTOR (F : Type) where
  x : F
  y : F
  z : F

structure LEAP_BONE (F : Type) where
  prev_joint : LEAP_VECTOR F
  next_joint : LEAP_VECTOR F

structure LEAP_DIGIT (F : Type) where
  bones : Fin 4 → LEAP_BONE F

structure LEAP_PALM (F : Type) where
  normal : LEAP_VECTOR F
  direction : LEAP_VECTOR F

inductive eLeapHandType where
  | eLeapHandType_Left
  | eLeapHandType_Right
  deriving DecidableEq, Repr

structure LEAP_HAND (F : Type) where
  type : eLeapHandType
  confidence : F
  palm : LEAP_PALM F
  digits : Fin 5 → LEAP_DIGIT F

structure LEAP_FRAME_HEADER where
  frame_id : Int
  timestamp : Int
  deriving DecidableEq, Repr

/-- `pHands` is the array of exactly `nHands` hands the event points to. -/
structure LEAP_TRACKING_EVENT (F : Type) where
  info : LEAP_FRAME_HEADER
  tracking_frame_id : Int
  nHands : Nat
  pHands : List (LEAP_HAND F)
  framerate : F
  sized : pHands.length = nHands

/-- `serial` is the buffer the field points to; `none` is a byte nobody wrote. -/
structure LEAP_DEVICE_INFO (F : Type) where
  status : Nat
  caps : Nat
  pid : Nat
  baseline : Nat
  serial_length : Nat
  serial : List (Option UInt8)
  h_fov : F
  v_fov : F
  range : Nat

inductive eLeapRS where
  | eLeapRS_Success
  | eLeapRS_InsufficientBuffer
  | eLeapRS_NotConnected
  /-- Any other code. -/
  | failed (code : Nat)
  deriving DecidableEq, Repr

/-- What one `LeapGetDeviceInfo` call answers: its code and the struct it reports. -/
structure DeviceAnswer (F : Type) where
  retval : eLeapRS
  info : LEAP_DEVICE_INFO F

/-- A device event: what `LeapOpenDevice` and the two `LeapGetDeviceInfo` calls answer. -/
structure LEAP_DEVICE_EVENT (F : Type) where
  openRetval : eLeapRS
  first : DeviceAnswer F
  second : DeviceAnswer F

inductive LEAP_CONNECTION_MESSAGE (F : Type) where
  | connection
  | connectionLost
  | device (device_event : LEAP_DEVICE_EVENT F)
  | tracking (tracking_event : LEAP_TRACKING_EVENT F)
  | other (type : Nat)

/-- LeapC fills the struct and writes at most as much of the serial as the buffer holds. -/
def LeapGetDeviceInfo (a : DeviceAnswer F) (p : LEAP_DEVICE_INFO F) : eLeapRS × LEAP_DEVICE_INFO F :=
  (a.retval,
    { a.info with serial := a.info.serial.take p.serial.length ++ p.serial.drop a.info.serial.length })

variable [Zero F]

def LEAP_VECTOR.zero : LEAP_VECTOR F := ⟨0, 0, 0⟩

def LEAP_BONE.zero : LEAP_BONE F := ⟨.zero, .zero⟩

def LEAP_DIGIT.zero : LEAP_DIGIT F := ⟨fun _ => .zero⟩

def LEAP_HAND.zero : LEAP_HAND F := ⟨.eLeapHandType_Left, 0, ⟨.zero, .zero⟩, fun _ => .zero⟩

def LEAP_TRACKING_EVENT.zero : LEAP_TRACKING_EVENT F := ⟨⟨0, 0⟩, 0, 0, [], 0, rfl⟩

def LEAP_DEVICE_INFO.zero : LEAP_DEVICE_INFO F := ⟨0, 0, 0, 0, 0, [], 0, 0, 0⟩

end LeapSyncFfh
