/-
  LeapSyncFfh.Leap.Wrapper — `LeapMotionV2WrapperImpl` (leapMotionV2WrapperImpl.cpp).

  The registry `callBackFuncs_` is a static variable template: one map from names to
  handlers for each list of argument types. A registration and a call meet only when
  both the name and the types deduced from their arguments are the same.

  A handler is a method bound to an object (`addr`). Calling one is an output
  (`LeapEv.call`); a handler bound to this object also runs here, one bound to another
  leaves this object as it is.

  `connections` lists the LeapC connections this object created and has not destroyed,
  and `pollingThread_` where each thread it started stands in `serviceMessageLoop`.
  What LeapC answers is an argument.
-/

import LeapSyncFfh.Common.CircularBuffer
import LeapSyncFfh.Leap.LeapC
import LeapSyncFfh.Lib.Emit

namespace LeapSyncFfh

open Cells Emit

variable {F : Type}

/-! ## The callback registry -/

inductive Pointee where
  | LEAP_DEVICE_INFO
  | LEAP_TRACKING_EVENT
  | LEAP_IMAGE_EVENT
  | LEAP_HEAD_POSE_EVENT
  | LEAP_IMU_EVENT
  | LEAP_TRACKING_MODE_EVENT
  | char
  deriving DecidableEq, Repr

inductive CppType where
  | ptr (const : Bool) (target : Pointee)
  | uint32_t
  | int64_t
  | bool
  | eLeapLogSeverity
  | LEAP_VARIANT
  deriving DecidableEq, Repr

inductive Method where
  | onConnect
  | onConnectLost
  | onDeviceFound
  | onPolicy
  | onFrame
  | onLogMsg
  | onCfgChange
  | onCfgRes
  | onImage
  | onHeadPose
  | onImu
  | onTrackingMode
  deriving DecidableEq, Repr

/-- `std::bind(&LeapMotionV2WrapperImpl::method, this, ...)`. -/
structure Handler where
  addr : Nat
  method : Method
  deriving DecidableEq, Repr

/-- `callBackFuncs_<Args...>`: for each type list, a map from names. -/
abbrev CallBacks := List CppType → String → Option Handler

def regCallback (cbs : CallBacks) (Args : List CppType) (CBType : String) (callBackFunc : Handler) : CallBacks :=
  fun as name => if as = Args ∧ name = CBType then some callBackFunc else cbs as name

/-! ## The object -/

/-- The copy of the last frame; `pHands` is its two-hand allocation. -/
structure LastFrame (F : Type) where
  info : LEAP_FRAME_HEADER
  tracking_frame_id : Int
  nHands : Nat
  pHands : List (Option (LEAP_HAND F))
  framerate : F

/-- Where a thread stands in `serviceMessageLoop`. -/
inductive SvcPc where
  | check
  | poll
  | ended
  deriving DecidableEq, Repr

structure LeapMotionV2WrapperImpl (F : Type) where
  addr : Nat
  connectionHandle_ : Nat
  inConncetion_ : Bool := false
  pollingThread_ : List SvcPc := []
  lastDevice : Option (LEAP_DEVICE_INFO F) := none
  lastFrame : Option (LastFrame F) := none
  hands_ : List (LEAP_HAND F) := []
  frameBuffer_ : CircularBuffer (LEAP_TRACKING_EVENT F) := {}
  connections : List Nat := []

inductive CallArg (F : Type) where
  | none
  | device (props : LEAP_DEVICE_INFO F)
  | tracking (frame : LEAP_TRACKING_EVENT F)

inductive LeapEv (F : Type) where
  | call (h : Handler) (arg : CallArg F)
  | openDevice
  | closeDevice
  | mallocSerial
  | freeSerial
  | create (handle : Nat)
  | close (handle : Nat)
  | destroy (handle : Nat)

def frameCount_ : Nat := 60

namespace LeapMotionV2WrapperImpl

/-- The constructor; `connectionHandle_` is left as it was. -/
def make (addr handle : Nat) : LeapMotionV2WrapperImpl F := { addr := addr, connectionHandle_ := handle }

/-- The `hands()` accessor, behind `LpV2SyncFFH::getHands`. -/
def hands (self : LeapMotionV2WrapperImpl F) : List (LEAP_HAND F) := self.hands_

/-! ## Frames -/

def deepCopyTrackingEvent (dst : LastFrame F) (src : LEAP_TRACKING_EVENT F) : Except Fault (LastFrame F) :=
  if src.nHands ≤ dst.pHands.length then
    .ok { info := src.info, tracking_frame_id := src.tracking_frame_id, nHands := src.nHands,
          framerate := src.framerate, pHands := src.pHands.map some ++ dst.pHands.drop src.nHands }
  else .error (.outOfBounds .lastFramePHands)

/-- The fresh allocation; its fields are written before anything reads them. -/
def allocFrame [Zero F] : LastFrame F := ⟨⟨0, 0⟩, 0, 0, List.replicate 2 none, 0⟩

def setFrame [Zero F] (self : LeapMotionV2WrapperImpl F) (frame : LEAP_TRACKING_EVENT F) :
    Except Fault (LeapMotionV2WrapperImpl F) := do
  let lastFrame ← deepCopyTrackingEvent (self.lastFrame.getD allocFrame) frame
  .ok { self with lastFrame := some lastFrame }

def onFrame [Zero F] (self : LeapMotionV2WrapperImpl F) (frame : LEAP_TRACKING_EVENT F) :
    Except Fault (LeapMotionV2WrapperImpl F) := do
  let frameBuffer_ ← self.frameBuffer_.add frame
  let curData ← frameBuffer_.back
  let hands_ := if self.hands_.length ≠ frame.nHands then resize .zero self.hands_ frame.nHands else self.hands_
  if frame.nHands = 0 then .ok { self with frameBuffer_ := frameBuffer_, hands_ := [] }
  else do
    -- the bound is the hand count of the slot `back` reads, not the frame's
    let hands_ ← copyInto (.outOfBounds .framePHands) (.outOfBounds .hands) frame.pHands curData.nHands hands_
    .ok { self with frameBuffer_ := frameBuffer_, hands_ := hands_ }

/-! ## Dispatch -/

/-- Only `onFrame` does more than print. -/
def runHandler [Zero F] (self : LeapMotionV2WrapperImpl F) (m : Method) (arg : CallArg F) :
    Except Fault (LeapMotionV2WrapperImpl F) :=
  match m, arg with
  | .onFrame, .tracking frame => self.onFrame frame
  | _, _ => .ok self

def handleCallback [Zero F] (cbs : CallBacks) (self : LeapMotionV2WrapperImpl F) (name : String)
    (Args : List CppType) (arg : CallArg F) : Emit (LeapEv F) Fault (LeapMotionV2WrapperImpl F) :=
  match cbs Args name with
  | some h => do
    emit (.call h arg)
    if h.addr = self.addr then lift (self.runHandler h.method arg) else pure self
  | none => pure self

def setDevice (self : LeapMotionV2WrapperImpl F) (deviceProps : LEAP_DEVICE_INFO F) :
    Except Fault (LeapMotionV2WrapperImpl F) :=
  if deviceProps.serial_length ≤ deviceProps.serial.length then
    .ok { self with
      lastDevice := some { deviceProps with serial := deviceProps.serial.take deviceProps.serial_length } }
  else .error (.outOfBounds .serial)

/-- The rest of `handleDeviceEvent` once the properties are in. The argument of the call
    is `LEAP_DEVICE_INFO*`. -/
def deviceFound [Zero F] (cbs : CallBacks) (self : LeapMotionV2WrapperImpl F) (deviceProperties : LEAP_DEVICE_INFO F) :
    Emit (LeapEv F) Fault (LeapMotionV2WrapperImpl F) := do
  let self ← lift (self.setDevice deviceProperties)
  let self ← self.handleCallback cbs "onDeviceFound" [.ptr false .LEAP_DEVICE_INFO] (.device deviceProperties)
  emit .freeSerial
  emit .closeDevice
  pure self

def handleDeviceEvent [Zero F] (cbs : CallBacks) (self : LeapMotionV2WrapperImpl F)
    (device_event : LEAP_DEVICE_EVENT F) : Emit (LeapEv F) Fault (LeapMotionV2WrapperImpl F) :=
  if device_event.openRetval ≠ .eLeapRS_Success then pure self
  else do
    emit .openDevice
    emit .mallocSerial
    let deviceProperties := { LEAP_DEVICE_INFO.zero with serial_length := 1, serial := [none] }
    let (retval, deviceProperties) := LeapGetDeviceInfo device_event.first deviceProperties
    if retval = .eLeapRS_InsufficientBuffer then
      -- realloc
      let deviceProperties :=
        { deviceProperties with serial := resize none deviceProperties.serial deviceProperties.serial_length }
      let (retval, deviceProperties) := LeapGetDeviceInfo device_event.second deviceProperties
      if retval ≠ .eLeapRS_Success then do
        emit .freeSerial
        pure self
      else self.deviceFound cbs deviceProperties
    else self.deviceFound cbs deviceProperties

def handleTrackingEvent [Zero F] (cbs : CallBacks) (self : LeapMotionV2WrapperImpl F)
    (tracking_event : LEAP_TRACKING_EVENT F) : Emit (LeapEv F) Fault (LeapMotionV2WrapperImpl F) := do
  let self ← lift (self.setFrame tracking_event)
  self.handleCallback cbs "onFrame" [.ptr true .LEAP_TRACKING_EVENT] (.tracking tracking_event)

/-- The `switch` of `serviceMessageLoop`. -/
def handleMessage [Zero F] (cbs : CallBacks) (self : LeapMotionV2WrapperImpl F) :
    LEAP_CONNECTION_MESSAGE F → Emit (LeapEv F) Fault (LeapMotionV2WrapperImpl F)
  | .connection => self.handleCallback cbs "onConnect" [] .none
  | .connectionLost => self.handleCallback cbs "onConnectLost" [] .none
  | .device device_event => self.handleDeviceEvent cbs device_event
  | .tracking tracking_event => self.handleTrackingEvent cbs tracking_event
  | .other _ => pure self

/-! ## `initialize` -/

/-- One statement of `initialize`. -/
inductive InitStep where
  | reg (CBType : String) (Args : List CppType) (m : Method)
  | setSize (size : Nat)

def initSteps : List InitStep :=
  [.reg "onConnect" [] .onConnect,
   .reg "onConnectLost" [] .onConnectLost,
   .reg "onDeviceFound" [.ptr true .LEAP_DEVICE_INFO] .onDeviceFound,
   .reg "onPolicy" [.uint32_t] .onPolicy,
   .reg "onFrame" [.ptr true .LEAP_TRACKING_EVENT] .onFrame,
   .reg "onLogMsg" [.eLeapLogSeverity, .int64_t, .ptr true .char] .onLogMsg,
   .reg "onCfgChange" [.uint32_t, .bool] .onCfgChange,
   .reg "onCfgRes" [.uint32_t, .LEAP_VARIANT] .onCfgRes,
   .reg "onImage" [.ptr true .LEAP_IMAGE_EVENT] .onImage,
   .reg "onHeadPose" [.ptr true .LEAP_HEAD_POSE_EVENT] .onHeadPose,
   .reg "onImu" [.ptr true .LEAP_IMU_EVENT] .onImu,
   .reg "onTrackingMode" [.ptr true .LEAP_TRACKING_MODE_EVENT] .onTrackingMode,
   .setSize frameCount_]

/-- An object and the static registry. -/
abbrev Registered (F : Type) := LeapMotionV2WrapperImpl F × CallBacks

def initStep [Zero F] (w : Registered F) : InitStep → Registered F
  | .reg CBType Args m => (w.1, regCallback w.2 Args CBType ⟨w.1.addr, m⟩)
  | .setSize size => ({ w.1 with frameBuffer_ := w.1.frameBuffer_.setSize .zero size }, w.2)

/-- `LeapMotionV2WrapperImpl::initialize`. -/
def initializeImpl [Zero F] (w : Registered F) : Registered F := initSteps.foldl initStep w

/-! ## Connecting -/

/-- What one try of the device poll sees: whether `LeapGetDeviceList` returned
    `eLeapRS_NotConnected`, and the device count it left. -/
structure DeviceList where
  notConnected : Bool
  size : Nat
  deriving DecidableEq, Repr

/-- What LeapC answers during one `connect`. -/
structure LeapAnswers where
  handle : Nat
  created : Bool
  opened : Bool
  tries : Nat → DeviceList
  listed : Bool

/-- The poll loop; `k` tries are left, and `computed_array_size` is `size` so far. -/
def pollDevices (tries : Nat → DeviceList) : Nat → Nat → Nat
  | 0, size => size
  | k + 1, _ =>
    let r := tries (7 - (k + 1))
    if r.notConnected then pollDevices tries k r.size
    else if 0 < r.size then r.size
    else pollDevices tries k r.size

def connect (self : LeapMotionV2WrapperImpl F) (r : LeapAnswers) :
    Emit (LeapEv F) Fault (LeapMotionV2WrapperImpl F × AR_RETURN_VALUE) :=
  if !r.created then fail .aborted
  else do
    emit (.create r.handle)
    let self := { self with connectionHandle_ := r.handle, connections := r.handle :: self.connections }
    if !r.opened then fail .aborted
    else if 0 < pollDevices r.tries 7 0 then
      if !r.listed then fail .aborted
      else
        pure ({ self with inConncetion_ := true, pollingThread_ := self.pollingThread_ ++ [.check] }, .SUCCESS)
    else pure (self, .ACTION_FAIL)

/-- The end of `disconnect`, after the joins. -/
def closeConnection (self : LeapMotionV2WrapperImpl F) : Emit (LeapEv F) Fault (LeapMotionV2WrapperImpl F) := do
  emit (.close self.connectionHandle_)
  emit (.destroy self.connectionHandle_)
  pure { self with connections := self.connections.erase self.connectionHandle_ }

/-- `disconnect` taken whole: the joined threads have ended. -/
def disconnect (self : LeapMotionV2WrapperImpl F) :
    Emit (LeapEv F) Fault (LeapMotionV2WrapperImpl F × AR_RETURN_VALUE) :=
  if self.inConncetion_ then do
    let self := { self with
      inConncetion_ := false, pollingThread_ := self.pollingThread_.map fun _ => SvcPc.ended }
    let self ← self.closeConnection
    pure (self, .SUCCESS)
  else pure (self, .SUCCESS)

end LeapMotionV2WrapperImpl

end LeapSyncFfh
