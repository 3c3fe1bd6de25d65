/-
  LeapSyncFfh.Task.LpV2SyncFfh — the task object (lpV2SyncFfh.cpp): configuration,
  connecting, publishing, one iteration, the steps of a self check, the destructor.

  An output is a system call of one hand's client or a LeapC call (`Ev`). What `socket()`
  and LeapC answer is an argument, and so are the members a constructor leaves as they
  were (`Raw`). `ffhs_` holds the pointers: `none` is the null one.
-/

import LeapSyncFfh.Ffh.FfhCtrl
import LeapSyncFfh.Leap.Wrapper
import LeapSyncFfh.Task.Mapping
import LeapSyncFfh.Task.PostProcess

namespace LeapSyncFfh

open Cells Emit

variable {F : Type}

inductive Ev (F : Type) where
  | udp (hand : Nat) (e : UdpEv F)
  | leap (e : LeapEv F)

/-! ## The configuration -/

/-- A node of `hand_info`; `none` where the key is missing or its value does not convert. -/
structure HandNode (F : Type) where
  ip : Option String
  port : Option Int
  lower_limits : Option (List (List F))
  upper_limits : Option (List (List F))

/-- The loaded file. `hand_info` is `none` where it is a scalar, which has no subscript;
    a missing `hand_info` has no nodes. -/
structure Config (F : Type) where
  hand_Valid : Option (List Int)
  hand_info : Option (String → Option (HandNode F))
  task_name : Option String
  self_check_angles1 : Option (List (List F))
  self_check_angles2 : Option (List (List F))

/-- `as<T>()` throws where there is nothing to convert. -/
def as {α : Type} : Option α → Except Fault α
  | some a => .ok a
  | none => .error .uncaught

/-- `EnumUtils::intToString<size_t, FFHEnumClass>`. -/
def handName (i : Nat) : String := if i = 0 then "left_hand" else if i = 1 then "right_hand" else ""

/-- `for i < handTotalNum`. -/
def handIds : List Nat := List.range handTotalNum

theorem mem_handIds {i : Nat} : i ∈ handIds ↔ i = 0 ∨ i = 1 := by
  simp only [handIds, handTotalNum, List.mem_range]
  omega

/-- The members that the constructors leave as they were. -/
structure Raw (F : Type) where
  handle : Nat
  running : Bool
  handCmd : udp_hand_cmd F
  sockfd : Nat → Int
  ffhCmd : Nat → udp_hand_cmd F

structure LpV2SyncFFH (F : Type) where
  lmWrap : LeapMotionV2WrapperImpl F
  ffhs_ : List (Option (FfhCtrl F))
  handCmd : udp_hand_cmd F
  ffhValid : List Int
  inConnection_ : Bool := false
  lowerLimits_ : List (List F) := []
  upperLimits_ : List (List F) := []
  taskName_ : String := ""
  selfCheckData1 : List (List F) := []
  selfCheckData2 : List (List F) := []
  running_ : Bool

namespace LpV2SyncFFH

def isValid (task : LpV2SyncFFH F) (i : Nat) : Except Fault Bool := do
  let valid ← subscript (.outOfBounds .ffhValid) task.ffhValid i
  .ok (valid ≠ 0)

/-- `ffhs_[i]->op`. -/
def withFfh {α : Type} (task : LpV2SyncFFH F) (i : Nat) (op : FfhCtrl F → Emit (UdpEv F) Fault (FfhCtrl F × α)) :
    Emit (Ev F) Fault (LpV2SyncFFH F × α) := do
  let ffh ← lift (subscript (.outOfBounds .ffhs) task.ffhs_ i)
  match ffh with
  | none => fail .nullPointer
  | some c => do
    let r ← mapOut (.udp i) (op c)
    pure ({ task with ffhs_ := task.ffhs_.set i (some r.1) }, r.2)

/-- `~shared_ptr` of the last owner. -/
def destroyFfh [Zero F] (i : Nat) : Option (FfhCtrl F) → Emit (Ev F) Fault Unit
  | some c => mapOut (.udp i) c.destroy
  | none => pure ()

/-- The body of the loop of `parseConfig`. -/
def parseHand [Zero F] (raw : Raw F) (ffhInfo : String → Option (HandNode F)) (task : LpV2SyncFFH F) (i : Nat) :
    Emit (Ev F) Fault (LpV2SyncFFH F) := do
  if !(← lift (task.isValid i)) then pure task
  else do
    let handNode ← lift (as (ffhInfo (handName i)))
    let ip ← lift (as handNode.ip)
    let port ← lift (as handNode.port)
    let ffh := FfhCtrl.make i ip port (raw.sockfd i) (raw.ffhCmd i)
    let old ← lift (subscript (.outOfBounds .ffhs) task.ffhs_ i)
    destroyFfh i old
    let lowerLimits_ ← lift (as handNode.lower_limits)
    let upperLimits_ ← lift (as handNode.upper_limits)
    pure { task with
      ffhs_ := task.ffhs_.set i (some (ffh.setCmdLimit lowerLimits_ upperLimits_))
      lowerLimits_ := lowerLimits_, upperLimits_ := upperLimits_ }

def parseConfig [Zero F] (raw : Raw F) (task : LpV2SyncFFH F) (node : Config F) :
    Emit (Ev F) Fault (LpV2SyncFFH F) := do
  let ffhValid ← lift (as node.hand_Valid)
  let ffhInfo ← lift (as node.hand_info)
  let taskName_ ← lift (as node.task_name)
  let selfCheckData1 ← lift (as node.self_check_angles1)
  let selfCheckData2 ← lift (as node.self_check_angles2)
  runs (parseHand raw ffhInfo)
    { task with ffhValid := ffhValid, taskName_ := taskName_, selfCheckData1 := selfCheckData1,
                selfCheckData2 := selfCheckData2 }
    handIds

/-- The members as they are before the constructor's body. -/
def members (addr : Nat) (raw : Raw F) : LpV2SyncFFH F :=
  { lmWrap := .make addr raw.handle, ffhs_ := List.replicate handTotalNum none, handCmd := raw.handCmd,
    ffhValid := List.replicate handTotalNum 0, running_ := raw.running }

/-- The constructor. -/
def make [Zero F] (addr : Nat) (raw : Raw F) (config : Config F) : Emit (Ev F) Fault (LpV2SyncFFH F) :=
  (members addr raw).parseConfig raw config

/-! ## Connecting -/

/-- The loop of `connectFFH` and `disconnectFFH`: it stops at the first hand whose
    operation fails. -/
def overHands (op : Nat → FfhCtrl F → Emit (UdpEv F) Fault (FfhCtrl F × AR_RETURN_VALUE)) :
    List Nat → LpV2SyncFFH F → Emit (Ev F) Fault (LpV2SyncFFH F × AR_RETURN_VALUE)
  | [], task => pure (task, .SUCCESS)
  | i :: is, task => do
    if !(← lift (task.isValid i)) then overHands op is task
    else do
      let r ← task.withFfh i (op i)
      if r.2 ≠ .SUCCESS then pure (r.1, .ACTION_FAIL) else overHands op is r.1

def connectFFH [Ring F] (socks : Nat → Int) (task : LpV2SyncFFH F) :
    Emit (Ev F) Fault (LpV2SyncFFH F × AR_RETURN_VALUE) :=
  overHands (fun i c => c._connect (socks i)) handIds task

def disconnectFFH (task : LpV2SyncFFH F) : Emit (Ev F) Fault (LpV2SyncFFH F × AR_RETURN_VALUE) :=
  overHands (fun _ c => c._disconnect) handIds task

/-- What one `connect()` meets: LeapC's answers, and what `socket()` returns for each hand. -/
structure ConnectAnswers where
  leap : LeapMotionV2WrapperImpl.LeapAnswers
  socks : Nat → Int

/-- `lmWrap.connect()`, in leap_motion_demo mode only. -/
def connectLeap (task : LpV2SyncFFH F) (r : ConnectAnswers) : Emit (Ev F) Fault (LpV2SyncFFH F × AR_RETURN_VALUE) :=
  if task.taskName_ = "leap_motion_demo" then do
    let w ← mapOut .leap (task.lmWrap.connect r.leap)
    pure ({ task with lmWrap := w.1 }, w.2)
  else pure (task, .SUCCESS)

def connect [Ring F] (task : LpV2SyncFFH F) (r : ConnectAnswers) :
    Emit (Ev F) Fault (LpV2SyncFFH F × AR_RETURN_VALUE) := do
  let leap ← task.connectLeap r
  if leap.2 ≠ .SUCCESS then pure (leap.1, .ACTION_FAIL)
  else do
    let ffh ← leap.1.connectFFH r.socks
    if ffh.2 ≠ .SUCCESS then pure ffh
    else pure ({ ffh.1 with inConnection_ := true }, .SUCCESS)

/-- `tryConnect`, over the answers that its attempts meet; `false`: it is still trying. -/
def tryConnect [Ring F] : List ConnectAnswers → LpV2SyncFFH F → Emit (Ev F) Fault (LpV2SyncFFH F × Bool)
  | [], task => pure (task, false)
  | r :: rs, task => do
    let attempt ← task.connect r
    if attempt.2 = .SUCCESS then pure (attempt.1, true) else tryConnect rs attempt.1

def disconnectLeap (task : LpV2SyncFFH F) : Emit (Ev F) Fault (LpV2SyncFFH F × AR_RETURN_VALUE) :=
  if task.lmWrap.inConncetion_ then do
    let w ← mapOut .leap task.lmWrap.disconnect
    pure ({ task with lmWrap := w.1 }, w.2)
  else pure (task, .SUCCESS)

def disconnect (task : LpV2SyncFFH F) : Emit (Ev F) Fault (LpV2SyncFFH F × AR_RETURN_VALUE) := do
  let leap ← task.disconnectLeap
  if leap.2 ≠ .SUCCESS then pure (leap.1, .ACTION_FAIL)
  else do
    let ffh ← leap.1.disconnectFFH
    if ffh.2 ≠ .SUCCESS then pure ffh
    else pure ({ ffh.1 with inConnection_ := false }, .SUCCESS)

/-- `stop()` taken whole. -/
def stop (task : LpV2SyncFFH F) : Emit (Ev F) Fault (LpV2SyncFFH F) := do
  let task := { task with running_ := false }
  let w ← mapOut .leap task.lmWrap.disconnect
  pure { task with lmWrap := w.1 }

/-- The elements of `ffhs_` are destroyed in order. -/
def destroyFfhs [Zero F] : Nat → List (Option (FfhCtrl F)) → Emit (Ev F) Fault Unit
  | _, [] => pure ()
  | i, c :: cs => do
    destroyFfh i c
    destroyFfhs (i + 1) cs

/-- `~LpV2SyncFFH`: its body, then the members in reverse order of declaration. -/
def destroy [Zero F] (task : LpV2SyncFFH F) : Emit (Ev F) Fault Unit := do
  let r ← if task.inConnection_ then task.disconnect else pure (task, .SUCCESS)
  destroyFfhs 0 r.1.ffhs_
  let _ ← mapOut .leap r.1.lmWrap.disconnect
  pure ()

/-! ## Publishing -/

/-- `ffhs_[i]->send_hand_cmd(cmd)`. -/
def sendTo (task : LpV2SyncFFH F) (i : Nat) (cmd : udp_hand_cmd F) : Emit (Ev F) Fault (LpV2SyncFFH F) := do
  let r ← task.withFfh i fun c => do
    let c ← c.send_hand_cmd_of cmd
    pure (c, ())
  pure r.1

/-- `ffhs_[i]->reset()`. -/
def resetFfh [Zero F] (task : LpV2SyncFFH F) (i : Nat) : Emit (Ev F) Fault (LpV2SyncFFH F) := do
  let r ← task.withFfh i fun c => do
    let c ← c.reset
    pure (c, ())
  pure r.1

def postProcess [Ring F] [LinearOrder F] (task : LpV2SyncFFH F) : Except Fault (LpV2SyncFFH F) := do
  let handCmd ← postProcessHandCmd task.lowerLimits_ task.upperLimits_ task.handCmd
  .ok { task with handCmd := handCmd }

def publishFfhCmd [Ring F] [LinearOrder F] (task : LpV2SyncFFH F) (id : Nat) : Emit (Ev F) Fault (LpV2SyncFFH F) := do
  if !(← lift (task.isValid id)) then pure task
  else do
    let task ← lift task.postProcess
    task.sendTo id task.handCmd

/-- `memset(&handCmd, 0, sizeof(udp_hand_cmd))`. -/
def clearHandCmd [Zero F] (task : LpV2SyncFFH F) : LpV2SyncFFH F := { task with handCmd := .zero }

def sendInitHandData [Ring F] [LinearOrder F] (task : LpV2SyncFFH F) : Emit (Ev F) Fault (LpV2SyncFFH F) :=
  task.clearHandCmd.publishFfhCmd left_hand

section Iteration

variable [Field F] [LinearOrder F] [Libm F]

/-- What the loop of `runIteration` does with a left hand. -/
def publishHand (task : LpV2SyncFFH F) (hand : LEAP_HAND F) : Emit (Ev F) Fault (LpV2SyncFFH F) :=
  match calPubFingerAngle task.handCmd hand with
  | some cmd => { task with handCmd := cmd }.publishFfhCmd left_hand
  | none => task.sendInitHandData

/-- `for (auto& hand : hands)`. -/
def eachHand (task : LpV2SyncFFH F) : List (LEAP_HAND F) → Emit (Ev F) Fault (LpV2SyncFFH F × AR_RETURN_VALUE)
  | [] => pure (task, .SUCCESS)
  | hand :: hands =>
    if hand.type = .eLeapHandType_Left then do
      let task ← task.publishHand hand
      pure (task, .SUCCESS)
    else eachHand task hands

/-- `runIteration` once it has its copy of the hands. -/
def iterateHands (task : LpV2SyncFFH F) (hands : List (LEAP_HAND F)) :
    Emit (Ev F) Fault (LpV2SyncFFH F × AR_RETURN_VALUE) :=
  if hands.isEmpty then do
    let task ← task.sendInitHandData
    pure (task, .SUCCESS)
  else task.eachHand hands

def runIteration (task : LpV2SyncFFH F) : Emit (Ev F) Fault (LpV2SyncFFH F × AR_RETURN_VALUE) :=
  if !task.lmWrap.inConncetion_ then do
    let task ← task.sendInitHandData
    pure (task, .ACTION_FAIL)
  else task.iterateHands task.lmWrap.hands

end Iteration

/-! ## The single joint test -/

/-- The flow that goes on, or `none` once `testFlow` has returned. -/
def flowing : FfhCtrl.FlowStep F → FfhCtrl F × Option FfhCtrl.Flow
  | .reading c t => (c, some t)
  | .returned c _ => (c, none)

/-- `ffhs_.front()->testFlow()`, up to its first read. -/
def testFlow (task : LpV2SyncFFH F) : Emit (Ev F) Fault (LpV2SyncFFH F × Option FfhCtrl.Flow) :=
  task.withFfh left_hand fun c => pure (flowing c.testFlow)

/-- One read of the running `testFlow`. -/
def readFlow [DivisionRing F] (task : LpV2SyncFFH F) (t : FfhCtrl.Flow) (word : Option String) :
    Emit (Ev F) Fault (LpV2SyncFFH F × Option FfhCtrl.Flow) :=
  task.withFfh left_hand fun c => do
    let next ← c.flowStep t word
    pure (flowing next)

/-! ## The self check -/

/-- The statements of one pass of `selfCheck`; `joint` is one round of the loop of
    `sendFingerCommands`, on `selfCheckData1` or `selfCheckData2`. -/
inductive CheckStep where
  | reset
  | clear
  | joint (second : Bool) (id : Fin 5) (j : Fin 4)
  deriving DecidableEq

def sendFingerCommands (second : Bool) (id : Fin 5) : List CheckStep := [.joint second id 0, .joint second id 1,
  .joint second id 2, .joint second id 3]

/-- One pass: the second half takes the fingers from 4 down to 0. -/
def checkPass : List CheckStep :=
  [.reset, .clear] ++ [0, 1, 2, 3, 4].flatMap (sendFingerCommands false) ++
    [.reset, .clear] ++ [4, 3, 2, 1, 0].flatMap (sendFingerCommands true) ++ [.reset]

def selfCheckData (task : LpV2SyncFFH F) (second : Bool) : List (List F) :=
  if second then task.selfCheckData2 else task.selfCheckData1

/-- `angles[id][j]`; the rows of the shipped tables have no `j = 3`. -/
def checkAngle (task : LpV2SyncFFH F) (second : Bool) (id : Fin 5) (j : Fin 4) : Except Fault F := do
  let row ← subscript (.outOfBounds .selfCheckData) (task.selfCheckData second) id
  subscript (.outOfBounds .selfCheckData) row j

/-- One statement, with the local `tmp_cmd`. -/
def checkStep [Zero F] (task : LpV2SyncFFH F) (tmp_cmd : udp_hand_cmd F) :
    CheckStep → Emit (Ev F) Fault (LpV2SyncFFH F × udp_hand_cmd F)
  | .reset => do
    let task ← task.resetFfh left_hand
    pure (task, tmp_cmd)
  | .clear => pure (task.clearHandCmd, tmp_cmd)
  | .joint second id j => do
    let angle ← lift (task.checkAngle second id j)
    let tmp_cmd := tmp_cmd.set id j angle
    let task ← task.sendTo left_hand tmp_cmd
    let tmp_cmd := if j ≠ 2 then tmp_cmd.set id j 0 else tmp_cmd
    let task ← task.sendTo left_hand tmp_cmd
    pure (task, tmp_cmd)

end LpV2SyncFFH

end LeapSyncFfh
