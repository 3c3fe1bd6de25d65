/-
  LeapSyncFfh.Leap.Overrun — handling a message past a copy that leaves its array.

  `setFrame` copies a frame of any hand count into a block for two hands, `setDevice` as many
  bytes of a serial as LeapC says, and the loop of `onFrame` counts with another frame's
  hands. `LeapMotionV2WrapperImpl` ends a run at such a copy. The code goes on: the `memcpy`
  and the loop write what is behind the array, and the next statement runs. `Past` is this
  reading, where a copy leaves in its array what it writes there and what lies behind is no
  part of the object. It is for what a later statement does all the same: which handler is
  called, and whether `add` runs on a sized buffer.

  A message that stays inside its arrays is handled alike in both (`message_past`), and
  `Contained` says of the message and the object before it when it does
  (`message_contained_iff`).
-/

import LeapSyncFfh.Leap.Dispatch

namespace LeapSyncFfh

open Cells Emit CircularBuffer

namespace LeapMotionV2WrapperImpl

variable {F : Type}

/-- The `memcpy` fills the block; the rest of the hands goes behind it. -/
def deepCopyPast (dst : LastFrame F) (src : LEAP_TRACKING_EVENT F) : LastFrame F :=
  { info := src.info, tracking_frame_id := src.tracking_frame_id, nHands := src.nHands, framerate := src.framerate,
    pHands := (src.pHands.map some ++ dst.pHands.drop src.nHands).take dst.pHands.length }

section

variable [Zero F]

def setFramePast (self : LeapMotionV2WrapperImpl F) (frame : LEAP_TRACKING_EVENT F) : LeapMotionV2WrapperImpl F :=
  { self with lastFrame := some (deepCopyPast (self.lastFrame.getD allocFrame) frame) }

/-- `hands_` has the frame's hand count, so the loop is past both arrays at once. -/
def onFramePast (self : LeapMotionV2WrapperImpl F) (frame : LEAP_TRACKING_EVENT F) :
    Except Fault (LeapMotionV2WrapperImpl F) := do
  let frameBuffer_ ← self.frameBuffer_.add frame
  let curData ← frameBuffer_.back
  let hands_ := if self.hands_.length ≠ frame.nHands then resize .zero self.hands_ frame.nHands else self.hands_
  if frame.nHands = 0 then .ok { self with frameBuffer_ := frameBuffer_, hands_ := [] }
  else
    .ok { self with
      frameBuffer_ := frameBuffer_, hands_ := frame.pHands.take curData.nHands ++ hands_.drop curData.nHands }

def runHandlerPast (self : LeapMotionV2WrapperImpl F) (m : Method) (arg : CallArg F) :
    Except Fault (LeapMotionV2WrapperImpl F) :=
  match m, arg with
  | .onFrame, .tracking frame => self.onFramePast frame
  | _, _ => .ok self

def handleCallbackPast (cbs : CallBacks) (self : LeapMotionV2WrapperImpl F) (name : String) (Args : List CppType)
    (arg : CallArg F) : Emit (LeapEv F) Fault (LeapMotionV2WrapperImpl F) :=
  match cbs Args name with
  | some h => do
    emit (.call h arg)
    if h.addr = self.addr then lift (self.runHandlerPast h.method arg) else pure self
  | none => pure self

omit [Zero F] in
/-- A byte read behind the serial is one nobody wrote. -/
def setDevicePast (self : LeapMotionV2WrapperImpl F) (deviceProps : LEAP_DEVICE_INFO F) : LeapMotionV2WrapperImpl F :=
  { self with lastDevice := some { deviceProps with serial := resize none deviceProps.serial deviceProps.serial_length } }

def deviceFoundPast (cbs : CallBacks) (self : LeapMotionV2WrapperImpl F) (deviceProperties : LEAP_DEVICE_INFO F) :
    Emit (LeapEv F) Fault (LeapMotionV2WrapperImpl F) := do
  let self := self.setDevicePast deviceProperties
  let self ← self.handleCallbackPast cbs "onDeviceFound" [.ptr false .LEAP_DEVICE_INFO] (.device deviceProperties)
  emit .freeSerial
  emit .closeDevice
  pure self

def handleDeviceEventPast (cbs : CallBacks) (self : LeapMotionV2WrapperImpl F) (device_event : LEAP_DEVICE_EVENT F) :
    Emit (LeapEv F) Fault (LeapMotionV2WrapperImpl F) :=
  if device_event.openRetval ≠ .eLeapRS_Success then pure self
  else do
    emit .openDevice
    emit .mallocSerial
    let deviceProperties := { LEAP_DEVICE_INFO.zero with serial_length := 1, serial := [none] }
    let (retval, deviceProperties) := LeapGetDeviceInfo device_event.first deviceProperties
    if retval = .eLeapRS_InsufficientBuffer then
      let deviceProperties :=
        { deviceProperties with serial := resize none deviceProperties.serial deviceProperties.serial_length }
      let (retval, deviceProperties) := LeapGetDeviceInfo device_event.second deviceProperties
      if retval ≠ .eLeapRS_Success then do
        emit .freeSerial
        pure self
      else self.deviceFoundPast cbs deviceProperties
    else self.deviceFoundPast cbs deviceProperties

def handleTrackingEventPast (cbs : CallBacks) (self : LeapMotionV2WrapperImpl F)
    (tracking_event : LEAP_TRACKING_EVENT F) : Emit (LeapEv F) Fault (LeapMotionV2WrapperImpl F) :=
  (self.setFramePast tracking_event).handleCallbackPast cbs "onFrame" [.ptr true .LEAP_TRACKING_EVENT]
    (.tracking tracking_event)

/-- The `switch` of `serviceMessageLoop`. -/
def handleMessagePast (cbs : CallBacks) (self : LeapMotionV2WrapperImpl F) :
    LEAP_CONNECTION_MESSAGE F → Emit (LeapEv F) Fault (LeapMotionV2WrapperImpl F)
  | .connection => self.handleCallbackPast cbs "onConnect" [] .none
  | .connectionLost => self.handleCallbackPast cbs "onConnectLost" [] .none
  | .device device_event => self.handleDeviceEventPast cbs device_event
  | .tracking tracking_event => self.handleTrackingEventPast cbs tracking_event
  | .other _ => pure self

/-! ## Inside the arrays -/

omit [Zero F] in
theorem deepCopy_past {dst l : LastFrame F} {src : LEAP_TRACKING_EVENT F} (h : deepCopyTrackingEvent dst src = .ok l) :
    deepCopyPast dst src = l := by
  unfold deepCopyTrackingEvent at h
  split at h
  · rename_i hle
    cases h
    have hlen : (src.pHands.map some ++ dst.pHands.drop src.nHands).length = dst.pHands.length := by
      rw [List.length_append, List.length_map, List.length_drop, src.sized]
      omega
    unfold deepCopyPast
    rw [← hlen, List.take_length]
  · cases h

theorem setFrame_past {self t : LeapMotionV2WrapperImpl F} {f : LEAP_TRACKING_EVENT F} (h : self.setFrame f = .ok t) :
    self.setFramePast f = t := by
  simp only [setFrame, bind, Except.bind] at h
  split at h
  · cases h
  · rename_i l hl
    cases h
    rw [setFramePast, deepCopy_past hl]

theorem onFrame_past {self t : LeapMotionV2WrapperImpl F} {f : LEAP_TRACKING_EVENT F} (h : self.onFrame f = .ok t) :
    self.onFramePast f = .ok t := by
  simp only [onFrame, onFramePast, bind, Except.bind] at h ⊢
  cases hb : self.frameBuffer_.add f with
  | error e => rw [hb] at h; cases h
  | ok b =>
  cases hc : b.back with
  | error e => simp only [hb, hc] at h; cases h
  | ok cur =>
  simp only [hb, hc] at h ⊢
  split at h
  · rename_i h0
    rw [if_pos h0]
    exact h
  · rename_i h0
    rw [if_neg h0]
    split at h
    · cases h
    · rename_i hands hcopy
      by_cases hlt : f.pHands.length < cur.nHands ∨
          (if self.hands_.length ≠ f.nHands then resize .zero self.hands_ f.nHands else self.hands_).length < cur.nHands
      · obtain ⟨e, -, he⟩ := copyInto_error (Fault.outOfBounds .framePHands) (.outOfBounds .hands) hlt
        rw [he] at hcopy
        cases hcopy
      · rw [copyInto_ok (by omega) (by omega)] at hcopy
        cases hcopy
        exact h

theorem runHandler_past {self t : LeapMotionV2WrapperImpl F} {m : Method} {arg : CallArg F}
    (h : self.runHandler m arg = .ok t) : self.runHandlerPast m arg = .ok t := by
  cases m with
  | onFrame =>
    cases arg with
    | tracking f => exact onFrame_past h
    | _ => exact h
  | _ => exact h

theorem callback_past {cbs : CallBacks} {self t : LeapMotionV2WrapperImpl F} {name : String} {Args : List CppType}
    {arg : CallArg F} (h : (self.handleCallback cbs name Args arg).res = .ok t) :
    self.handleCallbackPast cbs name Args arg = self.handleCallback cbs name Args arg := by
  unfold handleCallback at h ⊢
  unfold handleCallbackPast
  cases hreg : cbs Args name with
  | none => rfl
  | some hd =>
    simp only [hreg] at h ⊢
    obtain ⟨-, -, h⟩ := bind_res_ok.mp h
    by_cases hown : hd.addr = self.addr
    · rw [if_pos hown] at h
      have hrun : self.runHandler hd.method arg = .ok t := h
      simp only [if_pos hown, hrun, runHandler_past hrun]
    · simp only [if_neg hown]

omit [Zero F] in
theorem setDevice_past {self t : LeapMotionV2WrapperImpl F} {p : LEAP_DEVICE_INFO F} (h : self.setDevice p = .ok t) :
    self.setDevicePast p = t := by
  unfold setDevice at h
  split at h
  · rename_i hle
    cases h
    rw [setDevicePast, resize, Nat.sub_eq_zero_of_le hle, List.replicate_zero, List.append_nil]
  · cases h

theorem found_past {cbs : CallBacks} {self t : LeapMotionV2WrapperImpl F} {p : LEAP_DEVICE_INFO F}
    (h : (self.deviceFound cbs p).res = .ok t) : self.deviceFoundPast cbs p = self.deviceFound cbs p := by
  obtain ⟨u, hu, h⟩ := bind_res_ok.mp h
  obtain ⟨v, hv, -⟩ := bind_res_ok.mp h
  unfold deviceFound deviceFoundPast
  rw [show self.setDevice p = .ok u from hu, lift_ok_bind, setDevice_past hu]
  simp only [callback_past hv]

/-- A message that is handled to its end is handled so. -/
theorem message_past {cbs : CallBacks} {self t : LeapMotionV2WrapperImpl F} {m : LEAP_CONNECTION_MESSAGE F}
    (h : (self.handleMessage cbs m).res = .ok t) : self.handleMessagePast cbs m = self.handleMessage cbs m := by
  cases m with
  | connection => exact callback_past h
  | connectionLost => exact callback_past h
  | device d =>
    simp only [handleMessage, handleMessagePast] at h ⊢
    unfold handleDeviceEvent at h ⊢
    unfold handleDeviceEventPast
    split
    · rfl
    · rename_i hopen
      rw [if_neg hopen] at h
      obtain ⟨-, -, h⟩ := bind_res_ok.mp h
      obtain ⟨-, -, h⟩ := bind_res_ok.mp h
      simp only [] at h ⊢
      split
      · rename_i hins
        rw [if_pos hins] at h
        split
        · rfl
        · rename_i hsec
          rw [if_neg hsec] at h
          rw [found_past h]
      · rename_i hins
        rw [if_neg hins] at h
        rw [found_past h]
  | tracking f =>
    simp only [handleMessage, handleMessagePast, handleTrackingEvent, handleTrackingEventPast] at h ⊢
    obtain ⟨u, hu, h⟩ := bind_res_ok.mp h
    rw [show self.setFrame f = .ok u from hu, lift_ok_bind, setFrame_past hu]
    exact callback_past h
  | other k => rfl

/-! ## Which messages stay inside -/

/-- At the copies behind which the code goes on. -/
def Overruns : Fault → Prop
  | .outOfBounds .lastFramePHands => True
  | .outOfBounds .framePHands => True
  | .outOfBounds .hands => True
  | .outOfBounds .serial => True
  | _ => False

/-- The loop of `onFrame` counts no further than the frame has hands. -/
def Counted (self : LeapMotionV2WrapperImpl F) (f : LEAP_TRACKING_EVENT F) : Prop :=
  ∀ b cur, self.frameBuffer_.add f = .ok b → b.back = .ok cur → f.nHands = 0 ∨ cur.nHands ≤ f.nHands

/-- A frame fits the copy of the last one, and `onFrame` can count it; a serial fits the
    one byte, or the bytes that the first call asked for. -/
def Contained (cbs : CallBacks) (self : LeapMotionV2WrapperImpl F) : LEAP_CONNECTION_MESSAGE F → Prop
  | .device d => d.openRetval = .eLeapRS_Success →
      (d.first.retval ≠ .eLeapRS_InsufficientBuffer → d.first.info.serial_length ≤ 1) ∧
      (d.first.retval = .eLeapRS_InsufficientBuffer → d.second.retval = .eLeapRS_Success →
        d.second.info.serial_length ≤ d.first.info.serial_length)
  | .tracking f => f.nHands ≤ (self.lastFrame.getD allocFrame).pHands.length ∧
      (cbs [.ptr true .LEAP_TRACKING_EVENT] "onFrame" = some ⟨self.addr, .onFrame⟩ → self.Counted f)
  | _ => True

omit [Zero F] in
theorem add_overruns {b : CircularBuffer (LEAP_TRACKING_EVENT F)} {f : LEAP_TRACKING_EVENT F} {e : Fault}
    (h : b.add f = .error e) : ¬ Overruns e := by
  simp only [add, store, updateHeadTail, bind, Except.bind] at h
  split at h
  · rename_i hs
    split at hs
    · cases hs
    · cases hs; cases h; exact id
  · split at h
    · cases h; exact id
    · cases h

theorem onFrame_overruns_iff (self : LeapMotionV2WrapperImpl F) (f : LEAP_TRACKING_EVENT F) :
    (∀ e, self.onFrame f = .error e → ¬ Overruns e) ↔ self.Counted f := by
  simp only [onFrame, bind, Except.bind]
  cases hadd : self.frameBuffer_.add f with
  | error e =>
    refine iff_of_true (fun e' he => ?_) fun b cur hb => by rw [hadd] at hb; cases hb
    cases he
    exact add_overruns hadd
  | ok b =>
  cases hback : b.back with
  | error e =>
    simp only [hback]
    refine iff_of_true (fun e' he => ?_) fun b' cur hb hcur => ?_
    · unfold CircularBuffer.back subscript at hback
      split at hback
      · cases hback
      · cases hback; cases he; exact id
    · rw [hadd] at hb
      cases hb
      rw [hback] at hcur
      cases hcur
  | ok cur =>
  have hcounted : self.Counted f ↔ f.nHands = 0 ∨ cur.nHands ≤ f.nHands := by
    refine ⟨fun h => h b cur hadd hback, fun h b' cur' hb hcur => ?_⟩
    rw [hadd] at hb
    cases hb
    rw [hback] at hcur
    cases hcur
    exact h
  rw [hcounted]
  simp only [hback]
  by_cases h0 : f.nHands = 0
  · rw [if_pos h0]
    exact iff_of_true (fun e he => by cases he) (.inl h0)
  rw [if_neg h0]
  have hlen : (if self.hands_.length ≠ f.nHands then resize .zero self.hands_ f.nHands else self.hands_).length =
      f.nHands := by
    split
    · exact resize_length ..
    · rename_i hsame; exact not_not.mp hsame
  by_cases hle : cur.nHands ≤ f.nHands
  · rw [copyInto_ok (by rw [f.sized]; exact hle) (by rw [hlen]; exact hle)]
    exact iff_of_true (fun e he => by cases he) (.inr hle)
  · obtain ⟨e, hs, he⟩ := copyInto_error (Fault.outOfBounds .framePHands) (.outOfBounds .hands)
      (Or.inl (by rw [f.sized]; omega : f.pHands.length < cur.nHands))
    rw [he]
    refine iff_of_false (fun h => h e rfl ?_) fun h => h.elim h0 hle
    rcases hs with rfl | rfl <;> trivial

/-- A handler that only prints ends in no fault. -/
theorem callback_prints (cbs : CallBacks) (self : LeapMotionV2WrapperImpl F) (name : String) (Args : List CppType)
    {arg : CallArg F} (harg : ∀ f, arg ≠ .tracking f) : (self.handleCallback cbs name Args arg).res = .ok self := by
  unfold handleCallback
  cases cbs Args name with
  | none => rfl
  | some h =>
    have hrun : self.runHandler h.method arg = .ok self := by
      unfold runHandler
      split
      · exact absurd rfl (harg _)
      · rfl
    simp only [hrun]
    rw [bind_of_ok (emit_res _)]
    split <;> rfl

theorem found_overruns_iff (cbs : CallBacks) (self : LeapMotionV2WrapperImpl F) (p : LEAP_DEVICE_INFO F) :
    (∀ e, (self.deviceFound cbs p).res = .error e → ¬ Overruns e) ↔ p.serial_length ≤ p.serial.length := by
  unfold deviceFound setDevice
  by_cases hle : p.serial_length ≤ p.serial.length
  · rw [if_pos hle, lift_ok_bind, bind_of_ok (callback_prints cbs _ _ _ (by intro f h; cases h))]
    exact iff_of_true (fun e he => by cases he) hle
  · rw [if_neg hle, lift_error_bind]
    exact iff_of_false (fun h => h _ rfl trivial) hle

omit [Zero F] in
theorem getDeviceInfo_length (a : DeviceAnswer F) (p : LEAP_DEVICE_INFO F) :
    (LeapGetDeviceInfo a p).2.serial.length = p.serial.length := by
  simp only [LeapGetDeviceInfo, List.length_append, List.length_take, List.length_drop]
  omega

theorem device_contained_iff (cbs : CallBacks) (self : LeapMotionV2WrapperImpl F) (d : LEAP_DEVICE_EVENT F) :
    (∀ e, (self.handleDeviceEvent cbs d).res = .error e → ¬ Overruns e) ↔ Contained cbs self (.device d) := by
  unfold handleDeviceEvent Contained
  by_cases hopen : d.openRetval = .eLeapRS_Success
  swap
  · rw [if_pos hopen]
    exact iff_of_true (fun e he => by cases he) fun h => absurd h hopen
  rw [if_neg (not_not.mpr hopen), bind_of_ok (emit_res _), bind_of_ok (emit_res _)]
  simp only [hopen, true_implies]
  by_cases hins : d.first.retval = .eLeapRS_InsufficientBuffer
  · rw [if_pos (show (LeapGetDeviceInfo d.first _).1 = _ from hins)]
    simp only [hins, ne_eq, not_true_eq_false, false_implies, true_and, true_implies]
    by_cases hsec : d.second.retval = .eLeapRS_Success
    · rw [if_neg (not_not.mpr (show (LeapGetDeviceInfo d.second _).1 = _ from hsec))]
      rw [found_overruns_iff, getDeviceInfo_length, resize_length]
      exact ⟨fun h _ => h, fun h => h hsec⟩
    · rw [if_pos (show (LeapGetDeviceInfo d.second _).1 ≠ _ from hsec)]
      exact iff_of_true (fun e he => by cases he) fun h => absurd h hsec
  · rw [if_neg (show ¬ (LeapGetDeviceInfo d.first _).1 = _ from hins)]
    rw [found_overruns_iff, getDeviceInfo_length]
    exact ⟨fun h => ⟨fun _ => h, fun hins' => absurd hins' hins⟩, fun h => h.1 hins⟩

/-- The call of `onFrame`, where it is registered for this object. -/
theorem callback_overruns_iff (cbs : CallBacks) (self : LeapMotionV2WrapperImpl F) (f : LEAP_TRACKING_EVENT F) :
    (∀ e, (self.handleCallback cbs "onFrame" [.ptr true .LEAP_TRACKING_EVENT] (.tracking f)).res = .error e →
      ¬ Overruns e) ↔
    (cbs [.ptr true .LEAP_TRACKING_EVENT] "onFrame" = some ⟨self.addr, .onFrame⟩ → self.Counted f) := by
  unfold handleCallback
  cases hreg : cbs [.ptr true .LEAP_TRACKING_EVENT] "onFrame" with
  | none => exact iff_of_true (fun e he => by cases he) fun h => by cases h
  | some h =>
    simp only []
    rw [bind_of_ok (emit_res _)]
    by_cases hown : h = ⟨self.addr, .onFrame⟩
    · subst hown
      rw [if_pos rfl]
      exact (onFrame_overruns_iff self f).trans ⟨fun hc _ => hc, fun hc => hc rfl⟩
    · refine iff_of_true (fun e he => ?_) fun hs => absurd (Option.some.inj hs) hown
      split at he
      · rename_i haddr
        have hrun : self.runHandler h.method (.tracking f) = .ok self := by
          unfold runHandler
          split
          · rename_i hm _
            exact absurd (by cases h; cases hm; cases haddr; rfl) hown
          · rfl
        rw [hrun] at he
        cases he
      · cases he

theorem tracking_contained_iff (cbs : CallBacks) (self : LeapMotionV2WrapperImpl F) (f : LEAP_TRACKING_EVENT F) :
    (∀ e, (self.handleTrackingEvent cbs f).res = .error e → ¬ Overruns e) ↔ Contained cbs self (.tracking f) := by
  unfold handleTrackingEvent Contained
  by_cases hfit : f.nHands ≤ (self.lastFrame.getD allocFrame).pHands.length
  · obtain ⟨l, hl⟩ : ∃ l, self.setFrame f = .ok (self.framed l) := by
      unfold setFrame deepCopyTrackingEvent
      rw [if_pos hfit]
      exact ⟨_, rfl⟩
    rw [hl, lift_ok_bind]
    exact (callback_overruns_iff cbs (self.framed l) f).trans ⟨fun h => ⟨hfit, h⟩, fun h => h.2⟩
  · have hover : self.setFrame f = .error (.outOfBounds .lastFramePHands) := by
      unfold setFrame deepCopyTrackingEvent
      rw [if_neg hfit]
      rfl
    rw [hover, lift_error_bind]
    exact iff_of_false (fun h => h _ rfl trivial) fun h => hfit h.1

/-- A message ends at no copy exactly when it is contained. -/
theorem message_contained_iff (cbs : CallBacks) (self : LeapMotionV2WrapperImpl F) (m : LEAP_CONNECTION_MESSAGE F) :
    (∀ e, (self.handleMessage cbs m).res = .error e → ¬ Overruns e) ↔ Contained cbs self m := by
  have none : ∀ name Args e, (self.handleCallback cbs name Args .none).res = .error e → ¬ Overruns e := by
    intro name Args e he
    rw [callback_prints cbs self name Args (by intro f h; cases h)] at he
    cases he
  cases m with
  | connection => exact iff_of_true (none _ _) trivial
  | connectionLost => exact iff_of_true (none _ _) trivial
  | device d => exact device_contained_iff cbs self d
  | tracking f => exact tracking_contained_iff cbs self f
  | other k => exact iff_of_true (fun e he => by cases he) trivial

/-! ## What a message does past its copies -/

theorem callbackPast_calls (cbs : CallBacks) (self : LeapMotionV2WrapperImpl F) (name : String) (Args : List CppType)
    (arg : CallArg F) :
    calls (self.handleCallbackPast cbs name Args arg).out = (cbs Args name).toList.map fun h => (h, arg) := by
  unfold handleCallbackPast
  cases cbs Args name with
  | none => rfl
  | some h =>
    simp only []
    rw [bind_of_ok (emit_res _)]
    split <;> rfl

/-- Only `onFrame` does more than print. -/
theorem callbackPast_prints (cbs : CallBacks) (self : LeapMotionV2WrapperImpl F) (name : String) (Args : List CppType)
    (arg : CallArg F) (harg : ∀ f, arg ≠ .tracking f) : (self.handleCallbackPast cbs name Args arg).res = .ok self := by
  have hprints := callback_prints cbs self name Args harg
  rw [callback_past hprints]
  exact hprints

theorem onFramePast_data {self t : LeapMotionV2WrapperImpl F} {f : LEAP_TRACKING_EVENT F}
    (h : self.onFramePast f = .ok t) : t = { self with hands_ := t.hands_, frameBuffer_ := t.frameBuffer_ } := by
  simp only [onFramePast, bind, Except.bind] at h
  split at h
  · cases h
  split at h
  · cases h
  split at h <;> cases h <;> rfl

theorem runHandlerPast_data {self t : LeapMotionV2WrapperImpl F} {m : Method} {arg : CallArg F}
    (h : self.runHandlerPast m arg = .ok t) : t = { self with hands_ := t.hands_, frameBuffer_ := t.frameBuffer_ } := by
  unfold runHandlerPast at h
  split at h
  · exact onFramePast_data h
  · cases h; rfl

theorem callbackPast_data {cbs : CallBacks} {self t : LeapMotionV2WrapperImpl F} {name : String} {Args : List CppType}
    {arg : CallArg F} (h : (self.handleCallbackPast cbs name Args arg).res = .ok t) :
    t = { self with hands_ := t.hands_, frameBuffer_ := t.frameBuffer_ } := by
  unfold handleCallbackPast at h
  split at h
  · obtain ⟨-, -, h⟩ := bind_res_ok.mp h
    split at h
    · exact runHandlerPast_data h
    · cases h; rfl
  · cases h; rfl

/-- On a sized buffer `onFrame` comes to its end. -/
theorem onFramePast_sized {fs : List (LEAP_TRACKING_EVENT F)} {self : LeapMotionV2WrapperImpl F}
    (hr : Holds .zero frameCount_ fs self.frameBuffer_) (f : LEAP_TRACKING_EVENT F) :
    ∃ hands, self.onFramePast f = .ok { self with frameBuffer_ := self.frameBuffer_.added f, hands_ := hands } := by
  obtain ⟨hadd, hring⟩ := holds_add (by decide : 0 < frameCount_) hr f
  have hback := holds_back (by decide : 0 < frameCount_) hring
  simp only [onFramePast, hadd, hback, bind, Except.bind]
  split
  · exact ⟨[], rfl⟩
  · exact ⟨_, rfl⟩

/-- On the buffer as the constructor left it, not past `add`. -/
theorem onFramePast_unsized {self : LeapMotionV2WrapperImpl F} (h : self.frameBuffer_ = {})
    (f : LEAP_TRACKING_EVENT F) : self.onFramePast f = .error (.outOfBounds .m_buffer) := by
  simp only [onFramePast, h, add, bind, Except.bind]
  rfl

/-- With no handler for `LEAP_DEVICE_INFO*`, a device message calls none and changes
    `lastDevice` only. -/
theorem devicePast_step {cbs : CallBacks} (hd : cbs [.ptr false .LEAP_DEVICE_INFO] "onDeviceFound" = none)
    (self : LeapMotionV2WrapperImpl F) (d : LEAP_DEVICE_EVENT F) :
    calls (self.handleDeviceEventPast cbs d).out = [] ∧
      ∃ l, (self.handleDeviceEventPast cbs d).res = .ok { self with lastDevice := l } := by
  unfold handleDeviceEventPast
  simp only [deviceFoundPast, handleCallbackPast, hd]
  split
  · exact ⟨rfl, _, rfl⟩
  split
  · split <;> exact ⟨rfl, _, rfl⟩
  · exact ⟨rfl, _, rfl⟩

/-- The object stays where it is. -/
theorem messagePast_addr {cbs : CallBacks} {self t : LeapMotionV2WrapperImpl F} {m : LEAP_CONNECTION_MESSAGE F}
    (h : (self.handleMessagePast cbs m).res = .ok t) : t.addr = self.addr := by
  have found : ∀ {p}, (self.deviceFoundPast cbs p).res = .ok t → t.addr = self.addr := by
    intro p h
    obtain ⟨u, hu, h⟩ := bind_res_ok.mp h
    obtain ⟨-, -, h⟩ := bind_res_ok.mp h
    obtain ⟨-, -, h⟩ := bind_res_ok.mp h
    cases h
    rw [callbackPast_data hu]
    rfl
  cases m with
  | connection => rw [callbackPast_data h]
  | connectionLost => rw [callbackPast_data h]
  | device d =>
    simp only [handleMessagePast] at h
    unfold handleDeviceEventPast at h
    split at h
    · cases h; rfl
    obtain ⟨-, -, h⟩ := bind_res_ok.mp h
    obtain ⟨-, -, h⟩ := bind_res_ok.mp h
    simp only [] at h
    split at h
    · split at h
      · obtain ⟨-, -, h⟩ := bind_res_ok.mp h
        cases h; rfl
      · exact found h
    · exact found h
  | tracking f => rw [callbackPast_data h]; rfl
  | other k => cases h; rfl

end

end LeapMotionV2WrapperImpl

end LeapSyncFfh
