/-
  LeapSyncFfh.Leap.Dispatch — which handler each message reaches.

  `expected` is the dispatch the wrapper is for: one call of the event's own handler per
  message, for a device message when its info was read (`readDevice`). What a message
  really calls is `dispatched`: `initialize` registers `onDeviceFound` for
  `const LEAP_DEVICE_INFO*` and `handleDeviceEvent` calls it with `LEAP_DEVICE_INFO*`, so
  no device message reaches a handler; and a tracking event with more hands than
  `setFrame` allocates overruns the block before its call, where a run of this model ends.

  `handleMessage_rule` is the rule for one message, whatever is registered: an invariant of
  the object that `setDevice`, `setFrame` and the handlers keep is kept, and no connection
  is made or ended.

  `dispatch_iff`: over every sequence of polled messages the calls are the expected ones
  exactly when neither occurs.
-/

import LeapSyncFfh.Leap.Frames

namespace LeapSyncFfh

open Cells Emit CircularBuffer

namespace LeapMotionV2WrapperImpl

variable {F : Type} [Zero F]

def callOf : LeapEv F → Option (Handler × CallArg F)
  | .call h arg => some (h, arg)
  | _ => none

/-- The handler calls among the outputs. -/
def calls (out : List (LeapEv F)) : List (Handler × CallArg F) := out.filterMap callOf

/-- The device info `handleDeviceEvent` reads successfully, if it does. -/
def readDevice (d : LEAP_DEVICE_EVENT F) : Option (LEAP_DEVICE_INFO F) :=
  if d.openRetval ≠ .eLeapRS_Success then none
  else
    let p := (LeapGetDeviceInfo d.first { LEAP_DEVICE_INFO.zero with serial_length := 1, serial := [none] }).2
    match d.first.retval with
    | .eLeapRS_Success => some p
    | .eLeapRS_InsufficientBuffer =>
      if d.second.retval = .eLeapRS_Success then
        some (LeapGetDeviceInfo d.second { p with serial := resize none p.serial p.serial_length }).2
      else none
    | _ => none

def expected (addr : Nat) : LEAP_CONNECTION_MESSAGE F → List (Handler × CallArg F)
  | .connection => [(⟨addr, .onConnect⟩, .none)]
  | .connectionLost => [(⟨addr, .onConnectLost⟩, .none)]
  | .tracking f => [(⟨addr, .onFrame⟩, .tracking f)]
  | .device d => (readDevice d).toList.map fun p => (⟨addr, .onDeviceFound⟩, .device p)
  | .other _ => []

def dispatched (addr : Nat) : LEAP_CONNECTION_MESSAGE F → List (Handler × CallArg F)
  | .connection => [(⟨addr, .onConnect⟩, .none)]
  | .connectionLost => [(⟨addr, .onConnectLost⟩, .none)]
  | .tracking f => if f.nHands ≤ 2 then [(⟨addr, .onFrame⟩, .tracking f)] else []
  | .device _ => []
  | .other _ => []

/-- The registry entries a message can look up, after `initialize` on `addr`. -/
structure Bound (cbs : CallBacks) (addr : Nat) : Prop where
  connect : cbs [] "onConnect" = some ⟨addr, .onConnect⟩
  lost : cbs [] "onConnectLost" = some ⟨addr, .onConnectLost⟩
  frame : cbs [.ptr true .LEAP_TRACKING_EVENT] "onFrame" = some ⟨addr, .onFrame⟩
  device : cbs [.ptr false .LEAP_DEVICE_INFO] "onDeviceFound" = none

theorem initialize_bound (self : LeapMotionV2WrapperImpl F) :
    Bound (initializeImpl (self, fun _ _ => none)).2 self.addr := ⟨rfl, rfl, rfl, rfl⟩

/-! ## One message -/

theorem onFrame_data {self t : LeapMotionV2WrapperImpl F} {f : LEAP_TRACKING_EVENT F} (h : self.onFrame f = .ok t) :
    t = { self with hands_ := t.hands_, frameBuffer_ := t.frameBuffer_ } := by
  simp only [onFrame, bind, Except.bind] at h
  split at h
  · cases h
  split at h
  · cases h
  split at h
  · cases h; rfl
  · split at h
    · cases h
    · cases h; rfl

theorem runHandler_data {self t : LeapMotionV2WrapperImpl F} {m : Method} {arg : CallArg F}
    (h : self.runHandler m arg = .ok t) : t = { self with hands_ := t.hands_, frameBuffer_ := t.frameBuffer_ } := by
  unfold runHandler at h
  split at h
  · exact onFrame_data h
  · cases h; rfl

theorem callback_data {cbs : CallBacks} {self t : LeapMotionV2WrapperImpl F} {name : String} {Args : List CppType}
    {arg : CallArg F} (h : (self.handleCallback cbs name Args arg).res = .ok t) :
    t = { self with hands_ := t.hands_, frameBuffer_ := t.frameBuffer_ } := by
  unfold handleCallback at h
  split at h
  · obtain ⟨-, -, h⟩ := bind_res_ok.mp h
    split at h
    · exact runHandler_data h
    · cases h; rfl
  · cases h; rfl

theorem callback_keeps {cbs : CallBacks} {self t : LeapMotionV2WrapperImpl F} {name : String} {Args : List CppType}
    {arg : CallArg F} (h : (self.handleCallback cbs name Args arg).res = .ok t) :
    t.addr = self.addr ∧ t.lastFrame = self.lastFrame ∧ t.inConncetion_ = self.inConncetion_ := by
  rw [callback_data h]
  exact ⟨rfl, rfl, rfl⟩

theorem callback_calls {cbs : CallBacks} (self : LeapMotionV2WrapperImpl F) {name : String} {Args : List CppType}
    {h : Handler} (hreg : cbs Args name = some h) (arg : CallArg F) :
    calls (self.handleCallback cbs name Args arg).out = [(h, arg)] := by
  simp only [handleCallback, hreg]
  rw [bind_of_ok (emit_res _)]
  split <;> rfl

/-- Outputs that are not the making or the end of a connection. -/
def OfMessage : LeapEv F → Prop
  | .create _ => False
  | .close _ => False
  | .destroy _ => False
  | _ => True

/-- The rule for one message, whatever is registered: what `setDevice`, `setFrame` and the
    handlers keep, handling it keeps, and it faults as they do. -/
theorem handleMessage_rule {I : LeapMotionV2WrapperImpl F → Prop} {P : Fault → Prop} (cbs : CallBacks)
    (hdevice : ∀ u p, I u → Ends P I (lift (u.setDevice p) : Emit (LeapEv F) Fault _))
    (hframe : ∀ u f, I u → Ends P I (lift (u.setFrame f) : Emit (LeapEv F) Fault _))
    (hhandler : ∀ u m arg, I u → Ends P I (lift (u.runHandler m arg) : Emit (LeapEv F) Fault _))
    {s : LeapMotionV2WrapperImpl F} (hs : I s) (m : LEAP_CONNECTION_MESSAGE F) :
    Within OfMessage P I (s.handleMessage cbs m) := by
  have callback : ∀ {u : LeapMotionV2WrapperImpl F} name Args arg, I u →
      Within OfMessage P I (u.handleCallback cbs name Args arg) := by
    intro u name Args arg hu
    unfold handleCallback
    split
    · refine within_bind (within_emit trivial) fun _ _ => ?_
      split
      · exact within_lift (hhandler u _ arg hu)
      · exact within_pure hu
    · exact within_pure hu
  have found : ∀ p, Within OfMessage P I (s.deviceFound cbs p) := by
    intro p
    unfold deviceFound
    refine within_bind (within_lift (hdevice s p hs)) fun u hu => within_bind (callback _ _ _ hu) fun v hv => ?_
    exact within_bind (within_emit trivial) fun _ _ => within_bind (within_emit trivial) fun _ _ => within_pure hv
  cases m with
  | connection => exact callback _ _ _ hs
  | connectionLost => exact callback _ _ _ hs
  | device d =>
    rw [handleMessage]
    unfold handleDeviceEvent
    split
    · exact within_pure hs
    · refine within_bind (within_emit trivial) fun _ _ => within_bind (within_emit trivial) fun _ _ => ?_
      simp only []
      split
      · split
        · exact within_bind (within_emit trivial) fun _ _ => within_pure hs
        · exact found _
      · exact found _
  | tracking f => exact within_bind (within_lift (hframe s f hs)) fun u hu => callback _ _ _ hu
  | other k => exact within_pure hs

omit [Zero F] in
theorem setDevice_data {self t : LeapMotionV2WrapperImpl F} {p : LEAP_DEVICE_INFO F} (h : self.setDevice p = .ok t) :
    t = { self with lastDevice := t.lastDevice } := by
  unfold setDevice at h
  split at h
  · cases h; rfl
  · cases h

theorem setFrame_data {self t : LeapMotionV2WrapperImpl F} {f : LEAP_TRACKING_EVENT F} (h : self.setFrame f = .ok t) :
    t = { self with lastFrame := t.lastFrame } := by
  unfold setFrame at h
  simp only [bind, Except.bind] at h
  split at h
  · cases h
  · cases h; rfl

/-- Whatever is registered, handling a message changes the last device, the last frame, the
    hands and the frame buffer, and nothing else. -/
theorem handleMessage_data {cbs : CallBacks} {s t : LeapMotionV2WrapperImpl F} {m : LEAP_CONNECTION_MESSAGE F}
    (h : (s.handleMessage cbs m).res = .ok t) :
    t = { s with lastDevice := t.lastDevice, lastFrame := t.lastFrame, hands_ := t.hands_,
                 frameBuffer_ := t.frameBuffer_ } := by
  have hrule := handleMessage_rule (s := s) (P := fun _ => True) (I := fun t => t = { s with
    lastDevice := t.lastDevice, lastFrame := t.lastFrame, hands_ := t.hands_, frameBuffer_ := t.frameBuffer_ }) cbs
    (fun u p hu => ⟨fun _ _ => trivial, fun v hv => by rw [setDevice_data hv, hu]⟩)
    (fun u f hu => ⟨fun _ _ => trivial, fun v hv => by rw [setFrame_data hv, hu]⟩)
    (fun u m arg hu => ⟨fun _ _ => trivial, fun v hv => by rw [runHandler_data hv, hu]⟩) rfl m
  exact hrule.2.2 t h

theorem handleMessage_keeps {cbs : CallBacks} {s t : LeapMotionV2WrapperImpl F} {m : LEAP_CONNECTION_MESSAGE F}
    (h : (s.handleMessage cbs m).res = .ok t) : t.inConncetion_ = s.inConncetion_ := by
  rw [handleMessage_data h]

/-- With no handler for `LEAP_DEVICE_INFO*`, a device message calls none; it changes
    `lastDevice` only, or faults in the copy of the serial. -/
theorem device_step {cbs : CallBacks} (hd : cbs [.ptr false .LEAP_DEVICE_INFO] "onDeviceFound" = none)
    (self : LeapMotionV2WrapperImpl F) (d : LEAP_DEVICE_EVENT F) :
    calls (self.handleDeviceEvent cbs d).out = [] ∧
    (∀ t, (self.handleDeviceEvent cbs d).res = .ok t → ∃ l, t = { self with lastDevice := l }) ∧
    ∀ e, (self.handleDeviceEvent cbs d).res = .error e → e = .outOfBounds .serial := by
  have hfound : ∀ p, calls (self.deviceFound cbs p).out = [] ∧
      (∀ t, (self.deviceFound cbs p).res = .ok t → ∃ l, t = { self with lastDevice := l }) ∧
      ∀ e, (self.deviceFound cbs p).res = .error e → e = .outOfBounds .serial := by
    intro p
    simp only [deviceFound, setDevice, handleCallback, hd]
    split
    · simp only [lift_ok_bind, pure_bind]
      exact ⟨rfl, fun t ht => by cases ht; exact ⟨_, rfl⟩, fun e he => by cases he⟩
    · simp only [lift_error_bind]
      exact ⟨rfl, fun t ht => (by cases ht), fun e he => (by cases he; rfl)⟩
  -- the opening, allocating and freeing around `deviceFound` are no calls
  have hpre : ∀ (w : LeapEv F) (x : Emit (LeapEv F) Fault (LeapMotionV2WrapperImpl F)), callOf w = none →
      (calls x.out = [] ∧ (∀ t, x.res = .ok t → ∃ l, t = { self with lastDevice := l }) ∧
        ∀ e, x.res = .error e → e = .outOfBounds .serial) →
      (calls (emit w >>= fun _ => x).out = [] ∧
        (∀ t, (emit w >>= fun _ => x).res = .ok t → ∃ l, t = { self with lastDevice := l }) ∧
        ∀ e, (emit w >>= fun _ => x).res = .error e → e = .outOfBounds .serial) := by
    intro w x hw hx
    rw [bind_of_ok (emit_res w)]
    refine ⟨?_, hx.2⟩
    simpa [calls, hw] using hx.1
  have hpure : calls (pure self : Emit (LeapEv F) Fault _).out = [] ∧
      (∀ t, (pure self : Emit (LeapEv F) Fault _).res = .ok t → ∃ l, t = { self with lastDevice := l }) ∧
      ∀ e, (pure self : Emit (LeapEv F) Fault (LeapMotionV2WrapperImpl F)).res = .error e → e = .outOfBounds .serial :=
    ⟨rfl, fun t ht => by cases ht; exact ⟨_, rfl⟩, fun e he => by cases he⟩
  unfold handleDeviceEvent
  split
  · exact hpure
  · refine hpre _ _ rfl (hpre _ _ rfl ?_)
    simp only []
    split
    · split
      · exact hpre _ _ rfl hpure
      · exact hfound _
    · exact hfound _

/-- One message calls what `dispatched` says, and keeps the address, the two-hand
    allocation and the connection flag. -/
theorem message_step {cbs : CallBacks} {s : LeapMotionV2WrapperImpl F} (hb : Bound cbs s.addr) (h2 : TwoHands s)
    (m : LEAP_CONNECTION_MESSAGE F) :
    calls (s.handleMessage cbs m).out = dispatched s.addr m ∧
    ∀ t, (s.handleMessage cbs m).res = .ok t →
      t.addr = s.addr ∧ TwoHands t ∧ t.inConncetion_ = s.inConncetion_ ∧
      ∀ f, m = .tracking f → f.nHands ≤ 2 := by
  have keep : ∀ {u t : LeapMotionV2WrapperImpl F}, TwoHands u →
      t.addr = u.addr ∧ t.lastFrame = u.lastFrame ∧ t.inConncetion_ = u.inConncetion_ →
      t.addr = u.addr ∧ TwoHands t ∧ t.inConncetion_ = u.inConncetion_ := fun hu ⟨ha, hl, hc⟩ =>
    ⟨ha, fun l h => hu l (by rw [← hl]; exact h), hc⟩
  cases m with
  | connection =>
    refine ⟨callback_calls s hb.connect .none, fun t ht => ?_⟩
    obtain ⟨ha, h2', hc⟩ := keep h2 (callback_keeps ht)
    exact ⟨ha, h2', hc, fun f e => by cases e⟩
  | connectionLost =>
    refine ⟨callback_calls s hb.lost .none, fun t ht => ?_⟩
    obtain ⟨ha, h2', hc⟩ := keep h2 (callback_keeps ht)
    exact ⟨ha, h2', hc, fun f e => by cases e⟩
  | device d =>
    obtain ⟨hcalls, hok, -⟩ := device_step hb.device s d
    refine ⟨hcalls, fun t ht => ?_⟩
    obtain ⟨l, rfl⟩ := hok t ht
    exact ⟨rfl, h2, rfl, fun f e => by cases e⟩
  | tracking f =>
    simp only [handleMessage, handleTrackingEvent, dispatched]
    by_cases hf : f.nHands ≤ 2
    · obtain ⟨l, hl, hset⟩ := (setFrame_spec h2 f).1 hf
      simp only [hset, lift_ok_bind, hf, if_true]
      refine ⟨callback_calls _ hb.frame _, fun t ht => ?_⟩
      have hkeep := callback_keeps ht
      obtain ⟨ha, h2', hc⟩ := keep (u := s.framed l) (fun l' h => by cases h; exact hl) hkeep
      exact ⟨ha, h2', hc, fun f' e => by cases e; exact hf⟩
    · simp only [(setFrame_spec h2 f).2 hf, lift_error_bind, hf, if_false]
      exact ⟨rfl, fun t ht => by cases ht⟩
  | other k => exact ⟨rfl, fun t ht => by cases ht; exact ⟨rfl, h2, rfl, fun f e => by cases e⟩⟩

/-! ## Message sequences -/

def messagesRun (w : Registered F) (ms : List (LEAP_CONNECTION_MESSAGE F)) :
    Emit (LeapEv F) Fault (LeapMotionV2WrapperImpl F) :=
  runs (fun s m => s.handleMessage w.2 m) w.1 ms

/-- The loop polls a message only once the ones before it have been handled. -/
def Polled (w : Registered F) (ms : List (LEAP_CONNECTION_MESSAGE F)) : Prop :=
  ∀ hs m, ms = hs ++ [m] → ∃ s, (messagesRun w hs).res = .ok s

theorem messages_calls {w : Registered F} (hb : Bound w.2 w.1.addr) (h2 : TwoHands w.1)
    {ms : List (LEAP_CONNECTION_MESSAGE F)} {t : LeapMotionV2WrapperImpl F} (h : (messagesRun w ms).res = .ok t) :
    calls (messagesRun w ms).out = ms.flatMap (dispatched w.1.addr) ∧ t.addr = w.1.addr ∧ TwoHands t := by
  refine runs_trace (fun (s : LeapMotionV2WrapperImpl F) m => s.handleMessage w.2 m)
    (J := fun ms out s => calls out = ms.flatMap (dispatched w.1.addr) ∧ s.addr = w.1.addr ∧ TwoHands s)
    (fun ms out s m t ⟨hc, ha, hs2⟩ ht => ?_) ⟨rfl, rfl, h2⟩ h
  obtain ⟨hcalls, hok⟩ := message_step (ha ▸ hb) hs2 m
  obtain ⟨ha', h2', -⟩ := hok t ht
  refine ⟨?_, ha'.trans ha, h2'⟩
  simp only [calls, List.filterMap_append, List.flatMap_append, List.flatMap_cons, List.flatMap_nil, List.append_nil]
    at hc hcalls ⊢
  rw [hc, hcalls, ha]

/-- The calls of every polled sequence. -/
theorem polled_calls {w : Registered F} (hb : Bound w.2 w.1.addr) (h2 : TwoHands w.1)
    {ms : List (LEAP_CONNECTION_MESSAGE F)} (hp : Polled w ms) :
    calls (messagesRun w ms).out = ms.flatMap (dispatched w.1.addr) := by
  rcases List.eq_nil_or_concat ms with rfl | ⟨hs, m, rfl⟩
  · rfl
  rw [List.concat_eq_append] at hp ⊢
  obtain ⟨s, hs'⟩ := hp hs m rfl
  obtain ⟨hc, ha, hs2⟩ := messages_calls hb h2 hs'
  have hlast := (message_step (ha ▸ hb) hs2 m).1
  unfold messagesRun at hs' hc ⊢
  rw [runs_snoc, bind_of_ok hs']
  simp only [calls, List.filterMap_append, List.flatMap_append, List.flatMap_cons, List.flatMap_nil, List.append_nil]
    at hc hlast ⊢
  rw [hc, hlast, ha]

/-- A message goes where it should: its info was not read, or it is no device message;
    and it fits `setFrame`'s allocation, or is no tracking event. -/
def Routed : LEAP_CONNECTION_MESSAGE F → Prop
  | .device d => readDevice d = none
  | .tracking f => f.nHands ≤ 2
  | _ => True

theorem dispatched_length_le (addr : Nat) (m : LEAP_CONNECTION_MESSAGE F) :
    (dispatched addr m).length ≤ (expected addr m).length := by
  cases m <;> simp only [dispatched, expected, List.length_nil, Nat.zero_le, Nat.le_refl]
  split <;> simp

theorem dispatched_eq_iff (addr : Nat) (m : LEAP_CONNECTION_MESSAGE F) :
    (dispatched addr m).length = (expected addr m).length ↔ Routed m := by
  cases m with
  | device d => cases h : readDevice d <;> simp [dispatched, expected, Routed, h]
  | tracking f => by_cases h : f.nHands ≤ 2 <;> simp [dispatched, expected, Routed, h]
  | _ => simp [dispatched, expected, Routed]

theorem routed_dispatched (addr : Nat) {m : LEAP_CONNECTION_MESSAGE F} (h : Routed m) :
    dispatched addr m = expected addr m := by
  cases m with
  | device d => simp only [Routed] at h; simp [dispatched, expected, h]
  | tracking f => simp only [Routed] at h; simp [dispatched, expected, h]
  | _ => rfl

theorem flatMap_dispatched_iff (addr : Nat) (ms : List (LEAP_CONNECTION_MESSAGE F)) :
    ms.flatMap (dispatched addr) = ms.flatMap (expected addr) ↔ ∀ m ∈ ms, Routed m := by
  have hle : ∀ ms : List (LEAP_CONNECTION_MESSAGE F),
      (ms.flatMap (dispatched addr)).length ≤ (ms.flatMap (expected addr)).length := by
    intro ms
    induction ms with
    | nil => exact Nat.le_refl _
    | cons m ms ih =>
      simp only [List.flatMap_cons, List.length_append]
      exact Nat.add_le_add (dispatched_length_le addr m) ih
  induction ms with
  | nil => simp
  | cons m ms ih =>
    simp only [List.flatMap_cons, List.forall_mem_cons]
    constructor
    · intro h
      have hlen := congrArg List.length h
      have h1 := dispatched_length_le addr m
      have h2 := hle ms
      simp only [List.length_append] at hlen
      have hm : (dispatched addr m).length = (expected addr m).length := by omega
      exact ⟨(dispatched_eq_iff addr m).mp hm, ih.mp (List.append_inj h hm).2⟩
    · rintro ⟨hm, hms⟩
      rw [routed_dispatched addr hm, ih.mpr hms]

/-- The calls of a polled sequence are the expected ones exactly when no device info was
    read and no event has more hands than `setFrame` allocates. -/
theorem dispatch_iff {self : LeapMotionV2WrapperImpl F} (h2 : TwoHands self)
    {ms : List (LEAP_CONNECTION_MESSAGE F)} (hp : Polled (initializeImpl (self, fun _ _ => none)) ms) :
    calls (messagesRun (initializeImpl (self, fun _ _ => none)) ms).out = ms.flatMap (expected self.addr) ↔
      (∀ d, .device d ∈ ms → readDevice d = none) ∧ ∀ f, .tracking f ∈ ms → f.nHands ≤ 2 := by
  rw [polled_calls (initialize_bound self) h2 hp]
  refine (flatMap_dispatched_iff self.addr ms).trans ⟨fun h => ⟨fun d hd => h _ hd, fun f hf => h _ hf⟩, ?_⟩
  rintro ⟨hd, hf⟩ m hm
  cases m with
  | device d => exact hd d hm
  | tracking f => exact hf f hm
  | _ => trivial

/-- A device that opens, asks for three bytes of serial and is then read. -/
def attached : LEAP_DEVICE_EVENT ℚ where
  openRetval := .eLeapRS_Success
  first := ⟨.eLeapRS_InsufficientBuffer, { LEAP_DEVICE_INFO.zero with serial_length := 3 }⟩
  second := ⟨.eLeapRS_Success,
    { LEAP_DEVICE_INFO.zero with serial_length := 3, serial := [some 76, some 80, some 0] }⟩

theorem single_polled (m : LEAP_CONNECTION_MESSAGE ℚ) : Polled started [m] := by
  intro hs m' e
  cases hs with
  | nil => exact ⟨_, rfl⟩
  | cons h hs => simp at e

theorem dispatch_one_frame :
    calls (messagesRun started [.tracking (eventOf [flatHand])]).out =
        [.tracking (eventOf [flatHand])].flatMap (expected 0) ↔
      (∀ d, .device d ∈ [LEAP_CONNECTION_MESSAGE.tracking (eventOf [flatHand])] → readDevice d = none) ∧
        ∀ f, .tracking f ∈ [LEAP_CONNECTION_MESSAGE.tracking (eventOf [flatHand])] → f.nHands ≤ 2 :=
  dispatch_iff (make_unframed 0 0).lastFrame (single_polled _)

/-- The info of a device that is found is read, and `onDeviceFound` is not called. -/
theorem a_found_device_reaches_no_handler :
    Polled started [.device attached] ∧ (readDevice attached).isSome = true ∧
      calls (messagesRun started [.device attached]).out ≠ [.device attached].flatMap (expected 0) := by
  refine ⟨single_polled _, rfl, fun h => ?_⟩
  have hlen := congrArg List.length h
  exact absurd hlen (by decide)

end LeapMotionV2WrapperImpl

end LeapSyncFfh
