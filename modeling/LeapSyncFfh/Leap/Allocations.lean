/-
  LeapSyncFfh.Leap.Allocations — the blocks that the wrapper allocates.

  `Allocated` is the wrapper with a heap and the addresses behind its two pointers:
  `lastFrame` with the array of its `pHands`, `lastDevice` with its `serial`. Its operations
  are those of the wrapper with their `malloc`, `realloc` and `free`; a `free` of what is not
  live ends them with `badFree`.

  Handling messages never frees a block twice, and however many are handled the wrapper
  holds at most these four blocks (`Laid`): the second pair of a kind takes the place of the
  first, and the serial of a call's properties is freed in it. The destructor frees the two
  structs and not what they point to, so the hands of the last frame and the serial of the
  last device are what is left behind (`heap_accounted`).
-/

import LeapSyncFfh.Leap.Devices
import LeapSyncFfh.Lib.Follows
import LeapSyncFfh.Lib.Heap

namespace LeapSyncFfh

open Cells Emit

variable {F : Type}

inductive MemFault where
  | fault (f : Fault)
  | badFree
  deriving DecidableEq, Repr

structure Allocated (F : Type) where
  self : LeapMotionV2WrapperImpl F
  heap : Heap
  /-- The struct and its `pHands`. -/
  lastFrame : Option (Nat × Nat) := none
  /-- The struct and its `serial`. -/
  lastDevice : Option (Nat × Nat) := none

namespace Allocated

/-- The wrapper's own part of an operation. -/
def run {α : Type} (x : Emit (LeapEv F) Fault α) : Emit (LeapEv F) MemFault α := mapError .fault x

def free (heap : Heap) (a : Nat) : Emit (LeapEv F) MemFault Heap :=
  match heap.free a with
  | some heap => pure heap
  | none => fail .badFree

def realloc (heap : Heap) (a : Nat) : Emit (LeapEv F) MemFault (Nat × Heap) :=
  match heap.realloc a with
  | some r => pure r
  | none => fail .badFree

/-- `if (!lastFrame)`: the struct and its two hands. -/
def frameBlocks (s : Allocated F) : (Nat × Nat) × Heap :=
  match s.lastFrame with
  | some p => (p, s.heap)
  | none =>
    let frame := s.heap.malloc
    let pHands := frame.2.malloc
    ((frame.1, pHands.1), pHands.2)

/-- `if (lastDevice)`: the old serial goes, or the struct is allocated. -/
def deviceBlock (s : Allocated F) : Emit (LeapEv F) MemFault (Nat × Heap) :=
  match s.lastDevice with
  | some (device, serial) => do
    let heap ← free s.heap serial
    pure (device, heap)
  | none => pure s.heap.malloc

def setDevice (s : Allocated F) (deviceProps : LEAP_DEVICE_INFO F) : Emit (LeapEv F) MemFault (Allocated F) := do
  let device ← s.deviceBlock
  let serial := device.2.malloc
  let self ← run (lift (s.self.setDevice deviceProps))
  pure { s with self := self, heap := serial.2, lastDevice := some (device.1, serial.1) }

section Messages

variable [Zero F]

def setFrame (s : Allocated F) (frame : LEAP_TRACKING_EVENT F) : Emit (LeapEv F) MemFault (Allocated F) := do
  let lastFrame := s.frameBlocks
  let self ← run (lift (s.self.setFrame frame))
  pure { s with self := self, heap := lastFrame.2, lastFrame := some lastFrame.1 }

/-- `buffer` is the serial of `deviceProperties`. -/
def deviceFound (cbs : CallBacks) (s : Allocated F) (deviceProperties : LEAP_DEVICE_INFO F) (buffer : Nat) :
    Emit (LeapEv F) MemFault (Allocated F) := do
  let s ← s.setDevice deviceProperties
  let self ← run (s.self.handleCallback cbs "onDeviceFound" [.ptr false .LEAP_DEVICE_INFO] (.device deviceProperties))
  emit .freeSerial
  let heap ← free s.heap buffer
  emit .closeDevice
  pure { s with self := self, heap := heap }

def handleDeviceEvent (cbs : CallBacks) (s : Allocated F) (device_event : LEAP_DEVICE_EVENT F) :
    Emit (LeapEv F) MemFault (Allocated F) :=
  if device_event.openRetval ≠ .eLeapRS_Success then pure s
  else do
    emit .openDevice
    emit .mallocSerial
    let buffer := s.heap.malloc
    let deviceProperties := { LEAP_DEVICE_INFO.zero with serial_length := 1, serial := [none] }
    let (retval, deviceProperties) := LeapGetDeviceInfo device_event.first deviceProperties
    if retval = .eLeapRS_InsufficientBuffer then do
      let buffer ← realloc buffer.2 buffer.1
      let deviceProperties :=
        { deviceProperties with serial := resize none deviceProperties.serial deviceProperties.serial_length }
      let (retval, deviceProperties) := LeapGetDeviceInfo device_event.second deviceProperties
      if retval ≠ .eLeapRS_Success then do
        emit .freeSerial
        let heap ← free buffer.2 buffer.1
        pure { s with heap := heap }
      else deviceFound cbs { s with heap := buffer.2 } deviceProperties buffer.1
    else deviceFound cbs { s with heap := buffer.2 } deviceProperties buffer.1

def handleTrackingEvent (cbs : CallBacks) (s : Allocated F) (tracking_event : LEAP_TRACKING_EVENT F) :
    Emit (LeapEv F) MemFault (Allocated F) := do
  let s ← s.setFrame tracking_event
  let self ← run (s.self.handleCallback cbs "onFrame" [.ptr true .LEAP_TRACKING_EVENT] (.tracking tracking_event))
  pure { s with self := self }

def handleMessage (cbs : CallBacks) (s : Allocated F) : LEAP_CONNECTION_MESSAGE F → Emit (LeapEv F) MemFault (Allocated F)
  | .device device_event => handleDeviceEvent cbs s device_event
  | .tracking tracking_event => s.handleTrackingEvent cbs tracking_event
  | m => do
    let self ← run (s.self.handleMessage cbs m)
    pure { s with self := self }

end Messages

/-- The blocks of one pointer. -/
def pair : Option (Nat × Nat) → List Nat
  | some (struct_, array) => [struct_, array]
  | none => []

def array : Option (Nat × Nat) → List Nat
  | some (_, array) => [array]
  | none => []

/-- `if (p) free(p)`. -/
def freeStruct (heap : Heap) : Option (Nat × Nat) → Emit (LeapEv F) MemFault Heap
  | some (struct_, _) => free heap struct_
  | none => pure heap

/-- `~LeapMotionV2WrapperImpl`: what is left of the heap. -/
def destroy (s : Allocated F) : Emit (LeapEv F) MemFault Heap := do
  let heap ← freeStruct s.heap s.lastFrame
  freeStruct heap s.lastDevice

/-- The wrapper's blocks. -/
def blocks (s : Allocated F) : List Nat := pair s.lastFrame ++ pair s.lastDevice

/-! ## What a call keeps -/

/-- The live blocks are the wrapper's and the program's others, and each pointer is set where
    the wrapper has the data. -/
structure Laid (others : List Nat) (s : Allocated F) (w : LeapMotionV2WrapperImpl F) : Prop where
  self : s.self = w
  owns : s.heap.Owns (s.blocks ++ others)
  frame : s.lastFrame.isSome = w.lastFrame.isSome
  device : s.lastDevice.isSome = w.lastDevice.isSome

variable {others : List Nat} {s : Allocated F} {w : LeapMotionV2WrapperImpl F}

theorem free_owned {heap : Heap} {a : Nat} {as : List Nat} (h : heap.Owns (a :: as)) :
    ∃ heap', (free heap a : Emit (LeapEv F) MemFault Heap) = pure heap' ∧ heap'.Owns as := by
  obtain ⟨heap', hfree, howns⟩ := Heap.owns_free h
  exact ⟨heap', by rw [free, hfree], howns⟩

theorem realloc_owned {heap : Heap} {a : Nat} {as : List Nat} (h : heap.Owns (a :: as)) :
    ∃ r, (realloc heap a : Emit (LeapEv F) MemFault (Nat × Heap)) = pure r ∧ r.2.Owns (r.1 :: as) := by
  obtain ⟨b, heap', hrealloc, howns⟩ := Heap.owns_realloc h
  exact ⟨(b, heap'), by rw [realloc, hrealloc], howns⟩

theorem frameBlocks_owns (h : Laid others s w) :
    s.frameBlocks.2.Owns ([s.frameBlocks.1.1, s.frameBlocks.1.2] ++ pair s.lastDevice ++ others) := by
  have howns := h.owns
  unfold frameBlocks
  cases hf : s.lastFrame with
  | some p => simpa [blocks, hf, pair] using howns
  | none =>
    simp only [blocks, hf, pair, List.nil_append] at howns
    exact (Heap.owns_malloc (Heap.owns_malloc howns)).perm (.swap _ _ _)

theorem deviceBlock_owns (h : Laid others s w) :
    ∃ r, s.deviceBlock = pure r ∧ r.2.Owns (r.1 :: (pair s.lastFrame ++ others)) := by
  have howns := h.owns
  unfold deviceBlock
  cases hd : s.lastDevice with
  | some p =>
    have hserial : s.heap.Owns (p.2 :: p.1 :: (pair s.lastFrame ++ others)) := by
      refine howns.perm (List.perm_iff_count.mpr fun a => ?_)
      simp only [blocks, hd, pair, List.count_cons, List.count_append, List.count_nil]
      omega
    obtain ⟨heap', hfree, howns'⟩ := free_owned (F := F) hserial
    refine ⟨(p.1, heap'), ?_, howns'⟩
    simp only [hfree, pure_bind]
  | none =>
    simp only [blocks, hd, pair, List.append_nil] at howns
    exact ⟨_, rfl, Heap.owns_malloc howns⟩

theorem setDevice_follows (h : Laid others s w) (p : LEAP_DEVICE_INFO F) :
    Follows .fault (Laid others) (s.setDevice p) (lift (w.setDevice p)) := by
  obtain ⟨r, hr, howns⟩ := deviceBlock_owns h
  obtain rfl := h.self
  rw [setDevice, hr, pure_bind]
  refine follows_then fun u hu => follows_pure ⟨rfl, ?_, ?_, ?_⟩
  · refine (Heap.owns_malloc howns).perm (List.perm_iff_count.mpr fun a => ?_)
    simp only [blocks, pair, List.count_cons, List.count_append, List.count_nil]
    omega
  · rw [show u.lastFrame = s.self.lastFrame from by rw [LeapMotionV2WrapperImpl.setDevice_data hu]]
    exact h.frame
  · simp only [lift_res, LeapMotionV2WrapperImpl.setDevice] at hu
    split at hu
    · cases hu
      rfl
    · cases hu

section Messages

variable [Zero F]

theorem setFrame_follows (h : Laid others s w) (f : LEAP_TRACKING_EVENT F) :
    Follows .fault (Laid others) (s.setFrame f) (lift (w.setFrame f)) := by
  have howns := frameBlocks_owns h
  obtain rfl := h.self
  refine follows_then fun u hu => follows_pure ⟨rfl, howns, ?_, ?_⟩
  · simp only [lift_res, LeapMotionV2WrapperImpl.setFrame, bind, Except.bind] at hu
    split at hu
    · cases hu
    · cases hu
      rfl
  · rw [show u.lastDevice = s.self.lastDevice from by rw [LeapMotionV2WrapperImpl.setFrame_data hu]]
    exact h.device

/-- A handler call touches neither pointer. -/
theorem callback_follows (h : Laid others s w) (cbs : CallBacks) (name : String) (Args : List CppType) (arg : CallArg F) :
    Follows .fault (fun self v => self = v ∧ Laid others { s with self := self } v)
      (run (s.self.handleCallback cbs name Args arg)) (w.handleCallback cbs name Args arg) := by
  obtain rfl := h.self
  rw [run, ← bind_pure (mapError _ _)]
  refine follows_then fun u hu => follows_pure ⟨rfl, rfl, h.owns, ?_, ?_⟩
  · rw [LeapMotionV2WrapperImpl.callback_data hu]
    exact h.frame
  · rw [LeapMotionV2WrapperImpl.callback_data hu]
    exact h.device

/-- `buffer` is one of the others until it is freed. -/
theorem deviceFound_follows {buffer : Nat} (h : Laid (buffer :: others) s w) (cbs : CallBacks) (p : LEAP_DEVICE_INFO F) :
    Follows .fault (Laid others) (deviceFound cbs s p buffer) (w.deviceFound cbs p) := by
  refine follows_bind (setDevice_follows h p) fun s' w' h' => ?_
  refine follows_bind (callback_follows h' cbs _ _ _) ?_
  rintro self _ ⟨rfl, hu⟩
  refine follows_bind (follows_emit _) fun _ _ _ => ?_
  have hbuffer : s'.heap.Owns (buffer :: (s'.blocks ++ others)) := by
    refine hu.owns.perm (List.perm_iff_count.mpr fun a => ?_)
    simp only [blocks, List.count_cons, List.count_append]
    omega
  obtain ⟨heap', hfree, howns⟩ := free_owned (F := F) hbuffer
  rw [hfree, pure_bind]
  exact follows_bind (follows_emit _) fun _ _ _ => follows_pure ⟨rfl, howns, hu.frame, hu.device⟩

theorem handleDeviceEvent_follows (h : Laid others s w) (cbs : CallBacks) (d : LEAP_DEVICE_EVENT F) :
    Follows .fault (Laid others) (handleDeviceEvent cbs s d) (w.handleDeviceEvent cbs d) := by
  unfold handleDeviceEvent LeapMotionV2WrapperImpl.handleDeviceEvent
  split
  · exact follows_pure h
  refine follows_bind (follows_emit _) fun _ _ _ => follows_bind (follows_emit _) fun _ _ _ => ?_
  have hbuffer := Heap.owns_malloc h.owns
  -- the wrapper with a buffer among the others
  have with_ : ∀ {b : Nat × Heap}, b.2.Owns (b.1 :: (s.blocks ++ others)) →
      Laid (b.1 :: others) { s with heap := b.2 } w := by
    intro b hb
    refine ⟨h.self, hb.perm (List.perm_iff_count.mpr fun a => ?_), h.frame, h.device⟩
    simp only [blocks, List.count_cons, List.count_append]
    omega
  simp only []
  split
  · obtain ⟨b, hr, hb⟩ := realloc_owned (F := F) hbuffer
    rw [hr, pure_bind]
    split
    · refine follows_bind (follows_emit _) fun _ _ _ => ?_
      obtain ⟨heap', hfree, howns⟩ := free_owned (F := F) hb
      rw [hfree, pure_bind]
      exact follows_pure ⟨h.self, howns, h.frame, h.device⟩
    · exact deviceFound_follows (with_ hb) cbs _
  · exact deviceFound_follows (with_ hbuffer) cbs _

theorem handleMessage_follows (h : Laid others s w) (cbs : CallBacks) (m : LEAP_CONNECTION_MESSAGE F) :
    Follows .fault (Laid others) (s.handleMessage cbs m) (w.handleMessage cbs m) := by
  have callback : ∀ name Args arg, Follows .fault (Laid others)
      (run (s.self.handleCallback cbs name Args arg) >>= fun self => pure { s with self := self })
      (w.handleCallback cbs name Args arg) := by
    intro name Args arg
    refine follows_more (callback_follows h cbs name Args arg) ?_
    rintro self _ ⟨rfl, hu⟩
    exact follows_pure hu
  cases m with
  | connection => exact callback _ _ _
  | connectionLost => exact callback _ _ _
  | device d => exact handleDeviceEvent_follows h cbs d
  | tracking f =>
    refine follows_bind (setFrame_follows h f) fun s' w' h' => ?_
    refine follows_more (callback_follows h' cbs _ _ _) ?_
    rintro self _ ⟨rfl, hu⟩
    exact follows_pure hu
  | other k =>
    obtain rfl := h.self
    exact follows_pure ⟨rfl, h.owns, h.frame, h.device⟩

/-! ## Every run -/

/-- The message makes the wrapper copy a frame. -/
def copies : LEAP_CONNECTION_MESSAGE F → Bool
  | .tracking _ => true
  | _ => false

/-- The message makes it store a device: `LeapGetDeviceInfo` was not asked again, or then
    succeeded. -/
def stores : LEAP_CONNECTION_MESSAGE F → Bool
  | .device d => d.openRetval = .eLeapRS_Success ∧
    (d.first.retval = .eLeapRS_InsufficientBuffer → d.second.retval = .eLeapRS_Success)
  | _ => false

theorem openedWith_sets {cbs : CallBacks} {t : LeapMotionV2WrapperImpl F} {p : LEAP_DEVICE_INFO F}
    (h : (w.openedWith cbs p).res = .ok t) : t.lastFrame = w.lastFrame ∧ t.lastDevice.isSome = true := by
  rw [LeapMotionV2WrapperImpl.openedWith_eq] at h
  split at h
  · cases h
    exact ⟨rfl, rfl⟩
  · cases h

theorem message_sets {cbs : CallBacks} {t : LeapMotionV2WrapperImpl F} {m : LEAP_CONNECTION_MESSAGE F}
    (h : (w.handleMessage cbs m).res = .ok t) : t.lastFrame.isSome = (w.lastFrame.isSome || copies m) ∧
      t.lastDevice.isSome = (w.lastDevice.isSome || stores m) := by
  have callback : ∀ {u : LeapMotionV2WrapperImpl F} {name Args arg}, (u.handleCallback cbs name Args arg).res = .ok t →
      t.lastFrame = u.lastFrame ∧ t.lastDevice = u.lastDevice := by
    intro u name Args arg h
    rw [LeapMotionV2WrapperImpl.callback_data h]
    exact ⟨rfl, rfl⟩
  cases m with
  | connection =>
    obtain ⟨hf, hd⟩ := callback h
    simp [hf, hd, copies, stores]
  | connectionLost =>
    obtain ⟨hf, hd⟩ := callback h
    simp [hf, hd, copies, stores]
  | tracking f =>
    obtain ⟨u, hu, h⟩ := bind_res_ok.mp h
    obtain ⟨hf, hd⟩ := callback h
    rw [hf, hd, show u.lastDevice = w.lastDevice from by rw [LeapMotionV2WrapperImpl.setFrame_data hu]]
    simp only [lift_res, LeapMotionV2WrapperImpl.setFrame, bind, Except.bind] at hu
    split at hu
    · cases hu
    · cases hu
      simp [copies, stores]
  | device d =>
    rw [LeapMotionV2WrapperImpl.handleMessage] at h
    rcases LeapMotionV2WrapperImpl.device_cases cbs w d with ⟨hopen, heq⟩ | ⟨hopen, hfirst, heq⟩ |
      ⟨hopen, hfirst, hsecond, heq⟩ | ⟨hopen, hfirst, hsecond, heq⟩
    · rw [heq] at h
      cases h
      simp [copies, stores, hopen]
    · rw [heq] at h
      obtain ⟨hf, hd⟩ := openedWith_sets h
      simp [copies, stores, hf, hd, hopen, hfirst]
    · rw [heq] at h
      cases h
      simp [copies, stores, hfirst, hsecond]
    · rw [heq] at h
      obtain ⟨hf, hd⟩ := openedWith_sets h
      simp [copies, stores, hf, hd, hopen, hsecond]
  | other k =>
    cases h
    simp [copies, stores]

theorem run_sets {cbs : CallBacks} {ms : List (LEAP_CONNECTION_MESSAGE F)} {w t : LeapMotionV2WrapperImpl F}
    (h : (runs (LeapMotionV2WrapperImpl.handleMessage cbs) w ms).res = .ok t) :
    t.lastFrame.isSome = (w.lastFrame.isSome || ms.any copies) ∧
      t.lastDevice.isSome = (w.lastDevice.isSome || ms.any stores) := by
  induction ms generalizing w with
  | nil =>
    cases h
    simp
  | cons m ms ih =>
    obtain ⟨u, hu, h⟩ := bind_res_ok.mp h
    obtain ⟨hf, hd⟩ := ih h
    obtain ⟨huf, hud⟩ := message_sets hu
    simp [hf, hd, huf, hud, Bool.or_assoc]

omit [Zero F] in
theorem freeStruct_owned {heap : Heap} {p : Option (Nat × Nat)} {as : List Nat} (h : heap.Owns (pair p ++ as)) :
    ∃ heap', (freeStruct heap p : Emit (LeapEv F) MemFault Heap) = pure heap' ∧ heap'.Owns (array p ++ as) := by
  cases p with
  | none => exact ⟨heap, rfl, h⟩
  | some p => exact free_owned h

omit [Zero F] in
/-- Each pointer that is set leaves its array behind. -/
theorem destroy_leaves (h : Laid others s w) :
    ∃ heap, s.destroy.res = .ok heap ∧ heap.Owns (array s.lastDevice ++ (array s.lastFrame ++ others)) := by
  have howns := h.owns
  rw [blocks, List.append_assoc] at howns
  obtain ⟨heap, hfree, howns⟩ := freeStruct_owned (F := F) howns
  have hdevice : heap.Owns (pair s.lastDevice ++ (array s.lastFrame ++ others)) := by
    refine howns.perm (List.perm_iff_count.mpr fun a => ?_)
    simp only [List.count_append]
    omega
  obtain ⟨heap', hfree', howns'⟩ := freeStruct_owned (F := F) hdevice
  exact ⟨heap', by rw [destroy, hfree, pure_bind, hfree']; rfl, howns'⟩

omit [Zero F] in
theorem pair_length (p : Option (Nat × Nat)) : (pair p).length = 2 * p.isSome.toNat := by cases p <;> rfl

omit [Zero F] in
theorem array_length (p : Option (Nat × Nat)) : (array p).length = p.isSome.toNat := by cases p <;> rfl

/-- A wrapper that handles any messages emits and returns what it does without its heap, and
    never frees a block that is not live. The live blocks are its own and the `others`: two
    behind `lastFrame` once a frame was copied, two behind `lastDevice` once a device was
    stored. Once destroyed it has left the hands of the frame and the serial of the device. -/
theorem heap_accounted (cbs : CallBacks) (addr handle : Nat) {heap : Heap} {others : List Nat} (hheap : heap.Owns others)
    (ms : List (LEAP_CONNECTION_MESSAGE F)) :
    let start : Allocated F := { self := .make addr handle, heap := heap }
    let plain := runs (LeapMotionV2WrapperImpl.handleMessage cbs) (.make addr handle) ms
    (runs (handleMessage cbs) start ms).out = plain.out ∧ (runs (handleMessage cbs) start ms).res ≠ .error .badFree ∧
      ∀ t, (runs (handleMessage cbs) start ms).res = .ok t → plain.res = .ok t.self ∧
        (t.lastFrame.isSome = ms.any copies ∧ t.lastDevice.isSome = ms.any stores ∧ t.heap.Owns (t.blocks ++ others) ∧
          t.heap.live.length = others.length + 2 * ((ms.any copies).toNat + (ms.any stores).toNat)) ∧
        ∃ left, t.destroy.res = .ok left ∧ left.Owns (array t.lastDevice ++ (array t.lastFrame ++ others)) ∧
          left.live.length = others.length + ((ms.any copies).toNat + (ms.any stores).toNat) := by
  intro start plain
  have hstart : Laid others start (.make addr handle) := ⟨rfl, hheap, rfl, rfl⟩
  have hruns : Follows .fault (Laid others) (runs (handleMessage cbs) start ms) plain :=
    follows_runs (fun s w m h => handleMessage_follows h cbs m) ms hstart
  refine ⟨hruns.out, fun hbad => ?_, fun t ht => ?_⟩
  · obtain ⟨e, -, he⟩ := hruns.renamed hbad
    cases he
  · obtain ⟨w, hw, hlaid⟩ := hruns.returned ht
    obtain ⟨hf, hd⟩ := run_sets hw
    have hframe : t.lastFrame.isSome = ms.any copies := by rw [hlaid.frame, hf]; rfl
    have hdevice : t.lastDevice.isSome = ms.any stores := by rw [hlaid.device, hd]; rfl
    obtain ⟨left, hleft, howns⟩ := destroy_leaves hlaid
    refine ⟨by rw [hlaid.self]; exact hw, ⟨hframe, hdevice, hlaid.owns, ?_⟩, left, hleft, howns, ?_⟩
    · rw [hlaid.owns.live.length_eq, blocks]
      simp only [List.length_append, pair_length, hframe, hdevice]
      omega
    · rw [howns.live.length_eq]
      simp only [List.length_append, array_length, hframe, hdevice]
      omega

end Messages

open LeapMotionV2WrapperImpl (eventOf flatHand attached)

/-- Two frames with a hand and two device events: the hands of the second frame and the serial
    of the second event are left. -/
theorem two_blocks_are_left :
    ∃ (t : Allocated ℚ) (left : Heap),
      (runs (handleMessage fun _ _ => none) { self := .make 0 0, heap := {} }
        [.tracking (eventOf [flatHand]), .device attached, .tracking (eventOf [flatHand]), .device attached]).res = .ok t ∧
      t.destroy.res = .ok left ∧ left.Owns (array t.lastDevice ++ array t.lastFrame) ∧ left.live.length = 2 := by
  have hrun : ∃ t : Allocated ℚ, (runs (handleMessage fun _ _ => none) { self := .make 0 0, heap := {} }
      [.tracking (eventOf [flatHand]), .device attached, .tracking (eventOf [flatHand]), .device attached]).res = .ok t :=
    ⟨_, rfl⟩
  obtain ⟨t, ht⟩ := hrun
  obtain ⟨-, -, left, hleft, howns, hlen⟩ := (heap_accounted _ 0 0 Heap.owns_empty _).2.2 t ht
  rw [List.append_nil] at howns
  exact ⟨t, left, ht, hleft, howns, hlen⟩

end Allocated

end LeapSyncFfh
