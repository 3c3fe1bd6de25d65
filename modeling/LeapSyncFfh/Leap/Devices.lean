/-
  LeapSyncFfh.Leap.Devices — what `handleDeviceEvent` opens, allocates and stores, for any
  answers of LeapC.

  `Handled` is the law of one call: the device it opened is closed and the buffer of the
  serial is freed, each once, before it returns; and the last device is the one that LeapC
  reported, with its whole serial, or it is as before and no handler was called. It is asked
  under every registry, so that the dispatch itself is seen.

  The call gets it right when the device does not open, and when the properties arrive in a
  buffer that holds them (`ReadWhole`). The retry that fails returns without closing the
  device; a first answer that is an error other than `InsufficientBuffer` goes on as if it
  had been a success; and a serial longer than its buffer is copied from behind it
  (`devices_handled_iff`).
-/

import LeapSyncFfh.Leap.Dispatch

namespace LeapSyncFfh

open Cells Emit

variable {F : Type}

/-! ## The law -/

/-- What a call has opened and allocated and not released. -/
structure Resources where
  devices : Nat := 0
  serials : Nat := 0
  deriving DecidableEq, Repr

def Resources.next (g : Resources) : LeapEv F → Resources
  | .openDevice => { g with devices := g.devices + 1 }
  | .closeDevice => { g with devices := g.devices - 1 }
  | .mallocSerial => { g with serials := g.serials + 1 }
  | .freeSerial => { g with serials := g.serials - 1 }
  | _ => g

/-- Only what is held is released. -/
def Resources.Releases (g : Resources) : LeapEv F → Prop
  | .closeDevice => 0 < g.devices
  | .freeSerial => 0 < g.serials
  | _ => True

namespace LeapMotionV2WrapperImpl

/-- What LeapC reported in the end, if that was a success. -/
def reported (d : LEAP_DEVICE_EVENT F) : Option (LEAP_DEVICE_INFO F) :=
  if d.openRetval ≠ .eLeapRS_Success then none
  else
    match d.first.retval with
    | .eLeapRS_Success => some d.first.info
    | .eLeapRS_InsufficientBuffer => if d.second.retval = .eLeapRS_Success then some d.second.info else none
    | _ => none

/-- `info` with the whole of its serial. -/
structure Whole (info stored : LEAP_DEVICE_INFO F) : Prop where
  same : stored = { info with serial := info.serial.take info.serial_length }
  length : stored.serial.length = info.serial_length

variable [Zero F]

structure Handled (cbs : CallBacks) (s : LeapMotionV2WrapperImpl F) (d : LEAP_DEVICE_EVENT F) : Prop where
  returns : ∃ t, (s.handleDeviceEvent cbs d).res = .ok t
  once : Heeds Resources.next Resources.Releases {} (s.handleDeviceEvent cbs d).out
  released : (s.handleDeviceEvent cbs d).out.foldl Resources.next {} = {}
  kept : reported d = none → ∀ t, (s.handleDeviceEvent cbs d).res = .ok t →
    t.lastDevice = s.lastDevice ∧ calls (s.handleDeviceEvent cbs d).out = []
  stored : ∀ info, reported d = some info → ∀ t, (s.handleDeviceEvent cbs d).res = .ok t →
    ∃ stored, t.lastDevice = some stored ∧ Whole info stored

/-- LeapC wrote all bytes of the serial, and they fit into the `size` bytes it was given. -/
def FitsIn (size : Nat) (info : LEAP_DEVICE_INFO F) : Prop :=
  info.serial_length ≤ size ∧ info.serial_length ≤ info.serial.length

/-- The device does not open, or its properties are read at once into the one byte, or on the
    retry into as many as the first answer asked for. -/
def ReadWhole (d : LEAP_DEVICE_EVENT F) : Prop :=
  d.openRetval ≠ .eLeapRS_Success ∨
  (d.first.retval = .eLeapRS_Success ∧ FitsIn 1 d.first.info) ∨
  (d.first.retval = .eLeapRS_InsufficientBuffer ∧ d.second.retval = .eLeapRS_Success ∧
    FitsIn d.first.info.serial_length d.second.info)

/-! ## The parts of a call -/

section Parts

variable (cbs : CallBacks) (self : LeapMotionV2WrapperImpl F)

/-- The call of `onDeviceFound`, if one is registered. -/
def foundCall (p : LEAP_DEVICE_INFO F) : List (LeapEv F) :=
  ((cbs [.ptr false .LEAP_DEVICE_INFO] "onDeviceFound").map fun h => .call h (.device p)).toList

theorem callback_found (p : LEAP_DEVICE_INFO F) :
    self.handleCallback cbs "onDeviceFound" [.ptr false .LEAP_DEVICE_INFO] (.device p) = ⟨foundCall cbs p, .ok self⟩ := by
  unfold handleCallback foundCall
  cases hreg : cbs [.ptr false .LEAP_DEVICE_INFO] "onDeviceFound" with
  | none => rfl
  | some h =>
    have hrun : self.runHandler h.method (.device p) = .ok self := by
      cases h.method <;> rfl
    simp only [hrun]
    split <;> rfl

/-- With the serial in its buffer. -/
theorem deviceFound_ok {p : LEAP_DEVICE_INFO F} (h : p.serial_length ≤ p.serial.length) :
    self.deviceFound cbs p = ⟨foundCall cbs p ++ [.freeSerial, .closeDevice],
      .ok { self with lastDevice := some { p with serial := p.serial.take p.serial_length } }⟩ := by
  simp only [deviceFound, setDevice, if_pos h, lift_ok_bind, callback_found]
  rfl

/-- With some of it behind the buffer. -/
theorem deviceFound_fault {p : LEAP_DEVICE_INFO F} (h : ¬ p.serial_length ≤ p.serial.length) :
    self.deviceFound cbs p = fail (.outOfBounds .serial) := by
  simp only [deviceFound, setDevice, if_neg h, lift_error_bind]

/-- A call that goes on with the properties `p`. -/
def openedWith (p : LEAP_DEVICE_INFO F) : Emit (LeapEv F) Fault (LeapMotionV2WrapperImpl F) := do
  emit .openDevice
  emit .mallocSerial
  self.deviceFound cbs p

theorem openedWith_eq (p : LEAP_DEVICE_INFO F) :
    self.openedWith cbs p =
      if p.serial_length ≤ p.serial.length then
        ⟨.openDevice :: .mallocSerial :: foundCall cbs p ++ [.freeSerial, .closeDevice],
          .ok { self with lastDevice := some { p with serial := p.serial.take p.serial_length } }⟩
      else ⟨[.openDevice, .mallocSerial], .error (.outOfBounds .serial)⟩ := by
  split
  · rename_i h
    rw [openedWith, deviceFound_ok cbs self h]
    rfl
  · rename_i h
    rw [openedWith, deviceFound_fault cbs self h]
    rfl

omit [Zero F] in
/-- Both resources go back, whatever is registered. -/
theorem found_releases (p : LEAP_DEVICE_INFO F) :
    let out := LeapEv.openDevice :: .mallocSerial :: foundCall cbs p ++ [.freeSerial, .closeDevice]
    Heeds Resources.next Resources.Releases {} out ∧ out.foldl Resources.next {} = {} := by
  unfold foundCall
  cases cbs [.ptr false .LEAP_DEVICE_INFO] "onDeviceFound" with
  | none => simp [Heeds, Resources.next, Resources.Releases]
  | some h => simp [Heeds, Resources.next, Resources.Releases]

end Parts

/-! ## The serial in its buffer -/

theorem written_length (serial buffer : List (Option UInt8)) :
    (serial.take buffer.length ++ buffer.drop serial.length).length = buffer.length := by
  simp only [List.length_append, List.length_take, List.length_drop]
  omega

/-- The first bytes of the buffer are the serial exactly when LeapC wrote so many. -/
theorem written_whole_iff {serial buffer : List (Option UInt8)} {n : Nat} (hn : n ≤ buffer.length) :
    (serial.take buffer.length ++ buffer.drop serial.length).take n = serial.take n ↔ n ≤ serial.length := by
  constructor
  · intro h
    have hlen := congrArg List.length h
    rw [List.length_take, written_length, List.length_take] at hlen
    omega
  · intro h
    rw [List.take_append_of_le_length (by rw [List.length_take]; omega), List.take_take, Nat.min_eq_left hn]

omit [Zero F] in
/-- What `setDevice` stores of an answer. -/
theorem whole_iff (a : DeviceAnswer F) (p : LEAP_DEVICE_INFO F) (hfit : a.info.serial_length ≤ p.serial.length) :
    Whole a.info { (LeapGetDeviceInfo a p).2 with
      serial := (LeapGetDeviceInfo a p).2.serial.take (LeapGetDeviceInfo a p).2.serial_length } ↔
      a.info.serial_length ≤ a.info.serial.length := by
  rw [← written_whole_iff hfit]
  constructor
  · intro h
    exact congrArg LEAP_DEVICE_INFO.serial h.same
  · intro h
    refine ⟨?_, ?_⟩
    · simp only [LeapGetDeviceInfo, h]
    · simp only [LeapGetDeviceInfo, List.length_take, written_length]
      omega

/-! ## One call -/

section Call

variable {cbs : CallBacks} {self : LeapMotionV2WrapperImpl F} {d : LEAP_DEVICE_EVENT F}

/-- The struct that the first answer is written into. -/
def probe : LEAP_DEVICE_INFO F := { LEAP_DEVICE_INFO.zero with serial_length := 1, serial := [none] }

/-- The struct that the second answer is written into. -/
def retry (d : LEAP_DEVICE_EVENT F) : LEAP_DEVICE_INFO F :=
  let p := (LeapGetDeviceInfo d.first probe).2
  { p with serial := resize none p.serial p.serial_length }

/-- A call whose device opens goes on with the first answer, whatever it is but
    `InsufficientBuffer`; or with the second, if that is a success; or it stops there. -/
theorem device_cases (cbs : CallBacks) (self : LeapMotionV2WrapperImpl F) (d : LEAP_DEVICE_EVENT F) :
    (d.openRetval ≠ .eLeapRS_Success ∧ self.handleDeviceEvent cbs d = pure self) ∨
    (d.openRetval = .eLeapRS_Success ∧ d.first.retval ≠ .eLeapRS_InsufficientBuffer ∧
      self.handleDeviceEvent cbs d = self.openedWith cbs (LeapGetDeviceInfo d.first probe).2) ∨
    (d.openRetval = .eLeapRS_Success ∧ d.first.retval = .eLeapRS_InsufficientBuffer ∧
      d.second.retval ≠ .eLeapRS_Success ∧
      self.handleDeviceEvent cbs d = ⟨[.openDevice, .mallocSerial, .freeSerial], .ok self⟩) ∨
    (d.openRetval = .eLeapRS_Success ∧ d.first.retval = .eLeapRS_InsufficientBuffer ∧
      d.second.retval = .eLeapRS_Success ∧
      self.handleDeviceEvent cbs d = self.openedWith cbs (LeapGetDeviceInfo d.second (retry d)).2) := by
  by_cases hopen : d.openRetval = .eLeapRS_Success
  · refine Or.inr ?_
    by_cases hfirst : d.first.retval = .eLeapRS_InsufficientBuffer
    · refine Or.inr ?_
      by_cases hsecond : d.second.retval = .eLeapRS_Success
      · refine Or.inr ⟨hopen, hfirst, hsecond, ?_⟩
        simp only [handleDeviceEvent, hopen, LeapGetDeviceInfo, hfirst, hsecond, ne_eq, not_true_eq_false, if_false, if_true]
        rfl
      · refine Or.inl ⟨hopen, hfirst, hsecond, ?_⟩
        simp only [handleDeviceEvent, hopen, LeapGetDeviceInfo, hfirst, hsecond, ne_eq, not_true_eq_false,
          not_false_eq_true, if_false, if_true]
        rfl
    · refine Or.inl ⟨hopen, hfirst, ?_⟩
      simp only [handleDeviceEvent, hopen, LeapGetDeviceInfo, hfirst, ne_eq, not_true_eq_false, if_false]
      rfl
  · exact Or.inl ⟨hopen, by simp only [handleDeviceEvent, ne_eq, hopen, not_false_eq_true, if_true]⟩

/-- Going on with a success is right when the serial is in its buffer. -/
theorem handled_found {a : DeviceAnswer F} {p : LEAP_DEVICE_INFO F}
    (hd : self.handleDeviceEvent cbs d = self.openedWith cbs (LeapGetDeviceInfo a p).2)
    (hr : reported d = some a.info) : Handled cbs self d ↔ FitsIn p.serial.length a.info := by
  have hlen : (LeapGetDeviceInfo a p).2.serial.length = p.serial.length := written_length _ _
  rw [openedWith_eq, hlen] at hd
  by_cases hfit : a.info.serial_length ≤ p.serial.length
  · rw [if_pos (show (LeapGetDeviceInfo a p).2.serial_length ≤ p.serial.length from hfit)] at hd
    rw [FitsIn, and_iff_right hfit, ← whole_iff a p hfit]
    constructor
    · intro h
      obtain ⟨stored, hs, hwhole⟩ := h.stored a.info hr _ (by rw [hd])
      obtain rfl := Option.some.inj hs
      exact hwhole
    · intro hwhole
      obtain ⟨honce, hreleased⟩ := found_releases cbs (LeapGetDeviceInfo a p).2
      refine ⟨⟨_, by rw [hd]⟩, by rw [hd]; exact honce, by rw [hd]; exact hreleased, fun hn => ?_, fun info hi t ht => ?_⟩
      · rw [hr] at hn
        cases hn
      · obtain rfl : a.info = info := Option.some.inj (hr.symm.trans hi)
        rw [hd] at ht
        cases ht
        exact ⟨_, rfl, hwhole⟩
  · rw [if_neg (show ¬ (LeapGetDeviceInfo a p).2.serial_length ≤ p.serial.length from hfit)] at hd
    refine iff_of_false (fun h => ?_) fun h => hfit h.1
    obtain ⟨t, ht⟩ := h.returns
    rw [hd] at ht
    cases ht

/-- A registry with a handler for the type that the dispatch deduces. -/
def listening : CallBacks :=
  regCallback (fun _ _ => none) [.ptr false .LEAP_DEVICE_INFO] "onDeviceFound" ⟨0, .onDeviceFound⟩

/-- Going on without a success calls the handler, or faults. -/
theorem not_handled_unread {p : LEAP_DEVICE_INFO F} (hd : self.handleDeviceEvent listening d = self.openedWith listening p)
    (hr : reported d = none) : ¬ Handled listening self d := by
  intro h
  obtain ⟨t, ht⟩ := h.returns
  have hcalls := (h.kept hr t ht).2
  rw [hd, openedWith_eq] at ht hcalls
  split at ht
  · rename_i hfit
    rw [if_pos hfit] at hcalls
    cases hcalls
  · cases ht

theorem handled_closed (hd : self.handleDeviceEvent cbs d = pure self) (hr : reported d = none) : Handled cbs self d where
  returns := ⟨self, by rw [hd]; rfl⟩
  once := by rw [hd]; trivial
  released := by rw [hd]; rfl
  kept := fun _ t ht => by
    rw [hd] at ht ⊢
    cases ht
    exact ⟨rfl, rfl⟩
  stored := fun info hi => by
    rw [hr] at hi
    cases hi

/-- A call is right under every registry when the properties are read whole, and under
    `listening` only then. -/
theorem handled_spec (self : LeapMotionV2WrapperImpl F) (d : LEAP_DEVICE_EVENT F) :
    (ReadWhole d → ∀ cbs, Handled cbs self d) ∧ (Handled listening self d → ReadWhole d) := by
  have hiff : ∀ cbs, cbs = listening ∨ ReadWhole d → (Handled cbs self d ↔ ReadWhole d) := by
    intro cbs hcbs
    rcases device_cases cbs self d with ⟨hopen, hd⟩ | ⟨hopen, hfirst, hd⟩ | ⟨hopen, hfirst, hsecond, hd⟩ |
      ⟨hopen, hfirst, hsecond, hd⟩
    · exact iff_of_true (handled_closed hd (if_pos hopen)) (Or.inl hopen)
    · by_cases hok : d.first.retval = .eLeapRS_Success
      · rw [handled_found hd (by simp [reported, hopen, hok])]
        simp [ReadWhole, hopen, hok, probe]
      · have hbad : ¬ ReadWhole d := by simp [ReadWhole, hopen, hok, hfirst]
        obtain rfl := hcbs.resolve_right hbad
        have hr : reported d = none := by
          rw [reported, if_neg (by simpa using hopen)]
          split
          · rename_i h
            exact absurd h hok
          · rename_i h
            exact absurd h hfirst
          · rfl
        exact iff_of_false (not_handled_unread hd hr) hbad
    · refine iff_of_false (fun h => ?_) (by simp [ReadWhole, hopen, hfirst, hsecond])
      have hreleased := h.released
      rw [hd] at hreleased
      cases hreleased
    · rw [handled_found hd (by simp [reported, hopen, hfirst, hsecond]), retry, resize_length]
      simp [ReadWhole, hopen, hfirst, hsecond, LeapGetDeviceInfo]
  exact ⟨fun h cbs => (hiff cbs (Or.inr h)).mpr h, (hiff listening (Or.inl rfl)).mp⟩

end Call

/-! ## Any device events -/

/-- Each call for these events is right, whatever is registered and whatever the object was,
    exactly when LeapC's answers to each let the properties be read whole. -/
theorem devices_handled_iff (self : LeapMotionV2WrapperImpl F) (ds : List (LEAP_DEVICE_EVENT F)) :
    (∀ cbs, Along (fun s d => s.handleDeviceEvent cbs d) (Handled cbs) self ds) ↔ ∀ d ∈ ds, ReadWhole d := by
  constructor
  · intro h
    exact forall_of_along _ (fun s d => (handled_spec s d).2) (fun _ _ hd => hd.returns) (h listening)
  · intro h cbs
    exact along_of_forall _ (fun s d hd => (handled_spec s d).1 hd cbs) self h

/-- A device whose second answer is an error as well. -/
def unreadable : LEAP_DEVICE_EVENT ℤ :=
  ⟨.eLeapRS_Success, ⟨.eLeapRS_InsufficientBuffer, { LEAP_DEVICE_INFO.zero with serial_length := 12 }⟩,
    ⟨.failed 1, .zero⟩⟩

/-- It stays open. -/
theorem an_unreadable_device_stays_open : ¬ ∀ (cbs : CallBacks) (self : LeapMotionV2WrapperImpl ℤ)
    (ds : List (LEAP_DEVICE_EVENT ℤ)), Along (fun s d => s.handleDeviceEvent cbs d) (Handled cbs) self ds := by
  intro h
  have hreleased := (h listening (.make 0 0) [unreadable]).1.released
  cases hreleased

end LeapMotionV2WrapperImpl

end LeapSyncFfh
