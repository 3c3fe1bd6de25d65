/-
  LeapSyncFfh.Official.Listeners — what the listeners of the official wrapper's controller are
  told (officialWrapper/LeapImplementationC++.h).

  The polling thread handles one message after the other, each in a few sections, most of
  them under a mutex: it changes `m_isServiceConnected` or `m_devices` in one and tells the
  listeners in another. Listeners are added and removed by any thread at any time, between
  two sections too, and a new one is told what holds just then. A run is any interleaving.

  `addListener` holds `m_listenerMutex` alone: the polling thread can set the flag or change
  the map between its reads of them and its calls. Here it is one step, at the reads. What a
  listener was told last is the same, since the notice of such a change waits for the mutex;
  what holds during a call is not, and `connected_when_told` says it of the polling thread's
  calls only.

  `told service` and `told devices` are the last that a listener was told of the connection
  and of the devices. Of the connection it is always right (`service_told`). Of the devices it
  is right exactly where three things do not happen (`devices_told_iff`): the service is lost
  while there are devices, since nobody is told of that; a device stops streaming, since
  `onDisconnect` then comes with the device still there; and a listener is added between the
  notices of the last device's loss and its erasure, which hears of the device and of nothing
  after that.
-/

import Mathlib.Data.List.Pairwise
import LeapSyncFfh.Lib.Emit
import LeapSyncFfh.Lib.Told

namespace LeapSyncFfh.Listeners

open Emit

structure DeviceImplementation where
  /-- `none` is `nullptr`: the device could not be opened. -/
  m_device : Option Nat
  /-- `m_info.status`. -/
  status : Nat

/-- A device reference, with what LeapC gives when it is opened. -/
structure LEAP_DEVICE_REF where
  id : Nat
  opened : DeviceImplementation

/-! ## The map of devices -/

/-- `std::map<uint32_t, std::shared_ptr<DeviceImplementation>>`: the keys increase. -/
structure DeviceMap where
  items : List (Nat × DeviceImplementation)
  sorted : (items.map (·.1)).Pairwise (· < ·)

namespace DeviceMap

def empty : DeviceMap := ⟨[], List.Pairwise.nil⟩

def isEmpty (m : DeviceMap) : Bool := m.items.isEmpty

def size (m : DeviceMap) : Nat := m.items.length

def has (m : DeviceMap) (id : Nat) : Bool := m.items.any (·.1 = id)

theorem filter_sorted (m : DeviceMap) (p : Nat × DeviceImplementation → Bool) :
    ((m.items.filter p).map (·.1)).Pairwise (· < ·) :=
  m.sorted.sublist (List.filter_sublist.map _)

/-- `m[id] = impl`. -/
def assign (m : DeviceMap) (id : Nat) (impl : DeviceImplementation) : DeviceMap where
  items := m.items.filter (·.1 < id) ++ (id, impl) :: m.items.filter (id < ·.1)
  sorted := by
    rw [List.map_append, List.map_cons]
    refine List.pairwise_append.mpr ⟨m.filter_sorted _, List.pairwise_cons.mpr ⟨?_, m.filter_sorted _⟩, ?_⟩
    · simp
    · simp only [List.mem_map, List.mem_filter, List.mem_cons]
      rintro a ⟨p, ⟨-, hp⟩, rfl⟩ b (rfl | ⟨q, ⟨-, hq⟩, rfl⟩)
      · exact of_decide_eq_true hp
      · exact Nat.lt_trans (of_decide_eq_true hp) (of_decide_eq_true hq)

def erase (m : DeviceMap) (id : Nat) : DeviceMap := ⟨m.items.filter (·.1 ≠ id), m.filter_sorted _⟩

/-- Values that change under their keys. -/
def modify (m : DeviceMap) (f : Nat × DeviceImplementation → DeviceImplementation) : DeviceMap where
  items := m.items.map fun p => (p.1, f p)
  sorted := by
    rw [List.map_map]
    exact m.sorted

/-- `it->second->m_info.status = status` at the key `id`. -/
def setStatus (m : DeviceMap) (id status : Nat) : DeviceMap :=
  m.modify fun p => if p.1 = id then { p.2 with status := status } else p.2

/-- The first key, in the order of the map, whose device has the handle. -/
def keyOf (m : DeviceMap) (hDevice : Nat) : Option Nat := (m.items.find? (·.2.m_device = some hDevice)).map (·.1)

section

variable (m : DeviceMap)

@[simp] theorem empty_isEmpty : DeviceMap.empty.isEmpty = true := rfl

@[simp] theorem assign_isEmpty (id : Nat) (impl : DeviceImplementation) : (m.assign id impl).isEmpty = false := by
  simp [isEmpty, assign]

@[simp] theorem setStatus_isEmpty (id status : Nat) : (m.setStatus id status).isEmpty = m.isEmpty := by
  simp [isEmpty, setStatus, modify]

@[simp] theorem setStatus_has (id status k : Nat) : (m.setStatus id status).has k = m.has k := by
  simp [has, setStatus, modify, Function.comp_def]

@[simp] theorem setStatus_size (id status : Nat) : (m.setStatus id status).size = m.size := by
  simp [size, setStatus, modify]

theorem isEmpty_of_has {id : Nat} (h : m.has id = true) : m.isEmpty = false := by
  obtain ⟨p, hp, -⟩ := List.any_eq_true.mp h
  exact List.isEmpty_eq_false_iff.mpr (List.ne_nil_of_mem hp)

/-- The keys are different: nothing is left exactly if there was one. -/
theorem erase_isEmpty {id : Nat} (h : m.has id = true) : (m.erase id).isEmpty = decide (m.size = 1) := by
  obtain ⟨items, sorted⟩ := m
  obtain ⟨p, hp, hid⟩ := List.any_eq_true.mp h
  have hid : p.1 = id := of_decide_eq_true hid
  rw [Bool.eq_iff_iff, decide_eq_true_iff]
  show (items.filter (·.1 ≠ id)).isEmpty = true ↔ items.length = 1
  rw [List.isEmpty_iff, List.filter_eq_nil_iff]
  constructor
  · intro hall
    match items, sorted, hp, hall with
    | [_], _, _, _ => rfl
    | q :: r :: rest, sorted, _, hall =>
      have hq : q.1 = id := by simpa using hall q (by simp)
      have hr : r.1 = id := by simpa using hall r (by simp)
      have hlt : q.1 < r.1 := (List.pairwise_cons.mp sorted).1 r.1 (by simp)
      omega
  · intro hone q hq
    obtain ⟨r, rfl⟩ := List.length_eq_one_iff.mp hone
    rw [List.mem_singleton.mp hq, ← List.mem_singleton.mp hp]
    simp [hid]

end

end DeviceMap

/-! ## The controller -/

inductive Callback where
  | onInit
  | onExit
  | onServiceConnect
  | onServiceDisconnect
  | onConnect
  | onDisconnect
  | onDeviceChange
  | onDeviceFailure
  deriving DecidableEq, Repr

abbrev Notice := Nat × Callback

/-- The polled messages that these handlers are for. -/
inductive Message where
  | connection
  | connectionLost
  | device (device : LEAP_DEVICE_REF)
  | deviceStatusChange (device : LEAP_DEVICE_REF) (last_status status : Nat)
  | deviceLost (id status : Nat)
  | deviceFailure (hDevice : Option Nat) (status : Nat)

/-- Where the polling thread stands: the section of a handler that is next. -/
inductive Handler where
  | idle
  | onConnection
  | onConnection_notify
  | onConnectionLost
  | onConnectionLost_notify
  | onConnectionLost_clear
  /-- `change` is of the status change that goes on after `onDeviceStatus`. -/
  | onDeviceStatus (device : LEAP_DEVICE_REF) (change : Option (Nat × Nat))
  | onDeviceStatus_notify (newlyConnected : Bool) (change : Option (Nat × Nat))
  | onDeviceStatusChange_notify (last_status status : Nat)
  | onDeviceLost (id status : Nat)
  | onDeviceLost_notify (id : Nat) (newlyDisconnected : Bool)
  | onDeviceLost_erase (id : Nat)
  | onDeviceFailure (hDevice : Option Nat) (status : Nat)
  | onDeviceFailure_notify

structure Controller where
  m_isServiceConnected : Bool := false
  m_devices : DeviceMap := DeviceMap.empty
  /-- A set of pointers: the order of the calls is that of the addresses. -/
  m_listeners : List Nat := []
  handler : Handler := .idle

inductive Act where
  | poll (msg : Message)
  /-- The polling thread goes through the next section of its handler. -/
  | next
  | addListener (listener : Nat)
  | removeListener (listener : Nat)

/-- `status & eLeapDeviceStatus_Streaming`. -/
def streaming (status : Nat) : Bool := status % 2 = 1

namespace Controller

/-- `!m_devices.empty()`, which `addListener` reads too. -/
def isConnected (s : Controller) : Bool := !s.m_devices.isEmpty

/-- The switch of the polling thread. -/
def poll (s : Controller) (msg : Message) : Controller :=
  match s.handler, msg with
  | .idle, .connection => { s with handler := .onConnection }
  | .idle, .connectionLost => { s with handler := .onConnectionLost }
  | .idle, .device device => { s with handler := .onDeviceStatus device none }
  | .idle, .deviceStatusChange device last_status status =>
    { s with handler := .onDeviceStatus device (some (last_status, status)) }
  | .idle, .deviceLost id status => { s with handler := .onDeviceLost id status }
  | .idle, .deviceFailure hDevice status => { s with handler := .onDeviceFailure hDevice status }
  | _, _ => s

/-- `for (auto& listener : m_listeners) listener->c(m_controller)`. -/
def notify (s : Controller) (c : Callback) : List Notice := s.m_listeners.map fun listener => (listener, c)

def next (s : Controller) : List Notice × Controller :=
  match s.handler with
  | .idle => ([], s)
  | .onConnection => ([], { s with m_isServiceConnected := true, handler := .onConnection_notify })
  | .onConnection_notify => (s.notify .onServiceConnect, { s with handler := .idle })
  | .onConnectionLost => ([], { s with m_isServiceConnected := false, handler := .onConnectionLost_notify })
  | .onConnectionLost_notify => (s.notify .onServiceDisconnect, { s with handler := .onConnectionLost_clear })
  | .onConnectionLost_clear => ([], { s with m_devices := DeviceMap.empty, handler := .idle })
  | .onDeviceStatus device change =>
    let newlyConnected := s.m_devices.isEmpty
    ([], { s with
      m_devices := s.m_devices.assign device.id device.opened, handler := .onDeviceStatus_notify newlyConnected change })
  | .onDeviceStatus_notify newlyConnected change =>
    ((if newlyConnected then s.notify .onConnect else []) ++ s.notify .onDeviceChange,
      { s with handler :=
        match change with
        | some (last_status, status) => .onDeviceStatusChange_notify last_status status
        | none => .idle })
  | .onDeviceStatusChange_notify last_status status =>
    let wasStreaming := streaming last_status
    let isStreaming := streaming status
    (if isStreaming && !wasStreaming then s.notify .onConnect
      else if !isStreaming && wasStreaming then s.notify .onDisconnect
      else [], { s with handler := .idle })
  | .onDeviceLost id status =>
    if s.m_devices.has id then
      ([], { s with
        m_devices := s.m_devices.setStatus id status, handler := .onDeviceLost_notify id (s.m_devices.size = 1) })
    else ([], { s with handler := .idle })
  | .onDeviceLost_notify id newlyDisconnected =>
    (s.notify .onDeviceChange ++ (if newlyDisconnected then s.notify .onDisconnect else []),
      { s with handler := .onDeviceLost_erase id })
  | .onDeviceLost_erase id => ([], { s with m_devices := s.m_devices.erase id, handler := .idle })
  | .onDeviceFailure hDevice status =>
    ([], { s with
      m_devices :=
        match hDevice.bind s.m_devices.keyOf with
        | some id => s.m_devices.setStatus id status
        | none => s.m_devices
      handler := .onDeviceFailure_notify })
  | .onDeviceFailure_notify => (s.notify .onDeviceFailure, { s with handler := .idle })

/-- Also returns whether the listener is new. -/
def addListener (s : Controller) (listener : Nat) : List Notice × Controller × Bool :=
  let added := listener ∉ s.m_listeners
  ((if added then [(listener, .onInit)] else []) ++
      (if s.m_isServiceConnected then [(listener, .onServiceConnect)] else []) ++
      (if s.isConnected then [(listener, .onConnect)] else []),
    { s with m_listeners := if added then listener :: s.m_listeners else s.m_listeners }, added)

/-- Also returns whether the listener was there. -/
def removeListener (s : Controller) (listener : Nat) : List Notice × Controller × Bool :=
  let removed := listener ∈ s.m_listeners
  (if removed then [(listener, .onExit)] else [],
    { s with m_listeners := s.m_listeners.filter (· ≠ listener) }, removed)

def step (s : Controller) : Act → Emit Notice Empty Controller
  | .poll msg => ⟨[], .ok (s.poll msg)⟩
  | .next => ⟨s.next.1, .ok s.next.2⟩
  | .addListener listener => ⟨(s.addListener listener).1, .ok (s.addListener listener).2.1⟩
  | .removeListener listener => ⟨(s.removeListener listener).1, .ok (s.removeListener listener).2.1⟩

end Controller

/-! ## What a listener was told -/

def service : Callback → Option Bool
  | .onInit => some false
  | .onServiceConnect => some true
  | .onServiceDisconnect => some false
  | _ => none

def devices : Callback → Option Bool
  | .onInit => some false
  | .onConnect => some true
  | .onDisconnect => some false
  | _ => none

/-- What the next section tells of the connection. -/
def Handler.tellsService : Handler → Option Bool
  | .onConnection_notify => some true
  | .onConnectionLost_notify => some false
  | _ => none

/-- What the next section tells of the devices. -/
def Handler.tellsDevices : Handler → Option Bool
  | .onDeviceStatus_notify newlyConnected _ => if newlyConnected then some true else none
  | .onDeviceStatusChange_notify last_status status =>
    if streaming status = streaming last_status then none else some (streaming status)
  | .onDeviceLost_notify _ newlyDisconnected => if newlyDisconnected then some false else none
  | _ => none

open Controller

/-- There is a device whose loss is not announced. -/
def announced (s : Controller) : Bool :=
  match s.handler with
  | .onDeviceLost_erase id => !(s.m_devices.erase id).isEmpty
  | _ => s.isConnected

section Told

variable {p : Callback → Option Bool} {d : Bool} {l : Nat} {s : Controller}

@[simp] theorem told_notify (c : Callback) :
    told p d l (s.notify c) = if l ∈ s.m_listeners then (p c).getD d else d := told_map ..

@[simp] theorem next_listeners : s.next.2.m_listeners = s.m_listeners := by
  unfold next
  split <;> first
    | rfl
    | split <;> rfl

theorem told_service_next (hl : l ∈ s.m_listeners) : told service d l s.next.1 = s.handler.tellsService.getD d := by
  cases hs : s.handler with
  | onDeviceStatus_notify newlyConnected change =>
    cases newlyConnected <;> simp [next, hs, Handler.tellsService, service]
  | onDeviceStatusChange_notify last_status status =>
    cases h : streaming last_status <;> cases h' : streaming status <;>
      simp [next, hs, Handler.tellsService, service, h, h']
  | onDeviceLost id status => cases h : s.m_devices.has id <;> simp [next, hs, Handler.tellsService, h]
  | onDeviceLost_notify id newlyDisconnected =>
    cases newlyDisconnected <;> simp [next, hs, Handler.tellsService, service]
  | _ => simp [next, hs, Handler.tellsService, service, hl]

theorem told_devices_next (hl : l ∈ s.m_listeners) : told devices d l s.next.1 = s.handler.tellsDevices.getD d := by
  cases hs : s.handler with
  | onDeviceStatus_notify newlyConnected change =>
    cases newlyConnected <;> simp [next, hs, Handler.tellsDevices, devices, hl]
  | onDeviceStatusChange_notify last_status status =>
    cases h : streaming last_status <;> cases h' : streaming status <;>
      simp [next, hs, Handler.tellsDevices, devices, h, h', hl]
  | onDeviceLost id status => cases h : s.m_devices.has id <;> simp [next, hs, Handler.tellsDevices, h]
  | onDeviceLost_notify id newlyDisconnected =>
    cases newlyDisconnected <;> simp [next, hs, Handler.tellsDevices, devices, hl]
  | _ => simp [next, hs, Handler.tellsDevices, devices]

/-- A listener that is added is told what holds. -/
theorem told_service_added (s : Controller) (out : List Notice) :
    told service false l (out ++ (s.addListener l).1) =
      if l ∈ s.m_listeners then told service false l out || s.m_isServiceConnected else s.m_isServiceConnected := by
  by_cases hl : l ∈ s.m_listeners <;> cases hc : s.m_isServiceConnected <;> cases hd : s.isConnected <;>
    simp [addListener, hl, hc, hd, service]

theorem told_devices_added (s : Controller) (out : List Notice) :
    told devices false l (out ++ (s.addListener l).1) =
      if l ∈ s.m_listeners then told devices false l out || s.isConnected else s.isConnected := by
  by_cases hl : l ∈ s.m_listeners <;> cases hc : s.m_isServiceConnected <;> cases hd : s.isConnected <;>
    simp [addListener, hl, hc, hd, devices]

/-- The other listeners are told nothing. -/
theorem told_added_other {k : Nat} (h : l ≠ k) : told p d l (s.addListener k).1 = d := by
  by_cases hk : k ∈ s.m_listeners <;> cases hc : s.m_isServiceConnected <;> cases hd : s.isConnected <;>
    simp [addListener, hk, hc, hd, Ne.symm h]

/-- `onExit` speaks of neither. -/
theorem told_removed (hexit : p .onExit = none) (k : Nat) : told p d l (s.removeListener k).1 = d := by
  by_cases hk : k ∈ s.m_listeners <;> simp [removeListener, hk, hexit]

theorem mem_added {k : Nat} : l ∈ (s.addListener k).2.1.m_listeners ↔ l = k ∨ l ∈ s.m_listeners := by
  by_cases hk : k ∈ s.m_listeners
  · simp only [addListener, hk, not_true_eq_false, if_false]
    exact ⟨Or.inr, fun h => h.elim (fun e => e ▸ hk) id⟩
  · simp [addListener, hk]

theorem mem_removed {k : Nat} (h : l ∈ (s.removeListener k).2.1.m_listeners) : l ∈ s.m_listeners :=
  (List.mem_filter.mp h).1

end Told

/-! ## The connection -/

/-- Every listener was told what holds, unless the next section is to tell it. -/
structure ServiceTold (out : List Notice) (s : Controller) : Prop where
  due : ∀ b, s.handler.tellsService = some b → s.m_isServiceConnected = b
  told : s.handler.tellsService = none → ∀ l ∈ s.m_listeners, told service false l out = s.m_isServiceConnected

theorem next_flag (s : Controller) :
    s.next.2.m_isServiceConnected = s.m_isServiceConnected ∧ s.next.2.handler.tellsService = none ∨
      s.handler.tellsService = none ∧ s.next.2.handler.tellsService = some s.next.2.m_isServiceConnected := by
  cases hs : s.handler with
  | onConnection => exact Or.inr (by simp [next, hs, Handler.tellsService])
  | onConnectionLost => exact Or.inr (by simp [next, hs, Handler.tellsService])
  | onDeviceStatus_notify newlyConnected change =>
    cases change <;> exact Or.inl (by simp [next, hs, Handler.tellsService])
  | onDeviceLost id status => cases h : s.m_devices.has id <;> exact Or.inl (by simp [next, hs, Handler.tellsService, h])
  | _ => exact Or.inl (by simp [next, hs, Handler.tellsService])

theorem poll_handler (s : Controller) (msg : Message) : s.poll msg = s ∨ s.handler = .idle ∧
    ∃ handler, s.poll msg = { s with handler := handler } ∧ handler.tellsService = none ∧
      announced { s with handler := handler } = announced s := by
  cases hs : s.handler with
  | idle =>
    have hconnected : announced s = s.isConnected := by simp [announced, hs]
    rw [hconnected]
    cases msg <;> exact Or.inr ⟨rfl, _, by simp only [poll, hs]; rfl, rfl, rfl⟩
  | _ => exact Or.inl (by simp [poll, hs])

theorem service_step {out : List Notice} {s t : Controller} {a : Act} (h : ServiceTold out s)
    (ht : (s.step a).res = .ok t) : ServiceTold (out ++ (s.step a).out) t := by
  cases a with
  | poll msg =>
    cases ht
    simp only [step, List.append_nil]
    rcases poll_handler s msg with hp | ⟨hidle, handler, hp, hnone, -⟩
    · rw [hp]
      exact h
    · rw [hp]
      exact ⟨fun b hb => by simp [hnone] at hb, fun _ => h.told (by rw [hidle]; rfl)⟩
  | next =>
    cases ht
    rcases next_flag s with ⟨hflag, hnone⟩ | ⟨hnone, hdue⟩
    · refine ⟨fun b hb => absurd (hnone.symm.trans hb) (by simp), fun _ l hl => ?_⟩
      rw [next_listeners] at hl
      rw [hflag, step, told_append, told_service_next hl]
      cases hs : s.handler.tellsService with
      | some b => exact (h.due b hs).symm
      | none => exact h.told hs l hl
    · exact ⟨fun b hb => Option.some.inj (hdue.symm.trans hb), fun hn => by rw [hdue] at hn; cases hn⟩
  | addListener k =>
    cases ht
    refine ⟨h.due, fun hn l hl => ?_⟩
    have htold := h.told hn
    show LeapSyncFfh.told service false l (out ++ (s.addListener k).1) = s.m_isServiceConnected
    by_cases hlk : l = k
    · subst hlk
      rw [told_service_added]
      split
      · rename_i hmem
        rw [htold l hmem, Bool.or_self]
      · rfl
    · rw [told_append, told_added_other hlk]
      exact htold l ((mem_added.mp hl).resolve_left hlk)
  | removeListener k =>
    cases ht
    refine ⟨h.due, fun hn l hl => ?_⟩
    show LeapSyncFfh.told service false l (out ++ (s.removeListener k).1) = s.m_isServiceConnected
    rw [told_append, told_removed rfl]
    exact h.told hn l (mem_removed hl)

theorem init_service : ServiceTold [] {} := ⟨fun b e => (by cases e), fun _ l hl => by cases hl⟩

/-- Every listener knows whether the service is connected: whatever messages come, whoever is
    added and removed at any time, what each listener was told last of it is
    `isServiceConnected()`, except between the change and its notice. -/
theorem service_told {acts : List Act} {t : Controller} (ht : (runs step {} acts).res = .ok t)
    (hdone : t.handler ≠ .onConnection_notify ∧ t.handler ≠ .onConnectionLost_notify) {l : Nat}
    (hl : l ∈ t.m_listeners) : told service false l (runs step {} acts).out = t.m_isServiceConnected := by
  have hinv := runs_trace step (J := fun _ out s => ServiceTold out s)
    (fun _ _ _ _ _ h hs => service_step h hs) init_service ht
  refine hinv.told ?_ l hl
  unfold Handler.tellsService
  split
  · exact absurd (by assumption) hdone.1
  · exact absurd (by assumption) hdone.2
  · rfl

theorem service_told_lost : ∃ t, (runs step ({} : Controller)
      [.poll .connection, .next, .addListener 3, .next, .poll .connectionLost, .next, .next]).res = .ok t ∧
    told service false 3 (runs step ({} : Controller)
      [.poll .connection, .next, .addListener 3, .next, .poll .connectionLost, .next, .next]).out =
        t.m_isServiceConnected :=
  ⟨_, rfl, service_told rfl ⟨by rintro ⟨⟩, by rintro ⟨⟩⟩ (List.mem_singleton_self 3)⟩

/-! ## The devices -/

/-- What a handler relies on between two sections. -/
def Handler.Present (m : DeviceMap) : Handler → Prop
  | .onDeviceStatus_notify _ _ => m.isEmpty = false
  | .onDeviceStatusChange_notify _ _ => m.isEmpty = false
  | .onDeviceLost_notify id newlyDisconnected => m.has id = true ∧ newlyDisconnected = decide (m.size = 1)
  | .onDeviceLost_erase id => m.has id = true
  | _ => True

theorem init_present : Handler.Present ({} : Controller).m_devices ({} : Controller).handler := trivial

theorem next_present {s : Controller} (h : s.handler.Present s.m_devices) :
    s.next.2.handler.Present s.next.2.m_devices := by
  cases hs : s.handler with
  | onDeviceStatus_notify newlyConnected change =>
    rw [hs] at h
    cases change <;> simp [next, hs, Handler.Present]
    exact h
  | onDeviceLost id status => cases hh : s.m_devices.has id <;> simp [next, hs, Handler.Present, hh]
  | onDeviceLost_notify id newlyDisconnected =>
    rw [hs] at h
    simp [next, hs, Handler.Present, h.1]
  | _ => simp [next, hs, Handler.Present]

theorem present_step {s t : Controller} {a : Act} (h : s.handler.Present s.m_devices) (ht : (s.step a).res = .ok t) :
    t.handler.Present t.m_devices := by
  cases a with
  | poll msg =>
    cases ht
    unfold poll
    split <;> first
      | exact h
      | trivial
  | next =>
    cases ht
    exact next_present h
  | addListener k =>
    cases ht
    exact h
  | removeListener k =>
    cases ht
    exact h

/-- The listeners are about to be told of the first device. -/
def Handler.announcing : Handler → Bool
  | .onDeviceStatus_notify newlyConnected _ => newlyConnected
  | _ => false

/-- What every listener was told last of the devices is right. -/
def DevicesTold (out : List Notice) (s : Controller) : Prop :=
  s.handler.announcing = false → ∀ l ∈ s.m_listeners, told devices false l out = announced s

/-- The device stops streaming, the service goes with devices there, or a listener comes after
    the notices of the last device's loss: none of these. -/
def Timely (s : Controller) : Act → Prop
  | .next =>
    s.m_listeners ≠ [] →
      match s.handler with
      | .onDeviceStatusChange_notify last_status status => streaming last_status = true → streaming status = true
      | .onConnectionLost_clear => s.isConnected = false
      | _ => True
  | .addListener _ => ∀ id, s.handler = .onDeviceLost_erase id → s.m_devices.size ≠ 1
  | _ => True

/-- A section leaves what a listener was told right exactly if it is timely. -/
theorem next_devices {s : Controller} (hpresent : s.handler.Present s.m_devices) {l : Nat} (hl : l ∈ s.m_listeners)
    {d : Bool} (hd : s.handler.announcing = false → d = announced s) (hdone : s.next.2.handler.announcing = false) :
    told devices d l s.next.1 = announced s.next.2 ↔ Timely s .next := by
  have hsome : s.m_listeners ≠ [] := List.ne_nil_of_mem hl
  rw [told_devices_next hl]
  cases hs : s.handler with
  | onDeviceStatus device change =>
    have hnew : s.m_devices.isEmpty = false := by simpa [next, hs, Handler.announcing] using hdone
    simp [next, hs, hd, announced, Timely, Handler.tellsDevices, Handler.announcing, isConnected, hnew]
  | onDeviceStatus_notify newlyConnected change =>
    have hthere : s.m_devices.isEmpty = false := by
      rw [hs] at hpresent
      exact hpresent
    cases newlyConnected <;> cases change <;>
      simp_all [next, announced, Timely, Handler.tellsDevices, Handler.announcing, isConnected]
  | onDeviceStatusChange_notify last_status status =>
    have hthere : s.m_devices.isEmpty = false := by
      rw [hs] at hpresent
      exact hpresent
    cases h : streaming last_status <;> cases h' : streaming status <;>
      simp_all [next, announced, Timely, Handler.tellsDevices, Handler.announcing, isConnected]
  | onDeviceLost id status =>
    cases h : s.m_devices.has id <;>
      simp_all [next, announced, Timely, Handler.tellsDevices, Handler.announcing, isConnected]
  | onDeviceLost_notify id newlyDisconnected =>
    obtain ⟨hhas, hlast⟩ : s.m_devices.has id = true ∧ newlyDisconnected = decide (s.m_devices.size = 1) := by
      rw [hs] at hpresent
      exact hpresent
    have herased := s.m_devices.erase_isEmpty hhas
    have hthere := s.m_devices.isEmpty_of_has hhas
    cases h : decide (s.m_devices.size = 1) <;>
      simp_all [next, announced, Timely, Handler.tellsDevices, Handler.announcing, isConnected]
  | onDeviceLost_erase id =>
    simp_all [next, announced, Timely, Handler.tellsDevices, Handler.announcing, isConnected]
  | onConnectionLost_clear =>
    simp_all [next, announced, Timely, Handler.tellsDevices, Handler.announcing, isConnected]
  | onDeviceFailure hDevice status =>
    cases h : hDevice.bind s.m_devices.keyOf <;>
      simp [next, hs, hd, announced, Timely, Handler.tellsDevices, Handler.announcing, isConnected, h]
  | _ => simp [next, hs, hd, announced, Timely, Handler.tellsDevices, Handler.announcing, isConnected]

theorem announcing_timely {s : Controller} (h : s.next.2.handler.announcing = true) : Timely s .next := by
  intro _
  cases hs : s.handler with
  | onDeviceStatusChange_notify last_status status => simp [next, hs, Handler.announcing] at h
  | onConnectionLost_clear => simp [next, hs, Handler.announcing] at h
  | _ => trivial

/-- To add a listener is timely exactly if what it would be told is right. -/
theorem added_timely {s : Controller} (hpresent : s.handler.Present s.m_devices) (k : Nat) :
    Timely s (.addListener k) ↔ announced s = s.isConnected := by
  cases hs : s.handler with
  | onDeviceLost_erase id =>
    have hhas : s.m_devices.has id = true := by
      rw [hs] at hpresent
      exact hpresent
    have herased := s.m_devices.erase_isEmpty hhas
    simp [Timely, announced, hs, isConnected, herased, s.m_devices.isEmpty_of_has hhas]
  | _ => simp [Timely, announced, hs]

theorem devices_step {out : List Notice} {s t : Controller} {a : Act} (hpresent : s.handler.Present s.m_devices)
    (h : DevicesTold out s) (ha : Timely s a) (ht : (s.step a).res = .ok t) : DevicesTold (out ++ (s.step a).out) t := by
  cases a with
  | poll msg =>
    cases ht
    simp only [step, List.append_nil]
    rcases poll_handler s msg with hp | ⟨hidle, handler, hp, -, hsame⟩
    · rw [hp]
      exact h
    · rw [hp]
      intro _ l hl
      rw [hsame]
      exact h (by rw [hidle]; rfl) l hl
  | next =>
    cases ht
    intro hdone l hl
    rw [next_listeners] at hl
    rw [step, told_append]
    exact (next_devices hpresent hl (fun hnot => h hnot l hl) hdone).mpr ha
  | addListener k =>
    cases ht
    intro hdone l hl
    have hannounced := (added_timely hpresent k).mp ha
    show told devices false l (out ++ (s.addListener k).1) = announced s
    by_cases hlk : l = k
    · subst hlk
      rw [told_devices_added]
      split
      · rename_i hmem
        rw [h hdone l hmem, hannounced, Bool.or_self]
      · exact hannounced.symm
    · rw [told_append, told_added_other hlk]
      exact h hdone l ((mem_added.mp hl).resolve_left hlk)
  | removeListener k =>
    cases ht
    intro hdone l hl
    show told devices false l (out ++ (s.removeListener k).1) = announced s
    rw [told_append, told_removed rfl]
    exact h hdone l (mem_removed hl)

/-- Where the listeners were told right before and are after it, the step was timely. -/
theorem devices_back {out : List Notice} {s t : Controller} {a : Act} (hpresent : s.handler.Present s.m_devices)
    (h : DevicesTold out s) (ht : (s.step a).res = .ok t) (hafter : DevicesTold (out ++ (s.step a).out) t) :
    Timely s a := by
  cases a with
  | poll msg => trivial
  | next =>
    cases ht
    cases hdone : s.next.2.handler.announcing with
    | true => exact announcing_timely hdone
    | false =>
      intro hne
      obtain ⟨l, hl⟩ := List.exists_mem_of_ne_nil _ hne
      have hright := hafter hdone l (by rw [next_listeners]; exact hl)
      rw [step, told_append] at hright
      exact (next_devices hpresent hl (fun hnot => h hnot l hl) hdone).mp hright hne
  | addListener k =>
    cases ht
    rw [added_timely hpresent]
    cases hs : s.handler with
    | onDeviceLost_erase id =>
      rw [hs] at hpresent
      have hthere : s.isConnected = true := by
        rw [isConnected, s.m_devices.isEmpty_of_has hpresent]
        rfl
      have hright := hafter (by simp [addListener, hs, Handler.announcing]) k (mem_added.mpr (Or.inl rfl))
      rw [step, told_devices_added, hthere, Bool.or_true, ite_self] at hright
      exact hright.symm.trans hthere.symm
    | _ => simp [announced, hs]
  | removeListener k => trivial

/-- The listeners know whether there are devices, for as long as the run is timely and no
    longer: what each was told last of them is `isConnected()` at every point of the run,
    except before the first device's notice and after the last one's, exactly if no device
    stops streaming and no service is lost with devices there while there are listeners, and
    no listener is added after the notices of the last device's loss. -/
theorem devices_told_iff (acts : List Act) :
    Throughout step DevicesTold ({} : Controller) acts ↔ Along step Timely {} acts := by
  have hinit : DevicesTold [] ({} : Controller) := fun _ l hl => by cases hl
  exact runs_law_iff step (I := fun out s => s.handler.Present s.m_devices ∧ DevicesTold out s) (fun _ _ h => h.2)
    (fun _ _ _ _ h ha ht => ⟨present_step h.1 ht, devices_step h.1 h.2 ha ht⟩)
    (fun _ _ _ _ h ht hafter => devices_back h.1 h.2 ht hafter) (fun _ _ _ e => nomatch e)
    ⟨init_present, hinit⟩ acts

/-- The last device is erased after its notices: a listener that comes in between hears of it. -/
example : told devices false 3 (runs step ({} : Controller)
    [.poll (.device ⟨1, ⟨some 5, 1⟩⟩), .next, .next, .poll (.deviceLost 1 0), .next, .next, .addListener 3, .next]).out =
      true := by decide

/-- A call of a section speaks of the devices while there are some. -/
theorem next_connected {s : Controller} (hpresent : s.handler.Present s.m_devices) {w : Notice}
    (hw : w ∈ s.next.1) (hc : (devices w.2).isSome) : s.isConnected = true ∧ s.next.2.isConnected = true := by
  cases hs : s.handler with
  | onDeviceStatus_notify newlyConnected change =>
    rw [hs] at hpresent
    have hthere : s.m_devices.isEmpty = false := hpresent
    simp [next, hs, isConnected, hthere]
  | onDeviceStatusChange_notify last_status status =>
    rw [hs] at hpresent
    have hthere : s.m_devices.isEmpty = false := hpresent
    simp [next, hs, isConnected, hthere]
  | onDeviceLost_notify id newlyDisconnected =>
    rw [hs] at hpresent
    have hthere := s.m_devices.isEmpty_of_has hpresent.1
    simp [next, hs, isConnected, hthere]
  | onDeviceLost id status => cases h : s.m_devices.has id <;> simp [next, hs, h] at hw
  | _ =>
    simp only [next, hs, notify, List.not_mem_nil, List.mem_map] at hw
    try (obtain ⟨k, -, rfl⟩ := hw; cases hc)

/-- Where the polling thread calls a listener, the devices are as the call found them:
    `isConnected()` is true in `onConnect`, and in `onDisconnect` too. -/
theorem connected_when_told {acts : List Act} {t u : Controller} (ht : (runs step {} acts).res = .ok t)
    (hu : (t.step .next).res = .ok u) {l : Nat} {c : Callback} (hc : c = .onConnect ∨ c = .onDisconnect)
    (hcall : (l, c) ∈ (t.step .next).out) : t.isConnected = true ∧ u.isConnected = true := by
  have hpresent : t.handler.Present t.m_devices :=
    runs_inv step (I := fun s => s.handler.Present s.m_devices) (fun _ _ _ h hs => present_step h hs) init_present ht
  cases hu
  exact next_connected hpresent hcall (by rcases hc with rfl | rfl <;> rfl)

/-- At the call of `onDisconnect` for the only device. -/
def lastLost : List Act := [.addListener 3, .poll (.device ⟨1, ⟨some 5, 1⟩⟩), .next, .next, .poll (.deviceLost 1 0), .next]

theorem connected_when_told_last : ∃ t u, (runs step {} lastLost).res = .ok t ∧ (t.step .next).res = .ok u ∧
    (3, Callback.onDisconnect) ∈ (t.step .next).out ∧ t.isConnected = true ∧ u.isConnected = true := by
  refine ⟨_, _, rfl, rfl, ?_, ?_⟩
  · decide
  · exact connected_when_told (show (runs step {} lastLost).res = .ok _ from rfl) rfl (l := 3) (Or.inr rfl)
      (by decide)

end LeapSyncFfh.Listeners
