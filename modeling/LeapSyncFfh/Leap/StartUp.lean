/-
  LeapSyncFfh.Leap.StartUp — `initialize()` against the running message loop.

  In leap_motion_demo mode `connect()` has started a `serviceMessageLoop` thread before
  `start()` calls `initialize()`. The statements of `initialize` (`Act.init`, in program
  order) interleave with messages handled by that thread (`Act.msg`), which a copy outside
  its array does not stop (`handleMessagePast`).

  `initialize` registers `onFrame` with its fifth statement and sizes the frame buffer
  with its thirteenth. In between, a tracking event runs `CircularBuffer::add` on a buffer
  of size 0, whatever its hand count; before, nothing is called; after, the buffer has its
  slots (`step_spec`). `startup_safe_iff` says it of whole schedules.

  `Progress k s`: after `k` statements.
-/

import LeapSyncFfh.Leap.Overrun
import Mathlib

namespace LeapSyncFfh

open Cells Emit CircularBuffer LeapMotionV2WrapperImpl

namespace StartUp

variable {F : Type} [Zero F]

structure St (F : Type) where
  w : Registered F
  todo : List InitStep

inductive Act (F : Type) where
  | init
  | msg (m : LEAP_CONNECTION_MESSAGE F)

def step (s : St F) : Act F → Emit (LeapEv F) Fault (St F)
  | .init =>
    match s.todo with
    | [] => pure s
    | i :: rest => pure ⟨initStep s.w i, rest⟩
  | .msg m => do
    let self ← s.w.1.handleMessagePast s.w.2 m
    pure { s with w := (self, s.w.2) }

/-- `initialize` is about to be called on `self`; the registry is empty. -/
def start (self : LeapMotionV2WrapperImpl F) : St F := ⟨(self, fun _ _ => none), initSteps⟩

/-- The step runs `CircularBuffer::add`, the first statement of `onFrame`, with `m_size = 0`. -/
def AddsUnsized (s : St F) (a : Act F) : Prop :=
  (∃ h arg, (h, arg) ∈ calls (step s a).out ∧ h.method = .onFrame) ∧ s.w.1.frameBuffer_.m_size = 0

structure Safe (s : St F) (a : Act F) : Prop where
  add : ¬ AddsUnsized s a
  write : (step s a).res ≠ .error (.outOfBounds .m_buffer)
  division : (step s a).res ≠ .error .divisionByZero

/-- How many statements of `initialize` a schedule has run. -/
def inits (acts : List (Act F)) : Nat := acts.countP fun a => match a with | .init => true | .msg _ => false

/-! ## The registry and the buffer after `k` statements -/

structure Progress (k : Nat) (s : St F) : Prop where
  todo : s.todo = initSteps.drop k
  connect : s.w.2 [] "onConnect" = if 1 ≤ k then some ⟨s.w.1.addr, .onConnect⟩ else none
  lost : s.w.2 [] "onConnectLost" = if 2 ≤ k then some ⟨s.w.1.addr, .onConnectLost⟩ else none
  frame : s.w.2 [.ptr true .LEAP_TRACKING_EVENT] "onFrame" = if 5 ≤ k then some ⟨s.w.1.addr, .onFrame⟩ else none
  device : s.w.2 [.ptr false .LEAP_DEVICE_INFO] "onDeviceFound" = none
  unsized : k < 13 → s.w.1.frameBuffer_ = {}
  sized : 13 ≤ k → ∃ fs, Holds .zero frameCount_ fs s.w.1.frameBuffer_

theorem start_progress {self : LeapMotionV2WrapperImpl F} (hf : self.frameBuffer_ = {}) : Progress 0 (start self) :=
  ⟨rfl, rfl, rfl, rfl, rfl, fun _ => hf, fun h => absurd h (by decide)⟩

/-- The next statement of `initialize`. -/
theorem init_progress {k : Nat} (hk : k < 13) {s t : St F} (h : Progress k s) (ht : (step s .init).res = .ok t) :
    Progress (k + 1) t := by
  obtain ⟨htodo, hc, hl, hf, hd, hun, -⟩ := h
  have hbuf := hun hk
  simp only [step, htodo] at ht
  interval_cases k <;> cases ht <;>
    refine ⟨rfl, ?_, ?_, ?_, ?_, fun _ => ?_, fun h => ?_⟩ <;>
    first
      | exact hbuf
      | exact absurd h (by decide)
      | exact ⟨[], holds_setSize .zero frameCount_ (show s.w.1.frameBuffer_.m_tail = 0 by rw [hbuf])⟩
      | simp_all [initStep, regCallback]

/-! ## One step -/

/-- A tracking event between the registration of `onFrame` and the sizing of the buffer. -/
def InWindow (k : Nat) : Act F → Prop
  | .msg (.tracking _) => 5 ≤ k ∧ k < 13
  | _ => False

omit [Zero F] in
theorem inits_snoc (acts : List (Act F)) (a : Act F) : inits (acts ++ [a]) = inits acts + inits [a] :=
  List.countP_append

/-- A step that returns touches nothing it should not but by an `add`. -/
theorem safe_of {s t : St F} {a : Act F} (ht : (step s a).res = .ok t) (hadd : ¬ AddsUnsized s a) : Safe s a := by
  refine ⟨hadd, fun h => ?_, fun h => ?_⟩
  · rw [ht] at h
    cases h
  · rw [ht] at h
    cases h

theorem msg_ok {s : St F} {m : LEAP_CONNECTION_MESSAGE F} {self : LeapMotionV2WrapperImpl F}
    (hres : (s.w.1.handleMessagePast s.w.2 m).res = .ok self) :
    (step s (.msg m)).res = .ok { s with w := (self, s.w.2) } := by
  rw [step, bind_of_ok hres]
  rfl

/-- A message that returns is safe if it calls no `onFrame` on an unsized buffer. -/
theorem safe_msg {s : St F} {m : LEAP_CONNECTION_MESSAGE F} {self : LeapMotionV2WrapperImpl F}
    (hres : (s.w.1.handleMessagePast s.w.2 m).res = .ok self)
    (hc : ∀ h arg, (h, arg) ∈ calls (s.w.1.handleMessagePast s.w.2 m).out → h.method = .onFrame →
      s.w.1.frameBuffer_.m_size ≠ 0) : Safe s (.msg m) := by
  refine safe_of (msg_ok hres) fun ⟨⟨h, arg, hmem, hm⟩, h0⟩ => ?_
  rw [step, bind_pure_out] at hmem
  exact hc h arg hmem hm h0

/-- A message whose handler only prints. -/
theorem printing_spec {k : Nat} {s : St F} (hp : Progress k s) {m : LEAP_CONNECTION_MESSAGE F} {name : String}
    {Args : List CppType} (hm : s.w.1.handleMessagePast s.w.2 m = s.w.1.handleCallbackPast s.w.2 name Args .none)
    (hreg : ∀ h, s.w.2 Args name = some h → h.method ≠ .onFrame) :
    Safe s (.msg m) ∧ ∃ t, (step s (.msg m)).res = .ok t ∧ Progress k t := by
  have hres := callbackPast_prints s.w.2 s.w.1 name Args .none fun f e => by cases e
  rw [← hm] at hres
  refine ⟨safe_msg hres fun h arg hmem hframe => ?_, s, msg_ok hres, hp⟩
  rw [hm, callbackPast_calls] at hmem
  obtain ⟨h', hh', e⟩ := List.mem_map.mp hmem
  cases e
  exact absurd hframe (hreg h (Option.mem_toList.mp hh'))

/-- What a tracking event does after `k` statements. -/
theorem tracking_spec {k : Nat} {s : St F} (h : Progress k s) (f : LEAP_TRACKING_EVENT F) :
    (5 ≤ k ∧ k < 13 → AddsUnsized s (.msg (.tracking f)) ∧
      (step s (.msg (.tracking f))).res = .error (.outOfBounds .m_buffer)) ∧
    (¬ (5 ≤ k ∧ k < 13) →
      Safe s (.msg (.tracking f)) ∧ ∃ t, (step s (.msg (.tracking f))).res = .ok t ∧ Progress k t) := by
  have hcalls := callbackPast_calls s.w.2 (s.w.1.setFramePast f) "onFrame" [.ptr true .LEAP_TRACKING_EVENT] (.tracking f)
  rw [h.frame] at hcalls
  constructor
  · rintro ⟨h5, h13⟩
    have hempty : (s.w.1.setFramePast f).frameBuffer_ = {} := h.unsized h13
    rw [if_pos h5] at hcalls
    refine ⟨⟨⟨⟨s.w.1.addr, .onFrame⟩, .tracking f, ?_, rfl⟩, by rw [h.unsized h13]⟩, ?_⟩
    · rw [step, bind_pure_out]
      exact hcalls ▸ List.mem_singleton_self _
    · have hres : (s.w.1.handleMessagePast s.w.2 (.tracking f)).res = .error (.outOfBounds .m_buffer) := by
        simp only [handleMessagePast, handleTrackingEventPast, handleCallbackPast, h.frame, if_pos h5]
        rw [bind_of_ok (emit_res _), if_pos (show s.w.1.addr = (s.w.1.setFramePast f).addr from rfl)]
        exact onFramePast_unsized hempty f
      rw [step, bind_of_error hres]
  · intro hout
    by_cases h5 : 5 ≤ k
    · obtain ⟨fs, hfs⟩ := h.sized (by omega)
      have hring : Holds .zero frameCount_ fs (s.w.1.setFramePast f).frameBuffer_ := hfs
      obtain ⟨hands, hrun⟩ := onFramePast_sized hring f
      have hres : (s.w.1.handleMessagePast s.w.2 (.tracking f)).res = .ok { s.w.1.setFramePast f with
          frameBuffer_ := (s.w.1.setFramePast f).frameBuffer_.added f, hands_ := hands } := by
        simp only [handleMessagePast, handleTrackingEventPast, handleCallbackPast, h.frame, if_pos h5]
        rw [bind_of_ok (emit_res _), if_pos (show s.w.1.addr = (s.w.1.setFramePast f).addr from rfl)]
        exact hrun
      refine ⟨safe_msg hres fun _ _ _ _ => by rw [hfs.size]; decide, _, msg_ok hres, ?_⟩
      exact ⟨h.todo, h.connect, h.lost, h.frame, h.device, fun hlt => absurd hlt (by omega),
        fun _ => ⟨_, (holds_add (by decide) hfs f).2⟩⟩
    · have hres : (s.w.1.handleMessagePast s.w.2 (.tracking f)).res = .ok (s.w.1.setFramePast f) := by
        simp only [handleMessagePast, handleTrackingEventPast, handleCallbackPast, h.frame, if_neg h5, pure_res]
      rw [if_neg h5] at hcalls
      refine ⟨safe_msg hres fun hd arg hmem => ?_, _, msg_ok hres, ?_⟩
      · rw [handleMessagePast, handleTrackingEventPast, hcalls] at hmem
        cases hmem
      · exact ⟨h.todo, h.connect, h.lost, h.frame, h.device, h.unsized, h.sized⟩

/-- A step in the window adds to the empty buffer and ends there. Any other is safe, and the
    program goes on. -/
theorem step_spec {k : Nat} {s : St F} (h : Progress (min k 13) s) (a : Act F) :
    (InWindow (min k 13) a → AddsUnsized s a ∧ (step s a).res = .error (.outOfBounds .m_buffer)) ∧
    (¬ InWindow (min k 13) a →
      Safe s a ∧ ∃ t, (step s a).res = .ok t ∧ Progress (min (k + inits [a]) 13) t) := by
  cases a with
  | init =>
    refine ⟨fun hwin => hwin.elim, fun _ => ?_⟩
    have hout : (step s .init).out = [] := by simp only [step]; split <;> rfl
    obtain ⟨t, ht⟩ : ∃ t, (step s .init).res = .ok t := by
      simp only [step]
      split <;> exact ⟨_, rfl⟩
    have hi : inits [Act.init (F := F)] = 1 := rfl
    refine ⟨safe_of ht fun hadd => ?_, t, ht, ?_⟩
    · obtain ⟨h', arg, hmem, -⟩ := hadd.1
      rw [hout] at hmem
      cases hmem
    · by_cases hk : k < 13
      · rw [Nat.min_eq_left (by omega)] at h
        rw [hi, Nat.min_eq_left (by omega)]
        exact init_progress hk h ht
      · rw [Nat.min_eq_right (by omega)] at h
        rw [Nat.min_eq_right (by omega)]
        have htodo : s.todo = [] := h.todo
        simp only [step, htodo] at ht
        cases ht
        exact h
  | msg m =>
    have hi : inits [Act.msg m] = 0 := rfl
    rw [hi, Nat.add_zero]
    cases m with
    | connection =>
      refine ⟨fun hwin => hwin.elim, fun _ => printing_spec h rfl fun h' hh => ?_⟩
      rw [h.connect] at hh
      split at hh <;> cases hh
      simp
    | connectionLost =>
      refine ⟨fun hwin => hwin.elim, fun _ => printing_spec h rfl fun h' hh => ?_⟩
      rw [h.lost] at hh
      split at hh <;> cases hh
      simp
    | device d =>
      obtain ⟨hcalls, l, hres⟩ := devicePast_step h.device s.w.1 d
      refine ⟨fun hwin => hwin.elim, fun _ => ⟨safe_msg hres fun hd arg hmem => ?_, _, msg_ok hres, ?_⟩⟩
      · rw [handleMessagePast, hcalls] at hmem
        cases hmem
      · exact ⟨h.todo, h.connect, h.lost, h.frame, h.device, h.unsized, h.sized⟩
    | tracking f => exact tracking_spec h f
    | other k' =>
      refine ⟨fun hwin => hwin.elim, fun _ => ⟨?_, s, rfl, h⟩⟩
      have hres : (s.w.1.handleMessagePast s.w.2 (.other k')).res = .ok s.w.1 := rfl
      exact safe_msg hres fun hd arg hmem => by cases hmem

/-! ## Schedules -/

theorem progress {self : LeapMotionV2WrapperImpl F} (hf : self.frameBuffer_ = {}) {acts : List (Act F)} {s : St F}
    (h : (runs step (start self) acts).res = .ok s) : Progress (min (inits acts) 13) s := by
  refine runs_trace step (J := fun acts _ s => Progress (min (inits acts) 13) s) (fun acts _ s a t hp ht => ?_)
    (start_progress hf) h
  obtain ⟨hwin, hout⟩ := step_spec hp a
  by_cases ha : InWindow (min (inits acts) 13) a
  · rw [(hwin ha).2] at ht
    cases ht
  · obtain ⟨-, u, hu, hnext⟩ := hout ha
    rw [hu] at ht
    cases ht
    rwa [inits_snoc]

/-- While the steps are safe, the program goes on. -/
theorem reaches {self : LeapMotionV2WrapperImpl F} (hf : self.frameBuffer_ = {}) (acts : List (Act F))
    (hsafe : ∀ before a after s, acts = before ++ a :: after → (runs step (start self) before).res = .ok s → Safe s a) :
    ∃ s, (runs step (start self) acts).res = .ok s := by
  induction acts using List.reverseRecOn with
  | nil => exact ⟨_, rfl⟩
  | append_singleton acts a ih =>
    obtain ⟨s, hs⟩ := ih fun before b after s e hs => hsafe before b (after ++ [a]) s (by rw [e]; simp) hs
    obtain ⟨hwin, hout⟩ := step_spec (progress hf hs) a
    by_cases ha : InWindow (min (inits acts) 13) a
    · exact absurd (hwin ha).1 (hsafe acts a [] s rfl hs).add
    · obtain ⟨-, t, ht, -⟩ := hout ha
      exact ⟨t, by rw [runs_snoc, bind_of_ok hs]; exact ht⟩

/-- Every step of a schedule is safe exactly when no tracking event is handled between the
    registration of `onFrame` and the sizing of the buffer. -/
theorem startup_safe_iff {self : LeapMotionV2WrapperImpl F} (hf : self.frameBuffer_ = {}) (acts : List (Act F)) :
    (∀ before a after s, acts = before ++ a :: after → (runs step (start self) before).res = .ok s → Safe s a) ↔
      ∀ before f after, acts = before ++ .msg (.tracking f) :: after → ¬ (5 ≤ inits before ∧ inits before < 13) := by
  constructor
  · intro hsafe before f after e hwin
    obtain ⟨s, hs⟩ := reaches hf before fun b a c s e' hs =>
      hsafe b a (c ++ .msg (.tracking f) :: after) s (by rw [e, e']; simp) hs
    have ha : InWindow (min (inits before) 13) (.msg (.tracking f)) := by
      rw [Nat.min_eq_left hwin.2.le]
      exact hwin
    exact (hsafe before _ after s e hs).add ((step_spec (progress hf hs) _).1 ha).1
  · intro hout before a after s e hs
    refine ((step_spec (progress hf hs) a).2 fun ha => ?_).1
    cases a with
    | init => exact ha
    | msg m =>
      cases m with
      | tracking f =>
        obtain ⟨h5, h13⟩ : 5 ≤ min (inits before) 13 ∧ min (inits before) 13 < 13 := ha
        exact hout before f after e ⟨by omega, by omega⟩
      | _ => exact ha

def threeHands : LEAP_TRACKING_EVENT ℚ := eventOf [flatHand, flatHand, flatHand]

/-- A frame before `onFrame` is registered, and one in the window that `setFrame` cannot copy. -/
def early : List (Act ℚ) :=
  [.msg (.tracking (eventOf [flatHand]))] ++ List.replicate 5 .init ++ [.msg (.tracking threeHands)]

theorem startup_safe_early :
    (∀ before a after s, early = before ++ a :: after → (runs step (start (make 0 0)) before).res = .ok s → Safe s a) ↔
      ∀ before f after, early = before ++ .msg (.tracking f) :: after → ¬ (5 ≤ inits before ∧ inits before < 13) :=
  startup_safe_iff rfl early

/-- A frame that arrives right after `onFrame` is registered is added to the empty buffer. -/
theorem an_early_frame_is_added_unsized :
    ∃ s, (runs step (start (make 0 0)) (List.replicate 5 (Act.init (F := ℚ)))).res = .ok s ∧
      AddsUnsized s (.msg (.tracking (eventOf [flatHand]))) ∧
      (step s (.msg (.tracking (eventOf [flatHand])))).res = .error (.outOfBounds .m_buffer) :=
  ⟨_, rfl, ⟨⟨⟨0, .onFrame⟩, .tracking (eventOf [flatHand]), List.mem_singleton.mpr rfl, rfl⟩, rfl⟩, rfl⟩

end StartUp

end LeapSyncFfh
