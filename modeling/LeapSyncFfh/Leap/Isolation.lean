/-
  LeapSyncFfh.Leap.Isolation — any number of `LeapMotionV2WrapperImpl` objects and the one
  registry they share.

  Objects are named by `addr`, and no two have the same. Each is constructed, runs the
  statements of `initialize` one at a time (`todo`), handles messages and is destroyed; the
  steps of different objects come in any order. A handler runs on the object it is bound
  to, which need not be the one that polled the message (`deliver`); on an object that is
  not there it is a call through a dangling `this`. A copy outside its array does not stop
  the handling (`handleMessagePast`); the unsized buffer of an object whose `initialize` is
  not through does.

  `Isolated`: handling a message of an object calls only handlers bound to it and leaves
  every other object as it was. `callBackFuncs_` has one entry a name, the destructor
  removes none, and the last registration stays: `isolation_iff`, a run is isolated exactly
  when each message finds under its name a handler of its own object, or none.
-/

import LeapSyncFfh.Leap.Overrun

namespace LeapSyncFfh

open Emit LeapMotionV2WrapperImpl

namespace Isolation

variable {F : Type}

/-! ## The objects -/

inductive Slot (F : Type) where
  | unborn
  /-- `todo` is what is left of an `initialize` in progress. -/
  | alive (w : LeapMotionV2WrapperImpl F) (todo : List InitStep)
  | destroyed

structure World (F : Type) where
  objects : Nat → Slot F
  callBackFuncs_ : CallBacks

def empty : World F := ⟨fun _ => .unborn, fun _ _ => none⟩

inductive Broken where
  | fault (f : Fault)
  /-- A handler bound to an object that is not there. -/
  | dangling
  deriving DecidableEq, Repr

inductive Act (F : Type) where
  | construct (a handle : Nat)
  | initialize_ (a : Nat)
  /-- The next statement of `initialize` on `a`. -/
  | next (a : Nat)
  | message (a : Nat) (m : LEAP_CONNECTION_MESSAGE F)
  | destroy (a : Nat)

/-- What an object puts out. -/
abbrev Ev (F : Type) := Nat × LeapEv F

section Steps

variable [Zero F]

/-- One output of an object; a handler bound elsewhere runs there. -/
def deliverOne (a : Nat) (objects : Nat → Slot F) (e : LeapEv F) : Emit (Ev F) Broken (Nat → Slot F) := do
  emit (a, e)
  match e with
  | .call h arg =>
    if h.addr = a then pure objects
    else
      match objects h.addr with
      | .alive w todo =>
        match w.runHandlerPast h.method arg with
        | .ok w => pure (Function.update objects h.addr (.alive w todo))
        | .error f => fail (.fault f)
      | _ => fail .dangling
  | _ => pure objects

/-- What handling a message of `a` puts out. -/
def deliver (a : Nat) : (Nat → Slot F) → List (LeapEv F) → Emit (Ev F) Broken (Nat → Slot F) := runs (deliverOne a)

/-- A label that does not apply changes nothing. -/
def step (s : World F) : Act F → Emit (Ev F) Broken (World F)
  | .construct a handle =>
    match s.objects a with
    | .unborn => pure { s with objects := Function.update s.objects a (.alive (make a handle) []) }
    | _ => pure s
  | .initialize_ a =>
    match s.objects a with
    | .alive w [] => pure { s with objects := Function.update s.objects a (.alive w initSteps) }
    | _ => pure s
  | .next a =>
    match s.objects a with
    | .alive w (i :: todo) =>
      let (w, cbs) := initStep (w, s.callBackFuncs_) i
      pure ⟨Function.update s.objects a (.alive w todo), cbs⟩
    | _ => pure s
  | .message a m =>
    match s.objects a with
    | .alive w todo => do
      let x := w.handleMessagePast s.callBackFuncs_ m
      let objects ← deliver a s.objects x.out
      match x.res with
      | .ok w => pure { s with objects := Function.update objects a (.alive w todo) }
      | .error f => fail (.fault f)
    | _ => pure s
  | .destroy a =>
    match s.objects a with
    | .alive _ _ => pure { s with objects := Function.update s.objects a .destroyed }
    | _ => pure s

/-! ## The law and the condition -/

/-- Handling a message of `a` calls handlers of `a` only, and changes no other object. -/
def Isolated (s : World F) : Act F → Prop
  | .message a m =>
    (∀ h arg, (a, .call h arg) ∈ (step s (.message a m)).out → h.addr = a) ∧
    ∀ t, (step s (.message a m)).res = .ok t → ∀ b, b ≠ a → t.objects b = s.objects b
  | _ => True

end Steps

/-- The registry entry a message is looked up under. -/
def lookedUp : LEAP_CONNECTION_MESSAGE F → Option (List CppType × String)
  | .connection => some ([], "onConnect")
  | .connectionLost => some ([], "onConnectLost")
  | .device _ => some ([.ptr false .LEAP_DEVICE_INFO], "onDeviceFound")
  | .tracking _ => some ([.ptr true .LEAP_TRACKING_EVENT], "onFrame")
  | .other _ => none

/-- Under a message's name stands a handler of the object that polled it, or none. -/
def OwnHandler (s : World F) : Act F → Prop
  | .message a m =>
    ∀ w todo, s.objects a = .alive w todo → ∀ Args name, lookedUp m = some (Args, name) →
      ∀ h, s.callBackFuncs_ Args name = some h → h.addr = a
  | _ => True

/-! ## Delivery -/

theorem calls_cons (e : LeapEv F) (out : List (LeapEv F)) : calls (e :: out) = (callOf e).toList ++ calls out := by
  cases h : callOf e <;> simp [calls, h]

section Delivery

variable [Zero F]

theorem deliverOne_own {a : Nat} {e : LeapEv F} (h : ∀ p, callOf e = some p → p.1.addr = a)
    (objects : Nat → Slot F) : deliverOne a objects e = ⟨[(a, e)], .ok objects⟩ := by
  unfold deliverOne
  rw [bind_of_ok (emit_res _)]
  split
  next hd arg => rw [if_pos (h (hd, arg) rfl)]; rfl
  next => rfl

theorem deliver_own {a : Nat} {out : List (LeapEv F)} (h : ∀ p ∈ calls out, p.1.addr = a)
    (objects : Nat → Slot F) : deliver a objects out = ⟨out.map (Prod.mk a), .ok objects⟩ := by
  unfold deliver
  induction out with
  | nil => rfl
  | cons e out ih =>
    rw [calls_cons] at h
    have hone := deliverOne_own (fun p hp => h p (List.mem_append_left _ (by rw [hp]; exact List.mem_singleton_self p)))
      objects
    rw [runs, hone, bind_of_ok rfl, ih fun p hp => h p (List.mem_append_right _ hp)]
    rfl

/-- A handler bound elsewhere is called. -/
theorem deliver_other {a : Nat} {out : List (LeapEv F)} (objects : Nat → Slot F)
    (h : ¬ ∀ p ∈ calls out, p.1.addr = a) :
    ∃ hd arg, hd.addr ≠ a ∧ (a, LeapEv.call hd arg) ∈ (deliver a objects out).out := by
  unfold deliver
  induction out with
  | nil => exact absurd (fun p hp => (List.not_mem_nil hp).elim) h
  | cons e out ih =>
    by_cases hown : ∀ p, callOf e = some p → p.1.addr = a
    · rw [runs, deliverOne_own hown, bind_of_ok rfl]
      have hrest : ¬ ∀ p ∈ calls out, p.1.addr = a := by
        intro hout
        refine h fun p hp => ?_
        rw [calls_cons, List.mem_append, Option.mem_toList] at hp
        exact hp.elim (hown p) (hout p)
      obtain ⟨hd, arg, hne, hmem⟩ := ih hrest
      exact ⟨hd, arg, hne, List.mem_append_right _ hmem⟩
    · obtain ⟨p, hp, hne⟩ : ∃ p, callOf e = some p ∧ p.1.addr ≠ a := by simpa using hown
      cases e with
      | call hd arg =>
        cases hp
        refine ⟨hd, arg, hne, ?_⟩
        have hone : (a, LeapEv.call hd arg) ∈ (deliverOne a objects (.call hd arg)).out := by
          unfold deliverOne
          rw [bind_of_ok (emit_res _)]
          exact List.mem_append_left _ (List.mem_singleton_self _)
        rw [runs]
        cases hres : (deliverOne a objects (.call hd arg)).res with
        | ok o => rw [bind_of_ok hres]; exact List.mem_append_left _ hone
        | error f => rw [bind_of_error hres]; exact hone
      | _ => cases hp

/-! ## One message -/

/-- What handling a message of `w` calls stands in the registry under the message's name. -/
theorem calls_own_iff {cbs : CallBacks} (hd : cbs [.ptr false .LEAP_DEVICE_INFO] "onDeviceFound" = none)
    (w : LeapMotionV2WrapperImpl F) (m : LEAP_CONNECTION_MESSAGE F) (a : Nat) :
    (∀ p ∈ calls (w.handleMessagePast cbs m).out, p.1.addr = a) ↔
      ∀ Args name, lookedUp m = some (Args, name) → ∀ h, cbs Args name = some h → h.addr = a := by
  have callback : ∀ (u : LeapMotionV2WrapperImpl F) Args name arg,
      (∀ p ∈ calls (u.handleCallbackPast cbs name Args arg).out, p.1.addr = a) ↔
        ∀ As n, some (Args, name) = some (As, n) → ∀ h, cbs As n = some h → h.addr = a := by
    intro u Args name arg
    rw [callbackPast_calls]
    constructor
    · intro hall As n e h hh
      cases e
      exact hall (h, arg) (List.mem_map.mpr ⟨h, Option.mem_toList.mpr hh, rfl⟩)
    · intro hall p hp
      obtain ⟨h, hh, rfl⟩ := List.mem_map.mp hp
      exact hall _ _ rfl h (Option.mem_toList.mp hh)
  cases m with
  | connection => exact callback w _ _ _
  | connectionLost => exact callback w _ _ _
  | device d =>
    rw [handleMessagePast, (devicePast_step hd w d).1]
    refine ⟨fun _ As n e h hh => ?_, fun _ p hp => (List.not_mem_nil hp).elim⟩
    cases e
    rw [hd] at hh
    cases hh
  | tracking f => exact callback _ _ _ _
  | other k => exact ⟨fun _ As n e => (by cases e), fun _ p hp => (List.not_mem_nil hp).elim⟩

/-! ## What every run keeps -/

/-- An object has its own address. -/
def Placed (objects : Nat → Slot F) : Prop :=
  ∀ a w todo, objects a = .alive w todo → w.addr = a ∧ todo ⊆ initSteps

structure Inv (s : World F) : Prop where
  placed : Placed s.objects
  device : s.callBackFuncs_ [.ptr false .LEAP_DEVICE_INFO] "onDeviceFound" = none

omit [Zero F] in
theorem placed_update {objects : Nat → Slot F} (h : Placed objects) {a : Nat} {slot : Slot F}
    (hslot : ∀ w todo, slot = .alive w todo → w.addr = a ∧ todo ⊆ initSteps) :
    Placed (Function.update objects a slot) := by
  intro b w todo hb
  by_cases hba : b = a
  · subst hba
    rw [Function.update_self] at hb
    exact hslot w todo hb
  · rw [Function.update_of_ne hba] at hb
    exact h b w todo hb

theorem deliver_placed {a : Nat} {objects objects' : Nat → Slot F} {out : List (LeapEv F)} (h : Placed objects)
    (hd : (deliver a objects out).res = .ok objects') : Placed objects' := by
  refine runs_inv (deliverOne a) (fun o e o' ho he => ?_) h hd
  obtain ⟨-, -, he⟩ := bind_res_ok.mp he
  split at he
  · split at he
    · cases he; exact ho
    · split at he
      next w todo hslot =>
        split at he
        next w' hrun =>
          cases he
          obtain ⟨haddr, htodo⟩ := ho _ w todo hslot
          refine placed_update ho fun v rest e => ?_
          cases e
          exact ⟨by rw [runHandlerPast_data hrun]; exact haddr, htodo⟩
        next => cases he
      next => cases he
  · cases he; exact ho

omit [Zero F] in
theorem init_keys : ∀ i ∈ initSteps, ∀ CBType Args m, i = .reg CBType Args m →
    ¬ ([.ptr false .LEAP_DEVICE_INFO] = Args ∧ "onDeviceFound" = CBType) := by
  intro i hi CBType Args m e
  subst e
  simp only [initSteps, List.mem_cons, InitStep.reg.injEq, List.not_mem_nil, reduceCtorEq, or_false] at hi
  rcases hi with h | h | h | h | h | h | h | h | h | h | h | h <;> (obtain ⟨rfl, rfl, rfl⟩ := h; decide)

theorem step_inv {s t : World F} {act : Act F} (h : Inv s) (ht : (step s act).res = .ok t) : Inv t := by
  cases act with
  | construct a handle =>
    simp only [step] at ht
    split at ht
    · cases ht
      exact ⟨placed_update h.placed fun w todo e => by cases e; exact ⟨rfl, nofun⟩, h.device⟩
    · cases ht; exact h
  | initialize_ a =>
    simp only [step] at ht
    split at ht
    next w hw =>
      cases ht
      obtain ⟨haddr, -⟩ := h.placed a w [] hw
      exact ⟨placed_update h.placed fun w' todo e => by cases e; exact ⟨haddr, List.Subset.refl _⟩, h.device⟩
    next => cases ht; exact h
  | next a =>
    simp only [step] at ht
    split at ht
    next w i todo hw =>
      cases ht
      obtain ⟨haddr, htodo⟩ := h.placed a w (i :: todo) hw
      have hrest : todo ⊆ initSteps := fun j hj => htodo (List.mem_cons_of_mem i hj)
      cases i with
      | setSize n =>
        exact ⟨placed_update h.placed fun w' todo' e => by cases e; exact ⟨haddr, hrest⟩, h.device⟩
      | reg CBType Args m =>
        refine ⟨placed_update h.placed fun w' todo' e => by cases e; exact ⟨haddr, hrest⟩, ?_⟩
        simp only [initStep, regCallback]
        rw [if_neg (init_keys _ (htodo List.mem_cons_self) CBType Args m rfl)]
        exact h.device
    next => cases ht; exact h
  | message a m =>
    simp only [step] at ht
    split at ht
    next w todo hw =>
      obtain ⟨haddr, htodo⟩ := h.placed a w todo hw
      obtain ⟨objects, hobjects, ht⟩ := bind_res_ok.mp ht
      split at ht
      next w' hw' =>
        cases ht
        refine ⟨placed_update (deliver_placed h.placed hobjects) fun v rest e => ?_, h.device⟩
        cases e
        exact ⟨(messagePast_addr hw').trans haddr, htodo⟩
      next => cases ht
    next => cases ht; exact h
  | destroy a =>
    simp only [step] at ht
    split at ht
    · cases ht
      exact ⟨placed_update h.placed fun w todo e => (by cases e), h.device⟩
    · cases ht; exact h

/-! ## Exactly the runs with handlers of their own -/

/-- A message for an object that is not there does nothing. -/
theorem isolated_absent {s : World F} {a : Nat} (h : ∀ w todo, s.objects a ≠ .alive w todo)
    (m : LEAP_CONNECTION_MESSAGE F) : Isolated s (.message a m) ∧ OwnHandler s (.message a m) := by
  have hstep : step s (.message a m) = pure s := by
    rw [step]
    split
    · rename_i w todo hw
      exact absurd hw (h w todo)
    · rfl
  refine ⟨?_, fun w todo hw => absurd hw (h w todo)⟩
  rw [Isolated, hstep]
  exact ⟨fun hd arg hmem => (List.not_mem_nil hmem).elim, fun t ht b _ => by cases ht; rfl⟩

theorem isolated_iff {s : World F} (h : Inv s) (act : Act F) : Isolated s act ↔ OwnHandler s act := by
  cases act with
  | message a m =>
    cases hw : s.objects a with
    | alive w todo =>
      have hkey := calls_own_iff h.device w m a
      simp only [Isolated, OwnHandler, step, hw]
      constructor
      · rintro ⟨hcalls, -⟩ w' todo' e
        cases e
        refine hkey.mp (Classical.byContradiction fun hother => ?_)
        obtain ⟨hd, arg, hne, hmem⟩ := deliver_other s.objects hother
        refine hne (hcalls hd arg ?_)
        cases hres : (deliver a s.objects (w.handleMessagePast s.callBackFuncs_ m).out).res with
        | ok o => rw [bind_of_ok hres]; exact List.mem_append_left _ hmem
        | error f => rw [bind_of_error hres]; exact hmem
      · intro hown
        have hcalls := hkey.mpr (hown w todo rfl)
        rw [deliver_own hcalls, bind_of_ok rfl]
        refine ⟨fun hd arg hmem => ?_, fun t ht b hb => ?_⟩
        · have hmem : (a, LeapEv.call hd arg) ∈ (w.handleMessagePast s.callBackFuncs_ m).out.map (Prod.mk a) := by
            rcases List.mem_append.mp hmem with hmem | hmem
            · exact hmem
            · split at hmem <;> exact (List.not_mem_nil hmem).elim
          obtain ⟨e, he, heq⟩ := List.mem_map.mp hmem
          cases heq
          exact hcalls (hd, arg) (List.mem_filterMap.mpr ⟨_, he, rfl⟩)
        · split at ht
          · cases ht; exact Function.update_of_ne hb _ _
          · cases ht
    | unborn =>
      obtain ⟨hiso, hown⟩ := isolated_absent (s := s) (a := a) (by rw [hw]; exact fun _ _ => nofun) m
      exact iff_of_true hiso hown
    | destroyed =>
      obtain ⟨hiso, hown⟩ := isolated_absent (s := s) (a := a) (by rw [hw]; exact fun _ _ => nofun) m
      exact iff_of_true hiso hown
  | _ => exact Iff.rfl

/-- A run is isolated exactly when every message of it finds under its name a handler of
    the object that polled it, or none. -/
theorem isolation_iff (is : List (Act F)) :
    Along step Isolated (empty : World F) is ↔ Along step OwnHandler empty is :=
  along_iff step (I := Inv) (fun _ _ _ => step_inv) (fun _ act hs => isolated_iff hs act) is empty
    ⟨fun a w todo e => (by cases e), rfl⟩

/-! ## One object -/

/-- Every step is one of `a`. -/
def Of (a : Nat) : Act F → Prop
  | .construct b _ => b = a
  | .initialize_ b => b = a
  | .next b => b = a
  | .message b _ => b = a
  | .destroy b => b = a

theorem registered_own {s t : World F} {act : Act F} {a : Nat} (hs : Inv s) (hof : Of a act)
    (h : ∀ Args name hd, s.callBackFuncs_ Args name = some hd → hd.addr = a) (ht : (step s act).res = .ok t) :
    ∀ Args name hd, t.callBackFuncs_ Args name = some hd → hd.addr = a := by
  cases act with
  | next b =>
    obtain rfl : b = a := hof
    simp only [step] at ht
    split at ht
    next w i todo hw =>
      cases ht
      intro Args name hd hreg
      cases i with
      | setSize n => exact h Args name hd hreg
      | reg CBType As m =>
        simp only [initStep, regCallback] at hreg
        split at hreg
        · cases hreg; exact (hs.placed b w _ hw).1
        · exact h Args name hd hreg
    next => cases ht; exact h
  | message b m =>
    simp only [step] at ht
    split at ht
    next w todo hw =>
      obtain ⟨objects, -, ht⟩ := bind_res_ok.mp ht
      split at ht <;> cases ht
      exact h
    next => cases ht; exact h
  | construct b handle => simp only [step] at ht; split at ht <;> cases ht <;> exact h
  | initialize_ b => simp only [step] at ht; split at ht <;> cases ht <;> exact h
  | destroy b => simp only [step] at ht; split at ht <;> cases ht <;> exact h

/-- As long as there is one object only, its messages are isolated. -/
theorem alone {a : Nat} {is : List (Act F)} (h : ∀ act ∈ is, Of a act) : Along step Isolated (empty : World F) is := by
  suffices ∀ (is : List (Act F)) (s : World F), (∀ act ∈ is, Of a act) → Inv s →
      (∀ Args name hd, s.callBackFuncs_ Args name = some hd → hd.addr = a) → Along step Isolated s is from
    this is empty h ⟨fun a w todo e => (by cases e), rfl⟩ nofun
  intro is
  induction is with
  | nil => exact fun _ _ _ _ => trivial
  | cons act is ih =>
    intro s hof hs hreg
    have hact := hof act List.mem_cons_self
    refine ⟨(isolated_iff hs act).mpr ?_, fun t ht => ?_⟩
    · cases act with
      | message b m =>
        obtain rfl : b = a := hact
        exact fun w todo _ Args name _ hd hh => hreg Args name hd hh
      | _ => trivial
    · exact ih t (fun x hx => hof x (List.mem_cons_of_mem act hx)) (step_inv hs ht) (registered_own hs hact hreg ht)

end Delivery

/-! ## Two objects -/

def constructed (a : Nat) : List (Act ℚ) := [.construct a 0, .initialize_ a] ++ List.replicate initSteps.length (.next a)

def aFrame (a : Nat) : Act ℚ := .message a (.tracking (eventOf [flatHand]))

/-- The objects after 0 and then 1 are initialised, and 0 polls a frame: it is handled by 1. -/
theorem a_later_object_takes_the_frames :
    ¬ Along step Isolated (empty : World ℚ) (constructed 0 ++ constructed 1 ++ [aFrame 0]) ∧
    ∃ t w v, (runs step empty (constructed 0 ++ constructed 1 ++ [aFrame 0])).res = .ok t ∧
      t.objects 0 = .alive w [] ∧ w.hands_ = [] ∧ t.objects 1 = .alive v [] ∧ v.hands_.length = 1 := by
  refine ⟨fun h => ?_, _, _, _, rfl, rfl, rfl, rfl, rfl⟩
  obtain ⟨hcalls, -⟩ : Isolated _ (aFrame 0) := along_last step h rfl
  exact absurd (hcalls ⟨1, .onFrame⟩ _ (List.Mem.head _)) (by decide)

/-- 0 is initialised after 1 and destroyed: the frame 1 polls is handled by no object. -/
theorem a_destroyed_object_is_called :
    (runs step empty (constructed 1 ++ constructed 0 ++ [.destroy 0, aFrame 1])).res = .error Broken.dangling := rfl

end Isolation

end LeapSyncFfh
