/-
  LeapSyncFfh.Task.LeapConnections — the LeapC connections and the polling threads of one
  wrapper, over any sequence of `connect` and `disconnect` calls.

  The account is kept from the calls to LeapC alone (`outstanding`): `LeapCreateConnection`
  adds a connection, `LeapCloseConnection` marks it and `LeapDestroyConnection` then removes
  it. `ConnectionLaw` is to hold after every call: one connection and one live thread when
  `inConncetion_` is set, none otherwise; a connection is created when none is outstanding,
  closed once and destroyed once.

  `connect` creates a connection before it looks for a device, overwrites the one handle it
  has, and sets `inConncetion_` only when a device is seen; `disconnect` does nothing while
  it is not set. `connections_one_iff`: the law holds exactly when every `connect` that
  returns is made while not connected and sees a device.
-/

import LeapSyncFfh.Task.Connecting

namespace LeapSyncFfh

open Emit LpV2SyncFFH

namespace LeapMotionV2WrapperImpl

variable {F : Type}

/-! ## The account of the LeapC calls -/

/-- A connection created and not yet both closed and destroyed. -/
structure Outstanding where
  handle : Nat
  closed : Bool
  deriving DecidableEq, Repr

def connectionAccount (l : List Outstanding) : LeapEv F → List Outstanding
  | .create h => ⟨h, false⟩ :: l
  | .close h => if ⟨h, false⟩ ∈ l then ⟨h, true⟩ :: l.erase ⟨h, false⟩ else l
  | .destroy h => l.erase ⟨h, true⟩
  | _ => l

def outstanding (tr : List (LeapEv F)) : List Outstanding := tr.foldl connectionAccount []

/-- Created when there is none, closed when open, destroyed when closed. -/
structure InTurn (l : List Outstanding) (e : LeapEv F) : Prop where
  create : ∀ h, e = .create h → l = []
  close : ∀ h, e = .close h → ⟨h, false⟩ ∈ l
  destroy : ∀ h, e = .destroy h → ⟨h, true⟩ ∈ l

@[simp] theorem outstanding_append (tr tr' : List (LeapEv F)) :
    outstanding (tr ++ tr') = tr'.foldl connectionAccount (outstanding tr) := List.foldl_append

/-! ## The law -/

def liveThreads (self : LeapMotionV2WrapperImpl F) : Nat := self.pollingThread_.countP live

structure ConnectionLaw (tr : List (LeapEv F)) (w : LeapMotionV2WrapperImpl F) : Prop where
  created : (outstanding tr).length = if w.inConncetion_ = true then 1 else 0
  threads : w.liveThreads = if w.inConncetion_ = true then 1 else 0
  inTurn : Heeds connectionAccount InTurn [] tr

inductive ConnectionCall where
  | connect (r : LeapAnswers)
  | disconnect

def call (self : LeapMotionV2WrapperImpl F) : ConnectionCall → Emit (LeapEv F) Fault (LeapMotionV2WrapperImpl F)
  | .connect r => do
    let (self, _) ← self.connect r
    pure self
  | .disconnect => do
    let (self, _) ← self.disconnect
    pure self

/-- With these answers `connect` returns; otherwise an assertion of it aborts. -/
def Returns (r : LeapAnswers) : Prop := r.created = true ∧ r.opened = true ∧ (DeviceSeen r → r.listed = true)

/-- Every `connect` that returns is made while not connected and sees a device; `c` tells
    whether the wrapper is connected before. -/
def Orderly (c : Bool) : List ConnectionCall → Prop
  | [] => True
  | .connect r :: calls => Returns r → c = false ∧ DeviceSeen r ∧ Orderly true calls
  | .disconnect :: calls => Orderly false calls

/-! ## What the calls do -/

theorem connect_aborts (self : LeapMotionV2WrapperImpl F) {r : LeapAnswers} (h : ¬ Returns r) :
    ∃ e, (self.call (.connect r)).res = .error e := by
  cases hres : (self.call (.connect r)).res with
  | error e => exact ⟨e, rfl⟩
  | ok t =>
    obtain ⟨⟨u, ret⟩, hu, -⟩ := bind_res_ok.mp hres
    refine absurd ?_ h
    unfold connect at hu
    split at hu
    · cases hu
    rename_i hc
    obtain ⟨-, -, hu⟩ := bind_res_ok.mp hu
    split at hu
    · cases hu
    rename_i ho
    refine ⟨by simpa using hc, by simpa using ho, fun hd => ?_⟩
    rw [if_pos ((deviceSeen_iff r).mpr hd)] at hu
    split at hu
    · cases hu
    · rename_i hl; simpa using hl

/-- The wrapper once `connect` has created and opened the connection. -/
def created (self : LeapMotionV2WrapperImpl F) (r : LeapAnswers) : LeapMotionV2WrapperImpl F :=
  { self with connectionHandle_ := r.handle, connections := r.handle :: self.connections }

theorem call_connect {self : LeapMotionV2WrapperImpl F} {r : LeapAnswers} (h : Returns r) :
    (DeviceSeen r → self.call (.connect r) = ⟨[.create r.handle], .ok { self.created r with
      inConncetion_ := true, pollingThread_ := self.pollingThread_ ++ [.check] }⟩) ∧
    (¬ DeviceSeen r → self.call (.connect r) = ⟨[.create r.handle], .ok (self.created r)⟩) := by
  obtain ⟨hc, ho, hl⟩ := h
  refine ⟨fun hd => ?_, fun hd => ?_⟩
  · simp only [call, connect, hc, ho, hl hd, Bool.not_true, Bool.false_eq_true, if_false,
      if_pos ((deviceSeen_iff r).mpr hd)]
    rfl
  · simp only [call, connect, hc, ho, Bool.not_true, Bool.false_eq_true, if_false,
      if_neg (fun h => hd ((deviceSeen_iff r).mp h))]
    rfl

/-- The wrapper after a `disconnect` while connected. -/
def disconnected (self : LeapMotionV2WrapperImpl F) : LeapMotionV2WrapperImpl F :=
  { self with
    inConncetion_ := false
    pollingThread_ := self.pollingThread_.map fun _ => SvcPc.ended
    connections := self.connections.erase self.connectionHandle_ }

theorem call_disconnect (self : LeapMotionV2WrapperImpl F) :
    (self.inConncetion_ = true → self.call .disconnect =
      ⟨[.close self.connectionHandle_, .destroy self.connectionHandle_], .ok self.disconnected⟩) ∧
    (self.inConncetion_ = false → self.call .disconnect = pure self) := by
  refine ⟨fun h => ?_, fun h => ?_⟩
  · simp only [call, disconnect, h, if_true]; rfl
  · simp only [call, disconnect, h, Bool.false_eq_true, if_false]; rfl

/-! ## Exactly the orderly sequences -/

/-- What the law leaves when it has held after every call so far. -/
structure OneConnection (tr : List (LeapEv F)) (w : LeapMotionV2WrapperImpl F) : Prop where
  held : outstanding tr = if w.inConncetion_ = true then [⟨w.connectionHandle_, false⟩] else []
  threads : w.liveThreads = if w.inConncetion_ = true then 1 else 0
  inTurn : Heeds connectionAccount InTurn [] tr

theorem OneConnection.law {tr : List (LeapEv F)} {self : LeapMotionV2WrapperImpl F} (h : OneConnection tr self) :
    ConnectionLaw tr self := by
  refine ⟨?_, h.threads, h.inTurn⟩
  rw [h.held]
  split <;> rfl

/-- The calls the law survives. -/
def Proper (self : LeapMotionV2WrapperImpl F) : ConnectionCall → Prop
  | .connect r => Returns r → self.inConncetion_ = false ∧ DeviceSeen r
  | .disconnect => True

theorem ended_threads (ts : List SvcPc) : (ts.map fun _ => SvcPc.ended).countP live = 0 := by
  rw [List.countP_eq_zero]
  intro pc hpc
  obtain ⟨-, -, rfl⟩ := List.mem_map.mp hpc
  decide

theorem proper_keeps {tr : List (LeapEv F)} {self t : LeapMotionV2WrapperImpl F} {c : ConnectionCall}
    (hs : OneConnection tr self) (hc : Proper self c) (h : (self.call c).res = .ok t) :
    OneConnection (tr ++ (self.call c).out) t := by
  cases c with
  | connect r =>
    by_cases hr : Returns r
    · obtain ⟨hoff, hd⟩ := hc hr
      rw [(call_connect hr).1 hd] at h ⊢
      cases h
      have hnone : outstanding tr = [] := by rw [hs.held, hoff]; rfl
      refine ⟨?_, ?_, (heeds_append _ _ _ _ _).mpr ⟨hs.inTurn, ?_⟩⟩
      · rw [outstanding_append, hnone]; rfl
      · have := hs.threads
        rw [hoff] at this
        simp only [liveThreads, List.countP_append] at this ⊢
        rw [this]; rfl
      · show Heeds connectionAccount InTurn (outstanding tr) _
        rw [hnone]
        exact ⟨⟨fun _ _ => rfl, fun _ he => (by cases he), fun _ he => (by cases he)⟩, trivial⟩
    · obtain ⟨e, he⟩ := connect_aborts self hr
      rw [he] at h; cases h
  | disconnect =>
    cases hon : self.inConncetion_ with
    | false =>
      rw [(call_disconnect self).2 hon] at h ⊢
      cases h
      simpa using hs
    | true =>
      rw [(call_disconnect self).1 hon] at h ⊢
      cases h
      have hheld : outstanding tr = [⟨self.connectionHandle_, false⟩] := by rw [hs.held, if_pos hon]
      refine ⟨?_, ended_threads _, (heeds_append _ _ _ _ _).mpr ⟨hs.inTurn, ?_⟩⟩
      · rw [outstanding_append, hheld]; simp [connectionAccount, disconnected]
      · show Heeds connectionAccount InTurn (outstanding tr) _
        rw [hheld]
        refine ⟨⟨fun _ he => (by cases he), fun _ he => (by cases he; simp), fun _ he => (by cases he)⟩, ?_, trivial⟩
        exact ⟨fun _ he => (by cases he), fun _ he => (by cases he), fun _ he => (by cases he; simp [connectionAccount])⟩

/-- A `connect` that returns while connected, or without a device, leaves a connection
    that the flag does not know of. -/
theorem proper_of_law {tr : List (LeapEv F)} {self t : LeapMotionV2WrapperImpl F} {c : ConnectionCall}
    (hs : OneConnection tr self) (h : (self.call c).res = .ok t) (hlaw : ConnectionLaw (tr ++ (self.call c).out) t) :
    Proper self c := by
  cases c with
  | disconnect => trivial
  | connect r =>
    intro hr
    have hlen := hlaw.created
    by_cases hd : DeviceSeen r
    · refine ⟨?_, hd⟩
      rw [(call_connect hr).1 hd] at h hlen
      cases h
      rw [outstanding_append, hs.held] at hlen
      cases hon : self.inConncetion_ with
      | false => rfl
      | true => rw [hon] at hlen; cases hlen
    · rw [(call_connect hr).2 hd] at h hlen
      cases h
      rw [outstanding_append, hs.held] at hlen
      cases hon : self.inConncetion_ <;> rw [hon] at hlen <;> simp [connectionAccount, created, hon] at hlen

theorem along_orderly : ∀ (calls : List ConnectionCall) (self : LeapMotionV2WrapperImpl F),
    Along call Proper self calls ↔ Orderly self.inConncetion_ calls := by
  intro calls
  induction calls with
  | nil => intro self; exact Iff.rfl
  | cons c calls ih =>
    intro self
    cases c with
    | connect r =>
      rw [Along, Proper, Orderly]
      by_cases hr : Returns r
      · constructor
        · rintro ⟨h, hrest⟩ _
          rcases h hr with ⟨hoff, hd⟩
          refine ⟨hoff, hd, ?_⟩
          rw [(call_connect hr).1 hd] at hrest
          exact (ih _).mp (hrest _ rfl)
        · intro h
          rcases h hr with ⟨hoff, hd, hrest⟩
          refine ⟨fun _ => ⟨hoff, hd⟩, ?_⟩
          intro t ht
          rw [(call_connect hr).1 hd] at ht
          cases ht
          exact (ih _).mpr hrest
      · obtain ⟨e, he⟩ := connect_aborts self hr
        constructor
        · intro _ h
          exact absurd h hr
        · intro _
          refine ⟨fun h => absurd h hr, ?_⟩
          intro t ht
          rw [he] at ht
          cases ht
    | disconnect =>
      rw [Along, Proper, Orderly]
      cases hon : self.inConncetion_ with
      | false =>
        rw [(call_disconnect self).2 hon]
        constructor
        · intro h
          have hrest := (ih self).mp (h.2 self rfl)
          rwa [hon] at hrest
        · intro h
          refine ⟨trivial, ?_⟩
          rintro t ⟨⟩
          rw [ih, hon]; exact h
      | true =>
        rw [(call_disconnect self).1 hon]
        constructor
        · intro h
          exact (ih _).mp (h.2 _ rfl)
        · intro h
          refine ⟨trivial, ?_⟩
          rintro t ⟨⟩
          exact (ih _).mpr h

/-- After every call the outstanding connections and the live threads are what the flag
    says, exactly in the orderly sequences. -/
theorem connections_one_iff (addr handle : Nat) (calls : List ConnectionCall) :
    Throughout call ConnectionLaw (make addr handle : LeapMotionV2WrapperImpl F) calls ↔ Orderly false calls := by
  refine Iff.trans ?_ (along_orderly calls (make addr handle : LeapMotionV2WrapperImpl F))
  refine runs_law_iff call (I := OneConnection) (fun _ _ h => h.law) (fun _ _ _ _ hs hc h => proper_keeps hs hc h)
    (fun _ _ _ _ hs h hlaw => proper_of_law hs h hlaw) (fun _ self c e _ he => ?_) ⟨rfl, rfl, trivial⟩ calls
  cases c with
  | disconnect => trivial
  | connect r =>
    intro hr
    by_cases hd : DeviceSeen r
    · rw [(call_connect hr).1 hd] at he; cases he
    · rw [(call_connect hr).2 hd] at he; cases he

/-- With no device plugged in, `connect` leaves the connection it created. -/
theorem no_device_leaves_a_connection :
    ¬ Throughout call ConnectionLaw (make 0 0 : LeapMotionV2WrapperImpl ℚ)
      [.connect { handle := 7, created := true, opened := true, tries := fun _ => ⟨false, 0⟩, listed := true }] := by
  intro h
  have := (h _ (List.prefix_refl _) _ rfl).created
  exact absurd this (by decide)

end LeapMotionV2WrapperImpl

end LeapSyncFfh
