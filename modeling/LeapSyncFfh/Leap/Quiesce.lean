/-
  LeapSyncFfh.Leap.Quiesce — `connect` and `disconnect` statement by statement, against the
  `serviceMessageLoop` threads they start.

  One thread makes the calls (`Ctl` is where it stands); thread `i` of `pollingThread_`
  reads `inConncetion_`, polls, and handles what it polled (`polled`). Any of them may take
  the next step. What LeapC answers is part of the label; an assertion that fails aborts.
  `disconnect` waits for one thread after another (`Ctl.join`), the ones of earlier
  connections included: the vector is never cleared.

  `Account` is kept from the outputs: whether a `disconnect` has returned since the last
  thread was started (`settled`), and the handles destroyed. In every run (`quiescence`)
  no message is dispatched while settled, `LeapPollConnection` is never called on a
  destroyed handle, and in a settled state every thread has ended, and `hands_` and
  `frameBuffer_` stay as they are until a thread is started.

  `connect_in_a_row`, `disconnect_in_a_row`: the statements of a call without a pause are
  the call taken whole (`connect`, `disconnect`).
-/

import LeapSyncFfh.Leap.Dispatch

namespace LeapSyncFfh

open Emit LeapMotionV2WrapperImpl

namespace Quiesce

variable {F : Type}

/-! ## The steps -/

/-- Where the calling thread stands. -/
inductive Ctl where
  | idle
  /-- `connect`, before each of its statements; `k` tries of the poll loop are left, and
      `size` is `computed_array_size`. -/
  | create
  | open_
  | poll (k size : Nat)
  | list (k size : Nat)
  | listing
  | setFlag
  | push
  /-- `disconnect`; `join k` waits for thread `k` of `pollingThread_`. -/
  | clear
  | join (k : Nat)
  | close
  | destroy
  deriving DecidableEq, Repr

structure St (F : Type) where
  w : LeapMotionV2WrapperImpl F
  ctl : Ctl
  /-- The message thread `i` has polled and not handled yet. -/
  polled : Nat → Option (LEAP_CONNECTION_MESSAGE F)

inductive Ev (F : Type) where
  | leap (e : LeapEv F)
  | LeapPollConnection (handle : Nat)
  /-- Thread `i` goes to handle a message. -/
  | dispatch (i : Nat)
  /-- `std::thread`. -/
  | started
  | connected (r : AR_RETURN_VALUE)
  | disconnected

/-- What LeapC answers to the next statement of the calling thread. -/
structure Answer where
  ok : Bool
  handle : Nat
  devices : DeviceList

inductive Act (F : Type) where
  | connect
  | disconnect
  | ctl (a : Answer)
  /-- `m` is the message a poll returns, if it returns one. -/
  | thread (i : Nat) (m : Option (LEAP_CONNECTION_MESSAGE F))

def start (w : LeapMotionV2WrapperImpl F) : St F := ⟨w, .idle, fun _ => none⟩

/-- After the poll loop. -/
def looked (s : St F) (size : Nat) : Emit (Ev F) Fault (St F) :=
  if 0 < size then pure { s with ctl := .listing }
  else do
    emit (.connected .ACTION_FAIL)
    pure { s with ctl := .idle }

def ctlStep (s : St F) (a : Answer) : Emit (Ev F) Fault (St F) :=
  match s.ctl with
  | .idle => pure s
  | .create =>
    if a.ok then do
      emit (.leap (.create a.handle))
      pure { s with
        w := { s.w with connectionHandle_ := a.handle, connections := a.handle :: s.w.connections }, ctl := .open_ }
    else fail .aborted
  | .open_ => if a.ok then pure { s with ctl := .poll 7 0 } else fail .aborted
  | .poll k size => do
    emit (.LeapPollConnection s.w.connectionHandle_)
    pure { s with ctl := .list k size }
  | .list k _ =>
    -- the loop goes on unless a device is counted
    if a.devices.notConnected = false ∧ 0 < a.devices.size then pure { s with ctl := .listing }
    else if k ≤ 1 then looked s a.devices.size
    else pure { s with ctl := .poll (k - 1) a.devices.size }
  | .listing => if a.ok then pure { s with ctl := .setFlag } else fail .aborted
  | .setFlag => pure { s with w := { s.w with inConncetion_ := true }, ctl := .push }
  | .push => do
    emit .started
    emit (.connected .SUCCESS)
    pure { s with w := { s.w with pollingThread_ := s.w.pollingThread_ ++ [.check] }, ctl := .idle }
  | .clear => pure { s with w := { s.w with inConncetion_ := false }, ctl := .join 0 }
  | .join k =>
    match s.w.pollingThread_[k]? with
    | none => pure { s with ctl := .close }
    | some .ended => pure { s with ctl := .join (k + 1) }
    | some _ => pure s
  | .close => do
    emit (.leap (.close s.w.connectionHandle_))
    pure { s with ctl := .destroy }
  | .destroy => do
    emit (.leap (.destroy s.w.connectionHandle_))
    emit .disconnected
    pure { s with w := { s.w with connections := s.w.connections.erase s.w.connectionHandle_ }, ctl := .idle }

def setThread (w : LeapMotionV2WrapperImpl F) (i : Nat) (pc : SvcPc) : LeapMotionV2WrapperImpl F :=
  { w with pollingThread_ := w.pollingThread_.set i pc }

def threadStep [Zero F] (cbs : CallBacks) (s : St F) (i : Nat) (m : Option (LEAP_CONNECTION_MESSAGE F)) :
    Emit (Ev F) Fault (St F) :=
  match s.w.pollingThread_[i]? with
  | some .check => pure { s with w := setThread s.w i (if s.w.inConncetion_ then .poll else .ended) }
  | some .poll =>
    match s.polled i with
    | none => do
      emit (.LeapPollConnection s.w.connectionHandle_)
      match m with
      | some msg => pure { s with polled := Function.update s.polled i (some msg) }
      | none => pure { s with w := setThread s.w i .check }
    | some msg => do
      emit (.dispatch i)
      let w ← (s.w.handleMessage cbs msg).mapOut .leap
      pure { s with w := setThread w i .check, polled := Function.update s.polled i none }
  | _ => pure s

/-- A label that does not apply changes nothing. -/
def step [Zero F] (cbs : CallBacks) (s : St F) : Act F → Emit (Ev F) Fault (St F)
  | .connect => if s.ctl = .idle then pure { s with ctl := .create } else pure s
  | .disconnect =>
    if s.ctl = .idle then
      if s.w.inConncetion_ then pure { s with ctl := .clear }
      else do
        emit .disconnected
        pure s
    else pure s
  | .ctl a => ctlStep s a
  | .thread i m => threadStep cbs s i m

/-! ## The law -/

structure Account where
  settled : Bool
  destroyed : List Nat

def account (g : Account) : Ev F → Account
  | .leap (.create h) => { g with destroyed := g.destroyed.filter (· ≠ h) }
  | .leap (.destroy h) => { g with destroyed := h :: g.destroyed }
  | .started => { g with settled := false }
  | .disconnected => { g with settled := true }
  | _ => g

def Allowed (g : Account) : Ev F → Prop
  | .LeapPollConnection h => h ∉ g.destroyed
  | .dispatch _ => g.settled = false
  | _ => True

def AllEnded (s : St F) : Prop := ∀ pc ∈ s.w.pollingThread_, pc = .ended

/-! ## The invariant -/

/-- Inside `connect`, with the connection created. -/
def Ctl.opened : Ctl → Bool
  | .open_ => true
  | .poll _ _ => true
  | .list _ _ => true
  | .listing => true
  | .setFlag => true
  | .push => true
  | _ => false

/-- Inside `disconnect`, with the flag cleared. -/
def Ctl.closing : Ctl → Bool
  | .join _ => true
  | .close => true
  | .destroy => true
  | _ => false

structure Inv (g : Account) (s : St F) : Prop where
  /-- A handle that can be polled is not destroyed. -/
  handle : s.ctl.opened = true ∨ ¬ AllEnded s → s.w.connectionHandle_ ∉ g.destroyed
  /-- Threads outlive the flag only while `disconnect` waits for them. -/
  off : s.w.inConncetion_ = false → (∀ k, s.ctl ≠ .join k) → AllEnded s
  joined : ∀ k, s.ctl = .join k → ∀ j < k, s.w.pollingThread_[j]? = some .ended
  cleared : s.ctl.closing = true → s.w.inConncetion_ = false
  flagged : s.ctl = .push → s.w.inConncetion_ = true
  settled : g.settled = true → AllEnded s

/-- `connect` has not been called. -/
structure Fresh (w : LeapMotionV2WrapperImpl F) : Prop where
  off : w.inConncetion_ = false
  threads : w.pollingThread_ = []

theorem start_inv {w : LeapMotionV2WrapperImpl F} (h : Fresh w) : Inv ⟨false, []⟩ (start w) where
  handle _ := List.not_mem_nil
  off _ _ pc hpc := by
    simp only [start, h.threads] at hpc
    exact (List.not_mem_nil hpc).elim
  joined _ e := by cases e
  cleared e := by cases e
  flagged e := by cases e
  settled e := by cases e

/-! ## The calling thread keeps it -/

/-- What the outputs and the end of a step from `s` are to be. -/
def Keeps (g : Account) (x : Emit (Ev F) Fault (St F)) : Prop :=
  Heeds account Allowed g x.out ∧ ∀ t, x.res = .ok t → Inv (x.out.foldl account g) t

theorem keeps_pure {g : Account} {t : St F} (h : Inv g t) : Keeps g (pure t) :=
  ⟨trivial, fun u hu => by cases hu; exact h⟩

theorem keeps_fail (g : Account) (e : Fault) : Keeps g (fail e : Emit (Ev F) Fault (St F)) :=
  ⟨trivial, fun u hu => by cases hu⟩

theorem keeps_emit {g : Account} {e : Ev F} {x : Emit (Ev F) Fault (St F)} (hok : Allowed g e)
    (hx : Keeps (account g e) x) : Keeps g (emit e >>= fun _ => x) := by
  rw [bind_of_ok (emit_res e)]
  exact ⟨⟨hok, hx.1⟩, hx.2⟩

/-- To a statement outside the end of `disconnect`, the object unchanged. -/
theorem Inv.goto {g : Account} {s : St F} (h : Inv g s) {c : Ctl} (hs : ∀ k, s.ctl ≠ .join k)
    (hopen : c.opened = true → s.ctl.opened = true) (hc : c.closing = false) (hpush : c ≠ .push) :
    Inv g { s with ctl := c } where
  handle e := h.handle (e.imp_left hopen)
  off e _ := h.off e hs
  joined k e := by cases e; cases hc
  cleared e := by rw [hc] at e; cases e
  flagged e := absurd e hpush
  settled := h.settled

/-- To `c`, with the flag off and thread after thread ended. -/
theorem Inv.ending {g : Account} {s : St F} (h : Inv g s) {c : Ctl} (hopen : c.opened = false)
    (hoff : s.w.inConncetion_ = false) (hended : (∀ k, c ≠ .join k) → AllEnded s)
    (hjoin : ∀ k, c = .join k → ∀ j < k, s.w.pollingThread_[j]? = some .ended) (hpush : c ≠ .push) :
    Inv g { s with ctl := c } where
  handle e := h.handle (e.imp_left fun e => by rw [hopen] at e; cases e)
  off _ e := hended e
  joined := hjoin
  cleared _ := hoff
  flagged e := absurd e hpush
  settled := h.settled

theorem all_ended {s : St F} {k : Nat} (hjoin : ∀ j < k, s.w.pollingThread_[j]? = some .ended)
    (hk : s.w.pollingThread_[k]? = none) : AllEnded s := by
  intro pc hpc
  obtain ⟨j, hj, rfl⟩ := List.getElem_of_mem hpc
  have hlen : s.w.pollingThread_.length ≤ k := List.getElem?_eq_none_iff.mp hk
  have hended := hjoin j (Nat.lt_of_lt_of_le hj hlen)
  rw [List.getElem?_eq_getElem hj] at hended
  exact Option.some.inj hended

/-- The calling thread is at `c`, which is no join. -/
theorem not_joining {s : St F} {c : Ctl} (hc : s.ctl = c) (hjoin : ∀ k, c ≠ .join k) : ∀ k, s.ctl ≠ .join k := by
  intro k e
  exact hjoin k (hc.symm.trans e)

theorem looked_keeps {g : Account} {s : St F} (h : Inv g s) (hc : ∃ k n, s.ctl = .list k n) (size : Nat) :
    Keeps g (looked s size) := by
  obtain ⟨k, n, hc⟩ := hc
  have hs : ∀ k, s.ctl ≠ .join k := not_joining hc nofun
  unfold looked
  split
  · exact keeps_pure (h.goto hs (fun _ => by rw [hc]; rfl) rfl nofun)
  · exact keeps_emit trivial (keeps_pure (h.goto hs nofun rfl nofun))

theorem ctlStep_keeps {g : Account} {s : St F} (h : Inv g s) (a : Answer) : Keeps g (ctlStep s a) := by
  unfold ctlStep
  split
  next => exact keeps_pure h
  next hc =>
    split
    · refine keeps_emit trivial (keeps_pure ⟨fun _ => ?_, ?_, nofun, nofun, nofun, h.settled⟩)
      · simp [account]
      · exact fun e _ => h.off e (not_joining hc nofun)
    · exact keeps_fail g _
  next hc =>
    split
    · exact keeps_pure (h.goto (not_joining hc nofun) (fun _ => by rw [hc]; rfl) rfl nofun)
    · exact keeps_fail g _
  next k n hc =>
    refine keeps_emit (h.handle (Or.inl (by rw [hc]; rfl))) (keeps_pure ?_)
    exact h.goto (not_joining hc nofun) (fun _ => by rw [hc]; rfl) rfl nofun
  next k n hc =>
    have hs : ∀ k, s.ctl ≠ .join k := not_joining hc nofun
    have hopen : s.ctl.opened = true := by rw [hc]; rfl
    split
    · exact keeps_pure (h.goto hs (fun _ => hopen) rfl nofun)
    · split
      · exact looked_keeps h ⟨k, n, hc⟩ _
      · exact keeps_pure (h.goto hs (fun _ => hopen) rfl nofun)
  next hc =>
    split
    · exact keeps_pure (h.goto (not_joining hc nofun) (fun _ => by rw [hc]; rfl) rfl nofun)
    · exact keeps_fail g _
  next hc =>
    -- the flag is set before the thread is there
    exact keeps_pure ⟨fun _ => h.handle (Or.inl (by rw [hc]; rfl)), nofun, nofun, nofun, fun _ => rfl, h.settled⟩
  next hc =>
    have hon := h.flagged hc
    refine keeps_emit trivial (keeps_emit trivial (keeps_pure ⟨fun _ => ?_, fun e => ?_, nofun, nofun, nofun, nofun⟩))
    · exact h.handle (Or.inl (by rw [hc]; rfl))
    · rw [hon] at e; cases e
  next hc =>
    exact keeps_pure ⟨fun e => h.handle (e.imp_left nofun), fun _ e => absurd rfl (e 0),
      fun k e j hj => by cases e; exact absurd hj (Nat.not_lt_zero j), fun _ => rfl, nofun, h.settled⟩
  next k hc =>
    have hoff := h.cleared (by rw [hc]; rfl)
    have hjoin := h.joined k hc
    split
    next hk => exact keeps_pure (h.ending rfl hoff (fun _ => all_ended hjoin hk) nofun nofun)
    next hk =>
      refine keeps_pure (h.ending rfl hoff (fun e => absurd rfl (e (k + 1))) (fun k' e j hj => ?_) nofun)
      cases e
      rcases Nat.lt_succ_iff_lt_or_eq.mp hj with hj | rfl
      · exact hjoin j hj
      · exact hk
    next => exact keeps_pure h
  next hc =>
    have hoff := h.cleared (by rw [hc]; rfl)
    have hended : AllEnded s := h.off hoff (not_joining hc nofun)
    exact keeps_emit trivial (keeps_pure (h.ending rfl hoff (fun _ => hended) nofun nofun))
  next hc =>
    have hoff := h.cleared (by rw [hc]; rfl)
    have hended : AllEnded s := h.off hoff (not_joining hc nofun)
    refine keeps_emit trivial (keeps_emit trivial (keeps_pure ⟨fun e => ?_, fun _ _ => hended, nofun, nofun, nofun,
      fun _ => hended⟩))
    rcases e with e | e
    · cases e
    · exact absurd hended e

/-! ## The polling threads keep it -/

theorem not_ended {s : St F} {i : Nat} {pc : SvcPc} (hi : s.w.pollingThread_[i]? = some pc) (hpc : pc ≠ .ended) :
    ¬ AllEnded s := fun h => hpc (h pc (List.mem_of_getElem? hi))

/-- A thread that has not ended takes a step that leaves the handle and the flag. -/
theorem Inv.thread {g : Account} {s : St F} (h : Inv g s) {i : Nat} {pc pc' : SvcPc}
    (hi : s.w.pollingThread_[i]? = some pc) (hpc : pc ≠ .ended) {w : LeapMotionV2WrapperImpl F}
    (hhandle : w.connectionHandle_ = s.w.connectionHandle_) (hflag : w.inConncetion_ = s.w.inConncetion_)
    (hthreads : w.pollingThread_ = s.w.pollingThread_.set i pc')
    (polled : Nat → Option (LEAP_CONNECTION_MESSAGE F)) : Inv g ⟨w, s.ctl, polled⟩ where
  handle _ := by rw [hhandle]; exact h.handle (Or.inr (not_ended hi hpc))
  off e hc := absurd (h.off (by rw [← hflag]; exact e) hc) (not_ended hi hpc)
  joined k e j hj := by
    have hended := h.joined k e j hj
    rw [hthreads, List.getElem?_set_ne fun hij => ?_]
    · exact hended
    · rw [hij, hended] at hi
      exact hpc (Option.some.inj hi).symm
  cleared e := by rw [hflag]; exact h.cleared e
  flagged e := by rw [hflag]; exact h.flagged e
  settled e := absurd (h.settled e) (not_ended hi hpc)

section Handling

variable [Zero F]

/-- What handling a message puts out is no connection made or destroyed. -/
theorem handling_idle (cbs : CallBacks) (w : LeapMotionV2WrapperImpl F) (m : LEAP_CONNECTION_MESSAGE F) :
    ∀ e ∈ (w.handleMessage cbs m).out, ∀ g, account g (.leap e) = g := by
  intro e he g
  have any : ∀ x : Except Fault (LeapMotionV2WrapperImpl F),
      Ends (fun _ => True) (fun _ => True) (lift x : Emit (LeapEv F) Fault _) := by
    intro x
    exact ⟨fun _ _ => trivial, fun _ _ => trivial⟩
  have hof : OfMessage e :=
    (handleMessage_rule cbs (fun _ _ _ => any _) (fun _ _ _ => any _) (fun _ _ _ _ => any _) trivial m).1 e he
  cases e with
  | create h => exact hof.elim
  | destroy h => exact hof.elim
  | _ => rfl

theorem threadStep_keeps (cbs : CallBacks) {g : Account} {s : St F} (h : Inv g s) (i : Nat)
    (m : Option (LEAP_CONNECTION_MESSAGE F)) : Keeps g (threadStep cbs s i m) := by
  unfold threadStep
  split
  next hi => exact keeps_pure (h.thread (w := setThread s.w i _) hi nofun rfl rfl rfl s.polled)
  next hi =>
    have hlive : ¬ AllEnded s := not_ended hi nofun
    split
    next =>
      refine keeps_emit (h.handle (Or.inr hlive)) ?_
      split
      · exact keeps_pure ⟨h.handle, h.off, h.joined, h.cleared, h.flagged, h.settled⟩
      · exact keeps_pure (h.thread (w := setThread s.w i _) hi nofun rfl rfl rfl s.polled)
    next msg _ =>
      have hsettled : g.settled = false := by
        cases hg : g.settled with
        | false => rfl
        | true => exact absurd (h.settled hg) hlive
      refine keeps_emit hsettled ?_
      -- the outputs of the handler, then the thread is back at its loop
      have hidle : ∀ e ∈ (mapOut Ev.leap (s.w.handleMessage cbs msg)).out, account g e = g ∧ Allowed g e := by
        intro e he
        obtain ⟨e', he', rfl⟩ := List.mem_map.mp he
        exact ⟨handling_idle cbs s.w msg e' he' g, trivial⟩
      obtain ⟨hheeds, hfold⟩ := heeds_idle account Allowed hidle
      show Keeps g _
      refine ⟨by rw [bind_pure_out]; exact hheeds, fun t ht => ?_⟩
      obtain ⟨w, hw, ht⟩ := bind_res_ok.mp ht
      cases ht
      rw [bind_pure_out, hfold]
      have hdata := handleMessage_data hw
      refine h.thread (w := setThread w i .check) hi nofun ?_ ?_ (?_ : _ = s.w.pollingThread_.set i .check) _
      · rw [hdata]; rfl
      · rw [hdata]; rfl
      · rw [hdata]; rfl
  next => exact keeps_pure h

theorem step_keeps (cbs : CallBacks) {g : Account} {s : St F} (h : Inv g s) (a : Act F) : Keeps g (step cbs s a) := by
  cases a with
  | connect =>
    simp only [step]
    split
    next hc => exact keeps_pure (h.goto (not_joining hc nofun) nofun rfl nofun)
    next => exact keeps_pure h
  | disconnect =>
    simp only [step]
    split
    next hc =>
      have hs : ∀ k, s.ctl ≠ .join k := not_joining hc nofun
      split
      · exact keeps_pure (h.goto hs nofun rfl nofun)
      · rename_i hoff
        have hended := h.off (by simpa using hoff) hs
        exact keeps_emit trivial (keeps_pure ⟨h.handle, h.off, h.joined, h.cleared, h.flagged, fun _ => hended⟩)
    next => exact keeps_pure h
  | ctl a => exact ctlStep_keeps h a
  | thread i m => exact threadStep_keeps cbs h i m

end Handling

/-! ## Every run -/

/-- From `s` to `t` no frame has been handled, and none can be. -/
structure Still (s t : St F) : Prop where
  ended : AllEnded t
  hands_ : t.w.hands_ = s.w.hands_
  frameBuffer_ : t.w.frameBuffer_ = s.w.frameBuffer_
  lastFrame : t.w.lastFrame = s.w.lastFrame

/-- If `x` starts no thread. -/
def Stays (s : St F) (x : Emit (Ev F) Fault (St F)) : Prop := .started ∉ x.out → ∀ t, x.res = .ok t → Still s t

theorem stays_pure {s t : St F} (h : Still s t) : Stays s (pure t) := fun _ u hu => by cases hu; exact h

theorem stays_fail (s : St F) (e : Fault) : Stays s (fail e) := fun _ u hu => by cases hu

theorem stays_emit {s : St F} {e : Ev F} {x : Emit (Ev F) Fault (St F)} (hx : Stays s x) :
    Stays s (emit e >>= fun _ => x) := by
  rw [bind_of_ok (emit_res e)]
  exact fun hnone => hx fun hmem => hnone (List.mem_cons_of_mem _ hmem)

/-- To another statement. -/
theorem stays_goto {s : St F} (h : AllEnded s) (c : Ctl) : Stays s (pure { s with ctl := c }) :=
  stays_pure ⟨h, rfl, rfl, rfl⟩

theorem looked_stays {s : St F} (h : AllEnded s) (size : Nat) : Stays s (looked s size) := by
  unfold looked
  split
  · exact stays_goto h _
  · exact stays_emit (stays_goto h _)

theorem ctlStep_stays {s : St F} (h : AllEnded s) (a : Answer) : Stays s (ctlStep s a) := by
  unfold ctlStep
  split
  next => exact stays_goto h s.ctl
  next =>
    split
    · exact stays_emit (stays_pure ⟨h, rfl, rfl, rfl⟩)
    · exact stays_fail s _
  next =>
    split
    · exact stays_goto h _
    · exact stays_fail s _
  next => exact stays_emit (stays_goto h _)
  next =>
    split
    · exact stays_goto h _
    · split
      · exact looked_stays h _
      · exact stays_goto h _
  next =>
    split
    · exact stays_goto h _
    · exact stays_fail s _
  next => exact stays_pure ⟨h, rfl, rfl, rfl⟩
  next =>
    -- the statement that starts one
    rw [bind_of_ok (emit_res _)]
    exact fun hnone => absurd List.mem_cons_self hnone
  next => exact stays_pure ⟨h, rfl, rfl, rfl⟩
  next =>
    split
    all_goals exact stays_goto h _
  next => exact stays_emit (stays_goto h _)
  next => exact stays_emit (stays_emit (stays_pure ⟨h, rfl, rfl, rfl⟩))

theorem threadStep_ended [Zero F] (cbs : CallBacks) {s : St F} (h : AllEnded s) (i : Nat)
    (m : Option (LEAP_CONNECTION_MESSAGE F)) : threadStep cbs s i m = pure s := by
  unfold threadStep
  split
  next hi => exact absurd h (not_ended hi nofun)
  next hi => exact absurd h (not_ended hi nofun)
  next => rfl

theorem step_stays [Zero F] (cbs : CallBacks) {s : St F} (h : AllEnded s) (a : Act F) : Stays s (step cbs s a) := by
  cases a with
  | connect =>
    simp only [step]
    split
    all_goals exact stays_goto h _
  | disconnect =>
    simp only [step]
    split
    · split
      · exact stays_goto h _
      · exact stays_emit (stays_goto h s.ctl)
    · exact stays_goto h s.ctl
  | ctl a => exact ctlStep_stays h a
  | thread i m =>
    rw [step, threadStep_ended cbs h]
    exact stays_goto h s.ctl

/-- With every thread ended, nothing is handled until a thread is started. -/
theorem still_until_started [Zero F] {cbs : CallBacks} {s t : St F} (h : AllEnded s) {js : List (Act F)}
    (ht : (runs (step cbs) s js).res = .ok t) (hnone : .started ∉ (runs (step cbs) s js).out) : Still s t := by
  refine runs_trace (step cbs) (J := fun _ out t => .started ∉ out → Still s t) (fun js out u a v hu hv hout => ?_)
    (fun _ => ⟨h, rfl, rfl, rfl⟩) ht hnone
  rw [List.mem_append, not_or] at hout
  have before := hu hout.1
  have after := step_stays cbs before.ended a hout.2 v hv
  exact ⟨after.ended, after.hands_.trans before.hands_, after.frameBuffer_.trans before.frameBuffer_,
    after.lastFrame.trans before.lastFrame⟩

/-- In every run no message is dispatched once `disconnect` has returned and no destroyed
    handle is polled; every thread has ended then, and nothing is handled until the next is
    started. -/
theorem quiescence [Zero F] (cbs : CallBacks) {w : LeapMotionV2WrapperImpl F} (hw : Fresh w) (is : List (Act F)) :
    Heeds account Allowed ⟨false, []⟩ (runs (step cbs) (start w) is).out ∧
    ∀ s, (runs (step cbs) (start w) is).res = .ok s →
      ((runs (step cbs) (start w) is).out.foldl account ⟨false, []⟩).settled = true →
      AllEnded s ∧ ∀ js t, (runs (step cbs) s js).res = .ok t → .started ∉ (runs (step cbs) s js).out → Still s t := by
  obtain ⟨hheeds, hinv⟩ := runs_heeds (step cbs) account Allowed (I := Inv)
    (fun g s a hs => step_keeps cbs hs a) is ⟨false, []⟩ (start w) (start_inv hw)
  refine ⟨hheeds, fun s hs hsettled => ?_⟩
  have hended := (hinv s hs).settled hsettled
  exact ⟨hended, fun js t ht hnone => still_until_started hended ht hnone⟩

/-- One device, one connection; the thread polls a frame before `disconnect` clears the
    flag, and handles it while `disconnect` waits. -/
def oneConnection : List (Act ℚ) :=
  .connect :: List.replicate 7 (.ctl ⟨true, 1, ⟨false, 1⟩⟩) ++
    [.thread 0 none, .thread 0 (some (.tracking (eventOf [flatHand]))), .disconnect] ++
    List.replicate 2 (.ctl ⟨true, 1, ⟨false, 1⟩⟩) ++ [.thread 0 none, .thread 0 none] ++
    List.replicate 4 (.ctl ⟨true, 1, ⟨false, 1⟩⟩)

theorem quiescence_one_connection :
    ∃ s, (runs (step started.2) (start started.1) oneConnection).res = .ok s ∧ s.w.hands_.length = 1 ∧
      AllEnded s ∧ ∀ js t, (runs (step started.2) s js).res = .ok t →
        .started ∉ (runs (step started.2) s js).out → Still s t :=
  ⟨_, rfl, rfl, (quiescence started.2 (w := started.1) ⟨rfl, rfl⟩ oneConnection).2 _ rfl rfl⟩

/-! ## A call in a row -/

def leapOf : Ev F → Option (LeapEv F)
  | .leap e => some e
  | _ => none

/-- The statements `x` of a call make the calls of `y` to LeapC and end as `y` does, in
    `idle`, with the event `ret` makes of what `y` returns. -/
structure InARow (polled : Nat → Option (LEAP_CONNECTION_MESSAGE F)) (ret : AR_RETURN_VALUE → Ev F)
    (x : Emit (Ev F) Fault (St F)) (y : Emit (LeapEv F) Fault (LeapMotionV2WrapperImpl F × AR_RETURN_VALUE)) :
    Prop where
  calls : x.out.filterMap leapOf = y.out
  res : x.res = y.res.map fun p => ⟨p.1, .idle, polled⟩
  returned : ∀ p, y.res = .ok p → ret p.2 ∈ x.out

section InARow

variable {polled : Nat → Option (LEAP_CONNECTION_MESSAGE F)} {ret : AR_RETURN_VALUE → Ev F}
variable {x : Emit (Ev F) Fault (St F)} {y : Emit (LeapEv F) Fault (LeapMotionV2WrapperImpl F × AR_RETURN_VALUE)}

theorem inARow_fail (e : Fault) : InARow polled ret (fail e) (fail e) := ⟨rfl, rfl, fun p hp => by cases hp⟩

theorem inARow_silent {e : Ev F} (he : leapOf e = none) (h : InARow polled ret x y) :
    InARow polled ret (emit e >>= fun _ => x) y := by
  rw [bind_of_ok (emit_res e)]
  refine ⟨?_, h.res, fun p hp => List.mem_append_right _ (h.returned p hp)⟩
  rw [← h.calls]
  simp [he]

theorem inARow_leap {e : LeapEv F} (h : InARow polled ret x y) :
    InARow polled ret (emit (.leap e) >>= fun _ => x) (emit e >>= fun _ => y) := by
  rw [bind_of_ok (emit_res _), bind_of_ok (emit_res e)]
  refine ⟨?_, h.res, fun p hp => List.mem_append_right _ (h.returned p hp)⟩
  rw [← h.calls]
  simp [leapOf]

theorem inARow_return (ret : AR_RETURN_VALUE → Ev F) {w : LeapMotionV2WrapperImpl F} {r : AR_RETURN_VALUE}
    (hr : leapOf (ret r) = none) :
    InARow polled ret (emit (ret r) >>= fun _ => pure ⟨w, .idle, polled⟩) (pure (w, r)) := by
  rw [bind_of_ok (emit_res _)]
  exact ⟨by simp [hr], rfl, fun p hp => by cases hp; exact List.mem_singleton_self _⟩

end InARow

section Calls

variable [Zero F] (cbs : CallBacks)

def ctls (as : List Answer) : List (Act F) := as.map .ctl

theorem ctls_idle (w : LeapMotionV2WrapperImpl F) (polled : Nat → Option (LEAP_CONNECTION_MESSAGE F))
    (as : List Answer) : runs (step cbs) ⟨w, .idle, polled⟩ (ctls as) = pure ⟨w, .idle, polled⟩ := by
  induction as with
  | nil => rfl
  | cons a as ih => simp only [ctls, List.map_cons, runs, step, ctlStep, pure_bind]; exact ih

/-- LeapC's answers from the poll loop on, with `k` tries left. -/
def answers (r : LeapAnswers) : Nat → List Answer
  | 0 => List.replicate 3 ⟨r.listed, r.handle, ⟨false, 0⟩⟩
  | k + 1 =>
    ⟨r.listed, r.handle, r.tries (7 - (k + 1))⟩ :: ⟨r.listed, r.handle, r.tries (7 - (k + 1))⟩ :: answers r k

def connecting (r : LeapAnswers) : List (Act F) :=
  .connect :: ctls (⟨r.created, r.handle, ⟨false, 0⟩⟩ :: ⟨r.opened, r.handle, ⟨false, 0⟩⟩ :: answers r 7)

/-- `connect` after the poll loop. -/
def found (w : LeapMotionV2WrapperImpl F) (r : LeapAnswers) (size : Nat) :
    Emit (LeapEv F) Fault (LeapMotionV2WrapperImpl F × AR_RETURN_VALUE) :=
  if 0 < size then
    if !r.listed then fail .aborted
    else pure ({ w with inConncetion_ := true, pollingThread_ := w.pollingThread_ ++ [.check] }, .SUCCESS)
  else pure (w, .ACTION_FAIL)

theorem answers_three (r : LeapAnswers) (k : Nat) :
    ∃ a b c as, answers r k = a :: b :: c :: as ∧ a.ok = r.listed := by
  cases k with
  | zero => exact ⟨_, _, _, [], rfl, rfl⟩
  | succ k =>
    cases k with
    | zero => exact ⟨_, _, _, _, rfl, rfl⟩
    | succ k => exact ⟨_, _, _, _, rfl, rfl⟩

theorem listing_in_a_row (w : LeapMotionV2WrapperImpl F) (polled : Nat → Option (LEAP_CONNECTION_MESSAGE F))
    (r : LeapAnswers) {size : Nat} (hsize : 0 < size) (k : Nat) :
    InARow polled .connected (runs (step cbs) ⟨w, .listing, polled⟩ (ctls (answers r k))) (found w r size) := by
  obtain ⟨a, b, c, as, hanswers, ha⟩ := answers_three r k
  rw [hanswers, found, if_pos hsize]
  simp only [ctls, List.map_cons, runs, step, ctlStep, ha]
  cases hl : r.listed with
  | false => simp only [Bool.false_eq_true, if_false, fail_bind, Bool.not_false, if_true]; exact inARow_fail _
  | true =>
    simp only [if_true, pure_bind, bind_assoc, Bool.not_true, Bool.false_eq_true, if_false]
    refine inARow_silent rfl ?_
    have hidle := ctls_idle cbs { w with
      inConncetion_ := true, pollingThread_ := w.pollingThread_ ++ [.check] } polled as
    rw [ctls] at hidle
    rw [hidle]
    exact inARow_return .connected rfl

theorem looked_in_a_row (w : LeapMotionV2WrapperImpl F) (polled : Nat → Option (LEAP_CONNECTION_MESSAGE F))
    (r : LeapAnswers) (k n size : Nat) :
    InARow polled .connected
      (looked ⟨w, .list k n, polled⟩ size >>= fun s => runs (step cbs) s (ctls (answers r 0))) (found w r size) := by
  by_cases hsize : 0 < size
  · simp only [looked, hsize, if_true, pure_bind]
    exact listing_in_a_row cbs w polled r hsize 0
  · simp only [looked, found, hsize, if_false, bind_assoc, pure_bind, ctls_idle]
    exact inARow_return .connected rfl

theorem pollDevices_succ (tries : Nat → DeviceList) (k size : Nat) :
    pollDevices tries (k + 1) size =
      if (tries (7 - (k + 1))).notConnected = false ∧ 0 < (tries (7 - (k + 1))).size then (tries (7 - (k + 1))).size
      else pollDevices tries k (tries (7 - (k + 1))).size := by
  rw [pollDevices]
  cases hn : (tries (7 - (k + 1))).notConnected with
  | true => simp only [if_true, Bool.true_eq_false, false_and, if_false]
  | false => simp only [Bool.false_eq_true, if_false, true_and]

theorem polling_in_a_row (w : LeapMotionV2WrapperImpl F) (polled : Nat → Option (LEAP_CONNECTION_MESSAGE F))
    (r : LeapAnswers) : ∀ (k size : Nat),
    InARow polled .connected (runs (step cbs) ⟨w, .poll (k + 1) size, polled⟩ (ctls (answers r (k + 1))))
      (found w r (pollDevices r.tries (k + 1) size)) := by
  intro k
  induction k with
  | zero =>
    intro size
    rw [pollDevices_succ, answers]
    simp only [ctls, List.map_cons, runs, step, ctlStep, bind_assoc, pure_bind]
    refine inARow_silent rfl ?_
    split
    next hfound =>
      simp only [pure_bind]
      exact listing_in_a_row cbs w polled r hfound.2 0
    next => exact looked_in_a_row cbs w polled r _ _ _
  | succ k ih =>
    intro size
    rw [pollDevices_succ, answers]
    simp only [ctls, List.map_cons, runs, step, ctlStep, bind_assoc, pure_bind]
    refine inARow_silent rfl ?_
    split
    next hfound =>
      simp only [pure_bind]
      exact listing_in_a_row cbs w polled r hfound.2 (k + 1)
    next =>
      have hmore : ¬ k + 1 + 1 ≤ 1 := by omega
      simp only [hmore, if_false, pure_bind]
      exact ih _

/-- The statements of `connect` without a pause are `connect`. -/
theorem connect_in_a_row (w : LeapMotionV2WrapperImpl F) (polled : Nat → Option (LEAP_CONNECTION_MESSAGE F))
    (r : LeapAnswers) :
    InARow polled .connected (runs (step cbs) ⟨w, .idle, polled⟩ (connecting r)) (w.connect r) := by
  simp only [connecting, ctls, List.map_cons, runs, step, ctlStep, if_true, pure_bind, connect]
  cases hc : r.created with
  | false => simp only [Bool.false_eq_true, if_false, fail_bind, Bool.not_false, if_true]; exact inARow_fail _
  | true =>
    simp only [if_true, Bool.not_true, Bool.false_eq_true, if_false, bind_assoc, pure_bind]
    refine inARow_leap ?_
    cases ho : r.opened with
    | false => simp only [Bool.false_eq_true, if_false, fail_bind, Bool.not_false, if_true]; exact inARow_fail _
    | true =>
      simp only [if_true, Bool.not_true, Bool.false_eq_true, if_false, pure_bind]
      exact polling_in_a_row cbs _ polled r 6 0

/-- Thread after thread joined, when all have ended. -/
theorem joins_in_a_row {w : LeapMotionV2WrapperImpl F} (hended : ∀ pc ∈ w.pollingThread_, pc = .ended)
    (polled : Nat → Option (LEAP_CONNECTION_MESSAGE F)) (a : Answer) (as : List Answer) : ∀ (n k : Nat),
    k + n = w.pollingThread_.length →
    runs (step cbs) ⟨w, .join k, polled⟩ (ctls (List.replicate n a ++ a :: as)) =
      runs (step cbs) ⟨w, .close, polled⟩ (ctls as) := by
  intro n
  induction n with
  | zero =>
    intro k hk
    have hnone : w.pollingThread_[k]? = none := List.getElem?_eq_none_iff.mpr (by omega)
    simp only [List.replicate_zero, List.nil_append, ctls, List.map_cons, runs, step, ctlStep, hnone, pure_bind]
  | succ n ih =>
    intro k hk
    have hlt : k < w.pollingThread_.length := by omega
    have hpc : w.pollingThread_[k]? = some .ended := by
      rw [List.getElem?_eq_getElem hlt, hended _ (List.getElem_mem hlt)]
    have hrest := ih (k + 1) (by omega)
    simp only [ctls, List.replicate_succ, List.cons_append, List.map_cons, runs, step, ctlStep, hpc, pure_bind]
    exact hrest

/-- So are those of `disconnect`, once every thread has ended. -/
theorem disconnect_in_a_row {w : LeapMotionV2WrapperImpl F} (hended : ∀ pc ∈ w.pollingThread_, pc = .ended)
    (polled : Nat → Option (LEAP_CONNECTION_MESSAGE F)) (a : Answer) :
    InARow polled (fun _ => .disconnected)
      (runs (step cbs) ⟨w, .idle, polled⟩
        (.disconnect :: ctls (a :: (List.replicate w.pollingThread_.length a ++ [a, a, a])))) w.disconnect := by
  have hmap : (w.pollingThread_.map fun _ => SvcPc.ended) = w.pollingThread_ := by
    rw [List.map_congr_left (g := id) fun pc hpc => (hended pc hpc).symm, List.map_id]
  simp only [runs, step, if_true, LeapMotionV2WrapperImpl.disconnect, closeConnection, hmap]
  cases hon : w.inConncetion_ with
  | true =>
    have hjoins := joins_in_a_row cbs (w := { w with inConncetion_ := false }) hended polled a [a, a]
      w.pollingThread_.length 0 (Nat.zero_add _)
    simp only [if_true, pure_bind, ctls, List.map_cons, runs, step, ctlStep] at hjoins ⊢
    rw [hjoins]
    simp only [List.map_nil, bind_assoc, pure_bind, runs]
    exact inARow_leap (inARow_leap (inARow_return (fun _ => .disconnected) rfl))
  | false =>
    simp only [Bool.false_eq_true, if_false, bind_assoc, pure_bind, ctls_idle]
    exact inARow_return (fun _ => .disconnected) rfl

end Calls

end Quiesce

end LeapSyncFfh
