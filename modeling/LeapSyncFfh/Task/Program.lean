/-
  LeapSyncFfh.Task.Program — the whole program (test_lpv2_demo.cpp): construct,
  `tryConnect`, `start()` in one of its modes, destroy.

  A run is a list of labels (`Act`). Each is one step of the main thread or of a thread it
  started, with what that step meets: LeapC's and `socket()`'s answers to one attempt, a
  word from the operator, a key, a polled message. A label that does not apply where the
  program stands changes nothing, so the runs are all interleavings.

  In leap_motion_demo mode `start()` runs `initialize` statement by statement beside the
  polling threads of `connect`, then starts `monitorDaemon` and `executeLoop`, waits until
  `running_` is false and joins both (`Threads`). `stop()` is three steps of the monitor:
  `running_`, then `inConncetion_`, then the joins of the polling threads. An iteration is
  three steps: the check of `inConncetion_`, the copy of the hands, and the rest.

  The handling of a polled message is one step, and so is that copy. The source takes no lock
  on either side: `onFrame` resizes and fills `hands_` while `executeLoop` may be copying it,
  and a copy torn that way is in no run here.

  `Does` lists what one step can be (`step_does`); the facts about runs are proved by its
  cases. A thread's steps taken in a row are the whole operations of the task
  (`main_initialize`, `exec_runIteration`, `monitor_stop`).
-/

import LeapSyncFfh.Task.Commands
import LeapSyncFfh.Task.Configuration

namespace LeapSyncFfh

open Cells Emit LeapMotionV2WrapperImpl LpV2SyncFFH

namespace Program

variable {F : Type}

/-! ## The threads of the demo -/

/-- Where `start()` stands, from its call of `initialize` on. -/
inductive MainPc where
  | setup (todo : List InitStep)
  | spawn
  | waiting
  | joining

inductive MonitorPc where
  | unborn
  | top
  | poll
  | stopping
  | disconnecting
  | joining
  | ended
  deriving DecidableEq

inductive ExecPc (F : Type) where
  | unborn
  | top
  | check
  | copy
  | act (hands : List (LEAP_HAND F))
  | ended

structure Threads (F : Type) where
  main : MainPc := .setup initSteps
  monitor : MonitorPc := .unborn
  exec : ExecPc F := .unborn

/-- `th.join()` of both threads returns. -/
def Threads.joined (d : Threads F) : Bool :=
  match d.monitor, d.exec with
  | .ended, .ended => true
  | _, _ => false

def monitorStep (task : LpV2SyncFFH F) (key : Option Char) : MonitorPc → Emit (Ev F) Fault (LpV2SyncFFH F × MonitorPc)
  | .unborn => pure (task, .unborn)
  | .top => pure (task, if task.running_ then .poll else .ended)
  | .poll => pure (task, if key = some 'q' then .stopping else .top)
  | .stopping => pure ({ task with running_ := false }, .disconnecting)
  | .disconnecting =>
    if task.lmWrap.inConncetion_ then
      pure ({ task with lmWrap := { task.lmWrap with inConncetion_ := false } }, .joining)
    else pure (task, .ended)
  | .joining =>
    if task.lmWrap.pollingThread_.all (· = .ended) then do
      let w ← mapOut .leap task.lmWrap.closeConnection
      pure ({ task with lmWrap := w }, .ended)
    else pure (task, .joining)
  | .ended => pure (task, .ended)

/-- One step of `executeLoop`; the hands are copied as a whole. -/
def execStep [Field F] [LinearOrder F] [Libm F] (task : LpV2SyncFFH F) :
    ExecPc F → Emit (Ev F) Fault (LpV2SyncFFH F × ExecPc F)
  | .unborn => pure (task, .unborn)
  | .top => pure (task, if task.running_ then .check else .ended)
  | .check =>
    if !task.lmWrap.inConncetion_ then do
      let task ← task.sendInitHandData
      pure (task, .top)
    else pure (task, .copy)
  | .copy => pure (task, .act task.lmWrap.hands)
  | .act hands => do
    let r ← task.iterateHands hands
    pure (r.1, .top)
  | .ended => pure (task, .ended)

/-- One step of `start()`, with the registry; `none`: it has returned. -/
def mainStep [Zero F] (task : LpV2SyncFFH F) (cbs : CallBacks) (d : Threads F) :
    LpV2SyncFFH F × CallBacks × Option (Threads F) :=
  match d.main with
  | .setup (i :: todo) =>
    let w := initStep (task.lmWrap, cbs) i
    ({ task with lmWrap := w.1 }, w.2, some { d with main := .setup todo })
  | .setup [] => (task, cbs, some { d with main := .spawn, monitor := .top })
  | .spawn => (task, cbs, some { d with main := .waiting, exec := .top })
  | .waiting => (task, cbs, some (if task.running_ then d else { d with main := .joining }))
  | .joining => (task, cbs, if d.joined then none else some d)

/-- Polling thread `i` goes to `pc`. -/
def setSvc (task : LpV2SyncFFH F) (i : Nat) (pc : SvcPc) : LpV2SyncFFH F :=
  { task with lmWrap := { task.lmWrap with pollingThread_ := task.lmWrap.pollingThread_.set i pc } }

/-- One step of `serviceMessageLoop` in thread `i`; `answer` is the message polled, `none`
    where `LeapPollConnection` does not return Success. A message is handled as a whole. -/
def serviceStep [Zero F] (task : LpV2SyncFFH F) (cbs : CallBacks) (i : Nat)
    (answer : Option (LEAP_CONNECTION_MESSAGE F)) : Emit (Ev F) Fault (LpV2SyncFFH F) :=
  match task.lmWrap.pollingThread_[i]? with
  | some .check => pure (setSvc task i (if task.lmWrap.inConncetion_ then .poll else .ended))
  | some .poll =>
    match answer with
    | some m => do
      let w ← mapOut .leap (task.lmWrap.handleMessage cbs m)
      pure (setSvc { task with lmWrap := w } i .check)
    | none => pure (setSvc task i .check)
  | _ => pure task

/-! ## The program -/

inductive Phase (F : Type) where
  /-- `tryConnect`. -/
  | connecting
  | connected
  /-- `singleJointTest`, at its read. -/
  | menu (operCmd : String)
  /-- `testFlow`, at its read. -/
  | flow (operCmd : String) (t : FfhCtrl.Flow)
  /-- `selfCheck`, at its read. -/
  | selfMenu (str : String) (tmp_cmd : udp_hand_cmd F)
  /-- `selfCheck`, with the statements of the pass to come. -/
  | pass (str : String) (todo : List CheckStep) (tmp_cmd : udp_hand_cmd F)
  | demo (d : Threads F)
  | returned
  | destroyed

structure Prog (F : Type) where
  task : LpV2SyncFFH F
  cbs : CallBacks
  phase : Phase F

inductive Act (F : Type) where
  | attempt (r : ConnectAnswers)
  /-- `start()`; `tmp_cmd` is the local as it was. -/
  | start (tmp_cmd : udp_hand_cmd F)
  | read (word : Option String)
  | check
  | main
  | monitor (key : Option Char)
  | exec
  | service (i : Nat) (answer : Option (LEAP_CONNECTION_MESSAGE F))
  | destroy

variable [Field F] [LinearOrder F] [Libm F]

def attemptStep (s : Prog F) (r : ConnectAnswers) : Emit (Ev F) Fault (Prog F) :=
  match s.phase with
  | .connecting => do
    let a ← s.task.connect r
    pure { s with task := a.1, phase := if a.2 = .SUCCESS then .connected else .connecting }
  | _ => pure s

/-- `start()` up to the first read or thread of its mode. -/
def startStep (s : Prog F) (tmp_cmd : udp_hand_cmd F) : Prog F :=
  match s.phase with
  | .connected =>
    if s.task.taskName_ = "test_by_hand" then { s with phase := .menu "" }
    else if s.task.taskName_ = "self_check" then { s with phase := .selfMenu "" tmp_cmd }
    else if s.task.taskName_ = "leap_motion_demo" then
      { s with task := { s.task with running_ := true }, phase := .demo {} }
    else { s with phase := .returned }
  | _ => s

/-- `std::cin >> operCmd` and the rest of the round. -/
def menuStep (s : Prog F) (operCmd : String) : Emit (Ev F) Fault (Prog F) :=
  if operCmd = "test" then do
    let r ← s.task.testFlow
    pure { s with task := r.1, phase := match r.2 with | some t => .flow operCmd t | none => .menu operCmd }
  else if operCmd = "quit" then do
    let task ← s.task.resetFfh left_hand
    pure { s with task := task, phase := .returned }
  else pure { s with phase := .menu operCmd }

def flowStep (s : Prog F) (operCmd : String) (t : FfhCtrl.Flow) (word : Option String) : Emit (Ev F) Fault (Prog F) := do
  let r ← s.task.readFlow t word
  pure { s with task := r.1, phase := match r.2 with | some t => .flow operCmd t | none => .menu operCmd }

def readStep (s : Prog F) (word : Option String) : Emit (Ev F) Fault (Prog F) :=
  match s.phase with
  | .menu operCmd => menuStep s (word.getD operCmd)
  | .flow operCmd t => flowStep s operCmd t word
  | .selfMenu str tmp_cmd =>
    let str := word.getD str
    pure { s with
      phase := if str = "test" then .pass str checkPass tmp_cmd else if str ≠ "quit" then .selfMenu str tmp_cmd
        else .returned }
  | _ => pure s

def passStep (s : Prog F) : Emit (Ev F) Fault (Prog F) :=
  match s.phase with
  | .pass str (c :: todo) tmp_cmd => do
    let r ← s.task.checkStep tmp_cmd c
    pure { s with task := r.1, phase := .pass str todo r.2 }
  | .pass str [] tmp_cmd => pure { s with phase := .selfMenu str tmp_cmd }
  | _ => pure s

/-- One step of a thread of the demo. -/
def demoStep (s : Prog F) (f : Threads F → Emit (Ev F) Fault (Prog F)) : Emit (Ev F) Fault (Prog F) :=
  match s.phase with
  | .demo d => f d
  | _ => pure s

def step (s : Prog F) : Act F → Emit (Ev F) Fault (Prog F)
  | .attempt r => attemptStep s r
  | .start tmp_cmd => pure (startStep s tmp_cmd)
  | .read word => readStep s word
  | .check => passStep s
  | .main => demoStep s fun d =>
    let r := mainStep s.task s.cbs d
    pure ⟨r.1, r.2.1, match r.2.2 with | some d => .demo d | none => .returned⟩
  | .monitor key => demoStep s fun d => do
    let r ← monitorStep s.task key d.monitor
    pure { s with task := r.1, phase := .demo { d with monitor := r.2 } }
  | .exec => demoStep s fun d => do
    let r ← execStep s.task d.exec
    pure { s with task := r.1, phase := .demo { d with exec := r.2 } }
  | .service i answer =>
    match s.phase with
    | .destroyed => pure s
    | _ => do
      let task ← serviceStep s.task s.cbs i answer
      pure { s with task := task }
  | .destroy =>
    match s.phase with
    | .returned => do
      s.task.destroy
      pure { s with phase := .destroyed }
    | _ => pure s

/-- The constructed program; nothing is registered yet. -/
def launch (task : LpV2SyncFFH F) : Prog F := ⟨task, fun _ _ => none, .connecting⟩

/-- A run, from the constructor on. -/
def program (addr : Nat) (raw : Raw F) (config : Config F) (acts : List (Act F)) : Emit (Ev F) Fault (Prog F) := do
  let task ← make addr raw config
  runs step (launch task) acts

theorem program_runs {addr : Nat} {raw : Raw F} {config : Config F} {task : LpV2SyncFFH F}
    (hmake : (make addr raw config).res = .ok task) (acts : List (Act F)) :
    program addr raw config acts = runs step (launch task) acts := by
  rw [program, bind_of_ok hmake, (make_spec hmake).2]
  rfl

theorem program_append (addr : Nat) (raw : Raw F) (config : Config F) (acts acts' : List (Act F)) :
    program addr raw config (acts ++ acts') = program addr raw config acts >>= fun t => runs step t acts' := by
  simp only [program, bind_assoc, runs_append]

/-! ## What a step does -/

section

omit [Field F] [LinearOrder F] [Libm F]

/-- The controllers, the hands that are on, and the limits are as they were. -/
structure Kept (task t : LpV2SyncFFH F) : Prop where
  ffhs_ : t.ffhs_ = task.ffhs_
  ffhValid : t.ffhValid = task.ffhValid
  inConnection_ : t.inConnection_ = task.inConnection_
  lowerLimits_ : t.lowerLimits_ = task.lowerLimits_
  upperLimits_ : t.upperLimits_ = task.upperLimits_

theorem Kept.refl (task : LpV2SyncFFH F) : Kept task task := ⟨rfl, rfl, rfl, rfl, rfl⟩

/-- Only the Leap wrapper is called, and the task is kept. -/
structure Quiet {α : Type} (task : LpV2SyncFFH F) (f : α → LpV2SyncFFH F) (x : Emit (Ev F) Fault α) : Prop where
  leap : ∃ es : List (LeapEv F), x.out = es.map .leap
  kept : ∀ a, x.res = .ok a → Kept task (f a)

theorem quiet_pure {α : Type} {task : LpV2SyncFFH F} {f : α → LpV2SyncFFH F} {a : α} (h : Kept task (f a)) :
    Quiet task f (pure a) := ⟨⟨[], rfl⟩, fun b hb => by cases hb; exact h⟩

/-- A call of the Leap wrapper that puts what it returned into the task. -/
theorem quiet_leap {α β : Type} {task : LpV2SyncFFH F} {f : β → LpV2SyncFFH F} (x : Emit (LeapEv F) Fault α) {g : α → β}
    (h : ∀ a, Kept task (f (g a))) : Quiet task f (mapOut Ev.leap x >>= fun a => pure (g a)) := by
  refine ⟨⟨x.out, by rw [bind_pure_out]; rfl⟩, fun b hb => ?_⟩
  obtain ⟨a, -, hb⟩ := bind_res_ok.mp hb
  cases hb
  exact h a

theorem monitorStep_quiet (task : LpV2SyncFFH F) (key : Option Char) (pc : MonitorPc) :
    Quiet task Prod.fst (monitorStep task key pc) := by
  cases pc with
  | disconnecting =>
    simp only [monitorStep]
    split
    · exact quiet_pure ⟨rfl, rfl, rfl, rfl, rfl⟩
    · exact quiet_pure (Kept.refl task)
  | joining =>
    simp only [monitorStep]
    split
    · exact quiet_leap _ fun w => ⟨rfl, rfl, rfl, rfl, rfl⟩
    · exact quiet_pure (Kept.refl task)
  | stopping => exact quiet_pure ⟨rfl, rfl, rfl, rfl, rfl⟩
  | unborn => exact quiet_pure (Kept.refl task)
  | top => exact quiet_pure (Kept.refl task)
  | poll => exact quiet_pure (Kept.refl task)
  | ended => exact quiet_pure (Kept.refl task)

theorem serviceStep_quiet [Zero F] (task : LpV2SyncFFH F) (cbs : CallBacks) (i : Nat)
    (answer : Option (LEAP_CONNECTION_MESSAGE F)) : Quiet task id (serviceStep task cbs i answer) := by
  unfold serviceStep
  split
  · exact quiet_pure ⟨rfl, rfl, rfl, rfl, rfl⟩
  · split
    · exact quiet_leap _ fun w => ⟨rfl, rfl, rfl, rfl, rfl⟩
    · exact quiet_pure ⟨rfl, rfl, rfl, rfl, rfl⟩
  · exact quiet_pure (Kept.refl task)

theorem mainStep_kept [Zero F] (task : LpV2SyncFFH F) (cbs : CallBacks) (d : Threads F) :
    Kept task (mainStep task cbs d).1 := by
  unfold mainStep
  split <;> exact ⟨rfl, rfl, rfl, rfl, rfl⟩

end

/-- How a quiet step moves the phase. -/
inductive Next : Phase F → Phase F → Prop
  | stay (p : Phase F) : Next p p
  | menu : Next .connected (.menu "")
  | selfMenu (tmp_cmd : udp_hand_cmd F) : Next .connected (.selfMenu "" tmp_cmd)
  | demo : Next .connected (.demo {})
  | idle : Next .connected .returned
  | again (operCmd operCmd' : String) : Next (.menu operCmd) (.menu operCmd')
  | pass (str str' : String) (tmp_cmd : udp_hand_cmd F) : Next (.selfMenu str tmp_cmd) (.pass str' checkPass tmp_cmd)
  | retry (str str' : String) (tmp_cmd : udp_hand_cmd F) : Next (.selfMenu str tmp_cmd) (.selfMenu str' tmp_cmd)
  | quit (str : String) (tmp_cmd : udp_hand_cmd F) : Next (.selfMenu str tmp_cmd) .returned
  | passed (str : String) (tmp_cmd : udp_hand_cmd F) : Next (.pass str [] tmp_cmd) (.selfMenu str tmp_cmd)
  | thread (d d' : Threads F) : Next (.demo d) (.demo d')
  | joined (d : Threads F) : Next (.demo d) .returned

/-- The hands that the step publishes a command for; an iteration that finds the wrapper
    disconnected publishes as if it had seen none. -/
def iterating (s : Prog F) : Act F → Option (List (LEAP_HAND F))
  | .exec =>
    match s.phase with
    | .demo d =>
      match d.exec with
      | .check => if s.task.lmWrap.inConncetion_ then none else some []
      | .act hands => some hands
      | _ => none
    | _ => none
  | _ => none

/-- Everything a step can be. A step of a thread of the demo that publishes nothing, a
    choice in a menu, and a label that does not apply are quiet. -/
inductive Does (s : Prog F) : Act F → Emit (Ev F) Fault (Prog F) → Prop
  | quiet (a : Act F) (x : Emit (Ev F) Fault (Prog F)) : iterating s a = none → Quiet s.task Prog.task x →
      (∀ t, x.res = .ok t → Next s.phase t.phase) → Does s a x
  | attempt (r : ConnectAnswers) : s.phase = .connecting → Does s (.attempt r) (s.task.connect r >>= fun a =>
      pure { s with task := a.1, phase := if a.2 = .SUCCESS then .connected else .connecting })
  | test (word : Option String) (operCmd : String) : s.phase = .menu operCmd →
      Does s (.read word) (s.task.testFlow >>= fun r => pure { s with
        task := r.1, phase := match r.2 with | some t => .flow (word.getD operCmd) t | none => .menu (word.getD operCmd) })
  | quit (word : Option String) (operCmd : String) : s.phase = .menu operCmd →
      Does s (.read word) (s.task.resetFfh left_hand >>= fun task => pure { s with task := task, phase := .returned })
  | flow (word : Option String) (operCmd : String) (t : FfhCtrl.Flow) : s.phase = .flow operCmd t →
      Does s (.read word) (s.task.readFlow t word >>= fun r => pure { s with
        task := r.1, phase := match r.2 with | some t => .flow operCmd t | none => .menu operCmd })
  | check (str : String) (c : CheckStep) (todo : List CheckStep) (tmp_cmd : udp_hand_cmd F) :
      s.phase = .pass str (c :: todo) tmp_cmd →
      Does s .check (s.task.checkStep tmp_cmd c >>= fun r => pure { s with task := r.1, phase := .pass str todo r.2 })
  | iterate (d : Threads F) (hands : List (LEAP_HAND F)) : s.phase = .demo d → iterating s .exec = some hands →
      Does s .exec (s.task.iterateHands hands >>= fun r => pure { s with
        task := r.1, phase := .demo { d with exec := .top } })
  | destroy : s.phase = .returned → Does s .destroy (s.task.destroy >>= fun _ => pure { s with phase := .destroyed })

theorem does_kept {s t : Prog F} {a : Act F} (ha : iterating s a = none) (hk : Kept s.task t.task)
    (hn : Next s.phase t.phase) : Does s a (pure t) :=
  .quiet a _ ha (quiet_pure hk) fun u hu => by cases hu; exact hn

theorem does_nothing {s : Prog F} {a : Act F} (ha : iterating s a = none) : Does s a (pure s) :=
  does_kept ha (Kept.refl s.task) (.stay s.phase)

/-- A quiet step of a thread, with what it returns put into the program. -/
theorem does_thread {α : Type} {s : Prog F} {a : Act F} (ha : iterating s a = none) {f : α → LpV2SyncFFH F}
    {x : Emit (Ev F) Fault α} (hx : Quiet s.task f x) {g : α → Prog F} (hg : ∀ r, (g r).task = f r)
    (hn : ∀ r, Next s.phase (g r).phase) : Does s a (x >>= fun r => pure (g r)) := by
  obtain ⟨es, hes⟩ := hx.leap
  refine .quiet a _ ha ⟨⟨es, by rw [bind_pure_out]; exact hes⟩, fun t ht => ?_⟩ fun t ht => ?_
  · obtain ⟨r, hr, ht⟩ := bind_res_ok.mp ht
    cases ht
    rw [hg]
    exact hx.kept r hr
  · obtain ⟨r, -, ht⟩ := bind_res_ok.mp ht
    cases ht
    exact hn r

theorem startStep_does (s : Prog F) (tmp_cmd : udp_hand_cmd F) : Does s (.start tmp_cmd) (pure (startStep s tmp_cmd)) := by
  unfold startStep
  split
  · rename_i hp
    split
    · exact does_kept rfl (Kept.refl s.task) (hp ▸ .menu)
    split
    · exact does_kept rfl (Kept.refl s.task) (hp ▸ .selfMenu tmp_cmd)
    split
    · exact does_kept rfl ⟨rfl, rfl, rfl, rfl, rfl⟩ (hp ▸ .demo)
    · exact does_kept rfl (Kept.refl s.task) (hp ▸ .idle)
  · exact does_nothing rfl

theorem readStep_does (s : Prog F) (word : Option String) : Does s (.read word) (readStep s word) := by
  unfold readStep
  split
  · rename_i operCmd hp
    unfold menuStep
    split
    · exact .test word operCmd hp
    split
    · exact .quit word operCmd hp
    · exact does_kept rfl (Kept.refl s.task) (hp ▸ .again operCmd _)
  · rename_i operCmd t hp
    exact .flow word operCmd t hp
  · rename_i str tmp_cmd hp
    refine does_kept rfl (Kept.refl s.task) ?_
    simp only [hp]
    split
    · exact .pass str _ tmp_cmd
    split
    · exact .retry str _ tmp_cmd
    · exact .quit str tmp_cmd
  · exact does_nothing rfl

theorem execStep_does {s : Prog F} {d : Threads F} (hp : s.phase = .demo d) :
    Does s .exec (execStep s.task d.exec >>= fun r => pure { s with task := r.1, phase := .demo { d with exec := r.2 } }) := by
  have quiet : ∀ pc, iterating s .exec = none →
      Does s .exec (pure { s with phase := .demo { d with exec := pc } }) := fun pc ha =>
    does_kept ha (Kept.refl s.task) (hp ▸ .thread d _)
  cases he : d.exec with
  | unborn => exact quiet _ (by simp [iterating, hp, he])
  | top => exact quiet _ (by simp [iterating, hp, he])
  | check =>
    simp only [execStep]
    cases hc : s.task.lmWrap.inConncetion_ with
    | true => exact quiet _ (by simp [iterating, hp, he, hc])
    | false =>
      have h := Does.iterate (s := s) d [] hp (by simp [iterating, hp, he, hc])
      simpa [iterateHands] using h
  | copy => exact quiet _ (by simp [iterating, hp, he])
  | act hands =>
    have h := Does.iterate (s := s) d hands hp (by simp [iterating, hp, he])
    simpa [execStep] using h
  | ended => exact quiet _ (by simp [iterating, hp, he])

theorem step_does (s : Prog F) (a : Act F) : Does s a (step s a) := by
  cases a with
  | attempt r =>
    show Does s _ (attemptStep s r)
    unfold attemptStep
    split
    · rename_i hp; exact .attempt r hp
    · exact does_nothing rfl
  | start tmp_cmd => exact startStep_does s tmp_cmd
  | read word => exact readStep_does s word
  | check =>
    show Does s _ (passStep s)
    unfold passStep
    split
    · rename_i str c todo tmp_cmd hp; exact .check str c todo tmp_cmd hp
    · rename_i str tmp_cmd hp; exact does_kept rfl (Kept.refl s.task) (hp ▸ .passed str tmp_cmd)
    · exact does_nothing rfl
  | main =>
    simp only [step, demoStep]
    split
    · rename_i d hp
      refine does_kept rfl (mainStep_kept s.task s.cbs d) ?_
      rw [hp]
      cases (mainStep s.task s.cbs d).2.2 with
      | some d' => exact .thread d d'
      | none => exact .joined d
    · exact does_nothing rfl
  | monitor key =>
    simp only [step, demoStep]
    split
    · rename_i d hp
      exact does_thread rfl (monitorStep_quiet s.task key d.monitor) (fun _ => rfl) fun _ => hp ▸ .thread d _
    · exact does_nothing rfl
  | exec =>
    simp only [step, demoStep]
    split
    · rename_i d hp; exact execStep_does hp
    · rename_i hn
      refine does_nothing ?_
      simp only [iterating]
  | service i answer =>
    simp only [step]
    split
    · exact does_nothing rfl
    · exact does_thread rfl (serviceStep_quiet s.task s.cbs i answer) (fun _ => rfl) fun _ => .stay s.phase
  | destroy =>
    simp only [step]
    split
    · rename_i hp; exact .destroy hp
    · exact does_nothing rfl

/-! ## Steps in a row

Without a step of another thread between them, the steps of a thread are the operation. -/

/-- The statements of `initialize`. -/
theorem main_initialize (task : LpV2SyncFFH F) (cbs : CallBacks) (d : Threads F) (todo : List InitStep) :
    runs step ⟨task, cbs, .demo { d with main := .setup todo }⟩ (List.replicate todo.length .main) =
      pure ⟨{ task with lmWrap := (todo.foldl initStep (task.lmWrap, cbs)).1 }, (todo.foldl initStep (task.lmWrap, cbs)).2,
        .demo { d with main := .setup [] }⟩ := by
  induction todo generalizing task cbs with
  | nil => rfl
  | cons i todo ih =>
    have hstep : step ⟨task, cbs, .demo { d with main := .setup (i :: todo) }⟩ .main =
        pure ⟨{ task with lmWrap := (initStep (task.lmWrap, cbs) i).1 }, (initStep (task.lmWrap, cbs) i).2,
          .demo { d with main := .setup todo }⟩ := rfl
    rw [List.length_cons, List.replicate_succ, runs, hstep, pure_bind, ih]
    rfl

/-- An iteration of `executeLoop`. -/
theorem exec_runIteration (task : LpV2SyncFFH F) (cbs : CallBacks) {d : Threads F} (he : d.exec = .check) :
    runs step ⟨task, cbs, .demo d⟩ (if task.lmWrap.inConncetion_ then [.exec, .exec, .exec] else [.exec]) =
      task.runIteration >>= fun r => pure ⟨r.1, cbs, .demo { d with exec := .top }⟩ := by
  cases hc : task.lmWrap.inConncetion_ with
  | false => simp [runs, step, demoStep, execStep, runIteration, he, hc]
  | true => simp [runs, step, demoStep, execStep, runIteration, he, hc, LeapMotionV2WrapperImpl.hands]

/-- `stop()`, once the polling threads have ended. -/
theorem monitor_stop {task : LpV2SyncFFH F} {cbs : CallBacks} {d : Threads F} (hm : d.monitor = .stopping)
    (hin : task.lmWrap.inConncetion_ = true) (hended : ∀ pc ∈ task.lmWrap.pollingThread_, pc = .ended) :
    runs step ⟨task, cbs, .demo d⟩ [.monitor none, .monitor none, .monitor none] =
      task.stop >>= fun t => pure ⟨t, cbs, .demo { d with monitor := .ended }⟩ := by
  have hmap : task.lmWrap.pollingThread_.map (fun _ => SvcPc.ended) = task.lmWrap.pollingThread_ := by
    conv => rhs; rw [← List.map_id task.lmWrap.pollingThread_]
    exact List.map_congr_left fun pc hpc => (hended pc hpc).symm
  simp only [runs, step, demoStep, monitorStep, stop, LeapMotionV2WrapperImpl.disconnect, hm, hin, hmap, pure_bind,
    if_true, List.all_eq_true, decide_eq_true_eq, if_pos hended]
  rfl

end Program

end LeapSyncFfh
