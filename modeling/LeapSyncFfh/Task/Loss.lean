/-
  LeapSyncFfh.Task.Loss — the Leap connection lost while the demo runs.

  Messages handled by the polling thread interleave with iterations (`Act`). The handler
  of `ConnectionLost` prints and leaves `inConncetion_` as it is, so after any such run
  the wrapper still counts as connected (`still_connected`): iterations go on with the
  hands of the last frame and return SUCCESS (`loss_unnoticed`). `loss_handled_iff`: a
  loss is handled in the runs whose last connection message is not a loss, and in no
  other.
-/

import LeapSyncFfh.Leap.Dispatch
import LeapSyncFfh.Task.Iteration

namespace LeapSyncFfh

open Cells Emit LeapMotionV2WrapperImpl LpV2SyncFFH

namespace Loss

variable {F : Type} [Field F] [LinearOrder F] [Libm F]

structure St (F : Type) where
  task : LpV2SyncFFH F
  cbs : CallBacks

inductive Act (F : Type) where
  | msg (m : LEAP_CONNECTION_MESSAGE F)
  | iterate

def step (s : St F) : Act F → Emit (Ev F) Fault (St F)
  | .msg m => do
    let w ← mapOut .leap (s.task.lmWrap.handleMessage s.cbs m)
    pure { s with task := { s.task with lmWrap := w } }
  | .iterate => do
    let r ← s.task.runIteration
    pure { s with task := r.1 }

/-- The task once `initialize()` has run. -/
def start (task : LpV2SyncFFH F) (cbs : CallBacks) : St F :=
  let w := initializeImpl (task.lmWrap, cbs)
  ⟨{ task with lmWrap := w.1 }, w.2⟩

/-- Connection (true) or ConnectionLost (false). -/
def connectionMessage : Act F → Option Bool
  | .msg .connection => some true
  | .msg .connectionLost => some false
  | _ => none

/-- The latest Connection or ConnectionLost message is ConnectionLost. -/
def Lost (acts : List (Act F)) : Prop := (acts.filterMap connectionMessage).getLast? = some false

/-- The wrapper counts as disconnected, and an iteration opens the hand and fails. -/
structure LossHandled (task : LpV2SyncFFH F) : Prop where
  disconnected : task.lmWrap.inConncetion_ = false
  opens : ∀ hand cmd, (hand, cmd) ∈ commands task.runIteration.out →
    postProcessHandCmd task.lowerLimits_ task.upperLimits_ .zero = .ok cmd
  fails : ∀ t r, task.runIteration.res = .ok (t, r) → r = .ACTION_FAIL

/-! ## No step touches the connection flag -/

theorem step_connected {s t : St F} {a : Act F} (h : (step s a).res = .ok t) :
    t.task.lmWrap.inConncetion_ = s.task.lmWrap.inConncetion_ := by
  cases a with
  | msg m =>
    obtain ⟨w, hw, h⟩ := bind_res_ok.mp h
    cases h
    exact handleMessage_keeps hw
  | iterate =>
    obtain ⟨⟨u, r⟩, hu, h⟩ := bind_res_ok.mp h
    cases h
    exact congrArg (·.inConncetion_) (runIteration_steady hu).lmWrap

/-- After any run the wrapper counts as connected. -/
theorem still_connected {task : LpV2SyncFFH F} {cbs : CallBacks} (hc : task.lmWrap.inConncetion_ = true)
    {acts : List (Act F)} {s : St F} (h : (runs step (start task cbs) acts).res = .ok s) :
    s.task.lmWrap.inConncetion_ = true :=
  runs_inv step (I := fun s => s.task.lmWrap.inConncetion_ = true) (fun _ _ _ hi ht => (step_connected ht).trans hi) hc h

/-- So the next iteration takes the stored hands, and returns SUCCESS if it returns. -/
theorem loss_unnoticed {task : LpV2SyncFFH F} {cbs : CallBacks} (hc : task.lmWrap.inConncetion_ = true)
    {acts : List (Act F)} {s : St F} (h : (runs step (start task cbs) acts).res = .ok s) :
    s.task.runIteration = s.task.iterateHands s.task.lmWrap.hands ∧
      ∀ t r, s.task.runIteration.res = .ok (t, r) → r = .SUCCESS := by
  have heq := runIteration_connected (still_connected hc h)
  refine ⟨heq, fun t r hr => ?_⟩
  rw [heq] at hr
  exact (iterateHands_steady hr).2

/-- In every run of messages and iterations, the loss of the connection is handled in the
    state reached exactly when the latest connection message was not a loss. -/
theorem loss_handled_iff {task : LpV2SyncFFH F} {cbs : CallBacks} (hc : task.lmWrap.inConncetion_ = true)
    {acts : List (Act F)} {s : St F} (h : (runs step (start task cbs) acts).res = .ok s) :
    (Lost acts → LossHandled s.task) ↔ ¬ Lost acts := by
  constructor
  · intro hh hlost
    have hd := (hh hlost).disconnected
    rw [still_connected hc h] at hd
    cases hd
  · intro hn hlost
    exact absurd hlost hn

theorem loss_handled_reconnected :
    ∃ s, (runs step (start (demoTask []) fun _ _ => none) [.msg .connectionLost, .msg .connection]).res = .ok s ∧
      ((Lost [Act.msg (F := ℝ) .connectionLost, .msg .connection] → LossHandled s.task) ↔
        ¬ Lost [Act.msg (F := ℝ) .connectionLost, .msg .connection]) :=
  ⟨_, rfl, loss_handled_iff (show (demoTask []).lmWrap.inConncetion_ = true from rfl) rfl⟩

/-- The device is unplugged: the next iteration publishes the last frame's hand. -/
theorem an_unplugged_device_goes_unnoticed :
    ∃ s, (runs step (start (demoTask [rightHand]) fun _ _ => none) [.msg .connectionLost]).res = .ok s ∧
      Lost [Act.msg (F := ℝ) .connectionLost] ∧ ¬ LossHandled s.task := by
  refine ⟨_, rfl, rfl, fun h => ?_⟩
  have hd := h.disconnected
  cases hd

end Loss

end LeapSyncFfh
