/-
  LeapSyncFfh.Task.Control — where the threads of the demo stand, without their data.

  What decides when the demo ends is where its threads stand and two flags, `running_` and
  `inConncetion_` (`Control`); what is tracked, computed and sent is not part of it.
  `Control.next` is one step of one thread.

  `Sane` holds in every run: the flags are what the monitor has made of them. Once the
  monitor has read the key (`quitting`) it clears both, joins the polling threads and ends;
  `executeLoop` ends at its next check, and `start()` returns when it has joined both. Each
  state has a thread whose next step brings the end nearer (`help`, `rank`): `next_keeps`
  and `next_helps` are what a rule about fair schedules asks for.
-/

import LeapSyncFfh.Task.Program

namespace LeapSyncFfh

open LeapMotionV2WrapperImpl LpV2SyncFFH

namespace Program

variable {F : Type}

/-! ## Where the threads stand -/

/-- `MainPc`, with the number of statements of `initialize` to come. -/
inductive MainAt where
  | setup (todo : Nat)
  | spawn
  | waiting
  | joining
  deriving DecidableEq, Repr

/-- `ExecPc` without the hands that were copied. -/
inductive ExecAt where
  | unborn
  | top
  | check
  | copy
  | act
  | ended
  deriving DecidableEq, Repr

structure Control where
  main : MainAt
  monitor : MonitorPc
  exec : ExecAt
  running_ : Bool
  inConncetion_ : Bool
  pollingThread_ : List SvcPc
  deriving DecidableEq

inductive Who where
  | main
  | monitor
  | exec
  | service (i : Nat)
  deriving DecidableEq, Repr

namespace Control

/-- One step of thread `w`; `quit`: the monitor reads a `q`. `none`: `start()` returns. -/
def next (c : Control) (quit : Bool) : Who → Option Control
  | .main =>
    match c.main with
    | .setup (n + 1) => some { c with main := .setup n }
    | .setup 0 => some { c with main := .spawn, monitor := .top }
    | .spawn => some { c with main := .waiting, exec := .top }
    | .waiting => some (if c.running_ then c else { c with main := .joining })
    | .joining => if c.monitor = .ended ∧ c.exec = .ended then none else some c
  | .monitor =>
    match c.monitor with
    | .top => some { c with monitor := if c.running_ then .poll else .ended }
    | .poll => some { c with monitor := if quit then .stopping else .top }
    | .stopping => some { c with running_ := false, monitor := .disconnecting }
    | .disconnecting =>
      some (if c.inConncetion_ then { c with inConncetion_ := false, monitor := .joining } else { c with monitor := .ended })
    | .joining => some (if c.pollingThread_.all (· = .ended) then { c with monitor := .ended } else c)
    | _ => some c
  | .exec =>
    match c.exec with
    | .top => some { c with exec := if c.running_ then .check else .ended }
    | .check => some { c with exec := if c.inConncetion_ then .copy else .top }
    | .copy => some { c with exec := .act }
    | .act => some { c with exec := .top }
    | _ => some c
  | .service i =>
    match c.pollingThread_[i]? with
    | some .check =>
      some { c with pollingThread_ := c.pollingThread_.set i (if c.inConncetion_ then .poll else .ended) }
    | some .poll => some { c with pollingThread_ := c.pollingThread_.set i .check }
    | _ => some c

/-! ## What holds of every run of the demo -/

/-- The monitor has not called `stop()`. -/
def before : MonitorPc → Bool
  | .unborn => true
  | .top => true
  | .poll => true
  | .stopping => true
  | _ => false

/-- The monitor has not cleared `inConncetion_`. -/
def attached : MonitorPc → Bool
  | .joining => false
  | .ended => false
  | _ => true

structure Sane (c : Control) : Prop where
  born : c.monitor = .unborn ↔ ∃ n, c.main = .setup n
  spawned : c.exec = .unborn ↔ (∃ n, c.main = .setup n) ∨ c.main = .spawn
  running : c.running_ = before c.monitor
  connected : c.inConncetion_ = attached c.monitor
  joined : c.monitor = .ended → ∀ pc ∈ c.pollingThread_, pc = .ended
  joining : c.main = .joining → c.running_ = false

variable {c d : Control} {quit : Bool} {w : Who}

theorem sane_next (h : c.Sane) (hn : c.next quit w = some d) : d.Sane := by
  obtain ⟨main, monitor, exec, running_, inConncetion_, pollingThread_⟩ := c
  obtain ⟨born, spawned, running, connected, joined, joining⟩ := h
  simp only at born spawned running connected joined joining
  subst running connected
  cases w with
  | main =>
    cases main with
    | setup n =>
      obtain rfl := born.mpr ⟨n, rfl⟩
      obtain rfl := spawned.mpr (Or.inl ⟨n, rfl⟩)
      cases n with
      | zero => cases hn; exact ⟨by simp, by simp, rfl, rfl, nofun, nofun⟩
      | succ n => cases hn; exact ⟨by simp, by simp, rfl, rfl, nofun, nofun⟩
    | spawn => cases hn; exact ⟨by simpa using born, by simp, rfl, rfl, joined, nofun⟩
    | waiting =>
      simp only [next] at hn
      split at hn
      · cases hn
        exact ⟨born, spawned, rfl, rfl, joined, joining⟩
      · rename_i hoff
        cases hn
        exact ⟨by simpa using born, by simpa using spawned, rfl, rfl, joined, fun _ => by simpa using hoff⟩
    | joining =>
      simp only [next] at hn
      split at hn
      · cases hn
      · cases hn
        exact ⟨born, spawned, rfl, rfl, joined, joining⟩
  | monitor =>
    cases monitor with
    | unborn => cases hn; exact ⟨born, spawned, rfl, rfl, joined, joining⟩
    | top => cases hn; exact ⟨by simpa [before] using born, spawned, rfl, rfl, nofun, joining⟩
    | poll =>
      cases hn
      cases quit <;> exact ⟨by simpa using born, spawned, rfl, rfl, nofun, joining⟩
    | stopping => cases hn; exact ⟨by simpa using born, spawned, rfl, rfl, nofun, fun _ => rfl⟩
    | disconnecting =>
      simp only [next, attached, if_true] at hn
      cases hn
      exact ⟨by simpa using born, spawned, rfl, rfl, nofun, fun _ => rfl⟩
    | joining =>
      simp only [next] at hn
      split at hn
      · rename_i hall
        cases hn
        exact ⟨by simpa using born, spawned, rfl, rfl, fun _ => by simpa using hall, fun _ => rfl⟩
      · cases hn
        exact ⟨born, spawned, rfl, rfl, joined, joining⟩
    | ended => cases hn; exact ⟨born, spawned, rfl, rfl, joined, joining⟩
  | exec =>
    cases exec with
    | unborn => cases hn; exact ⟨born, spawned, rfl, rfl, joined, joining⟩
    | top => cases hn; exact ⟨born, by cases before monitor <;> simpa using spawned, rfl, rfl, joined, joining⟩
    | check => cases hn; exact ⟨born, by cases attached monitor <;> simpa using spawned, rfl, rfl, joined, joining⟩
    | copy => cases hn; exact ⟨born, by simpa using spawned, rfl, rfl, joined, joining⟩
    | act => cases hn; exact ⟨born, by simpa using spawned, rfl, rfl, joined, joining⟩
    | ended => cases hn; exact ⟨born, spawned, rfl, rfl, joined, joining⟩
  | service i =>
    -- a thread that has not ended is not one of a monitor that has
    have live : ∀ {pc}, pollingThread_[i]? = some pc → pc ≠ .ended → monitor ≠ .ended := by
      intro pc hi hne he
      exact hne (joined he pc (List.mem_of_getElem? hi))
    simp only [next] at hn
    split at hn
    · rename_i hi
      cases hn
      exact ⟨born, spawned, rfl, rfl, fun he => absurd he (live hi nofun), joining⟩
    · rename_i hi
      cases hn
      exact ⟨born, spawned, rfl, rfl, fun he => absurd he (live hi nofun), joining⟩
    · cases hn
      exact ⟨born, spawned, rfl, rfl, joined, joining⟩

/-! ## The way to the end -/

/-- The monitor has read the key. -/
def quitting : MonitorPc → Bool
  | .stopping => true
  | .disconnecting => true
  | .joining => true
  | .ended => true
  | _ => false

def mainLeft : MainAt → Nat
  | .setup n => n + 4
  | .spawn => 3
  | .waiting => 2
  | .joining => 1

def monitorLeft : MonitorPc → Nat
  | .joining => 1
  | .disconnecting => 2
  | .stopping => 3
  | .ended => 0
  | _ => 4

/-- The steps of `executeLoop` to its end once `running_` is false. -/
def execLeft : ExecAt → Nat
  | .unborn => 5
  | .check => 4
  | .copy => 3
  | .act => 2
  | .top => 1
  | .ended => 0

def serviceLeft : SvcPc → Nat
  | .poll => 2
  | .check => 1
  | .ended => 0

/-- While a flag is set its threads go round. -/
def rank (c : Control) : Nat :=
  mainLeft c.main + monitorLeft c.monitor + (if c.running_ then 5 else execLeft c.exec) +
    if c.inConncetion_ then 2 * c.pollingThread_.length else (c.pollingThread_.map serviceLeft).sum

/-- The thread that brings the end nearer. -/
def help (c : Control) : Who :=
  match c.monitor with
  | .ended => if c.exec = .ended ∨ c.exec = .unborn then .main else .exec
  | .joining =>
    match c.pollingThread_.findIdx? (· ≠ .ended) with
    | some i => .service i
    | none => .monitor
  | _ => .monitor

theorem execLeft_le (e : ExecAt) : execLeft e ≤ 5 := by cases e <;> decide

theorem serviceLeft_le (ps : List SvcPc) : (ps.map serviceLeft).sum ≤ 2 * ps.length := by
  induction ps with
  | nil => exact Nat.le_refl 0
  | cons p ps ih =>
    have hp : serviceLeft p ≤ 2 := by cases p <;> decide
    simp only [List.map_cons, List.sum_cons, List.length_cons]
    omega

theorem serviceLeft_set {ps : List SvcPc} {i : Nat} {p q : SvcPc} (h : ps[i]? = some p) :
    ((ps.set i q).map serviceLeft).sum + serviceLeft p = (ps.map serviceLeft).sum + serviceLeft q := by
  induction ps generalizing i with
  | nil => cases h
  | cons x ps ih =>
    cases i with
    | zero =>
      obtain rfl : x = p := by simpa using h
      simp only [List.set_cons_zero, List.map_cons, List.sum_cons]
      omega
    | succ i =>
      have := ih (i := i) (by simpa using h)
      simp only [List.set_cons_succ, List.map_cons, List.sum_cons]
      omega

/-- No step of a quitting demo leads away from the end, and it stays quitting. -/
theorem next_keeps (h : c.Sane) (hq : quitting c.monitor = true) (hn : c.next quit w = some d) :
    quitting d.monitor = true ∧ d.pollingThread_.length = c.pollingThread_.length ∧
      (rank d < rank c ∨ rank d = rank c ∧ help d = help c) := by
  obtain ⟨main, monitor, exec, running_, inConncetion_, pollingThread_⟩ := c
  obtain ⟨born, spawned, running, connected, joined, joining⟩ := h
  simp only at born spawned running connected joined joining hq
  subst running connected
  cases w with
  | main =>
    cases main with
    | setup n =>
      obtain rfl := born.mpr ⟨n, rfl⟩
      cases hq
    | spawn =>
      obtain rfl := spawned.mpr (Or.inr rfl)
      cases hn
      refine ⟨hq, rfl, Or.inl ?_⟩
      simp only [rank, mainLeft, execLeft]
      split <;> omega
    | waiting =>
      simp only [next] at hn
      split at hn
      · cases hn
        exact ⟨hq, rfl, Or.inr ⟨rfl, rfl⟩⟩
      · cases hn
        exact ⟨hq, rfl, Or.inl (by simp only [rank, mainLeft]; omega)⟩
    | joining =>
      simp only [next] at hn
      split at hn
      · cases hn
      · cases hn
        exact ⟨hq, rfl, Or.inr ⟨rfl, rfl⟩⟩
  | monitor =>
    cases monitor with
    | stopping =>
      cases hn
      have := execLeft_le exec
      refine ⟨rfl, rfl, Or.inl ?_⟩
      simp only [rank, monitorLeft, before, if_true]
      simp
      omega
    | disconnecting =>
      simp only [next, attached, if_true] at hn
      cases hn
      have := serviceLeft_le pollingThread_
      refine ⟨rfl, rfl, Or.inl ?_⟩
      simp only [rank, monitorLeft, before, attached, if_true]
      simp
      omega
    | joining =>
      simp only [next] at hn
      split at hn
      · cases hn
        exact ⟨rfl, rfl, Or.inl (by simp only [rank, monitorLeft]; omega)⟩
      · cases hn
        exact ⟨rfl, rfl, Or.inr ⟨rfl, rfl⟩⟩
    | ended =>
      cases hn
      exact ⟨rfl, rfl, Or.inr ⟨rfl, rfl⟩⟩
    | _ => cases hq
  | exec =>
    cases hrun : before monitor with
    | true =>
      -- the loop goes on, and the monitor helps
      obtain rfl : monitor = .stopping := by
        revert hq hrun
        cases monitor <;> simp [quitting, before]
      simp only [next, before] at hn
      split at hn <;> cases hn <;> exact ⟨rfl, rfl, Or.inr ⟨rfl, rfl⟩⟩
    | false =>
      simp only [next, hrun] at hn
      split at hn <;> cases hn
      · exact ⟨hq, rfl, Or.inl (by simp [rank, execLeft])⟩
      · refine ⟨hq, rfl, Or.inl ?_⟩
        cases attached monitor <;> simp [rank, execLeft]
      · exact ⟨hq, rfl, Or.inl (by simp [rank, execLeft])⟩
      · exact ⟨hq, rfl, Or.inl (by simp [rank, execLeft])⟩
      · exact ⟨hq, rfl, Or.inr ⟨rfl, rfl⟩⟩
  | service i =>
    cases hin : attached monitor with
    | true =>
      -- the thread goes round, and the monitor helps
      have hhelp : ∀ ps, help ⟨main, monitor, exec, before monitor, true, ps⟩ = .monitor := by
        intro ps
        revert hq hin
        cases monitor <;> simp [quitting, attached, help]
      have hrank : ∀ pc, rank ⟨main, monitor, exec, before monitor, true, pollingThread_.set i pc⟩ =
          rank ⟨main, monitor, exec, before monitor, true, pollingThread_⟩ := by
        intro pc
        simp [rank]
      simp only [next, hin] at hn
      split at hn <;> cases hn
      · exact ⟨hq, List.length_set, Or.inr ⟨hrank _, (hhelp _).trans (hhelp _).symm⟩⟩
      · exact ⟨hq, List.length_set, Or.inr ⟨hrank _, (hhelp _).trans (hhelp _).symm⟩⟩
      · exact ⟨hq, rfl, Or.inr ⟨rfl, rfl⟩⟩
    | false =>
      simp only [next, hin] at hn
      split at hn <;> cases hn
      · rename_i hi
        have := serviceLeft_set (q := .ended) hi
        simp only [serviceLeft] at this
        refine ⟨hq, List.length_set, Or.inl ?_⟩
        simp only [rank, Bool.false_eq_true, if_false]
        omega
      · rename_i hi
        have := serviceLeft_set (q := .check) hi
        simp only [serviceLeft] at this
        refine ⟨hq, List.length_set, Or.inl ?_⟩
        simp only [rank, Bool.false_eq_true, if_false]
        omega
      · exact ⟨hq, rfl, Or.inr ⟨rfl, rfl⟩⟩

/-- The helpful thread's step brings the end nearer, or is the return of `start()`. -/
theorem next_helps (h : c.Sane) (hq : quitting c.monitor = true) (hn : c.next quit (help c) = some d) :
    rank d < rank c := by
  obtain ⟨main, monitor, exec, running_, inConncetion_, pollingThread_⟩ := c
  obtain ⟨born, spawned, running, connected, joined, joining⟩ := h
  simp only at born spawned running connected joined joining hq
  subst running connected
  cases monitor with
  | stopping =>
    cases hn
    have := execLeft_le exec
    simp only [rank, monitorLeft, before, if_true]
    simp
    omega
  | disconnecting =>
    cases hn
    have := serviceLeft_le pollingThread_
    simp only [rank, monitorLeft, before, attached, if_true]
    simp
    omega
  | joining =>
    simp only [help] at hn
    split at hn
    · rename_i i hi
      obtain ⟨hlt, hne, -⟩ := List.findIdx?_eq_some_iff_getElem.mp hi
      have hget := List.getElem?_eq_getElem hlt
      have hend := serviceLeft_set (q := .ended) hget
      have hcheck := serviceLeft_set (q := .check) hget
      simp only [next, hget] at hn
      split at hn
      · rename_i hpc
        rw [Option.some.inj hpc] at hend
        simp only [serviceLeft] at hend
        cases hn
        simp only [rank, attached, Bool.false_eq_true, if_false]
        omega
      · rename_i hpc
        rw [Option.some.inj hpc] at hcheck
        simp only [serviceLeft] at hcheck
        cases hn
        simp only [rank, attached, Bool.false_eq_true, if_false]
        omega
      · rename_i hcheck' hpoll
        cases hpc : pollingThread_[i] with
        | check => exact absurd (congrArg some hpc) hcheck'
        | poll => exact absurd (congrArg some hpc) hpoll
        | ended => simp [hpc] at hne
    · rename_i hall
      have hended : pollingThread_.all (· = .ended) = true := by
        simpa [List.findIdx?_eq_none_iff] using hall
      simp only [next, hended, if_true] at hn
      cases hn
      simp only [rank, monitorLeft]
      omega
  | ended =>
    simp only [help] at hn
    split at hn
    · rename_i he
      cases main with
      | setup n => cases born.mpr ⟨n, rfl⟩
      | spawn =>
        cases hn
        obtain rfl := spawned.mpr (Or.inr rfl)
        simp only [rank, mainLeft, execLeft, before, Bool.false_eq_true, if_false]
        omega
      | waiting =>
        cases hn
        simp [rank, mainLeft, before]
      | joining =>
        rcases he with rfl | rfl
        · cases hn
        · obtain ⟨n, hm⟩ | hm := spawned.mp rfl <;> cases hm
    · rename_i he
      have hunborn : exec ≠ .unborn := fun h => he (Or.inr h)
      have hended : exec ≠ .ended := fun h => he (Or.inl h)
      cases exec with
      | unborn => exact absurd rfl hunborn
      | ended => exact absurd rfl hended
      | _ =>
        cases hn
        simp [rank, execLeft, before, attached]
  | _ => cases hq

/-- `start()` returns when its threads have ended. -/
theorem next_returns (h : c.Sane) (hn : c.next quit w = none) : c.monitor = .ended ∧
    c.running_ = false ∧ c.inConncetion_ = false ∧ ∀ pc ∈ c.pollingThread_, pc = .ended := by
  cases w with
  | main =>
    simp only [next] at hn
    split at hn
    · cases hn
    · cases hn
    · cases hn
    · cases hn
    · split at hn
      · rename_i hboth
        rw [h.running, h.connected, hboth.1]
        exact ⟨rfl, rfl, rfl, h.joined hboth.1⟩
      · cases hn
  | monitor =>
    simp only [next] at hn
    split at hn <;> cases hn
  | exec =>
    simp only [next] at hn
    split at hn <;> cases hn
  | service i =>
    simp only [next] at hn
    split at hn <;> cases hn

/-- Nothing but the key makes the monitor stop. -/
theorem next_reads (h : c.Sane) (hn : c.next quit w = some d) (hq : quitting d.monitor = true) :
    quitting c.monitor = true ∨ w = .monitor ∧ quit = true := by
  obtain ⟨main, monitor, exec, running_, inConncetion_, pollingThread_⟩ := c
  have hrun := h.running
  have hborn := h.born
  simp only at hrun hborn
  subst hrun
  cases w with
  | main =>
    left
    cases main with
    | setup n =>
      obtain rfl := hborn.mpr ⟨n, rfl⟩
      cases n <;> cases hn <;> exact hq
    | spawn => cases hn; exact hq
    | waiting =>
      simp only [next] at hn
      split at hn <;> cases hn <;> exact hq
    | joining =>
      simp only [next] at hn
      split at hn <;> cases hn
      exact hq
  | monitor =>
    cases monitor with
    | unborn => cases hn; cases hq
    | top => cases hn; cases hq
    | poll =>
      cases hn
      cases quit with
      | true => exact Or.inr ⟨rfl, rfl⟩
      | false => cases hq
    | _ => exact Or.inl rfl
  | exec =>
    left
    simp only [next] at hn
    split at hn <;> cases hn <;> exact hq
  | service i =>
    left
    simp only [next] at hn
    split at hn <;> cases hn <;> exact hq

theorem help_service {i : Nat} (h : help c = .service i) : i < c.pollingThread_.length := by
  unfold help at h
  split at h
  · split at h <;> cases h
  · split at h
    · rename_i j hj
      cases h
      exact (List.findIdx?_eq_some_iff_getElem.mp hj).1
    · cases h
  · cases h

end Control

end Program

end LeapSyncFfh
