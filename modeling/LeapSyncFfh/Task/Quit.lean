/-
  LeapSyncFfh.Task.Quit — from the operator's `q` to the return of `start()`.

  Every step of the demo moves its `Control` (`step_control`), whatever it does to the data.
  `Course` says for every phase of a run what the threads can be doing there: only the demo
  polls, and it stands where its `Control` is sane.

  When `start()` has returned, no thread is left that could do anything, and the demo has
  returned for a `q` only (`returned_quiet`). Once the key has been read the demo ends under
  every schedule in which no thread is forgotten: it returns, or a fault ends it
  (`quit_returns`).
-/

import LeapSyncFfh.Task.Control
import LeapSyncFfh.Task.Connecting
import LeapSyncFfh.Task.Iteration
import LeapSyncFfh.Task.LeftOpen
import LeapSyncFfh.Leap.Dispatch
import LeapSyncFfh.Lib.Fair

namespace LeapSyncFfh

open Cells Emit LeapMotionV2WrapperImpl LpV2SyncFFH

namespace Program

variable {F : Type}

/-! ## The program and its `Control` -/

def MainPc.at_ : MainPc → MainAt
  | .setup todo => .setup todo.length
  | .spawn => .spawn
  | .waiting => .waiting
  | .joining => .joining

def ExecPc.at_ : ExecPc F → ExecAt
  | .unborn => .unborn
  | .top => .top
  | .check => .check
  | .copy => .copy
  | .act _ => .act
  | .ended => .ended

def control (task : LpV2SyncFFH F) (d : Threads F) : Control :=
  ⟨d.main.at_, d.monitor, d.exec.at_, task.running_, task.lmWrap.inConncetion_, task.lmWrap.pollingThread_⟩

/-- The thread whose step the label is, and whether it reads a `q`. -/
def Act.who : Act F → Option (Who × Bool)
  | .main => some (.main, false)
  | .monitor key => some (.monitor, decide (key = some 'q'))
  | .exec => some (.exec, false)
  | .service i _ => some (.service i, false)
  | _ => none

/-- What a step of the demo makes of its `Control`. -/
inductive Moved (s t : Prog F) (d : Threads F) : Option Control → Prop
  | goes (d' : Threads F) : t.phase = .demo d' → t.task.taskName_ = s.task.taskName_ →
      Moved s t d (some (control t.task d'))
  | returns : t.phase = .returned → t.task = s.task → Moved s t d none

theorem moved_goes {s t : Prog F} {d d' : Threads F} {o : Option Control} (hp : t.phase = .demo d')
    (hn : t.task.taskName_ = s.task.taskName_) (ho : o = some (control t.task d')) : Moved s t d o :=
  ho ▸ .goes d' hp hn

variable [Field F] [LinearOrder F] [Libm F]

theorem main_control {task : LpV2SyncFFH F} {cbs : CallBacks} {d : Threads F} {t : Prog F}
    (ht : (step ⟨task, cbs, .demo d⟩ .main).res = .ok t) :
    Moved ⟨task, cbs, .demo d⟩ t d ((control task d).next false .main) := by
  obtain ⟨main, monitor, exec⟩ := d
  cases main with
  | setup todo =>
    cases todo with
    | nil => cases ht; exact moved_goes rfl rfl rfl
    | cons i todo =>
      cases ht
      refine moved_goes rfl rfl ?_
      cases i <;> rfl
  | spawn => cases ht; exact moved_goes rfl rfl rfl
  | waiting =>
    simp only [step, demoStep, mainStep] at ht
    cases ht
    cases hr : task.running_ with
    | true => exact moved_goes rfl rfl (by simp [Control.next, control, MainPc.at_, hr])
    | false => exact moved_goes rfl rfl (by simp [Control.next, control, MainPc.at_, hr])
  | joining =>
    simp only [step, demoStep, mainStep] at ht
    cases ht
    by_cases hend : monitor = .ended ∧ exec.at_ = .ended
    · obtain ⟨rfl, he⟩ := hend
      obtain rfl : exec = .ended := by cases exec <;> first | rfl | cases he
      exact .returns rfl rfl
    · have hj : Threads.joined ⟨.joining, monitor, exec⟩ = false := by
        cases hj : Threads.joined ⟨.joining, monitor, exec⟩ with
        | false => rfl
        | true =>
          refine absurd ?_ hend
          unfold Threads.joined at hj
          split at hj
          · rename_i hm he
            exact ⟨hm, congrArg ExecPc.at_ he⟩
          · cases hj
      rw [hj]
      exact moved_goes rfl rfl (if_neg hend)

theorem monitor_control {task : LpV2SyncFFH F} {cbs : CallBacks} {d : Threads F} {t : Prog F} {key : Option Char}
    (ht : (step ⟨task, cbs, .demo d⟩ (.monitor key)).res = .ok t) :
    Moved ⟨task, cbs, .demo d⟩ t d ((control task d).next (decide (key = some 'q')) .monitor) := by
  obtain ⟨main, monitor, exec⟩ := d
  obtain ⟨r, hr, ht⟩ := bind_res_ok.mp ht
  cases ht
  cases monitor with
  | poll =>
    cases hr
    refine moved_goes rfl rfl ?_
    by_cases hk : key = some 'q' <;> simp [Control.next, control, hk]
  | disconnecting =>
    simp only [monitorStep] at hr
    split at hr
    · rename_i hin
      cases hr
      exact moved_goes rfl rfl (by simp [Control.next, control, hin])
    · rename_i hin
      cases hr
      exact moved_goes rfl rfl (by simp [Control.next, control, hin])
  | joining =>
    simp only [monitorStep] at hr
    split at hr
    · rename_i hall
      cases hr
      exact moved_goes rfl rfl (congrArg some (if_pos hall))
    · rename_i hall
      cases hr
      exact moved_goes rfl rfl (congrArg some (if_neg hall))
  | _ => cases hr; exact moved_goes rfl rfl rfl

theorem exec_control {task : LpV2SyncFFH F} {cbs : CallBacks} {d : Threads F} {t : Prog F}
    (ht : (step ⟨task, cbs, .demo d⟩ .exec).res = .ok t) :
    Moved ⟨task, cbs, .demo d⟩ t d ((control task d).next false .exec) := by
  obtain ⟨main, monitor, exec⟩ := d
  obtain ⟨r, hr, ht⟩ := bind_res_ok.mp ht
  cases ht
  cases exec with
  | top =>
    cases hr
    refine moved_goes rfl rfl ?_
    cases hrun : task.running_ <;> simp [Control.next, control, ExecPc.at_, hrun]
  | check =>
    simp only [execStep] at hr
    cases hin : task.lmWrap.inConncetion_ with
    | true =>
      simp only [hin] at hr
      cases hr
      exact moved_goes rfl rfl (by simp [Control.next, control, ExecPc.at_, hin])
    | false =>
      simp only [hin] at hr
      obtain ⟨u, hu, hr⟩ := bind_res_ok.mp hr
      cases hr
      have hs := (publish_outcome task left_hand .zero).steady hu
      exact moved_goes rfl hs.taskName_ (by simp [Control.next, control, ExecPc.at_, hin, hs.running_, hs.lmWrap])
  | act hands =>
    obtain ⟨u, hu, hr⟩ := bind_res_ok.mp hr
    cases hr
    have hs := (iterateHands_steady (r := u.2) hu).1
    exact moved_goes rfl hs.taskName_ (by simp [Control.next, control, ExecPc.at_, hs.running_, hs.lmWrap])
  | _ => cases hr; exact moved_goes rfl rfl rfl

omit [LinearOrder F] [Libm F] in
theorem serviceStep_name {task t : LpV2SyncFFH F} {cbs : CallBacks} {i : Nat}
    {answer : Option (LEAP_CONNECTION_MESSAGE F)} (ht : (serviceStep task cbs i answer).res = .ok t) :
    t.taskName_ = task.taskName_ := by
  unfold serviceStep at ht
  split at ht
  · cases ht; rfl
  · split at ht
    · obtain ⟨w, -, ht⟩ := bind_res_ok.mp ht
      cases ht; rfl
    · cases ht; rfl
  · cases ht; rfl

theorem service_control {task : LpV2SyncFFH F} {cbs : CallBacks} {d : Threads F} {t : Prog F} {i : Nat}
    {answer : Option (LEAP_CONNECTION_MESSAGE F)} (ht : (step ⟨task, cbs, .demo d⟩ (.service i answer)).res = .ok t) :
    Moved ⟨task, cbs, .demo d⟩ t d ((control task d).next false (.service i)) := by
  obtain ⟨u, hu, ht⟩ := bind_res_ok.mp ht
  cases ht
  refine moved_goes rfl (serviceStep_name hu) ?_
  simp only [serviceStep] at hu
  split at hu
  · rename_i hi
    cases hu
    simp only [Control.next, control, hi]
    rfl
  · rename_i hi
    split at hu
    · rename_i m
      obtain ⟨w, hw, hu⟩ := bind_res_ok.mp hu
      cases hu
      have hdata := handleMessage_data hw
      simp only [Control.next, control, hi]
      rw [hdata]
      rfl
    · cases hu
      simp only [Control.next, control, hi]
      rfl
  · rename_i hcheck hpoll
    cases hu
    cases hi : task.lmWrap.pollingThread_[i]? with
    | none => simp only [Control.next, control, hi]
    | some pc =>
      cases pc with
      | check => exact absurd hi hcheck
      | poll => exact absurd hi hpoll
      | ended => simp only [Control.next, control, hi]

/-- A step of the demo that returns moves its `Control`, and nothing else does. -/
theorem step_control {s t : Prog F} {d : Threads F} {a : Act F} (hp : s.phase = .demo d) (ht : (step s a).res = .ok t) :
    match a.who with
    | some (w, quit) => Moved s t d ((control s.task d).next quit w)
    | none => t = s := by
  obtain ⟨task, cbs, ph⟩ := s
  obtain rfl : ph = .demo d := hp
  cases a with
  | main => exact main_control ht
  | monitor key => exact monitor_control ht
  | exec => exact exec_control ht
  | service i answer => exact service_control ht
  | _ => cases ht; rfl

/-- A step of the demo moves it on, or is the return of `start()`. -/
theorem step_demo {s t : Prog F} {d : Threads F} {a : Act F} (hp : s.phase = .demo d) (ht : (step s a).res = .ok t) :
    t = s ∨ ∃ w quit, a.who = some (w, quit) ∧ Moved s t d ((control s.task d).next quit w) := by
  have h := step_control hp ht
  cases hw : a.who with
  | none =>
    rw [hw] at h
    exact Or.inl h
  | some wq =>
    rw [hw] at h
    exact Or.inr ⟨wq.1, wq.2, rfl, h⟩

/-! ## Every run -/

/-- What the threads are doing in each phase, after the labels `is`. -/
def Placed (is : List (Act F)) (task : LpV2SyncFFH F) : Phase F → Prop
  | .connecting => True
  | .connected => task.taskName_ = "leap_motion_demo" → task.lmWrap.inConncetion_ = true
  | .demo d => task.taskName_ = "leap_motion_demo" ∧ (control task d).Sane ∧
      (Control.quitting d.monitor = true → .monitor (some 'q') ∈ is)
  | .returned => (∀ pc ∈ task.lmWrap.pollingThread_, pc = .ended) ∧
      (task.taskName_ = "leap_motion_demo" → task.running_ = false ∧ task.lmWrap.inConncetion_ = false ∧
        .monitor (some 'q') ∈ is)
  | .destroyed => ∀ pc ∈ task.lmWrap.pollingThread_, pc = .ended
  | _ => task.taskName_ ≠ "leap_motion_demo"

/-- Only the demo polls. -/
structure Course (is : List (Act F)) (s : Prog F) : Prop where
  idle : s.task.taskName_ ≠ "leap_motion_demo" → s.task.lmWrap.pollingThread_ = []
  placed : Placed is s.task s.phase

/-- A step of the demo. -/
theorem demo_course {is : List (Act F)} {s t : Prog F} {a : Act F} (h : Course is s) {d : Threads F}
    (hp : s.phase = .demo d) (ht : (step s a).res = .ok t) : Course (is ++ [a]) t := by
  obtain ⟨hname, hsane, hq⟩ : Placed is s.task (.demo d) := hp ▸ h.placed
  rcases step_demo hp ht with rfl | ⟨w, quit, hw, hm⟩
  · exact ⟨h.idle, hp ▸ ⟨hname, hsane, fun hd => List.mem_append_left _ (hq hd)⟩⟩
  generalize ho : (control s.task d).next quit w = o at hm
  cases hm with
  | goes d' hp' hname' =>
    refine ⟨fun hne => absurd (hname'.trans hname) hne, hp' ▸ ⟨hname'.trans hname, Control.sane_next hsane ho, fun hd => ?_⟩⟩
    rcases Control.next_reads hsane ho hd with hold | ⟨rfl, rfl⟩
    · exact List.mem_append_left _ (hq hold)
    · refine List.mem_append_right _ (List.mem_singleton.mpr ?_)
      cases a with
      | monitor key =>
        have hkey : decide (key = some 'q') = true := congrArg Prod.snd (Option.some.inj hw)
        rw [of_decide_eq_true hkey]
      | _ => cases hw
  | returns hp' htask =>
    obtain ⟨hend, hrun, hin, hall⟩ := Control.next_returns hsane ho
    have hread := hq (by rw [show d.monitor = .ended from hend]; rfl)
    refine ⟨fun hne => absurd (htask ▸ hname) hne, hp' ▸ ?_⟩
    rw [htask]
    exact ⟨hall, fun _ => ⟨hrun, hin, List.mem_append_left _ hread⟩⟩

section

omit [Field F] [LinearOrder F] [Libm F]

theorem Placed.mono {is js : List (Act F)} {task : LpV2SyncFFH F} {ph : Phase F} (h : Placed is task ph)
    (hsub : is ⊆ js) : Placed js task ph := by
  cases ph with
  | demo d => exact ⟨h.1, h.2.1, fun hd => hsub (h.2.2 hd)⟩
  | returned =>
    refine ⟨h.1, fun hn => ?_⟩
    obtain ⟨hrun, hin, hq⟩ := h.2 hn
    exact ⟨hrun, hin, hsub hq⟩
  | _ => exact h

/-- A step that changes nothing. -/
theorem Course.stay {is : List (Act F)} {s : Prog F} (h : Course is s) (a : Act F) : Course (is ++ [a]) s :=
  ⟨h.idle, h.placed.mono (List.subset_append_left is [a])⟩

/-- A step that only sends. -/
theorem Course.send {is : List (Act F)} {s : Prog F} (h : Course is s) {u : LpV2SyncFFH F} (hs : Steady s.task u)
    {cbs : CallBacks} (ph : Phase F) (hp : Placed is u ph) (a : Act F) : Course (is ++ [a]) ⟨u, cbs, ph⟩ where
  idle hne := by
    rw [show (Prog.mk u cbs ph).task.lmWrap = s.task.lmWrap from hs.lmWrap]
    exact h.idle (hs.taskName_ ▸ hne)
  placed := hp.mono (List.subset_append_left is [a])

/-- Nothing is left of the polling threads. -/
theorem Course.ended {is : List (Act F)} {s : Prog F} (h : Course is s) (hdemo : ∀ d, s.phase ≠ .demo d)
    (hc : s.phase ≠ .connecting) (hc' : s.phase ≠ .connected) : ∀ pc ∈ s.task.lmWrap.pollingThread_, pc = .ended := by
  have hplaced := h.placed
  have hidle : s.task.taskName_ ≠ "leap_motion_demo" → ∀ pc ∈ s.task.lmWrap.pollingThread_, pc = SvcPc.ended := by
    intro hne
    rw [h.idle hne]
    nofun
  cases hp : s.phase with
  | connecting => exact absurd hp hc
  | connected => exact absurd hp hc'
  | demo d => exact absurd hp (hdemo d)
  | returned => rw [hp] at hplaced; exact hplaced.1
  | destroyed => rw [hp] at hplaced; exact hplaced
  | _ => rw [hp] at hplaced; exact hidle hplaced

end

omit [LinearOrder F] [Libm F] in
theorem serviceStep_ended {task : LpV2SyncFFH F} (h : ∀ pc ∈ task.lmWrap.pollingThread_, pc = .ended) (cbs : CallBacks)
    (i : Nat) (answer : Option (LEAP_CONNECTION_MESSAGE F)) : serviceStep task cbs i answer = pure task := by
  unfold serviceStep
  split
  · rename_i hi
    cases h _ (List.mem_of_getElem? hi)
  · rename_i hi
    cases h _ (List.mem_of_getElem? hi)
  · rfl

omit [LinearOrder F] [Libm F] in
theorem serviceStep_flag {task t : LpV2SyncFFH F} {cbs : CallBacks} {i : Nat}
    {answer : Option (LEAP_CONNECTION_MESSAGE F)} (ht : (serviceStep task cbs i answer).res = .ok t) :
    t.lmWrap.inConncetion_ = task.lmWrap.inConncetion_ := by
  unfold serviceStep at ht
  split at ht
  · cases ht; rfl
  · split at ht
    · obtain ⟨w, hw, ht⟩ := bind_res_ok.mp ht
      cases ht
      rw [show _ = _ from handleMessage_data hw]
      rfl
    · cases ht; rfl
  · cases ht; rfl

/-- A polling thread outside the demo. -/
theorem service_course {is : List (Act F)} {s t : Prog F} (h : Course is s) {i : Nat}
    {answer : Option (LEAP_CONNECTION_MESSAGE F)} (hdemo : ∀ d, s.phase ≠ .demo d)
    (ht : (step s (.service i answer)).res = .ok t) : Course (is ++ [.service i answer]) t := by
  by_cases hpoll : s.phase = .connecting ∨ s.phase = .connected
  · obtain ⟨task, cbs, ph⟩ := s
    have hstep : step ⟨task, cbs, ph⟩ (.service i answer) =
        serviceStep task cbs i answer >>= fun u => pure ⟨u, cbs, ph⟩ := by
      rcases hpoll with hp | hp <;> cases hp <;> rfl
    rw [hstep] at ht
    obtain ⟨u, hu, ht⟩ := bind_res_ok.mp ht
    cases ht
    have hname := serviceStep_name hu
    have hflag := serviceStep_flag hu
    constructor
    · intro hne
      have hnil := h.idle (hname ▸ hne)
      rw [serviceStep_ended (by rw [hnil]; nofun) cbs i answer] at hu
      cases hu
      exact hnil
    · have hplaced := h.placed
      rcases hpoll with hp | hp
      · cases hp; trivial
      · cases hp
        intro hn
        exact hflag.trans (hplaced (hname.symm.trans hn))
  · obtain ⟨hc, hc'⟩ := not_or.mp hpoll
    have hended := serviceStep_ended (h.ended hdemo hc hc') s.cbs i answer
    have hstep : step s (.service i answer) = pure s := by
      obtain ⟨task, cbs, ph⟩ := s
      cases ph <;> simp_all [step]
    rw [hstep] at ht
    cases ht
    exact h.stay _

omit [LinearOrder F] [Libm F] in
/-- What `connect` leaves to the wrapper's threads. -/
theorem connect_keeps {task u : LpV2SyncFFH F} {r : ConnectAnswers} {ret : AR_RETURN_VALUE}
    (hu : (task.connect r).res = .ok (u, ret)) : u.taskName_ = task.taskName_ ∧
      (task.taskName_ ≠ "leap_motion_demo" → u.lmWrap = task.lmWrap) ∧
      (task.taskName_ = "leap_motion_demo" → ret = .SUCCESS → u.lmWrap.inConncetion_ = true) := by
  have hname : u.taskName_ = task.taskName_ := by
    rcases connect_cases hu with ⟨-, -, ⟨-, -, hname, -⟩ | ⟨-, -, hands⟩⟩ | ⟨-, -, hands⟩
    · exact hname
    · exact hands.taskName_
    · exact hands.taskName_
  refine ⟨hname, fun hne => ?_, fun hd hret => ?_⟩
  · rcases connect_cases hu with ⟨hd, -⟩ | ⟨-, hw, -⟩
    · exact absurd hd hne
    · exact hw
  · obtain ⟨⟨v, lret⟩, hv, hu⟩ := bind_res_ok.mp hu
    have hflag : lret = .SUCCESS → v.lmWrap.inConncetion_ = true := by
      simp only [connectLeap, if_pos hd] at hv
      obtain ⟨⟨w, wret⟩, hw, hv⟩ := bind_res_ok.mp hv
      cases hv
      rw [mapOut_res] at hw
      unfold LeapMotionV2WrapperImpl.connect at hw
      split at hw
      · cases hw
      obtain ⟨_, -, hw⟩ := bind_res_ok.mp hw
      split at hw
      · cases hw
      split at hw
      · split at hw <;> cases hw
        exact fun _ => rfl
      · cases hw
        nofun
    split at hu
    · cases hu
      cases hret
    · rename_i hs
      obtain ⟨⟨v', fret⟩, hv', hu⟩ := bind_res_ok.mp hu
      obtain ⟨⟨ffhs, rfl⟩, -⟩ := connectHands_spec r.socks (by decide) hv'
      split at hu <;> cases hu <;> exact hflag (not_not.mp hs)

omit [LinearOrder F] [Libm F] in
/-- An attempt of `tryConnect`. -/
theorem attempt_course {is : List (Act F)} {s : Prog F} (h : Course is s) {r : ConnectAnswers} {u : LpV2SyncFFH F}
    {ret : AR_RETURN_VALUE} (hu : (s.task.connect r).res = .ok (u, ret)) (cbs : CallBacks) :
    Course (is ++ [.attempt r]) ⟨u, cbs, if ret = .SUCCESS then .connected else .connecting⟩ := by
  obtain ⟨hname, hwrap, hflag⟩ := connect_keeps hu
  constructor
  · intro hne
    have hne' := hname ▸ hne
    rw [show (Prog.mk u cbs _).task.lmWrap = s.task.lmWrap from hwrap hne']
    exact h.idle hne'
  · by_cases hs : ret = .SUCCESS
    · simp only [hs, if_true]
      exact fun hd => hflag (hname.symm.trans hd) hs
    · simp only [if_neg hs]
      trivial

omit [Field F] [LinearOrder F] [Libm F] in
theorem start_course {is : List (Act F)} {s : Prog F} (h : Course is s) (tmp_cmd : udp_hand_cmd F) :
    Course (is ++ [.start tmp_cmd]) (startStep s tmp_cmd) := by
  unfold startStep
  split
  · rename_i hp
    have hplaced := h.placed
    rw [hp] at hplaced
    split
    · rename_i hname
      exact h.send (Steady.refl s.task) (.menu "") (by show _ ≠ _; rw [hname]; decide) _
    split
    · rename_i hname
      exact h.send (Steady.refl s.task) (.selfMenu "" tmp_cmd) (by show _ ≠ _; rw [hname]; decide) _
    split
    · rename_i hname
      refine ⟨fun hne => absurd hname hne, hname, ?_, nofun⟩
      exact ⟨by simp [control, MainPc.at_], by simp [control, MainPc.at_, ExecPc.at_], rfl, hplaced hname, nofun, nofun⟩
    · rename_i hname
      refine h.send (Steady.refl s.task) .returned ⟨?_, fun hd => absurd hd hname⟩ _
      rw [h.idle hname]
      nofun
  · exact h.stay _

omit [LinearOrder F] [Libm F] in
theorem read_course {is : List (Act F)} {s t : Prog F} (h : Course is s) {word : Option String}
    (ht : (readStep s word).res = .ok t) : Course (is ++ [.read word]) t := by
  have hplaced := h.placed
  unfold readStep at ht
  split at ht
  · rename_i operCmd hp
    rw [hp] at hplaced
    unfold menuStep at ht
    split at ht
    · obtain ⟨⟨u, next⟩, hu, ht⟩ := bind_res_ok.mp ht
      cases ht
      have hs := testFlow_steady hu
      refine h.send hs _ ?_ _
      cases next <;> exact fun hd => hplaced (hs.taskName_ ▸ hd)
    split at ht
    · obtain ⟨u, hu, ht⟩ := bind_res_ok.mp ht
      cases ht
      have hs := resetFfh_steady hu
      refine h.send hs .returned ⟨?_, fun hd => absurd (hs.taskName_ ▸ hd) hplaced⟩ _
      rw [hs.lmWrap, h.idle hplaced]
      nofun
    · cases ht
      exact h.send (Steady.refl s.task) (.menu (word.getD operCmd)) hplaced _
  · rename_i operCmd f hp
    rw [hp] at hplaced
    obtain ⟨⟨u, next⟩, hu, ht⟩ := bind_res_ok.mp ht
    cases ht
    have hs := readFlow_steady hu
    refine h.send hs _ ?_ _
    cases next <;> exact fun hd => hplaced (hs.taskName_ ▸ hd)
  · rename_i str tmp_cmd hp
    rw [hp] at hplaced
    cases ht
    refine h.send (Steady.refl s.task) _ ?_ _
    split
    · exact hplaced
    split
    · exact hplaced
    · refine ⟨?_, fun hd => absurd hd hplaced⟩
      rw [h.idle hplaced]
      nofun
  · cases ht
    exact h.stay _

omit [LinearOrder F] [Libm F] in
theorem pass_course {is : List (Act F)} {s t : Prog F} (h : Course is s) (ht : (passStep s).res = .ok t) :
    Course (is ++ [.check]) t := by
  have hplaced := h.placed
  unfold passStep at ht
  split at ht
  · rename_i str c todo tmp_cmd hp
    rw [hp] at hplaced
    obtain ⟨⟨u, tmp⟩, hu, ht⟩ := bind_res_ok.mp ht
    cases ht
    have hs := checkStep_steady hu
    exact h.send hs (.pass str todo tmp) (fun hd => hplaced (hs.taskName_ ▸ hd)) _
  · rename_i str tmp_cmd hp
    rw [hp] at hplaced
    cases ht
    exact h.send (Steady.refl s.task) (.selfMenu str tmp_cmd) hplaced _
  · cases ht
    exact h.stay _

theorem step_course {is : List (Act F)} {s t : Prog F} {a : Act F} (h : Course is s) (ht : (step s a).res = .ok t) :
    Course (is ++ [a]) t := by
  by_cases hd : ∃ d, s.phase = .demo d
  · obtain ⟨d, hp⟩ := hd
    exact demo_course h hp ht
  have hdemo : ∀ d, s.phase ≠ .demo d := fun d hp => hd ⟨d, hp⟩
  -- a thread of the demo has no step
  have none : ∀ {f : Threads F → Emit (Ev F) Fault (Prog F)}, demoStep s f = pure s := by
    intro f
    unfold demoStep
    split
    · rename_i d hp
      exact absurd hp (hdemo d)
    · rfl
  cases a with
  | attempt r =>
    replace ht : (attemptStep s r).res = .ok t := ht
    unfold attemptStep at ht
    split at ht
    · obtain ⟨⟨u, ret⟩, hu, ht⟩ := bind_res_ok.mp ht
      cases ht
      exact attempt_course h hu s.cbs
    · cases ht
      exact h.stay _
  | start tmp_cmd =>
    cases ht
    exact start_course h tmp_cmd
  | read word => exact read_course h ht
  | check => exact pass_course h ht
  | service i answer => exact service_course h hdemo ht
  | destroy =>
    simp only [step] at ht
    split at ht
    · rename_i hp
      obtain ⟨_, -, ht⟩ := bind_res_ok.mp ht
      cases ht
      have hplaced := h.placed
      rw [hp] at hplaced
      exact ⟨h.idle, hplaced.1⟩
    · cases ht
      exact h.stay _
  | _ =>
    simp only [step, none] at ht
    cases ht
    exact h.stay _

/-! ## The end -/

/-- Nothing the program may still be asked for does anything, but the destructor. -/
theorem returned_still {is : List (Act F)} {t : Prog F} (h : Course is t) (hp : t.phase = .returned) :
    ∀ {later : List (Act F)}, (∀ a ∈ later, a ≠ .destroy) → runs step t later = pure t := by
  intro later
  induction later with
  | nil => exact fun _ => rfl
  | cons a later ih =>
    intro hl
    have hended := h.ended (by rw [hp]; nofun) (by rw [hp]; nofun) (by rw [hp]; nofun)
    have hstep : step t a = pure t := by
      have hne := hl a List.mem_cons_self
      obtain ⟨task, cbs, ph⟩ := t
      cases hp
      cases a with
      | service i answer => simp only [step, serviceStep_ended hended, pure_bind]
      | destroy => exact absurd rfl hne
      | _ => rfl
    rw [runs, hstep, pure_bind]
    exact ih fun b hb => hl b (List.mem_cons_of_mem a hb)

theorem program_course {addr : Nat} {raw : Raw F} {config : Config F} {task : LpV2SyncFFH F} {acts : List (Act F)}
    {t : Prog F} (hmake : (make addr raw config).res = .ok task)
    (hrun : (program addr raw config acts).res = .ok t) : Course acts t := by
  obtain ⟨hparsed, -⟩ := make_spec hmake
  have hlaunch : Course [] (launch task) := by
    constructor
    · intro _
      rw [show (launch task).task.lmWrap = _ from hparsed.lmWrap]
      rfl
    · trivial
  rw [program_runs hmake] at hrun
  exact runs_trace step (J := fun is _ s => Course is s) (fun is _ s a t h ht => step_course h ht) hlaunch hrun

/-- In every run of the program: once `start()` has returned nothing happens any more, until
    the destructor; and the demo returns for a `q` only, with nothing left connected. -/
theorem returned_quiet {addr : Nat} {raw : Raw F} {config : Config F} {task : LpV2SyncFFH F} {acts : List (Act F)}
    {t : Prog F} (hmake : (make addr raw config).res = .ok task)
    (hrun : (program addr raw config acts).res = .ok t) (hp : t.phase = .returned) :
    (∀ later : List (Act F), (∀ a ∈ later, a ≠ .destroy) → runs step t later = pure t) ∧
      (t.task.taskName_ = "leap_motion_demo" → t.task.running_ = false ∧ t.task.lmWrap.inConncetion_ = false ∧
        .monitor (some 'q') ∈ acts) := by
  have h := program_course hmake hrun
  have hplaced := h.placed
  rw [hp] at hplaced
  exact ⟨fun _ => returned_still h hp, hplaced.2⟩

theorem returned_quiet_demo :
    ∃ t : Prog ℝ, (program 0 blank (shipped "leap_motion_demo") (opening ++ ending.dropLast)).res = .ok t ∧
      t.phase = .returned ∧ t.task.taskName_ = "leap_motion_demo" ∧
      (∀ later : List (Act ℝ), (∀ a ∈ later, a ≠ .destroy) → runs step t later = pure t) ∧ t.task.running_ = false := by
  have hrun : ∃ t : Prog ℝ, (program 0 blank (shipped "leap_motion_demo") (opening ++ ending.dropLast)).res = .ok t ∧
      t.phase = .returned ∧ t.task.taskName_ = "leap_motion_demo" := ⟨_, rfl, rfl, rfl⟩
  obtain ⟨t, hrun, hp, hname⟩ := hrun
  obtain ⟨hstill, hdemo⟩ := returned_quiet rfl hrun hp
  exact ⟨t, hrun, hp, hname, hstill, (hdemo hname).1⟩

/-! ## Every fair schedule -/

/-- Labels of the thread. -/
def Of (w : Who) (a : Act F) : Prop := ∃ quit, a.who = some (w, quit)

/-- The two threads of `start()`, itself and its `n` polling threads are never forgotten. -/
structure Fair (n : Nat) (sched : Nat → Act F) : Prop where
  main : Recurs (Of .main) sched
  monitor : Recurs (Of .monitor) sched
  exec : Recurs (Of .exec) sched
  service : ∀ i < n, Recurs (Of (.service i)) sched

/-- The demo, with the key read. -/
def Quitting (n : Nat) (s : Prog F) : Prop :=
  ∃ d, s.phase = .demo d ∧ (control s.task d).Sane ∧ Control.quitting d.monitor = true ∧
    s.task.lmWrap.pollingThread_.length = n

/-- The `Control` of the demo. -/
def here (s : Prog F) : Control :=
  match s.phase with
  | .demo d => control s.task d
  | _ => ⟨.joining, .ended, .ended, false, false, []⟩

omit [Field F] [LinearOrder F] [Libm F] in
theorem quitting_length {n : Nat} {s : Prog F} (h : Quitting n s) : (here s).pollingThread_.length = n := by
  obtain ⟨d, hp, -, -, hn⟩ := h
  unfold here
  rw [hp]
  exact hn

theorem quitting_step {n : Nat} {s t : Prog F} {a : Act F} (h : Quitting n s) (ht : (step s a).res = .ok t) :
    t.phase = .returned ∨ Quitting n t ∧ ((here t).rank < (here s).rank ∨ (here t).rank = (here s).rank ∧
      (here t).help = (here s).help) := by
  have h' := h
  obtain ⟨d, hp, hsane, hq, hn⟩ := h
  rcases step_demo hp ht with rfl | ⟨w, quit, -, hm⟩
  · exact Or.inr ⟨h', Or.inr ⟨rfl, rfl⟩⟩
  generalize ho : (control s.task d).next quit w = o at hm
  cases hm with
  | returns hp' _ => exact Or.inl hp'
  | goes d' hp' _ =>
    obtain ⟨hq', hlen, hrank⟩ := Control.next_keeps hsane hq ho
    refine Or.inr ⟨⟨d', hp', Control.sane_next hsane ho, hq', hlen.trans hn⟩, ?_⟩
    simp only [here, hp, hp']
    exact hrank

theorem quitting_help {n : Nat} {s t : Prog F} {a : Act F} (h : Quitting n s) (ha : Of (here s).help a)
    (ht : (step s a).res = .ok t) : t.phase = .returned ∨ Quitting n t ∧ (here t).rank < (here s).rank := by
  rcases quitting_step h ht with hr | ⟨hkeep, -⟩
  · exact Or.inl hr
  refine Or.inr ⟨hkeep, ?_⟩
  obtain ⟨d, hp, hsane, hq, -⟩ := h
  obtain ⟨quit, hw⟩ := ha
  have hc : here s = control s.task d := by unfold here; rw [hp]
  have hm : Moved s t d ((control s.task d).next quit (control s.task d).help) := by
    have hm := step_control hp ht
    rw [hw, hc] at hm
    exact hm
  rw [hc]
  generalize ho : (control s.task d).next quit (control s.task d).help = o at hm
  cases hm with
  | returns hp' _ =>
    obtain ⟨d', hp'', -⟩ := hkeep
    rw [hp'] at hp''
    cases hp''
  | goes d' hp' _ =>
    simp only [here, hp']
    exact Control.next_helps hsane hq ho

omit [Field F] [LinearOrder F] [Libm F] in
/-- The thread that helps is one of those that are never forgotten. -/
theorem Fair.help {n : Nat} {sched : Nat → Act F} (hf : Fair n sched) {s : Prog F} (h : Quitting n s) :
    Recurs (Of (here s).help) sched := by
  cases hw : (here s).help with
  | main => exact hf.main
  | monitor => exact hf.monitor
  | exec => exact hf.exec
  | service i => exact hf.service i (quitting_length h ▸ Control.help_service hw)

/-- Once the monitor has read the key in a run of the program, `start()` returns under every
    fair schedule, unless the program ends with a fault first, be it one of a message or of an
    iteration whose limits are missing. -/
theorem quit_returns {addr : Nat} {raw : Raw F} {config : Config F} {task : LpV2SyncFFH F} {acts : List (Act F)}
    {s : Prog F} {d : Threads F} {sched : Nat → Act F} (hmake : (make addr raw config).res = .ok task)
    (hrun : (program addr raw config acts).res = .ok s) (hd : s.phase = .demo d)
    (hq : Control.quitting d.monitor = true) (hfair : Fair s.task.lmWrap.pollingThread_.length sched) :
    Eventually step sched s (fun t => t.phase = .returned) 0 := by
  have hplaced := (program_course hmake hrun).placed
  rw [hd] at hplaced
  have hstart : Quitting s.task.lmWrap.pollingThread_.length s := ⟨d, hd, hplaced.2.1, hq, rfl⟩
  exact eventually_helped (fun t => (here t).rank) (fun t => (here t).help) Of
    (fun _ ht => hfair.help ht) (fun _ _ _ ht hu => quitting_step ht hu)
    (fun _ _ _ ht ha hu => quitting_help ht ha hu) (n := 0) rfl hstart

/-- The threads in turn. -/
def turns (n : Nat) : Act ℝ :=
  match n % 4 with
  | 0 => .main
  | 1 => .monitor none
  | 2 => .exec
  | _ => .service 0 none

theorem turns_recur {h : Act ℝ → Prop} (k : Nat) (hk : k < 4) (ha : h (turns k)) : Recurs h turns := by
  intro n
  refine ⟨4 * n + k, by omega, ?_⟩
  have hmod : (4 * n + k) % 4 = k % 4 := by omega
  unfold turns at ha ⊢
  rw [hmod]
  exact ha

theorem turns_fair : Fair 1 turns where
  main := turns_recur 0 (by decide) ⟨false, rfl⟩
  monitor := turns_recur 1 (by decide) ⟨false, rfl⟩
  exec := turns_recur 2 (by decide) ⟨false, rfl⟩
  service i hi := by
    obtain rfl : i = 0 := by omega
    exact turns_recur 3 (by decide) ⟨false, rfl⟩

theorem quit_returns_demo :
    ∃ s : Prog ℝ, (program 0 blank (shipped "leap_motion_demo") (opening ++ [.monitor none, .monitor (some 'q')])).res =
      .ok s ∧ s.phase = .demo ⟨.waiting, .stopping, .top⟩ ∧ Eventually step turns s (fun t => t.phase = .returned) 0 := by
  have hrun : ∃ s : Prog ℝ,
      (program 0 blank (shipped "leap_motion_demo") (opening ++ [.monitor none, .monitor (some 'q')])).res = .ok s ∧
      s.phase = .demo ⟨.waiting, .stopping, .top⟩ ∧ s.task.lmWrap.pollingThread_.length = 1 := ⟨_, rfl, rfl, rfl⟩
  obtain ⟨s, hrun, hd, hlen⟩ := hrun
  exact ⟨s, hrun, hd, quit_returns rfl hrun hd rfl (hlen ▸ turns_fair)⟩

end Program

end LeapSyncFfh
