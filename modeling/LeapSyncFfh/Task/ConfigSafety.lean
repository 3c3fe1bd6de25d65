/-
  LeapSyncFfh.Task.ConfigSafety — which accepted configurations keep every run inside the
  arrays that the file sizes, and off the null controllers.

  The program connects until it has, and starts once; here `connect()` and `start()` may be
  called in any order and as often as the caller likes (`callStep`). A run of a task that
  fits its mode has no shape fault (`step_running`, `callStep_running`), and a task whose
  runs have none fits its mode: each mode has a run that needs all of it (`fits_of_safe`).
  `Shaped` is what that asks of the file, and `configuration_safe_iff`: the runs of an
  accepted configuration are free of shape faults exactly when it is shaped. The shipped
  file is shaped for the demo; its self-check tables have three columns, and the self check
  reads four.
-/

import LeapSyncFfh.Task.Program
import LeapSyncFfh.Task.ShapeFaults

namespace LeapSyncFfh

open Cells Emit LeapMotionV2WrapperImpl

variable {F : Type}

namespace LpV2SyncFFH

/-! ## What the file has to have -/

/-- A self-check table has the twenty cells that a pass reads. -/
def Table (angles : List (List F)) : Prop := 5 ≤ angles.length ∧ ∀ row ∈ angles.take 5, 4 ≤ row.length

instance (angles : List (List F)) : Decidable (Table angles) := inferInstanceAs (Decidable (_ ∧ _))

theorem table_iff (task : LpV2SyncFFH F) (second : Bool) :
    Table (task.selfCheckData second) ↔ ∀ id j, task.HasAngle second id j := by
  refine rows_iff.trans ⟨fun h id j => ?_, fun h i hi => h ⟨i, hi⟩ 3⟩
  obtain ⟨row, hr, hlen⟩ := h id id.isLt
  exact ⟨row, hr, by omega⟩

/-- A pass of the self check needs the left hand and both tables. -/
theorem checkPass_needs (task : LpV2SyncFFH F) : (∀ c ∈ checkPass, Checkable task c) ↔
    Has task left_hand ∧ Table task.selfCheckData1 ∧ Table task.selfCheckData2 := by
  have hjoint : ∀ second id j, CheckStep.joint second id j ∈ checkPass := by decide
  constructor
  · intro h
    have htable : ∀ second, Table (task.selfCheckData second) := fun second =>
      (table_iff task second).mpr fun id j => (h _ (hjoint second id j)).1
    exact ⟨h .reset (by decide), htable false, htable true⟩
  · rintro ⟨hleft, h1, h2⟩ c -
    cases c with
    | reset => exact hleft
    | clear => trivial
    | joint second id j =>
      refine ⟨(table_iff task second).mp ?_ id j, hleft⟩
      cases second with
      | false => exact h1
      | true => exact h2

/-- The hand whose limits `parseConfig` leaves in the task, where the left hand is valid. -/
def lastHand (config : Config F) : Nat := if validHand config 1 then 1 else left_hand

/-- A flag for both hands; and for the mode, a valid left hand and the cells that it reads. -/
structure Shaped (config : Config F) : Prop where
  hand_Valid : ∀ valid, config.hand_Valid = some valid → handTotalNum ≤ valid.length
  test_by_hand : config.task_name = some "test_by_hand" → validHand config left_hand = true
  self_check : config.task_name = some "self_check" → validHand config left_hand = true ∧
    (∀ angles, config.self_check_angles1 = some angles → Table angles) ∧
    ∀ angles, config.self_check_angles2 = some angles → Table angles
  leap_motion_demo : config.task_name = some "leap_motion_demo" → validHand config left_hand = true →
    ∀ lower upper, handLimits config (lastHand config) = some (lower, upper) → Covers lower ∧ Covers upper

/-! ## What the constructor needs and leaves -/

theorem as_ends {ω α : Type} {P : Fault → Prop} (hP : P .uncaught) (o : Option α) :
    Ends P (fun a => o = some a) (lift (as o) : Emit ω Fault α) := by
  cases o with
  | none => exact ends_fail hP
  | some a => exact ends_of_ok rfl rfl

/-- One round of the loop of `parseConfig`: it throws, or has no flag for its hand. -/
theorem parseHand_ends [Zero F] (raw : Raw F) (ffhInfo : String → Option (HandNode F)) {task : LpV2SyncFFH F} {i : Nat}
    (hi : i < task.ffhs_.length) :
    Ends (fun e => e = .uncaught ∨ ShapeFault e ∧ ¬ i < task.ffhValid.length)
      (fun t => i < t.ffhValid.length ∧ t.ffhValid = task.ffhValid ∧ t.ffhs_.length = task.ffhs_.length)
      (parseHand raw ffhInfo task i) := by
  unfold parseHand
  refine ends_bind (ends_mono (isValid_exact task i) (fun _ => Or.inr) fun _ h => h) fun b hb => ?_
  split
  · exact ends_pure ⟨hb.1, rfl, rfl⟩
  · refine ends_bind (as_ends (Or.inl rfl) _) fun node _ => ends_bind (as_ends (Or.inl rfl) _) fun ip _ =>
      ends_bind (as_ends (Or.inl rfl) _) fun port _ => ?_
    refine ends_bind (Q := fun _ => True) (ends_of_ok (subscript_lt hi) trivial) fun old _ => ?_
    refine ends_bind (ends_mono (destroyFfh_ends i old) (fun _ h => h.elim) fun _ h => h) fun _ _ => ?_
    exact ends_bind (as_ends (Or.inl rfl) _) fun lower _ => ends_bind (as_ends (Or.inl rfl) _) fun upper _ =>
      ends_pure ⟨hb.1, rfl, List.length_set ..⟩

/-- The constructor throws, or subscripts a `hand_Valid` that is too short, or returns. -/
theorem make_ends [Zero F] (addr : Nat) (raw : Raw F) (config : Config F) :
    Ends (fun e => e = .uncaught ∨ ShapeFault e ∧ ∃ valid, config.hand_Valid = some valid ∧ valid.length < handTotalNum)
      (fun t => handTotalNum ≤ t.ffhValid.length) (make addr raw config) := by
  refine ends_bind (as_ends (Or.inl rfl) _) fun valid hvalid => ends_bind (as_ends (Or.inl rfl) _) fun info _ =>
    ends_bind (as_ends (Or.inl rfl) _) fun name _ => ends_bind (as_ends (Or.inl rfl) _) fun angles1 _ =>
      ends_bind (as_ends (Or.inl rfl) _) fun angles2 _ => ?_
  have short : ∀ {i : Nat} {e : Fault}, i < handTotalNum → (e = .uncaught ∨ ShapeFault e ∧ ¬ i < valid.length) →
      e = .uncaught ∨ ShapeFault e ∧ ∃ valid, config.hand_Valid = some valid ∧ valid.length < handTotalNum :=
    fun hi he => he.imp_right fun ⟨hs, hlen⟩ => ⟨hs, valid, hvalid, by omega⟩
  refine ends_bind (ends_mono (parseHand_ends raw info (by decide : 0 < handTotalNum)) (fun _ => short (by decide))
    fun _ h => h) fun t ht => ?_
  obtain ⟨-, hsame, hlen⟩ := ht
  have h1 : 1 < t.ffhs_.length := by rw [hlen]; exact (show 1 < handTotalNum by decide)
  refine ends_bind (ends_mono (parseHand_ends raw info h1) (fun _ he => short (by decide) (hsame ▸ he))
    fun _ h => h) fun u hu => ends_pure ?_
  exact hu.1

/-- A made task has a controller at the valid hands and at no other. -/
theorem made_has {raw : Raw F} {config : Config F} {addr : Nat} {t : LpV2SyncFFH F}
    (h : Parsed raw config (members addr raw) t) {i : Nat} (hi : i ∈ handIds) : Has t i ↔ validHand config i = true := by
  rw [h.validHand i]
  have hf := h.ffhs i
  split at hf
  · rename_i hon
    obtain ⟨c, -, hc⟩ := hf
    exact iff_of_true ⟨c, hc⟩ hon.2
  · rename_i hoff
    refine iff_of_false (fun ⟨c, hc⟩ => ?_) fun hon => hoff ⟨hi, hon⟩
    rw [hc, show (members addr raw).ffhs_ = List.replicate handTotalNum none from rfl, List.getElem?_replicate] at hf
    split at hf <;> cases hf

/-- The limits of a made task, where the left hand is valid. -/
theorem made_limits {raw : Raw F} {config : Config F} {addr : Nat} {t : LpV2SyncFFH F}
    (h : Parsed raw config (members addr raw) t) (hleft : validHand config left_hand = true) :
    handLimits config (lastHand config) = some (t.lowerLimits_, t.upperLimits_) := by
  have hlast : lastHand config ∈ handIds ∧ validHand config (lastHand config) = true ∧
      ∀ j ∈ handIds, lastHand config < j → validHand config j = false := by
    unfold lastHand
    split
    · rename_i h1
      exact ⟨by decide, h1, fun j hj hlt => by rcases mem_handIds.mp hj with rfl | rfl <;> omega⟩
    · rename_i h1
      refine ⟨by decide, hleft, fun j hj hlt => ?_⟩
      rcases mem_handIds.mp hj with rfl | rfl
      · exact absurd hlt (by decide)
      · simpa using h1
  obtain ⟨hmem, hon, hafter⟩ := hlast
  rw [h.validHand] at hon
  obtain ⟨c, hc, hlo, hup⟩ := h.limits _ hmem hon fun j hj hlt => by rw [← h.validHand]; exact hafter j hj hlt
  have hf := h.ffhs (lastHand config)
  rw [if_pos ⟨hmem, hon⟩] at hf
  obtain ⟨d, hd, he⟩ := hf
  obtain rfl := ffh_eq hc he
  rw [hlo, hup]
  exact configured_limits hd

/-- A made task fits its mode exactly when the file was shaped. -/
theorem made_fits_iff {raw : Raw F} {config : Config F} {addr : Nat} {t : LpV2SyncFFH F}
    (h : Parsed raw config (members addr raw) t) (hlen : handTotalNum ≤ t.ffhValid.length) :
    Fits t ↔ Shaped config := by
  have hleft : Has t left_hand ↔ validHand config left_hand = true := made_has h (by decide)
  have hname : ∀ name, config.task_name = some name ↔ t.taskName_ = name := fun name => by
    rw [h.task_name, Option.some_inj]
  constructor
  · intro hfits
    refine ⟨fun valid hv => ?_, fun e => hleft.mp (hfits.test_by_hand ((hname _).mp e)), fun e => ?_,
      fun e hon lower upper hlim => ?_⟩
    · rw [h.hand_Valid] at hv
      exact Option.some.inj hv ▸ hlen
    · obtain ⟨hc, h1, h2⟩ := (checkPass_needs t).mp (hfits.self_check ((hname _).mp e))
      refine ⟨hleft.mp hc, fun angles ha => ?_, fun angles ha => ?_⟩
      · rw [h.self_check_angles1] at ha
        exact Option.some.inj ha ▸ h1
      · rw [h.self_check_angles2] at ha
        exact Option.some.inj ha ▸ h2
    · rw [made_limits h hon] at hlim
      cases hlim
      exact ((hfits.leap_motion_demo ((hname _).mp e)).2 (by rw [← h.validHand]; exact hon)).1
  · intro hs
    refine ⟨⟨hlen, fun i hi hon => (made_has h hi).mpr (by rw [h.validHand]; exact hon)⟩, fun e => ?_, fun e => ?_,
      fun e => ?_⟩
    · exact hleft.mpr (hs.test_by_hand ((hname _).mpr e))
    · obtain ⟨hon, h1, h2⟩ := hs.self_check ((hname _).mpr e)
      exact (checkPass_needs t).mpr ⟨hleft.mpr hon, h1 _ h.self_check_angles1, h2 _ h.self_check_angles2⟩
    · refine ⟨by unfold left_hand; unfold handTotalNum at hlen; omega, fun hon => ?_⟩
      rw [← h.validHand] at hon
      exact ⟨hs.leap_motion_demo ((hname _).mpr e) hon _ _ (made_limits h hon), hleft.mpr hon⟩

end LpV2SyncFFH

namespace Program

open LpV2SyncFFH

/-- The phases of the mode `name`. -/
def Mode (name : String) : Phase F → Prop
  | .menu _ => name = "test_by_hand"
  | .flow _ _ => name = "test_by_hand"
  | .selfMenu _ _ => name = "self_check"
  | .pass _ todo _ => name = "self_check" ∧ todo ⊆ checkPass
  | .demo _ => name = "leap_motion_demo"
  | _ => True

structure Running (s : Prog F) : Prop where
  fits : Fits s.task
  mode : Mode s.task.taskName_ s.phase

theorem Running.move {s : Prog F} (h : Running s) {t : LpV2SyncFFH F} (ha : Alike s.task t) (cbs : CallBacks)
    {phase : Phase F} (hm : Mode s.task.taskName_ phase) : Running ⟨t, cbs, phase⟩ :=
  ⟨h.fits.alike ha, by rw [show (Prog.mk t cbs phase).task.taskName_ = s.task.taskName_ from ha.taskName_]; exact hm⟩

section Threads

variable [Zero F]

theorem mainStep_alike (task : LpV2SyncFFH F) (cbs : CallBacks) (d : Threads F) :
    Alike task (mainStep task cbs d).1 := by
  unfold mainStep
  split
  · exact alike_lmWrap task _
  all_goals exact Alike.refl task

omit [Zero F] in
theorem monitorStep_ends (task : LpV2SyncFFH F) (key : Option Char) (pc : MonitorPc) :
    Ends (fun _ => False) (fun r => Alike task r.1) (monitorStep task key pc) := by
  cases pc with
  | stopping => exact ends_pure ⟨fun _ => Iff.rfl, rfl, rfl, rfl, rfl, rfl, rfl⟩
  | disconnecting =>
    simp only [monitorStep]
    split
    · exact ends_pure (alike_lmWrap task _)
    · exact ends_pure (Alike.refl task)
  | joining =>
    simp only [monitorStep]
    split
    · refine ends_bind (Q := fun _ => True) (ends_of_ok rfl trivial) fun w _ => ends_pure (alike_lmWrap task w)
    · exact ends_pure (Alike.refl task)
  | _ => exact ends_pure (Alike.refl task)

theorem serviceStep_ends (task : LpV2SyncFFH F) (cbs : CallBacks) (i : Nat)
    (answer : Option (LEAP_CONNECTION_MESSAGE F)) :
    Ends LeapFault (fun t => Alike task t) (serviceStep task cbs i answer) := by
  unfold serviceStep
  split
  · exact ends_pure (alike_lmWrap task _)
  · split
    · exact ends_bind (ends_mapOut (handleMessage_ends cbs task.lmWrap _)) fun w _ => ends_pure (alike_lmWrap task _)
    · exact ends_pure (alike_lmWrap task _)
  · exact ends_pure (Alike.refl task)

end Threads

variable [Field F] [LinearOrder F] [Libm F]

theorem execStep_ends {task : LpV2SyncFFH F} (h : Publishable task) (pc : ExecPc F) :
    Ends (fun _ => False) (fun r => Alike task r.1) (execStep task pc) := by
  cases pc with
  | check =>
    simp only [execStep]
    split
    · exact ends_bind (exact_returns (publish_exact task .zero) h) fun t ht => ends_pure ht
    · exact ends_pure (Alike.refl task)
  | act hands =>
    exact ends_bind (exact_returns (iterateHands_exact task hands) fun _ => h) fun r hr => ends_pure hr
  | _ => exact ends_pure (Alike.refl task)

omit [Field F] [LinearOrder F] [Libm F] in
theorem start_running {s : Prog F} (h : Running s) (tmp_cmd : udp_hand_cmd F) : Running (startStep s tmp_cmd) := by
  unfold startStep
  split
  · split
    · exact h.move (Alike.refl _) s.cbs (by assumption)
    split
    · exact h.move (Alike.refl _) s.cbs (by assumption)
    split
    · rename_i hname
      have ha : Alike s.task { s.task with running_ := true } := ⟨fun _ => Iff.rfl, rfl, rfl, rfl, rfl, rfl, rfl⟩
      exact h.move ha s.cbs (show Mode _ (.demo {}) from hname)
    · exact h.move (Alike.refl _) s.cbs trivial
  · exact h

omit [LinearOrder F] [Libm F] in
theorem read_running {s : Prog F} (h : Running s) (word : Option String) :
    Ends (fun e => ¬ ShapeFault e) Running (readStep s word) := by
  unfold readStep
  split
  next operCmd hp =>
    have hname : s.task.taskName_ = "test_by_hand" := by have := h.mode; rwa [hp] at this
    have hleft := h.fits.test_by_hand hname
    unfold menuStep
    split
    · refine ends_bind (exact_returns (testFlow_exact s.task) hleft) fun r hr => ends_pure (h.move hr s.cbs ?_)
      split <;> exact hname
    split
    · exact ends_bind (exact_returns (resetFfh_exact s.task left_hand) hleft) fun t ht =>
        ends_pure (h.move ht s.cbs trivial)
    · exact ends_pure (h.move (Alike.refl _) s.cbs hname)
  next operCmd t hp =>
    have hname : s.task.taskName_ = "test_by_hand" := by have := h.mode; rwa [hp] at this
    have hread : Ends (fun e => ¬ ShapeFault e) (fun r => Alike s.task r.1) (s.task.readFlow t word) :=
      withFfh_ends (h.fits.test_by_hand hname) fun c =>
        ends_bind (flowStep_ends c t word) fun _ _ => ends_pure trivial
    refine ends_bind hread fun r hr => ends_pure (h.move hr s.cbs ?_)
    split <;> exact hname
  next str tmp_cmd hp =>
    have hname : s.task.taskName_ = "self_check" := by have := h.mode; rwa [hp] at this
    refine ends_pure (h.move (Alike.refl _) s.cbs ?_)
    split
    · exact ⟨hname, List.Subset.refl _⟩
    split
    · exact hname
    · trivial
  next => exact ends_pure h

omit [LinearOrder F] [Libm F] in
theorem pass_running {s : Prog F} (h : Running s) : Ends (fun e => ¬ ShapeFault e) Running (passStep s) := by
  unfold passStep
  split
  next str c todo tmp_cmd hp =>
    obtain ⟨hname, htodo⟩ : s.task.taskName_ = "self_check" ∧ c :: todo ⊆ checkPass := by
      have := h.mode; rwa [hp] at this
    have hc := h.fits.self_check hname c (htodo List.mem_cons_self)
    exact ends_bind (exact_returns (checkStep_exact s.task tmp_cmd c) hc) fun r hr =>
      ends_pure (h.move hr s.cbs ⟨hname, fun x hx => htodo (List.mem_cons_of_mem c hx)⟩)
  next str tmp_cmd hp =>
    have hname : s.task.taskName_ = "self_check" := by
      have := h.mode; rw [hp] at this; exact this.1
    exact ends_pure (h.move (Alike.refl _) s.cbs hname)
  next => exact ends_pure h

theorem step_running {s : Prog F} (h : Running s) (a : Act F) : Ends (fun e => ¬ ShapeFault e) Running (step s a) := by
  have demo : ∀ {f : Threads F → Emit (Ev F) Fault (Prog F)},
      (∀ d, s.task.taskName_ = "leap_motion_demo" → Ends (fun e => ¬ ShapeFault e) Running (f d)) →
      Ends (fun e => ¬ ShapeFault e) Running (demoStep s f) := by
    intro f hf
    unfold demoStep
    split
    · rename_i d hp
      exact hf d (by have := h.mode; rwa [hp] at this)
    · exact ends_pure h
  have never : ∀ {e : Fault}, False → ¬ ShapeFault e := fun h => h.elim
  cases a with
  | attempt r =>
    show Ends _ _ (attemptStep s r)
    unfold attemptStep
    split
    · refine ends_bind (ends_mono (connect_ends h.fits.wired r) (fun _ => aborted_not_shape) fun _ h => h)
        fun a ha => ends_pure (h.move ha s.cbs ?_)
      split <;> trivial
    · exact ends_pure h
  | start tmp_cmd => exact ends_pure (start_running h tmp_cmd)
  | read word => exact read_running h word
  | check => exact pass_running h
  | main =>
    refine demo fun d hname => ends_pure (h.move (mainStep_alike s.task s.cbs d) _ ?_)
    split
    · exact hname
    · trivial
  | monitor key =>
    exact demo fun d hname => ends_bind (ends_mono (monitorStep_ends s.task key d.monitor) (fun _ => never) fun _ h => h)
      fun r hr => ends_pure (h.move hr s.cbs hname)
  | exec =>
    exact demo fun d hname => ends_bind (ends_mono (execStep_ends (h.fits.leap_motion_demo hname) d.exec)
      (fun _ => never) fun _ h => h) fun r hr => ends_pure (h.move hr s.cbs hname)
  | service i answer =>
    simp only [step]
    split
    · exact ends_pure h
    · exact ends_bind (ends_mono (serviceStep_ends s.task s.cbs i answer) (fun _ => LeapFault.not_shape) fun _ h => h)
        fun t ht => ends_pure (h.move ht s.cbs h.mode)
  | destroy =>
    simp only [step]
    split
    · exact ends_bind (ends_mono (destroy_ends h.fits.wired) (fun _ => never) fun _ h => h) fun _ _ =>
        ends_pure (h.move (Alike.refl _) s.cbs trivial)
    · exact ends_pure h

/-! ## Any order of the calls -/

/-- A call made by the caller of `connect()` and `start()`: not while it is inside `start()`. -/
def whenFree (s : Prog F) (x : Emit (Ev F) Fault (Prog F)) : Emit (Ev F) Fault (Prog F) :=
  match s.phase with
  | .connecting => x
  | .connected => x
  | .returned => x
  | _ => pure s

/-- `step`, for a caller that makes the two calls in any order and as often as it likes. -/
def callStep (s : Prog F) : Act F → Emit (Ev F) Fault (Prog F)
  | .attempt r => whenFree s do
    let a ← s.task.connect r
    pure { s with task := a.1 }
  | .start tmp_cmd => whenFree s (pure (startStep { s with phase := .connected } tmp_cmd))
  | a => step s a

/-- A run of any calls, from the constructor on. -/
def calling (addr : Nat) (raw : Raw F) (config : Config F) (acts : List (Act F)) : Emit (Ev F) Fault (Prog F) := do
  let task ← make addr raw config
  runs callStep (launch task) acts

theorem calling_runs {addr : Nat} {raw : Raw F} {config : Config F} {task : LpV2SyncFFH F}
    (hmake : (make addr raw config).res = .ok task) (acts : List (Act F)) :
    calling addr raw config acts = runs callStep (launch task) acts := by
  rw [calling, bind_of_ok hmake, (make_spec hmake).2]
  rfl

theorem callStep_running {s : Prog F} (h : Running s) (a : Act F) :
    Ends (fun e => ¬ ShapeFault e) Running (callStep s a) := by
  have free : ∀ {x : Emit (Ev F) Fault (Prog F)}, Ends (fun e => ¬ ShapeFault e) Running x →
      Ends (fun e => ¬ ShapeFault e) Running (whenFree s x) := by
    intro x hx
    unfold whenFree
    split
    · exact hx
    · exact hx
    · exact hx
    · exact ends_pure h
  cases a with
  | attempt r =>
    exact free (ends_bind (ends_mono (connect_ends h.fits.wired r) (fun _ => aborted_not_shape) fun _ h => h)
      fun a ha => ends_pure (h.move ha s.cbs h.mode))
  | start tmp_cmd =>
    have hready : Running { s with phase := .connected } := h.move (Alike.refl _) s.cbs trivial
    exact free (ends_pure (start_running hready tmp_cmd))
  | read word => exact step_running h (.read word)
  | check => exact step_running h .check
  | main => exact step_running h .main
  | monitor key => exact step_running h (.monitor key)
  | exec => exact step_running h .exec
  | service i answer => exact step_running h (.service i answer)
  | destroy => exact step_running h .destroy

/-- A label of the threads, the operator or the end: not one of the two calls. -/
def Inside : Act F → Prop
  | .attempt _ => False
  | .start _ => False
  | _ => True

theorem runs_inside {acts : List (Act F)} (h : ∀ a ∈ acts, Inside a) (s : Prog F) :
    runs callStep s acts = runs step s acts := by
  induction acts generalizing s with
  | nil => rfl
  | cons a acts ih =>
    obtain ⟨ha, hrest⟩ := List.forall_mem_cons.mp h
    have hstep : callStep s a = step s a := by
      cases a with
      | attempt r => exact ha.elim
      | start tmp_cmd => exact ha.elim
      | _ => rfl
    simp only [runs, hstep, ih hrest]

/-! ## Runs that need the shape -/

omit [LinearOrder F] [Libm F] in
/-- An attempt in which everything answers. -/
theorem attempt_good {task : LpV2SyncFFH F} (h : Wired task) :
    ∃ t, (task.connect (answering 0 1)).res = .ok (t, .SUCCESS) ∧ Alike task t ∧
      (task.taskName_ = "leap_motion_demo" → t.lmWrap.inConncetion_ = true ∧ t.lmWrap.hands_ = task.lmWrap.hands_) := by
  have hleap : ∃ w, task.connectLeap (answering 0 1) = ⟨(task.connectLeap (answering 0 1)).out,
      .ok ({ task with lmWrap := w }, .SUCCESS)⟩ ∧
      (task.taskName_ = "leap_motion_demo" → w.inConncetion_ = true ∧ w.hands_ = task.lmWrap.hands_) := by
    unfold connectLeap
    split
    · exact ⟨_, rfl, fun _ => ⟨rfl, rfl⟩⟩
    · rename_i hne
      exact ⟨task.lmWrap, rfl, fun e => absurd e hne⟩
  obtain ⟨w, hw, hdemo⟩ := hleap
  have ha := alike_lmWrap task w
  obtain ⟨⟨u, ret⟩, hu, hau⟩ := ends_total (connectFFH_ends (h.alike ha) (answering 0 1).socks)
  obtain ⟨⟨ffhs, rfl⟩, hret, -⟩ := connectHands_spec (answering 0 1).socks (by decide) hu
  obtain rfl : ret = .SUCCESS := hret.mpr fun i _ _ => (show (0 : Int) ≤ 3 by decide)
  refine ⟨_, ?_, (ha.trans hau).trans (alike_inConnection _ true), hdemo⟩
  have hdef : task.connect (answering 0 1) = task.connectLeap (answering 0 1) >>= fun leap =>
      if leap.2 ≠ .SUCCESS then pure (leap.1, .ACTION_FAIL)
      else leap.1.connectFFH (answering 0 1).socks >>= fun ffh =>
        if ffh.2 ≠ .SUCCESS then pure ffh else pure ({ ffh.1 with inConnection_ := true }, .SUCCESS) := rfl
  rw [hdef, hw, bind_of_ok rfl]
  simp only [ne_eq, not_true, if_false]
  rw [bind_of_ok hu]
  rfl

omit [Field F] [LinearOrder F] [Libm F] in
theorem runs_cons_res {next : Prog F → Act F → Emit (Ev F) Fault (Prog F)} {s t : Prog F} {a : Act F}
    (h : (next s a).res = .ok t) (acts : List (Act F)) : (runs next s (a :: acts)).res = (runs next t acts).res := by
  rw [runs, bind_of_ok h]

/-- A run of calls that has connected and started goes on as one from there. -/
theorem started_res {task : LpV2SyncFFH F} (h : Wired task) : ∃ t, Alike task t ∧
    (task.taskName_ = "leap_motion_demo" → t.lmWrap.inConncetion_ = true ∧ t.lmWrap.hands_ = task.lmWrap.hands_) ∧
    ∀ acts, (∀ a ∈ acts, Inside a) →
      (runs callStep (launch task) (.attempt (answering 0 1) :: .start .zero :: acts)).res =
        (runs step (startStep ⟨t, fun _ _ => none, .connected⟩ .zero) acts).res := by
  obtain ⟨t, ht, ha, hdemo⟩ := attempt_good h
  refine ⟨t, ha, hdemo, fun acts hacts => ?_⟩
  have hattempt : (callStep (launch task) (.attempt (answering 0 1))).res = .ok ⟨t, fun _ _ => none, .connecting⟩ :=
    bind_res_ok.mpr ⟨(t, .SUCCESS), ht, rfl⟩
  have hstart : (callStep ⟨t, fun _ _ => none, .connecting⟩ (.start .zero)).res =
      .ok (startStep ⟨t, fun _ _ => none, .connected⟩ .zero) := rfl
  rw [runs_cons_res hattempt, runs_cons_res hstart, runs_inside hacts]

/-- The steps of a pass are its statements in a row. -/
theorem passes_run (cbs : CallBacks) (str : String) (todo : List CheckStep) (task : LpV2SyncFFH F)
    (tmp_cmd : udp_hand_cmd F) :
    runs step ⟨task, cbs, .pass str todo tmp_cmd⟩ (List.replicate todo.length .check) =
      runs checking (task, tmp_cmd) todo >>= fun r => pure ⟨r.1, cbs, .pass str [] r.2⟩ := by
  induction todo generalizing task tmp_cmd with
  | nil => rfl
  | cons c todo ih =>
    have hstep : step ⟨task, cbs, .pass str (c :: todo) tmp_cmd⟩ .check =
        task.checkStep tmp_cmd c >>= fun r => pure ⟨r.1, cbs, .pass str todo r.2⟩ := rfl
    rw [List.length_cons, List.replicate_succ, runs, hstep, bind_assoc, runs, bind_assoc]
    simp only [pure_bind, ih]
    rfl

theorem passes_exact (cbs : CallBacks) (str : String) (todo : List CheckStep) (task : LpV2SyncFFH F)
    (tmp_cmd : udp_hand_cmd F) : Exact ShapeFault (∀ c ∈ todo, Checkable task c) (fun _ => True)
      (runs step ⟨task, cbs, .pass str todo tmp_cmd⟩ (List.replicate todo.length .check)) := by
  rw [passes_run]
  exact exact_congr (iff_of_eq (and_true _)) (exact_bind (checking_exact todo task tmp_cmd) fun _ _ _ => exact_pure trivial)

/-- `start()` of the demo up to its first iteration, before any hand is seen. -/
theorem first_iteration {task : LpV2SyncFFH F} (cbs : CallBacks) (hrun : task.running_ = true)
    (hin : task.lmWrap.inConncetion_ = true) (hhands : task.lmWrap.hands_ = []) : ∃ w cbs',
      runs step ⟨task, cbs, .demo {}⟩ (List.replicate initSteps.length .main ++
          [.main, .main, .exec, .exec, .exec, .exec]) =
        { task with lmWrap := w }.iterateHands [] >>= fun r => pure ⟨r.1, cbs', .demo ⟨.waiting, .top, .top⟩⟩ := by
  refine ⟨(initSteps.foldl initStep (task.lmWrap, cbs)).1, (initSteps.foldl initStep (task.lmWrap, cbs)).2, ?_⟩
  have hinit := main_initialize task cbs {} initSteps
  rw [runs_append, hinit, pure_bind]
  -- the two statements that start the threads, then one round of `executeLoop`
  have hin' : (initSteps.foldl initStep (task.lmWrap, cbs)).1.inConncetion_ = true := hin
  have hhands' : (initSteps.foldl initStep (task.lmWrap, cbs)).1.hands_ = [] := hhands
  simp [runs, step, demoStep, mainStep, execStep, LeapMotionV2WrapperImpl.hands, hrun, hin', hhands']

/-- A task whose runs have no shape fault fits its mode: in each mode there is a run that
    needs all that the mode needs. -/
theorem fits_of_safe {task : LpV2SyncFFH F} (h : Wired task) (hhands : task.lmWrap.hands_ = [])
    (hsafe : ∀ acts e, (runs callStep (launch task) acts).res = .error e → ¬ ShapeFault e) : Fits task := by
  obtain ⟨t, ha, hdemo, hres⟩ := started_res h
  have safe : ∀ acts e, (∀ a ∈ acts, Inside a) → ShapeFault e →
      (runs step (startStep ⟨t, fun _ _ => none, .connected⟩ .zero) acts).res ≠ .error e :=
    fun acts e hacts he hrun => hsafe _ e ((hres acts hacts).trans hrun) he
  refine ⟨h, fun hname => ?_, fun hname => ?_, fun hname => ?_⟩
  · have hstart : startStep ⟨t, fun _ _ => none, .connected⟩ .zero = ⟨t, fun _ _ => none, .menu ""⟩ := by
      simp [startStep, ha.taskName_, hname]
    by_contra hleft
    obtain ⟨e, he, hflow⟩ := exact_faults (testFlow_exact t) fun hc => hleft ((ha.ffhs left_hand).mp hc)
    refine safe [.read (some "test")] e (by simp [Inside]) he ?_
    rw [hstart]
    simp only [runs, step, readStep, menuStep, Option.getD_some, if_true]
    rw [bind_of_error hflow, bind_of_error rfl]
  · have hstart : startStep ⟨t, fun _ _ => none, .connected⟩ .zero = ⟨t, fun _ _ => none, .selfMenu "" .zero⟩ := by
      simp [startStep, ha.taskName_, hname]
    by_contra hpass
    obtain ⟨e, he, hfault⟩ := exact_faults (passes_exact (fun _ _ => none) "test" checkPass t .zero)
      fun hc => hpass fun c hmem => (ha.checkable c).mp (hc c hmem)
    have hread : (step ⟨t, fun _ _ => none, .selfMenu "" .zero⟩ (.read (some "test"))).res =
        .ok ⟨t, fun _ _ => none, .pass "test" checkPass .zero⟩ := rfl
    refine safe (.read (some "test") :: List.replicate checkPass.length .check) e (by simp [Inside]) he ?_
    rw [hstart, runs_cons_res hread]
    exact hfault
  · obtain ⟨hin, hsame⟩ := hdemo hname
    have hstart : startStep ⟨t, fun _ _ => none, .connected⟩ .zero =
        ⟨{ t with running_ := true }, fun _ _ => none, .demo {}⟩ := by
      simp [startStep, ha.taskName_, hname]
    by_contra hpub
    have halike : ∀ w, Alike task { t with running_ := true, lmWrap := w } := fun w =>
      ha.trans ⟨fun _ => Iff.rfl, rfl, rfl, rfl, rfl, rfl, rfl⟩
    have hrun : ({ t with running_ := true } : LpV2SyncFFH F).running_ = true := rfl
    obtain ⟨w, cbs, hfirst⟩ := first_iteration (fun _ _ => none) hrun hin (hsame.trans hhands)
    obtain ⟨e, he, hfault⟩ := exact_faults (iterateHands_exact { t with running_ := true, lmWrap := w } []) fun hc =>
      hpub ((halike w).publishable.mp (hc (Or.inl rfl)))
    refine safe (List.replicate initSteps.length .main ++ [.main, .main, .exec, .exec, .exec, .exec]) e
      (by simp [Inside, or_imp, forall_and]) he ?_
    rw [hstart, hfirst, bind_of_error hfault]

/-! ## The configurations whose runs are safe -/

omit [LinearOrder F] [Libm F] in
theorem launch_running {addr : Nat} {raw : Raw F} {config : Config F} {t : LpV2SyncFFH F}
    (hmake : (make addr raw config).res = .ok t) (hs : Shaped config) : Running (launch t) := by
  obtain ⟨hp, -⟩ := make_spec hmake
  exact ⟨(made_fits_iff hp ((make_ends addr raw config).2 t hmake)).mpr hs, trivial⟩

/-- Every run of `connect()` and `start()` on an accepted configuration stays inside its
    arrays, and off the null controllers, exactly when the configuration is shaped. -/
theorem configuration_safe_iff {addr : Nat} {raw : Raw F} {config : Config F}
    (hacc : (make addr raw config).res ≠ .error .uncaught) :
    (∀ acts e, (calling addr raw config acts).res = .error e → ¬ ShapeFault e) ↔ Shaped config := by
  have hends := make_ends addr raw config
  cases hmake : (make addr raw config).res with
  | error e =>
    -- the constructor itself subscripts a `hand_Valid` that is too short
    obtain rfl | ⟨hs, valid, hvalid, hshort⟩ := hends.1 e hmake
    · exact absurd hmake hacc
    · refine iff_of_false (fun hsafe => ?_) fun hs => absurd (hs.hand_Valid valid hvalid) (by omega)
      refine hsafe [] e ?_ hs
      rw [calling, bind_of_error hmake]
  | ok t =>
    obtain ⟨hp, -⟩ := make_spec hmake
    constructor
    · intro hsafe
      have hw : Wired t := ⟨hends.2 t hmake, fun i hi hon => (made_has hp hi).mpr (by rw [hp.validHand]; exact hon)⟩
      refine (made_fits_iff hp (hends.2 t hmake)).mp (fits_of_safe hw (by rw [hp.lmWrap]; rfl) fun acts e he => ?_)
      refine hsafe acts e ?_
      rw [calling_runs hmake]
      exact he
    · intro hs acts e he
      rw [calling_runs hmake] at he
      exact (runs_ends callStep (fun _ a hr => callStep_running hr a) _ _ (launch_running hmake hs)).1 e he

theorem configuration_safe_shipped :
    (make 0 (blank : Raw ℝ) (shipped "leap_motion_demo")).res ≠ .error .uncaught ∧
      ((∀ acts e, (calling 0 (blank : Raw ℝ) (shipped "leap_motion_demo") acts).res = .error e → ¬ ShapeFault e) ↔
        Shaped (shipped (F := ℝ) "leap_motion_demo")) := by
  have hacc : (make 0 (blank : Raw ℝ) (shipped "leap_motion_demo")).res ≠ .error .uncaught := by
    intro h; cases h
  exact ⟨hacc, configuration_safe_iff hacc⟩

/-- The shipped file is shaped for its own mode. -/
example : Shaped (shipped (F := ℚ) "leap_motion_demo") where
  hand_Valid valid h := by cases h; decide
  test_by_hand h := by simp [shipped] at h
  self_check h := by simp [shipped] at h
  leap_motion_demo _ _ lower upper h := by
    cases h
    exact ⟨by decide, by decide⟩

/-- The self check of the shipped file: its tables have three columns, and the loop reads
    a fourth. -/
theorem the_self_check_reads_a_fourth_column :
    (make 0 (blank : Raw ℝ) (shipped "self_check")).res ≠ .error .uncaught ∧
      (calling 0 (blank : Raw ℝ) (shipped "self_check") ([.attempt (answering 0 1), .start .zero, .read (some "test")] ++
        List.replicate 6 .check)).res = .error (.outOfBounds .selfCheckData) := by
  constructor
  · intro h; cases h
  · rfl

/-- The runs of the program itself: it connects until it has, and then starts once. -/
theorem program_safe {addr : Nat} {raw : Raw F} {config : Config F} {t : LpV2SyncFFH F}
    (hmake : (make addr raw config).res = .ok t) (hs : Shaped config) (acts : List (Act F)) {e : Fault}
    (h : (program addr raw config acts).res = .error e) : ¬ ShapeFault e := by
  rw [program_runs hmake] at h
  exact (runs_ends step (fun _ a hr => step_running hr a) _ _ (launch_running hmake hs)).1 e h

end Program

end LeapSyncFfh
