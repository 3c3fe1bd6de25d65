/-
  LeapSyncFfh.Task.History — what is left of earlier iterations in the command of the next.

  Of the member `handCmd` an iteration with a confident left hand overwrites all but the
  `ThumbPalm` angles of fingers 1 to 4, and sends them as it finds them. The constructor
  does not set them; an iteration that opens the hand does, to zero (`opens`). `held` is
  what they are after a sequence of iterations.

  `last_command_iff`: two control loops that see the same confident left hand in their
  last iteration send the same command exactly when these four angles are the same in
  both, or the limits do not cover and neither sends one.
-/

import LeapSyncFfh.Task.Iteration

namespace LeapSyncFfh

open Cells Emit

variable {F : Type} [Field F] [LinearOrder F] [Libm F]

/-! ## What the mapping keeps of the command before -/

theorem joints (j : Fin 4) : j = FJIndex.Distal.toFin ∨ j = FJIndex.FbDir.toFin ∨ j = FJIndex.LrDir.toFin ∨
    j = FJIndex.ThumbPalm.toFin := by
  revert j; decide

theorem mapFinger_congr (n : Vector3 F) (fingers : Fin 5 → LEAP_DIGIT F) {c c' : udp_hand_cmd F} {i k : Fin 5}
    {j : Fin 4} (h : (k = i ∧ j ≠ FJIndex.ThumbPalm.toFin) ∨ c.get k j = c'.get k j) :
    (mapFinger n fingers c i).get k j = (mapFinger n fingers c' i).get k j := by
  simp only [mapFinger, udp_hand_cmd.get_set]
  rcases h with ⟨rfl, hj⟩ | h
  · rcases joints j with rfl | rfl | rfl | rfl
    · simp [FJIndex.toFin]
    · simp [FJIndex.toFin]
    · simp
    · exact absurd rfl hj
  · rw [h]

/-- The loop over the fingers `is`: a joint it writes does not depend on the command before. -/
theorem mapFingers_congr (n : Vector3 F) (fingers : Fin 5 → LEAP_DIGIT F) {k : Fin 5} {j : Fin 4} (is : List (Fin 5)) :
    ∀ {c c' : udp_hand_cmd F}, (k ∈ is ∧ j ≠ FJIndex.ThumbPalm.toFin) ∨ c.get k j = c'.get k j →
      (is.foldl (mapFinger n fingers) c).get k j = (is.foldl (mapFinger n fingers) c').get k j := by
  induction is with
  | nil =>
    intro c c' h
    rcases h with ⟨h, -⟩ | h
    · exact (List.not_mem_nil h).elim
    · exact h
  | cons i is ih =>
    intro c c' h
    rw [List.foldl_cons, List.foldl_cons]
    apply ih
    rcases h with ⟨hk, hj⟩ | h
    · rcases List.mem_cons.mp hk with rfl | hk
      · exact Or.inr (mapFinger_congr n fingers (Or.inl ⟨rfl, hj⟩))
      · exact Or.inl ⟨hk, hj⟩
    · exact Or.inr (mapFinger_congr n fingers (Or.inr h))

/-- The thumb's four angles do not depend on the command before. -/
theorem mapThumb_congr (n : Vector3 F) (fingers : Fin 5 → LEAP_DIGIT F) (c c' : udp_hand_cmd F) (j : Fin 4) :
    (mapThumb n fingers c).get 0 j = (mapThumb n fingers c').get 0 j := by
  simp only [mapThumb, udp_hand_cmd.get_set]
  rcases joints j with rfl | rfl | rfl | rfl <;> simp [FJIndex.toFin]

theorem mem_fingers : ∀ k : Fin 5, k ≠ 0 → k ∈ ([1, 2, 3, 4] : List (Fin 5)) := by decide

theorem calPubFingerAngle_congr {c c' : udp_hand_cmd F} (hand : LEAP_HAND F)
    (h : ∀ k ≠ 0, c.get k FJIndex.ThumbPalm.toFin = c'.get k FJIndex.ThumbPalm.toFin) :
    calPubFingerAngle c hand = calPubFingerAngle c' hand := by
  rw [calPubFingerAngle_eq, calPubFingerAngle_eq]
  split
  · rfl
  refine congrArg some (udp_hand_cmd.ext_get fun k j => ?_)
  by_cases hk : k = 0
  · subst hk
    exact mapThumb_congr _ _ _ _ j
  · rw [mapThumb_other _ _ _ _ hk, mapThumb_other _ _ _ _ hk]
    apply mapFingers_congr
    by_cases hj : j = FJIndex.ThumbPalm.toFin
    · subst hj
      exact Or.inr (h k hk)
    · exact Or.inl ⟨mem_fingers k hk, hj⟩

namespace LpV2SyncFFH

/-! ## One iteration -/

def seen (task : LpV2SyncFFH F) (w : LeapMotionV2WrapperImpl F) : LpV2SyncFFH F := { task with lmWrap := w }

/-- The body of `executeLoop`, on what the wrapper holds then. -/
def loopStep (task : LpV2SyncFFH F) (w : LeapMotionV2WrapperImpl F) : Emit (Ev F) Fault (LpV2SyncFFH F) := do
  let (task, _) ← (task.seen w).runIteration
  pure task

/-- The iteration sends the open pose. -/
def opens (w : LeapMotionV2WrapperImpl F) : Bool :=
  !w.inConncetion_ || w.hands.isEmpty || (w.hands.find? isLeft).any (·.confidence < 3 / 10)

/-- The `ThumbPalm` angle of finger `k` after iterations that saw `ws`. -/
def held (handCmd : udp_hand_cmd F) (ws : List (LeapMotionV2WrapperImpl F)) (k : Fin 5) : F :=
  if ws.any opens then 0 else handCmd.get k 3

omit [Libm F] in
theorem publish_palm {task t : LpV2SyncFFH F} {id : Nat} {pre : udp_hand_cmd F}
    (h : ((task.setHandCmd pre).publishFfhCmd id).res = .ok t) (k : Fin 5) : t.handCmd.get k 3 = pre.get k 3 := by
  have ho := publish_outcome task id pre
  generalize (task.setHandCmd pre).publishFfhCmd id = x at ho h
  cases ho with
  | off _ => cases h; rfl
  | sent c cmd _ _ hp => cases h; exact postProcess_palm hp k
  | fault e _ => cases h

/-- An iteration opens the hand, or chooses with the palm angles there are. -/
theorem chosen_held (handCmd : udp_hand_cmd F) {w : LeapMotionV2WrapperImpl F} (hon : w.inConncetion_ = true)
    (hl : w.hands = [] ∨ ∃ hand ∈ w.hands, hand.type = .eLeapHandType_Left) {k : Fin 5} (hk : k ≠ 0) :
    (chosen handCmd w.hands).get k 3 = if opens w then 0 else handCmd.get k 3 := by
  cases hf : w.hands.find? isLeft with
  | none =>
    have hempty : w.hands = [] := hl.resolve_right (find_left_none.mp hf)
    simp [chosen, opens, hempty]
  | some hand =>
    by_cases hconf : hand.confidence < 3 / 10
    · simp [chosen, opens, hf, hconf, calPubFingerAngle_none.mpr hconf]
    · have hne : w.hands.isEmpty = false := by
        rw [List.isEmpty_eq_false_iff]
        exact List.ne_nil_of_mem (List.mem_of_find?_eq_some hf)
      rw [(chosen_palm handCmd hf hconf).2 k hk]
      simp [opens, hf, hconf, hon, hne]

theorem loopStep_palm {task t : LpV2SyncFFH F} {w : LeapMotionV2WrapperImpl F} (h : (task.loopStep w).res = .ok t)
    {k : Fin 5} (hk : k ≠ 0) : t.handCmd.get k 3 = if opens w then 0 else task.handCmd.get k 3 := by
  obtain ⟨⟨u, r⟩, hu, h⟩ := bind_res_ok.mp h
  cases h
  by_cases hon : w.inConncetion_ = true
  · rw [runIteration_connected (show (task.seen w).lmWrap.inConncetion_ = true from hon)] at hu
    have hu : ((task.seen w).iterateHands w.hands).res = .ok (_, r) := hu
    by_cases hl : w.hands = [] ∨ ∃ hand ∈ w.hands, hand.type = .eLeapHandType_Left
    · rw [(iterateHands_eq (task.seen w) _).1 hl] at hu
      obtain ⟨v, hv, hu⟩ := bind_res_ok.mp hu
      cases hu
      rw [publish_palm hv k]
      exact chosen_held task.handCmd hon hl hk
    · rw [(iterateHands_eq (task.seen w) _).2 hl] at hu
      cases hu
      -- right hands only: nothing is done
      have hkeeps : opens w = false := by
        push Not at hl
        have hf : w.hands.find? isLeft = none := find_left_none.mpr fun ⟨hand, hmem, hleft⟩ => hl.2 hand hmem hleft
        simp [opens, hon, hf, hl.1]
      rw [hkeeps]
      rfl
  · have hoff : w.inConncetion_ = false := by simpa using hon
    rw [runIteration_disconnected (show (task.seen w).lmWrap.inConncetion_ = false from hoff)] at hu
    obtain ⟨v, hv, hu⟩ := bind_res_ok.mp hu
    cases hu
    have hopens : opens w = true := by simp [opens, hoff]
    rw [publish_palm hv k, if_pos hopens]
    rfl

/-! ## A sequence of iterations -/

/-- The left hand is enabled and has its controller. -/
def LeftReady (task : LpV2SyncFFH F) : Prop :=
  task.isValid left_hand = .ok true ∧ ∃ c, task.ffhs_[left_hand]? = some (some c)

/-- What `runIteration` reads of the task, the command apart. -/
structure SameSetup (task t : LpV2SyncFFH F) : Prop where
  ready : LeftReady t
  lowerLimits_ : t.lowerLimits_ = task.lowerLimits_
  upperLimits_ : t.upperLimits_ = task.upperLimits_

theorem loopStep_setup {task t u : LpV2SyncFFH F} {w : LeapMotionV2WrapperImpl F} (h : SameSetup task t)
    (hu : (t.loopStep w).res = .ok u) : SameSetup task u := by
  obtain ⟨⟨v, r⟩, hv, hu⟩ := bind_res_ok.mp hu
  cases hu
  have hs := runIteration_steady hv
  obtain ⟨hvalid, c, hc⟩ := h.ready
  obtain ⟨c', hc', -⟩ := ffh_of_links hs.links.symm hc
  refine ⟨⟨?_, c', hc'⟩, hs.lowerLimits_.trans h.lowerLimits_, hs.upperLimits_.trans h.upperLimits_⟩
  unfold isValid at hvalid ⊢
  rw [hs.ffhValid]
  exact hvalid

/-- After the iterations `ws`: the palm angles held, and the setup as it was. -/
theorem loop_held {task t : LpV2SyncFFH F} (hr : LeftReady task) {ws : List (LeapMotionV2WrapperImpl F)}
    (h : (runs loopStep task ws).res = .ok t) :
    SameSetup task t ∧ ∀ k ≠ 0, t.handCmd.get k 3 = held task.handCmd ws k := by
  refine runs_trace loopStep (J := fun ws _ t => SameSetup task t ∧ ∀ k ≠ 0, t.handCmd.get k 3 = held task.handCmd ws k)
    (fun ws out u w v ⟨hsetup, hpalm⟩ hv => ⟨loopStep_setup hsetup hv, fun k hk => ?_⟩) ⟨⟨hr, rfl, rfl⟩, fun k _ => rfl⟩ h
  rw [loopStep_palm hv hk, hpalm k hk]
  unfold held
  cases hw : opens w <;> simp [hw]

omit [Libm F] in
theorem publish_returns {task : LpV2SyncFFH F} (hr : LeftReady task)
    (hcov : Covers task.lowerLimits_ ∧ Covers task.upperLimits_) (pre : udp_hand_cmd F) :
    ∃ t, ((task.setHandCmd pre).publishFfhCmd left_hand).res = .ok t := by
  obtain ⟨hvalid, c, hc⟩ := hr
  obtain ⟨cmd, hcmd⟩ := (postProcess_returns_iff task.lowerLimits_ task.upperLimits_ pre).mpr hcov
  have ho := publish_outcome task left_hand pre
  generalize (task.setHandCmd pre).publishFfhCmd left_hand = x at ho
  cases ho with
  | off _ => exact ⟨_, rfl⟩
  | sent _ _ _ _ _ => exact ⟨_, rfl⟩
  | fault e hn => exact absurd hcmd (hn c cmd hvalid hc)

theorem loopStep_returns {task : LpV2SyncFFH F} (hr : LeftReady task)
    (hcov : Covers task.lowerLimits_ ∧ Covers task.upperLimits_) (w : LeapMotionV2WrapperImpl F) :
    ∃ t, (task.loopStep w).res = .ok t := by
  have hpub : ∀ pre, ∃ t, (((task.seen w).setHandCmd pre).publishFfhCmd left_hand).res = .ok t := publish_returns hr hcov
  suffices h : ∃ r, (task.seen w).runIteration.res = .ok r by
    obtain ⟨r, h⟩ := h
    exact ⟨r.1, bind_res_ok.mpr ⟨r, h, rfl⟩⟩
  have hhands : (task.seen w).lmWrap.hands = w.hands := rfl
  by_cases hon : w.inConncetion_ = true
  · rw [runIteration_connected (show (task.seen w).lmWrap.inConncetion_ = true from hon), hhands]
    by_cases hl : w.hands = [] ∨ ∃ hand ∈ w.hands, hand.type = .eLeapHandType_Left
    · obtain ⟨t, ht⟩ := hpub (chosen task.handCmd w.hands)
      exact ⟨(t, .SUCCESS), by rw [(iterateHands_eq (task.seen w) _).1 hl]; exact bind_res_ok.mpr ⟨t, ht, rfl⟩⟩
    · exact ⟨_, by rw [(iterateHands_eq (task.seen w) _).2 hl]; rfl⟩
  · have hoff : w.inConncetion_ = false := by simpa using hon
    obtain ⟨t, ht⟩ := hpub .zero
    rw [runIteration_disconnected (show (task.seen w).lmWrap.inConncetion_ = false from hoff)]
    exact ⟨(t, .ACTION_FAIL), bind_res_ok.mpr ⟨t, ht, rfl⟩⟩

/-- With limits that cover, the control loop goes on for whatever it sees. -/
theorem loop_returns {task : LpV2SyncFFH F} (hr : LeftReady task)
    (hcov : Covers task.lowerLimits_ ∧ Covers task.upperLimits_) (ws : List (LeapMotionV2WrapperImpl F)) :
    ∃ t, (runs loopStep task ws).res = .ok t := by
  have hends := runs_ends loopStep (P := fun _ => False) (I := SameSetup task) (fun u w hu => by
    have hucov : Covers u.lowerLimits_ ∧ Covers u.upperLimits_ := by rwa [hu.lowerLimits_, hu.upperLimits_]
    obtain ⟨v, hv⟩ := loopStep_returns hu.ready hucov w
    exact ends_of_ok hv (loopStep_setup hu hv)) ws task ⟨hr, rfl, rfl⟩
  obtain ⟨t, ht, -⟩ := ends_total hends
  exact ⟨t, ht⟩

/-! ## Two control loops -/

/-- Both wrappers are connected and show the same hands, the first left one, `hand`,
    confident. -/
structure SameSight (hand : LEAP_HAND F) (w w' : LeapMotionV2WrapperImpl F) : Prop where
  connected : w.inConncetion_ = true ∧ w'.inConncetion_ = true
  hands : w'.hands = w.hands
  first : w.hands.find? isLeft = some hand
  confident : ¬ hand.confidence < 3 / 10

/-- One iteration of each: the same command, if any, exactly when the palm angles there
    before are the same. -/
theorem sight_commands_iff {task task' : LpV2SyncFFH F} (hr : LeftReady task) (hr' : LeftReady task')
    (hlo : task'.lowerLimits_ = task.lowerLimits_) (hup : task'.upperLimits_ = task.upperLimits_) {hand : LEAP_HAND F}
    {w w' : LeapMotionV2WrapperImpl F} (hsee : SameSight hand w w') :
    commands (task.loopStep w).out = commands (task'.loopStep w').out ↔
      (Covers task.lowerLimits_ ∧ Covers task.upperLimits_ →
        ∀ k ≠ 0, task.handCmd.get k 3 = task'.handCmd.get k 3) := by
  obtain ⟨hvalid, c, hc⟩ := hr
  obtain ⟨hvalid', c', hc'⟩ := hr'
  have hleft : ∃ hand ∈ w.hands, hand.type = .eLeapHandType_Left :=
    ⟨hand, List.mem_of_find?_eq_some hsee.first, by simpa [isLeft] using List.find?_some hsee.first⟩
  have hleft' : ∃ hand ∈ w'.hands, hand.type = .eLeapHandType_Left := by rw [hsee.hands]; exact hleft
  have hsend := iteration_sends (show Iterating (task.seen w) c from ⟨hvalid, hc, hsee.connected.1⟩) (Or.inr hleft)
  have hsend' := iteration_sends (show Iterating (task'.seen w') c' from ⟨hvalid', hc', hsee.connected.2⟩)
    (Or.inr hleft')
  have hout : (task.loopStep w).out = (task.seen w).runIteration.out := bind_pure_out _ _
  have hout' : (task'.loopStep w').out = (task'.seen w').runIteration.out := bind_pure_out _ _
  have hlo' : (task'.seen w').lowerLimits_ = task.lowerLimits_ := hlo
  have hup' : (task'.seen w').upperLimits_ = task.upperLimits_ := hup
  have hhands' : (task'.seen w').lmWrap.hands = w.hands := hsee.hands
  have hwas : ∀ (u : LpV2SyncFFH F) v, (u.seen v).handCmd = u.handCmd := fun _ _ => rfl
  have hlo₁ : (task.seen w).lowerLimits_ = task.lowerLimits_ := rfl
  have hup₁ : (task.seen w).upperLimits_ = task.upperLimits_ := rfl
  have hhands : (task.seen w).lmWrap.hands = w.hands := rfl
  rw [hout, hout', hsend, hsend', hlo', hup', hhands', hlo₁, hup₁, hhands, hwas, hwas]
  by_cases hcov : Covers task.lowerLimits_ ∧ Covers task.upperLimits_
  · obtain ⟨cmd, hcmd⟩ := (postProcess_returns_iff _ _ (chosen task.handCmd w.hands)).mpr hcov
    obtain ⟨cmd', hcmd'⟩ := (postProcess_returns_iff _ _ (chosen task'.handCmd w.hands)).mpr hcov
    simp only [hcmd, hcmd', List.cons.injEq, Prod.mk.injEq, true_and, and_true]
    constructor
    · rintro rfl _ k hk
      have hpalm := (chosen_palm task.handCmd hsee.first hsee.confident).2 k hk
      have hpalm' := (chosen_palm task'.handCmd hsee.first hsee.confident).2 k hk
      rw [← hpalm, ← hpalm', ← postProcess_palm hcmd k, ← postProcess_palm hcmd' k]
    · intro h
      have hch : chosen task.handCmd w.hands = chosen task'.handCmd w.hands := by
        simp only [chosen, hsee.first, Option.bind_some]
        rw [calPubFingerAngle_congr hand (h hcov)]
      rw [hch, hcmd'] at hcmd
      exact (Except.ok.inj hcmd).symm
  · have hnone := fun pre => (sends_nothing_iff task.lowerLimits_ task.upperLimits_ pre).mpr hcov
    rw [hnone, hnone]
    exact iff_of_true rfl fun h => absurd h hcov

/-- Two control loops after any iterations of each: in an iteration with the same confident
    left hand they send the same command, if any, exactly when the palm angles of fingers 1
    to 4 are both zero from an iteration that opened the hand, or the same initial ones. -/
theorem last_command_iff {task task' t t' : LpV2SyncFFH F} (hr : LeftReady task) (hr' : LeftReady task')
    (hlo : task'.lowerLimits_ = task.lowerLimits_) (hup : task'.upperLimits_ = task.upperLimits_)
    {ws ws' : List (LeapMotionV2WrapperImpl F)} (ht : (runs loopStep task ws).res = .ok t)
    (ht' : (runs loopStep task' ws').res = .ok t') {hand : LEAP_HAND F} {w w' : LeapMotionV2WrapperImpl F}
    (hsee : SameSight hand w w') :
    commands (t.loopStep w).out = commands (t'.loopStep w').out ↔
      (Covers task.lowerLimits_ ∧ Covers task.upperLimits_ →
        ∀ k ≠ 0, held task.handCmd ws k = held task'.handCmd ws' k) := by
  obtain ⟨hsetup, hpalm⟩ := loop_held hr ht
  obtain ⟨hsetup', hpalm'⟩ := loop_held hr' ht'
  have hlo' : t'.lowerLimits_ = t.lowerLimits_ := by rw [hsetup'.lowerLimits_, hlo, hsetup.lowerLimits_]
  have hup' : t'.upperLimits_ = t.upperLimits_ := by rw [hsetup'.upperLimits_, hup, hsetup.upperLimits_]
  rw [sight_commands_iff hsetup.ready hsetup'.ready hlo' hup' hsee, hsetup.lowerLimits_, hsetup.upperLimits_]
  refine imp_congr_right fun _ => forall₂_congr fun k hk => ?_
  rw [hpalm k hk, hpalm' k hk]

/-- A left hand of zeros, seen with confidence. -/
def confidentHand : LEAP_HAND ℝ := { LEAP_HAND.zero with confidence := 1 }

theorem confident_sight (w : LeapMotionV2WrapperImpl ℝ) (hon : w.inConncetion_ = true) (hw : w.hands = [confidentHand]) :
    SameSight confidentHand w w :=
  ⟨⟨hon, hon⟩, rfl, by rw [hw]; rfl, by norm_num [confidentHand]⟩

/-- The task before its first iteration, with `angle` as what `handCmd` holds for one joint. -/
noncomputable def leftOver (angle : ℝ) : LpV2SyncFFH ℝ :=
  { demoTask [confidentHand] with handCmd := udp_hand_cmd.zero.set 3 3 angle }

theorem leftOver_ready (angle : ℝ) : LeftReady (leftOver angle) := ⟨rfl, demoFfh, rfl⟩

theorem leftOver_covers (angle : ℝ) : Covers (leftOver angle).lowerLimits_ ∧ Covers (leftOver angle).upperLimits_ := by
  show Covers (FfhCtrl.defaultLower : List (List ℝ)) ∧ Covers (FfhCtrl.defaultUpper : List (List ℝ))
  exact ⟨⟨by decide, by decide⟩, ⟨by decide, by decide⟩⟩

/-- The fingers of a hand at rest: joint `k` of the digit `i`. -/
def restingJoint (i k : Nat) : LEAP_VECTOR ℝ := ⟨20 * i, -(k * k), -30 * k⟩

def restingHand : LEAP_HAND ℝ :=
  ⟨.eLeapHandType_Left, 1, ⟨⟨0, -1, 0⟩, ⟨0, 0, -1⟩⟩, fun i => ⟨fun j => ⟨restingJoint i j, restingJoint i (j + 1)⟩⟩⟩

/-- One task has lost sight of the hand, the other had lost the service before it saw it:
    both have opened the hand, and what each started with makes no difference. -/
theorem last_command_two_tasks :
    ∃ t t', (runs loopStep (leftOver 0) [(demoTask [restingHand]).lmWrap, (demoTask []).lmWrap]).res = .ok t ∧
      (runs loopStep (leftOver 90) [{ (demoTask []).lmWrap with inConncetion_ := false },
        (demoTask [restingHand]).lmWrap]).res = .ok t' ∧
      commands (t.loopStep (demoTask [restingHand]).lmWrap).out =
        commands (t'.loopStep (demoTask [restingHand]).lmWrap).out := by
  obtain ⟨t, ht⟩ := loop_returns (leftOver_ready 0) (leftOver_covers 0)
    [(demoTask [restingHand]).lmWrap, (demoTask []).lmWrap]
  obtain ⟨t', ht'⟩ := loop_returns (leftOver_ready 90) (leftOver_covers 90)
    [{ (demoTask []).lmWrap with inConncetion_ := false }, (demoTask [restingHand]).lmWrap]
  have hsee : SameSight restingHand (demoTask [restingHand]).lmWrap (demoTask [restingHand]).lmWrap :=
    ⟨⟨rfl, rfl⟩, rfl, rfl, by norm_num [restingHand]⟩
  refine ⟨t, t', ht, ht', (last_command_iff (leftOver_ready 0) (leftOver_ready 90) rfl rfl ht ht' hsee).mpr fun _ k _ => ?_⟩
  have hlost : opens (demoTask []).lmWrap = true := rfl
  have hservice : opens ({ (demoTask []).lmWrap with inConncetion_ := false } : LeapMotionV2WrapperImpl ℝ) = true := rfl
  simp [held, hlost, hservice]

/-- In the first iteration the same hand gives two commands, for two initial contents. -/
theorem the_first_command_is_left_over :
    commands ((leftOver 0).loopStep (demoTask [confidentHand]).lmWrap).out ≠
      commands ((leftOver 90).loopStep (demoTask [confidentHand]).lmWrap).out := by
  intro h
  have hsame := (sight_commands_iff (leftOver_ready 0) (leftOver_ready 90) rfl rfl (confident_sight _ rfl rfl)).mp h
    (leftOver_covers 0) 3 (by decide)
  simp [leftOver] at hsame

end LpV2SyncFFH

end LeapSyncFfh
