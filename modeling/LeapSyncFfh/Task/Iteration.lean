/-
  LeapSyncFfh.Task.Iteration — what one call of `runIteration` sends to the left hand.

  The first left hand of the list decides: a call sends `chosen`, post-processed, when
  there is one or the list is empty (`iteration_sends`). A list with hands and no left
  one runs through the loop and sends nothing (`no_left_hand_sends_nothing`), where the
  empty list sends the open pose. `one_command_iff` puts it together over all lists.
-/

import LeapSyncFfh.Task.Hands

namespace LeapSyncFfh

open Cells Emit

namespace LpV2SyncFFH

variable {F : Type} [Field F] [LinearOrder F] [Libm F]

/-- The left hand is enabled, has its controller, and the Leap wrapper is connected. -/
structure Iterating (task : LpV2SyncFFH F) (c : FfhCtrl F) : Prop where
  valid : task.isValid left_hand = .ok true
  ffh : task.ffhs_[left_hand]? = some (some c)
  leap : task.lmWrap.inConncetion_ = true

/-- The same state with another list of hands. -/
def seeing (task : LpV2SyncFFH F) (hands : List (LEAP_HAND F)) : LpV2SyncFFH F :=
  { task with lmWrap := { task.lmWrap with hands_ := hands } }

def isLeft (hand : LEAP_HAND F) : Bool := hand.type = .eLeapHandType_Left

/-- The command before post-processing: of the first left hand if it is confident enough,
    open in every other case. -/
def chosen (handCmd : udp_hand_cmd F) (hands : List (LEAP_HAND F)) : udp_hand_cmd F :=
  ((hands.find? isLeft).bind (calPubFingerAngle handCmd)).getD .zero

/-- One command goes out, to the left hand: the post-processed `chosen`. -/
def OneCommand (task : LpV2SyncFFH F) : Prop :=
  ∃ cmd, postProcessHandCmd task.lowerLimits_ task.upperLimits_ (chosen task.handCmd task.lmWrap.hands) = .ok cmd ∧
    commands task.runIteration.out = [(left_hand, cmd)]

/-! ## What an iteration publishes -/

/-- A left hand: `chosen` of it is published. -/
theorem publishHand_eq (task : LpV2SyncFFH F) (hand : LEAP_HAND F) :
    task.publishHand hand =
      (task.setHandCmd ((calPubFingerAngle task.handCmd hand).getD .zero)).publishFfhCmd left_hand := by
  unfold publishHand
  cases calPubFingerAngle task.handCmd hand <;> rfl

/-- The loop over the hands: the first left one decides, and without one nothing is done. -/
theorem eachHand_eq (task : LpV2SyncFFH F) (hands : List (LEAP_HAND F)) :
    task.eachHand hands =
      match hands.find? isLeft with
      | some hand => task.publishHand hand >>= fun t => pure (t, .SUCCESS)
      | none => pure (task, .SUCCESS) := by
  induction hands with
  | nil => rfl
  | cons hand hands ih =>
    unfold eachHand
    by_cases hl : hand.type = .eLeapHandType_Left
    · rw [if_pos hl, List.find?_cons_of_pos (by simpa [isLeft] using hl)]
    · rw [if_neg hl, List.find?_cons_of_neg (by simpa [isLeft] using hl)]
      exact ih

/-- With an empty list, or a left hand in it, `chosen` is published; else nothing is done. -/
theorem iterateHands_eq (task : LpV2SyncFFH F) (hands : List (LEAP_HAND F)) :
    (hands = [] ∨ (∃ hand ∈ hands, hand.type = .eLeapHandType_Left) →
      task.iterateHands hands =
        (task.setHandCmd (chosen task.handCmd hands)).publishFfhCmd left_hand >>= fun t => pure (t, .SUCCESS)) ∧
    (¬ (hands = [] ∨ ∃ hand ∈ hands, hand.type = .eLeapHandType_Left) →
      task.iterateHands hands = pure (task, .SUCCESS)) := by
  unfold iterateHands
  constructor
  · rintro (rfl | ⟨hand, hmem, hleft⟩)
    · rfl
    · obtain ⟨first, hfirst⟩ : ∃ first, hands.find? isLeft = some first := by
        rw [← Option.isSome_iff_exists, List.find?_isSome]
        exact ⟨hand, hmem, by simpa [isLeft] using hleft⟩
      have hne : hands.isEmpty = false := by rw [List.isEmpty_eq_false_iff]; exact List.ne_nil_of_mem hmem
      simp only [hne, Bool.false_eq_true, if_false, eachHand_eq, hfirst, publishHand_eq, chosen, Option.bind_some]
  · intro hn
    push Not at hn
    have hfind : hands.find? isLeft = none := by
      rw [List.find?_eq_none]
      intro hand hmem
      simpa [isLeft] using hn.2 hand hmem
    have hne : hands.isEmpty = false := by rw [List.isEmpty_eq_false_iff]; exact hn.1
    simp only [hne, Bool.false_eq_true, if_false, eachHand_eq, hfind]

/-- The first left hand's palm angles are those of the command chosen for it. -/
theorem chosen_palm (handCmd : udp_hand_cmd F) {hands : List (LEAP_HAND F)} {hand : LEAP_HAND F}
    (hf : hands.find? isLeft = some hand) (hconf : ¬ hand.confidence < 3 / 10) :
    (chosen handCmd hands).get 0 3 = (if thumbToPalm (palmNormal hand) (hand.digits 0) < 0 then 0
        else thumbToPalm (palmNormal hand) (hand.digits 0)) ∧
      ∀ k ≠ 0, (chosen handCmd hands).get k 3 = handCmd.get k 3 := by
  cases hm : calPubFingerAngle handCmd hand with
  | none => exact absurd (calPubFingerAngle_none.mp hm) hconf
  | some cmd =>
    have hch : chosen handCmd hands = cmd := by
      unfold chosen
      rw [hf, Option.bind_some, hm]; rfl
    rw [hch]
    exact ⟨mapped_thumb hm, fun k hk => mapped_thumbPalm hm hk⟩

omit [Libm F] in
/-- Publishing sends the post-processed command, or faults in the limits and sends none. -/
theorem publish_commands {task : LpV2SyncFFH F} {c : FfhCtrl F} (h : Iterating task c) (pre : udp_hand_cmd F) :
    commands ((task.setHandCmd pre).publishFfhCmd left_hand).out =
      match postProcessHandCmd task.lowerLimits_ task.upperLimits_ pre with
      | .ok cmd => [(left_hand, cmd)]
      | .error _ => [] := by
  have ho := publish_outcome task left_hand pre
  generalize (task.setHandCmd pre).publishFfhCmd left_hand = x at ho ⊢
  cases ho with
  | off hv => rw [h.valid] at hv; cases hv
  | sent c' cmd hv hc hp => rw [hp]; rfl
  | fault e hn =>
    cases hp : postProcessHandCmd task.lowerLimits_ task.upperLimits_ pre with
    | ok cmd => exact absurd hp (hn c cmd h.valid h.ffh)
    | error e' => rfl

/-! ## The iteration -/

theorem runIteration_connected {task : LpV2SyncFFH F} (h : task.lmWrap.inConncetion_ = true) :
    task.runIteration = task.iterateHands task.lmWrap.hands := by
  unfold runIteration
  rw [h]
  rfl

theorem iterateHands_steady {task t : LpV2SyncFFH F} {hands : List (LEAP_HAND F)} {r : AR_RETURN_VALUE}
    (h : (task.iterateHands hands).res = .ok (t, r)) : Steady task t ∧ r = .SUCCESS := by
  by_cases hl : hands = [] ∨ ∃ hand ∈ hands, hand.type = .eLeapHandType_Left
  · rw [(iterateHands_eq task hands).1 hl] at h
    obtain ⟨u, hu, h⟩ := bind_res_ok.mp h
    cases h
    exact ⟨(publish_outcome task left_hand _).steady hu, rfl⟩
  · rw [(iterateHands_eq task hands).2 hl] at h
    cases h
    exact ⟨Steady.refl task, rfl⟩

theorem runIteration_disconnected {task : LpV2SyncFFH F} (h : task.lmWrap.inConncetion_ = false) :
    task.runIteration = (task.setHandCmd .zero).publishFfhCmd left_hand >>= fun t => pure (t, .ACTION_FAIL) := by
  unfold runIteration
  rw [h]
  rfl

theorem runIteration_steady {task t : LpV2SyncFFH F} {r : AR_RETURN_VALUE} (h : task.runIteration.res = .ok (t, r)) :
    Steady task t := by
  by_cases hc : task.lmWrap.inConncetion_ = true
  · rw [runIteration_connected hc] at h
    exact (iterateHands_steady h).1
  · rw [runIteration_disconnected (by simpa using hc)] at h
    obtain ⟨u, hu, h⟩ := bind_res_ok.mp h
    cases h
    exact (publish_outcome task left_hand _).steady hu

/-- With an empty list, or a left hand in it, `chosen` goes out post-processed. -/
theorem iteration_sends {task : LpV2SyncFFH F} {c : FfhCtrl F} (h : Iterating task c)
    (hl : task.lmWrap.hands = [] ∨ ∃ hand ∈ task.lmWrap.hands, hand.type = .eLeapHandType_Left) :
    commands task.runIteration.out =
      match postProcessHandCmd task.lowerLimits_ task.upperLimits_ (chosen task.handCmd task.lmWrap.hands) with
      | .ok cmd => [(left_hand, cmd)]
      | .error _ => [] := by
  rw [runIteration_connected h.leap, (iterateHands_eq task _).1 hl, bind_pure_out]
  exact publish_commands h _

/-- Hands but no left one: the loop falls through. -/
theorem no_left_hand_sends_nothing {task : LpV2SyncFFH F} {c : FfhCtrl F} (h : Iterating task c)
    (hl : ¬ (task.lmWrap.hands = [] ∨ ∃ hand ∈ task.lmWrap.hands, hand.type = .eLeapHandType_Left)) :
    commands task.runIteration.out = [] := by
  rw [runIteration_connected h.leap, (iterateHands_eq task _).2 hl]
  rfl

theorem oneCommand_iff {task : LpV2SyncFFH F} {c : FfhCtrl F} (h : Iterating task c) :
    task.OneCommand ↔ (Covers task.lowerLimits_ ∧ Covers task.upperLimits_) ∧
      (task.lmWrap.hands = [] ∨ ∃ hand ∈ task.lmWrap.hands, hand.type = .eLeapHandType_Left) := by
  constructor
  · rintro ⟨cmd, hcmd, hsent⟩
    refine ⟨(postProcess_returns_iff _ _ _).mp ⟨cmd, hcmd⟩, ?_⟩
    by_contra hn
    rw [no_left_hand_sends_nothing h hn] at hsent
    cases hsent
  · rintro ⟨hcov, hl⟩
    obtain ⟨cmd, hcmd⟩ := (postProcess_returns_iff _ _ (chosen task.handCmd task.lmWrap.hands)).mpr hcov
    exact ⟨cmd, hcmd, by rw [iteration_sends h hl, hcmd]⟩

omit [Libm F] in
theorem sends_nothing_iff (lo up : List (List F)) (cmd : udp_hand_cmd F) :
    (match postProcessHandCmd lo up cmd with
      | .ok cmd' => [(left_hand, cmd')]
      | .error _ => []) = [] ↔ ¬ (Covers lo ∧ Covers up) := by
  rw [← postProcess_returns_iff lo up cmd]
  cases postProcessHandCmd lo up cmd <;> simp

omit [Field F] [LinearOrder F] [Libm F] in
theorem find_left_none {hands : List (LEAP_HAND F)} :
    hands.find? isLeft = none ↔ ¬ ∃ hand ∈ hands, hand.type = .eLeapHandType_Left := by
  simp [isLeft]

/-- Over every list of hands: one command, the post-processed `chosen`, goes out exactly
    when the limits cover the fifteen cells and the list is empty or has a left hand. Two
    lists with one first left hand, or both with none, make the same command go out unless
    one is empty, the other has right hands only, and the limits cover. -/
theorem one_command_iff {task : LpV2SyncFFH F} {c : FfhCtrl F} (h : Iterating task c) :
    (∀ hands, (task.seeing hands).OneCommand ↔ (Covers task.lowerLimits_ ∧ Covers task.upperLimits_) ∧
      (hands = [] ∨ ∃ hand ∈ hands, hand.type = .eLeapHandType_Left)) ∧
    ∀ hands hands', hands.find? isLeft = hands'.find? isLeft →
      (commands (task.seeing hands).runIteration.out = commands (task.seeing hands').runIteration.out ↔
        (Covers task.lowerLimits_ ∧ Covers task.upperLimits_ →
          (∃ hand ∈ hands, hand.type = .eLeapHandType_Left) ∨ (hands = [] ↔ hands' = []))) := by
  have hs : ∀ hands, Iterating (task.seeing hands) c := fun hands => ⟨h.valid, h.ffh, h.leap⟩
  refine ⟨fun hands => oneCommand_iff (hs hands), fun hands hands' heq => ?_⟩
  by_cases hleft : ∃ hand ∈ hands, hand.type = .eLeapHandType_Left
  · have hleft' : ∃ hand ∈ hands', hand.type = .eLeapHandType_Left := by
      by_contra hn
      exact find_left_none.mp (heq.trans (find_left_none.mpr hn)) hleft
    refine iff_of_true ?_ fun _ => Or.inl hleft
    rw [iteration_sends (hs hands) (Or.inr hleft), iteration_sends (hs hands') (Or.inr hleft')]
    have hch : chosen task.handCmd hands = chosen task.handCmd hands' := by unfold chosen; rw [heq]
    show (match postProcessHandCmd _ _ (chosen task.handCmd hands) with | .ok cmd => _ | .error _ => _) = _
    rw [hch]
    rfl
  · have hleft' : ¬ ∃ hand ∈ hands', hand.type = .eLeapHandType_Left :=
      find_left_none.mp (heq.symm.trans (find_left_none.mpr hleft))
    have silent : ∀ {hs' : List (LEAP_HAND F)}, (¬ ∃ hand ∈ hs', hand.type = .eLeapHandType_Left) → hs' ≠ [] →
        commands (task.seeing hs').runIteration.out = [] := by
      intro hs' hn hne
      exact no_left_hand_sends_nothing (hs hs') fun hor => hor.elim hne hn
    -- with both lists empty, or neither, the calls do the same; else one sends and one is silent
    by_cases he : hands = [] <;> by_cases he' : hands' = []
    · rw [he, he']; simp
    · rw [silent hleft' he', iteration_sends (hs hands) (Or.inl he)]
      apply (sends_nothing_iff task.lowerLimits_ task.upperLimits_ _).trans
      simp [he, he']
    · rw [silent hleft he, iteration_sends (hs hands') (Or.inl he'), eq_comm]
      apply (sends_nothing_iff task.lowerLimits_ task.upperLimits_ _).trans
      simp only [hleft, he, he', false_or, false_iff, not_true, imp_false]
    · rw [silent hleft he, silent hleft' he']
      simp [he, he']

/-- The left hand's controller, connected and reset, with the default limits. -/
noncomputable def demoFfh : FfhCtrl ℝ where
  udp_ := { server_addr := some (.make "127.0.0.1" 10086), sockfd_ := 5, ip_ := "127.0.0.1", port_ := 10086,
            inConnection_ := true, fds := [5] }
  handCmd_ := .zero
  index_ := 0
  inConnection_ := true
  lowerLimits_ := FfhCtrl.defaultLower
  upperLimits_ := FfhCtrl.defaultUpper

/-- A demo with the left hand enabled, connected, that sees `hands`. -/
noncomputable def demoTask (hands : List (LEAP_HAND ℝ)) : LpV2SyncFFH ℝ where
  lmWrap := { addr := 0, connectionHandle_ := 1, inConncetion_ := true, pollingThread_ := [.check], hands_ := hands,
              connections := [1] }
  ffhs_ := [some demoFfh, none]
  handCmd := .zero
  ffhValid := [1, 0]
  inConnection_ := true
  lowerLimits_ := FfhCtrl.defaultLower
  upperLimits_ := FfhCtrl.defaultUpper
  taskName_ := "leap_motion_demo"
  running_ := true

theorem demoTask_iterating (hands : List (LEAP_HAND ℝ)) : Iterating (demoTask hands) demoFfh := ⟨rfl, rfl, rfl⟩

def rightHand : LEAP_HAND ℝ := { LEAP_HAND.zero with type := .eLeapHandType_Right, confidence := 1 }

theorem one_command_demo :
    (∀ hands, ((demoTask []).seeing hands).OneCommand ↔
      (Covers (demoTask []).lowerLimits_ ∧ Covers (demoTask []).upperLimits_) ∧
        (hands = [] ∨ ∃ hand ∈ hands, hand.type = .eLeapHandType_Left)) ∧
    ∀ hands hands', hands.find? isLeft = hands'.find? isLeft →
      (commands ((demoTask []).seeing hands).runIteration.out = commands ((demoTask []).seeing hands').runIteration.out ↔
        (Covers (demoTask []).lowerLimits_ ∧ Covers (demoTask []).upperLimits_ →
          (∃ hand ∈ hands, hand.type = .eLeapHandType_Left) ∨ (hands = [] ↔ hands' = []))) :=
  one_command_iff (demoTask_iterating [])

/-- A frame with a right hand only sends no command, where an empty frame sends one. -/
theorem a_right_hand_freezes_the_left :
    ¬ (demoTask [rightHand]).OneCommand ∧ commands (demoTask [rightHand]).runIteration.out = [] ∧
      commands (demoTask []).runIteration.out ≠ [] := by
  have hsilent : commands (demoTask [rightHand]).runIteration.out = [] := by
    apply no_left_hand_sends_nothing (demoTask_iterating _)
    rintro (h | ⟨hand, hmem, hleft⟩)
    · cases h
    · rw [List.mem_singleton.mp hmem] at hleft
      cases hleft
  refine ⟨fun ⟨cmd, _, h⟩ => ?_, hsilent, ?_⟩
  · rw [hsilent] at h; cases h
  · rw [iteration_sends (demoTask_iterating []) (Or.inl rfl), ne_eq, sends_nothing_iff, not_not]
    exact ⟨⟨by decide, by decide⟩, ⟨by decide, by decide⟩⟩

end LpV2SyncFFH

end LeapSyncFfh
