/-
  LeapSyncFfh.Task.Configuration — what an accepted configuration leaves in the task.

  `configuredFfh` is the controller a node of `hand_info` describes. A `parseConfig` that
  returned has put it at every valid hand, and the task's own limits are those of the
  valid hand it read last (`parse_spec`); nothing else of the task has changed but what
  the file names. `make_spec` is the same for a new task, which also sends nothing.
-/

import LeapSyncFfh.Task.Hands

namespace LeapSyncFfh

open Cells Emit

namespace LpV2SyncFFH

variable {F : Type}

/-- The controller that the configuration describes for hand `i`. -/
def configuredFfh (raw : Raw F) (ffhInfo : String → Option (HandNode F)) (i : Nat) : Option (FfhCtrl F) := do
  let node ← ffhInfo (handName i)
  let ip ← node.ip
  let port ← node.port
  let lowerLimits_ ← node.lower_limits
  let upperLimits_ ← node.upper_limits
  some ((FfhCtrl.make i ip port (raw.sockfd i) (raw.ffhCmd i)).setCmdLimit lowerLimits_ upperLimits_)

/-- A configured controller is new: no socket, not connected. -/
theorem configuredFfh_new {raw : Raw F} {ffhInfo : String → Option (HandNode F)} {i : Nat} {c : FfhCtrl F}
    (h : configuredFfh raw ffhInfo i = some c) : ∃ ip port lo up,
      c = (FfhCtrl.make i ip port (raw.sockfd i) (raw.ffhCmd i)).setCmdLimit lo up := by
  unfold configuredFfh at h
  obtain ⟨node, -, h⟩ := Option.bind_eq_some_iff.mp h
  obtain ⟨ip, -, h⟩ := Option.bind_eq_some_iff.mp h
  obtain ⟨port, -, h⟩ := Option.bind_eq_some_iff.mp h
  obtain ⟨lo, -, h⟩ := Option.bind_eq_some_iff.mp h
  obtain ⟨up, -, h⟩ := Option.bind_eq_some_iff.mp h
  exact ⟨ip, port, lo, up, (Option.some.inj h).symm⟩

/-- The task with `c` at hand `i`, and its limits. -/
def configure (task : LpV2SyncFFH F) (i : Nat) (c : FfhCtrl F) : LpV2SyncFFH F :=
  { task.setFfh i c with lowerLimits_ := c.lowerLimits_, upperLimits_ := c.upperLimits_ }

theorem as_ok {α : Type} {o : Option α} {a : α} : as o = .ok a ↔ o = some a := by
  cases o <;> simp [as]

/-- One round of the loop of `parseConfig`. -/
theorem parseHand_returned [Zero F] {raw : Raw F} {ffhInfo : String → Option (HandNode F)} {task t : LpV2SyncFFH F}
    {i : Nat} (h : (parseHand raw ffhInfo task i).res = .ok t) :
    (task.isOn i = false ∧ t = task ∧ (parseHand raw ffhInfo task i).out = []) ∨
    ∃ c, task.isOn i = true ∧ i < task.ffhs_.length ∧ configuredFfh raw ffhInfo i = some c ∧ t = task.configure i c ∧
      (task.ffhs_[i]? = some none → (parseHand raw ffhInfo task i).out = []) := by
  unfold parseHand at h ⊢
  obtain ⟨b, hb, h, hout⟩ := bind_ok_split h
  rw [hout]
  rw [lift_res] at hb
  cases b with
  | false => cases h; exact Or.inl ⟨isOn_of hb, rfl, rfl⟩
  | true =>
    right
    simp only [Bool.not_true, Bool.false_eq_true, if_false] at h ⊢
    obtain ⟨node, hnode, h, h1⟩ := bind_ok_split h
    obtain ⟨ip, hip, h, h2⟩ := bind_ok_split h
    obtain ⟨port, hport, h, h3⟩ := bind_ok_split h
    obtain ⟨old, hold, h, h4⟩ := bind_ok_split h
    obtain ⟨-, -, h, h5⟩ := bind_ok_split h
    obtain ⟨lo, hlo, h, h6⟩ := bind_ok_split h
    obtain ⟨up, hup, h, h7⟩ := bind_ok_split h
    cases h
    rw [lift_res] at hnode hip hport hold hlo hup
    rw [as_ok] at hnode hip hport hlo hup
    have hold' := subscript_ok.mp hold
    refine ⟨_, isOn_of hb, (List.getElem?_eq_some_iff.mp hold').1, ?_, rfl, fun hnone => ?_⟩
    · unfold configuredFfh
      rw [hnode, Option.bind_eq_bind, Option.bind_some, hip, Option.bind_eq_bind, Option.bind_some, hport,
        Option.bind_eq_bind, Option.bind_some, hlo, Option.bind_eq_bind, Option.bind_some, hup]
      rfl
    · obtain rfl : old = none := by rw [hnone] at hold'; exact (Option.some.inj hold').symm
      rw [h1, h2, h3, h4, h5, h6, h7]
      rfl

/-- What an accepted configuration leaves. -/
structure Parsed (raw : Raw F) (config : Config F) (task t : LpV2SyncFFH F) : Prop where
  hand_Valid : config.hand_Valid = some t.ffhValid
  task_name : config.task_name = some t.taskName_
  self_check_angles1 : config.self_check_angles1 = some t.selfCheckData1
  self_check_angles2 : config.self_check_angles2 = some t.selfCheckData2
  lmWrap : t.lmWrap = task.lmWrap
  handCmd : t.handCmd = task.handCmd
  inConnection_ : t.inConnection_ = task.inConnection_
  running_ : t.running_ = task.running_
  length : t.ffhs_.length = task.ffhs_.length
  ffhs : ∀ i, if i ∈ handIds ∧ t.isOn i = true then
      ∃ c, config.hand_info.bind (fun ffhInfo => configuredFfh raw ffhInfo i) = some c ∧ t.ffhs_[i]? = some (some c)
    else t.ffhs_[i]? = task.ffhs_[i]?
  /-- The limits are those of the last valid hand. -/
  limits : ∀ i ∈ handIds, t.isOn i → (∀ j ∈ handIds, i < j → t.isOn j = false) →
    ∃ c, t.ffhs_[i]? = some (some c) ∧ t.lowerLimits_ = c.lowerLimits_ ∧ t.upperLimits_ = c.upperLimits_

/-- The task once the keys above the loop have been read. -/
def keyed (task : LpV2SyncFFH F) (ffhValid : List Int) (taskName_ : String) (data1 data2 : List (List F)) :
    LpV2SyncFFH F :=
  { task with ffhValid := ffhValid, taskName_ := taskName_, selfCheckData1 := data1, selfCheckData2 := data2 }

/-- What the rounds for the hands `is` leave of `task`. -/
structure HandsParsed (raw : Raw F) (ffhInfo : String → Option (HandNode F)) (is : List Nat)
    (task t : LpV2SyncFFH F) : Prop where
  frame : ∃ ffhs lo up, t = { task with ffhs_ := ffhs, lowerLimits_ := lo, upperLimits_ := up }
  length : t.ffhs_.length = task.ffhs_.length
  ffhs : ∀ i, if i ∈ is ∧ task.isOn i = true then ∃ c, configuredFfh raw ffhInfo i = some c ∧ t.ffhs_[i]? = some (some c)
    else t.ffhs_[i]? = task.ffhs_[i]?
  limits : ∀ i ∈ is, task.isOn i = true → (∀ j ∈ is, i < j → task.isOn j = false) →
    ∃ c, t.ffhs_[i]? = some (some c) ∧ t.lowerLimits_ = c.lowerLimits_ ∧ t.upperLimits_ = c.upperLimits_

theorem HandsParsed.isOn {raw : Raw F} {ffhInfo : String → Option (HandNode F)} {is : List Nat} {task t : LpV2SyncFFH F}
    (h : HandsParsed raw ffhInfo is task t) : t.isOn = task.isOn := by
  obtain ⟨_, _, _, rfl⟩ := h.frame
  rfl

theorem configure_same {task : LpV2SyncFFH F} {i : Nat} (hi : i < task.ffhs_.length) (c : FfhCtrl F) :
    (task.configure i c).ffhs_[i]? = some (some c) := by
  show (task.ffhs_.set i (some c))[i]? = _
  rw [List.getElem?_set, if_pos rfl, if_pos hi]

/-- One more hand, after the ones before it. -/
theorem HandsParsed.round [Zero F] {raw : Raw F} {ffhInfo : String → Option (HandNode F)} {is : List Nat}
    {task u t : LpV2SyncFFH F} {i : Nat} (h : HandsParsed raw ffhInfo is task u) (hlt : ∀ j ∈ is, j < i)
    (ht : (parseHand raw ffhInfo u i).res = .ok t) : HandsParsed raw ffhInfo (is ++ [i]) task t := by
  rcases parseHand_returned ht with ⟨hoff, rfl, -⟩ | ⟨c, hon, hi, hc, rfl, -⟩
  · -- passed over: a valid hand of the longer list is one of the shorter
    rw [h.isOn] at hoff
    have hmem : ∀ k, task.isOn k = true → (k ∈ is ++ [i] ↔ k ∈ is) := by
      intro k hk
      have hne : k ≠ i := fun e => absurd (hoff.symm.trans (e ▸ hk)) Bool.false_ne_true
      simp [hne]
    refine ⟨h.frame, h.length, fun k => ?_, fun k hk hkon hlast => ?_⟩
    · simp only [and_congr_left (hmem k)]
      exact h.ffhs k
    · exact h.limits k ((hmem k hkon).mp hk) hkon fun j hj => hlast j (List.mem_append_left _ hj)
  · rw [h.isOn] at hon
    refine ⟨?_, (List.length_set ..).trans h.length, fun k => ?_, fun k hk hkon hlast => ?_⟩
    · obtain ⟨_, _, _, rfl⟩ := h.frame
      exact ⟨_, _, _, rfl⟩
    · by_cases e : k = i
      · subst e
        rw [if_pos ⟨by simp, hon⟩]
        exact ⟨c, hc, configure_same hi c⟩
      · have hk := h.ffhs k
        rw [show (u.configure i c).ffhs_[k]? = u.ffhs_[k]? from setFfh_other e]
        simpa [e] using hk
    · rcases List.mem_append.mp hk with hk | hk
      · exact absurd ((hlast i (by simp) (hlt k hk)).symm.trans hon) Bool.false_ne_true
      · obtain rfl := List.mem_singleton.mp hk
        exact ⟨c, configure_same hi c, rfl, rfl⟩

/-- The loop of `parseConfig`. It calls nothing where the pointers were null. -/
theorem parseHands_returned [Zero F] {raw : Raw F} {ffhInfo : String → Option (HandNode F)} {task t : LpV2SyncFFH F}
    {is : List Nat} (hsorted : is.Pairwise (· < ·)) (h : (runs (parseHand raw ffhInfo) task is).res = .ok t) :
    HandsParsed raw ffhInfo is task t ∧
      ((∀ i ∈ is, task.ffhs_[i]? = some none) → (runs (parseHand raw ffhInfo) task is).out = []) := by
  refine runs_trace (parseHand raw ffhInfo) (J := fun is tr u => is.Pairwise (· < ·) →
    HandsParsed raw ffhInfo is task u ∧ ((∀ i ∈ is, task.ffhs_[i]? = some none) → tr = [])) ?_ ?_ h hsorted
  · intro is tr u i t ih ht hsorted
    obtain ⟨hsorted, -, hlt⟩ := List.pairwise_append.mp hsorted
    have hlt' : ∀ j ∈ is, j < i := fun j hj => hlt j hj i (List.mem_singleton.mpr rfl)
    obtain ⟨hu, hout⟩ := ih hsorted
    refine ⟨hu.round hlt' ht, fun hnone => ?_⟩
    rw [hout fun j hj => hnone j (List.mem_append_left _ hj), List.nil_append]
    rcases parseHand_returned ht with ⟨-, -, ho⟩ | ⟨c, -, -, -, -, ho⟩
    · exact ho
    · have hi := hu.ffhs i
      rw [if_neg fun hm => lt_irrefl i (hlt' i hm.1)] at hi
      exact ho (hi.trans (hnone i (by simp)))
  · intro _
    refine ⟨⟨⟨_, _, _, rfl⟩, rfl, fun i => ?_, fun i hi => by cases hi⟩, fun _ => rfl⟩
    simp

theorem parse_spec [Zero F] {raw : Raw F} {task t : LpV2SyncFFH F} {config : Config F}
    (h : (task.parseConfig raw config).res = .ok t) :
    Parsed raw config task t ∧
      ((∀ i, i ∈ handIds → task.ffhs_[i]? = some none) → (task.parseConfig raw config).out = []) := by
  obtain ⟨valid, hvalid, h, h1⟩ := bind_ok_split h
  obtain ⟨info, hinfo, h, h2⟩ := bind_ok_split h
  obtain ⟨name, hname, h, h3⟩ := bind_ok_split h
  obtain ⟨data1, hdata1, h, h4⟩ := bind_ok_split h
  obtain ⟨data2, hdata2, h, h5⟩ := bind_ok_split h
  have hout : (task.parseConfig raw config).out = _ := h1
  rw [h2, h3, h4, h5] at hout
  simp only [lift_out, List.nil_append] at hout
  rw [lift_res, as_ok] at hvalid hinfo hname hdata1 hdata2
  have hloop : (runs (parseHand raw info) (task.keyed valid name data1 data2) handIds).res = .ok t := h
  obtain ⟨hhands, hquiet⟩ := parseHands_returned (by decide) hloop
  refine ⟨?_, fun hnone => hout.trans (hquiet hnone)⟩
  obtain ⟨ffhs, lo, up, rfl⟩ := hhands.frame
  refine ⟨hvalid, hname, hdata1, hdata2, rfl, rfl, rfl, rfl, hhands.length, fun i => ?_, hhands.limits⟩
  rw [hinfo]
  exact hhands.ffhs i

/-- A new task: nothing is sent, and nothing is connected. -/
theorem make_spec [Zero F] {addr : Nat} {raw : Raw F} {config : Config F} {t : LpV2SyncFFH F}
    (h : (make addr raw config).res = .ok t) :
    Parsed raw config (members addr raw) t ∧ (make addr raw config).out = [] := by
  obtain ⟨hp, hout⟩ := parse_spec h
  exact ⟨hp, hout fun i hi => by
    rcases mem_handIds.mp hi with rfl | rfl <;> rfl⟩

/-- No hand of a new task is connected. -/
theorem made_unconnected [Zero F] {addr : Nat} {raw : Raw F} {config : Config F} {task : LpV2SyncFFH F}
    (hmake : (make addr raw config).res = .ok task) {i : Nat} {c : FfhCtrl F}
    (hc : task.ffhs_[i]? = some (some c)) : c.inConnection_ = false := by
  obtain ⟨hp, -⟩ := make_spec hmake
  have hi := hp.ffhs i
  split at hi
  · obtain ⟨d, hd, he⟩ := hi
    obtain rfl := ffh_eq hc he
    obtain ⟨info, -, hd'⟩ := Option.bind_eq_some_iff.mp hd
    obtain ⟨ip, port, lo, up, rfl⟩ := configuredFfh_new hd'
    rfl
  · rw [hc, show (members addr raw).ffhs_ = List.replicate handTotalNum none from rfl, List.getElem?_replicate] at hi
    split at hi <;> cases hi

/-- The shipped `leap_motion_demo_config.yaml`, with another task name: the right hand is
    off and has no limits. -/
def shipped [Ring F] (task_name : String) : Config F where
  hand_Valid := some [1, 0]
  hand_info := some fun name =>
    if name = "left_hand" then
      some ⟨some "127.0.0.1", some 10086, some FfhCtrl.defaultLower, some FfhCtrl.defaultUpper⟩
    else if name = "right_hand" then some ⟨some "192.168.10.11", some 3335, none, none⟩
    else none
  task_name := some task_name
  self_check_angles1 := some (List.replicate 5 [60, 60, -10])
  self_check_angles2 := some (List.replicate 4 [60, 60, 10] ++ [[60, 30, 10]])

/-- The members a constructor leaves, here all zero. -/
def blank [Zero F] : Raw F := ⟨0, false, .zero, fun _ => 0, fun _ => .zero⟩

end LpV2SyncFFH

end LeapSyncFfh
