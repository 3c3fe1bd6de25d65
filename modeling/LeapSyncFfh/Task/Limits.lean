/-
  LeapSyncFfh.Task.Limits — whose limits a hand gets.

  The limits of hand `i` stand in two places: the task's one pair, which every
  `publishFfhCmd` clamps with, and its controller's. `parseConfig` leaves the last valid
  hand's in the first; `_connect` overwrites the second with the defaults. From then on
  no operation changes either (`op_moves`, over every sequence of the task's operations).
  So every valid hand has the limits configured under it exactly when each was configured
  with the defaults (`limits_as_configured_iff`).
-/

import LeapSyncFfh.Leap.Dispatch
import LeapSyncFfh.Task.Commands
import LeapSyncFfh.Task.Configuration

namespace LeapSyncFfh

open Cells Emit LeapMotionV2WrapperImpl

variable {F : Type}

def FfhCtrl.limits (c : FfhCtrl F) : List (List F) × List (List F) := (c.lowerLimits_, c.upperLimits_)

namespace LpV2SyncFFH

/-! ## The operations -/

/-- The operations of the task after `parseConfig`. -/
inductive Op (F : Type) where
  | connect (r : ConnectAnswers)
  | disconnect
  | connectFFH (socks : Nat → Int)
  | disconnectFFH
  | initializeLeap (cbs : CallBacks)
  | stop
  | message (cbs : CallBacks) (m : LEAP_CONNECTION_MESSAGE F)
  | runIteration
  | publishFfhCmd (id : Nat)
  | sendInitHandData
  | setHandCmd (cmd : udp_hand_cmd F)
  | reset (i : Nat)
  | testFlow
  | readFlow (t : FfhCtrl.Flow) (word : Option String)
  | checkStep (tmp_cmd : udp_hand_cmd F) (s : CheckStep)

/-- The task of a call whose value nobody reads. -/
def dropResult {α : Type} (x : Emit (Ev F) Fault (LpV2SyncFFH F × α)) : Emit (Ev F) Fault (LpV2SyncFFH F) := do
  let r ← x
  pure r.1

def op [Field F] [LinearOrder F] [Libm F] (task : LpV2SyncFFH F) : Op F → Emit (Ev F) Fault (LpV2SyncFFH F)
  | .connect r => dropResult (task.connect r)
  | .disconnect => dropResult task.disconnect
  | .connectFFH socks => dropResult (task.connectFFH socks)
  | .disconnectFFH => dropResult task.disconnectFFH
  | .initializeLeap cbs => pure { task with lmWrap := (initializeImpl (task.lmWrap, cbs)).1 }
  | .stop => task.stop
  | .message cbs m => do
    let w ← mapOut .leap (task.lmWrap.handleMessage cbs m)
    pure { task with lmWrap := w }
  | .runIteration => dropResult task.runIteration
  | .publishFfhCmd id => task.publishFfhCmd id
  | .sendInitHandData => task.sendInitHandData
  | .setHandCmd cmd => pure (task.setHandCmd cmd)
  | .reset i => task.resetFfh i
  | .testFlow => dropResult task.testFlow
  | .readFlow t word => dropResult (task.readFlow t word)
  | .checkStep tmp_cmd s => dropResult (task.checkStep tmp_cmd s)

/-! ## What no operation changes -/

theorem dropResult_ok {α : Type} {x : Emit (Ev F) Fault (LpV2SyncFFH F × α)} {t : LpV2SyncFFH F}
    (h : (dropResult x).res = .ok t) : ∃ a, x.res = .ok (t, a) := by
  obtain ⟨⟨u, a⟩, hx, h⟩ := bind_res_ok.mp h
  cases h
  exact ⟨a, hx⟩

variable [Field F]

/-- The task's own limits stay; a controller keeps its limits or has the defaults. -/
structure Moves (task t : LpV2SyncFFH F) : Prop where
  ffhValid : t.ffhValid = task.ffhValid
  lowerLimits_ : t.lowerLimits_ = task.lowerLimits_
  upperLimits_ : t.upperLimits_ = task.upperLimits_
  ffhs : ∀ (i : Nat) c, task.ffhs_[i]? = some (some c) → ∃ c', t.ffhs_[i]? = some (some c') ∧
    (c'.limits = c.limits ∨ c'.limits = (FfhCtrl.defaultLower, FfhCtrl.defaultUpper))

theorem Moves.refl (task : LpV2SyncFFH F) : Moves task task := ⟨rfl, rfl, rfl, fun _ c hc => ⟨c, hc, Or.inl rfl⟩⟩

theorem Moves.trans {a b c : LpV2SyncFFH F} (h : Moves a b) (k : Moves b c) : Moves a c := by
  refine ⟨k.ffhValid.trans h.ffhValid, k.lowerLimits_.trans h.lowerLimits_, k.upperLimits_.trans h.upperLimits_,
    fun i x hx => ?_⟩
  obtain ⟨y, hy, hxy⟩ := h.ffhs i x hx
  obtain ⟨z, hz, hyz⟩ := k.ffhs i y hy
  refine ⟨z, hz, ?_⟩
  rcases hyz with e | e
  · rw [e]; exact hxy
  · exact Or.inr e

theorem Steady.moves {task t : LpV2SyncFFH F} (h : Steady task t) : Moves task t := by
  refine ⟨h.ffhValid, h.lowerLimits_, h.upperLimits_, fun i c hc => ?_⟩
  obtain ⟨c', hc', hl⟩ := ffh_of_links h.links.symm hc
  exact ⟨c', hc', Or.inl (congrArg (fun l => (l.2.2.2.1, l.2.2.2.2)) hl)⟩

theorem moves_lmWrap (task : LpV2SyncFFH F) (w : LeapMotionV2WrapperImpl F) : Moves task { task with lmWrap := w } :=
  ⟨rfl, rfl, rfl, fun _ c hc => ⟨c, hc, Or.inl rfl⟩⟩

theorem moves_inConnection (task : LpV2SyncFFH F) (b : Bool) : Moves task { task with inConnection_ := b } :=
  ⟨rfl, rfl, rfl, fun _ c hc => ⟨c, hc, Or.inl rfl⟩⟩

theorem moves_setFfh {task : LpV2SyncFFH F} {i : Nat} {c c' : FfhCtrl F} (hc : task.ffhs_[i]? = some (some c))
    (hl : c'.limits = c.limits ∨ c'.limits = (FfhCtrl.defaultLower, FfhCtrl.defaultUpper)) :
    Moves task (task.setFfh i c') := by
  refine ⟨rfl, rfl, rfl, fun k d hd => ?_⟩
  by_cases e : k = i
  · subst e
    rw [hc] at hd
    cases hd
    exact ⟨c', setFfh_same hc, hl⟩
  · exact ⟨d, (setFfh_other e).trans hd, Or.inl rfl⟩

/-- The loop over the hands, when its operation keeps a controller's limits or sets the
    defaults. -/
theorem overHands_moves {op : Nat → FfhCtrl F → Emit (UdpEv F) Fault (FfhCtrl F × AR_RETURN_VALUE)}
    (hop : ∀ i c c' r, (op i c).res = .ok (c', r) →
      c'.limits = c.limits ∨ c'.limits = (FfhCtrl.defaultLower, FfhCtrl.defaultUpper)) :
    ∀ {is : List Nat} {task t : LpV2SyncFFH F} {ret : AR_RETURN_VALUE},
      (overHands op is task).res = .ok (t, ret) → Moves task t := by
  intro is
  induction is with
  | nil => intro task t ret h; cases h; exact Moves.refl task
  | cons i is ih =>
    intro task t ret h
    rcases overHands_cons h with ⟨-, h, -⟩ | ⟨c, c', r, -, hc, hres, ⟨-, rfl, -, -⟩ | ⟨-, h, -⟩⟩
    · exact ih h
    · exact moves_setFfh hc (hop i c c' r hres)
    · exact (moves_setFfh hc (hop i c c' r hres)).trans (ih h)

theorem connectFFH_loop_moves {is : List Nat} {task t : LpV2SyncFFH F} {socks : Nat → Int} {ret : AR_RETURN_VALUE}
    (h : (overHands (fun i c => c._connect (socks i)) is task).res = .ok (t, ret)) : Moves task t := by
  refine overHands_moves (fun i c c' r hres => ?_) h
  by_cases hs : socks i < 0
  · rw [FfhCtrl.connect_refused c hs] at hres
    cases hres; exact Or.inl rfl
  · rw [FfhCtrl.connect_connected c (not_lt.mp hs)] at hres
    cases hres; exact Or.inr rfl

theorem connectFFH_moves {task t : LpV2SyncFFH F} {socks : Nat → Int} {ret : AR_RETURN_VALUE}
    (h : (task.connectFFH socks).res = .ok (t, ret)) : Moves task t := connectFFH_loop_moves h

theorem disconnectFFH_moves {task t : LpV2SyncFFH F} {ret : AR_RETURN_VALUE}
    (h : (task.disconnectFFH).res = .ok (t, ret)) : Moves task t :=
  overHands_moves (fun i c c' r hres => by cases hres; exact Or.inl rfl) h

theorem loose_moves (task : LpV2SyncFFH F) : Loose (Moves task) where
  lmWrap u w h := h.trans (moves_lmWrap u w)
  inConnection_ u b h := h.trans (moves_inConnection u b)

theorem connect_moves {task t : LpV2SyncFFH F} {r : ConnectAnswers} {ret : AR_RETURN_VALUE}
    (h : (task.connect r).res = .ok (t, ret)) : Moves task t := by
  have hrule := connect_within (p := fun _ => True) (P := fun _ => True) (loose_moves task) (Moves.refl task)
    ⟨fun _ _ => trivial, fun _ _ => trivial, fun _ _ => trivial⟩ fun u hu =>
      (⟨fun _ _ => trivial, fun _ _ => trivial, fun a ha => hu.trans (connectFFH_moves ha)⟩ :
        Within _ _ _ (u.connectFFH r.socks))
  exact hrule.2.2 (t, ret) h

theorem disconnect_moves {task t : LpV2SyncFFH F} {ret : AR_RETURN_VALUE} (h : (task.disconnect).res = .ok (t, ret)) :
    Moves task t := by
  have hrule := disconnect_within (p := fun _ => True) (P := fun _ => True) (loose_moves task) (Moves.refl task)
    ⟨fun _ _ => trivial, fun _ _ => trivial, fun _ _ => trivial⟩ fun u hu =>
      (⟨fun _ _ => trivial, fun _ _ => trivial, fun a ha => hu.trans (disconnectFFH_moves ha)⟩ :
        Within _ _ _ u.disconnectFFH)
  exact hrule.2.2 (t, ret) h

/-- Every operation keeps the task's limits, and lets a controller's change to the
    defaults only. -/
theorem op_moves [LinearOrder F] [Libm F] {task t : LpV2SyncFFH F} {o : Op F} (h : (task.op o).res = .ok t) :
    Moves task t := by
  cases o with
  | connect r =>
    obtain ⟨a, h⟩ := dropResult_ok h
    exact connect_moves h
  | disconnect =>
    obtain ⟨a, h⟩ := dropResult_ok h
    exact disconnect_moves h
  | connectFFH socks =>
    obtain ⟨a, h⟩ := dropResult_ok h
    exact connectFFH_moves h
  | disconnectFFH =>
    obtain ⟨a, h⟩ := dropResult_ok h
    exact disconnectFFH_moves h
  | initializeLeap cbs => cases h; exact moves_lmWrap task _
  | stop =>
    obtain ⟨w, -, h⟩ := bind_res_ok.mp h
    cases h
    exact ⟨rfl, rfl, rfl, fun _ c hc => ⟨c, hc, Or.inl rfl⟩⟩
  | message cbs m =>
    obtain ⟨w, -, h⟩ := bind_res_ok.mp h
    cases h
    exact moves_lmWrap task _
  | runIteration =>
    obtain ⟨a, h⟩ := dropResult_ok h
    exact (runIteration_steady h).moves
  | publishFfhCmd id => exact ((publish_outcome task id task.handCmd).steady h).moves
  | sendInitHandData => exact ((publish_outcome task left_hand .zero).steady h).moves
  | setHandCmd cmd => cases h; exact (steady_setHandCmd task cmd).moves
  | reset i => exact (resetFfh_steady h).moves
  | testFlow =>
    obtain ⟨a, h⟩ := dropResult_ok h
    exact (testFlow_steady h).moves
  | readFlow f word =>
    obtain ⟨a, h⟩ := dropResult_ok h
    exact (readFlow_steady h).moves
  | checkStep tmp s =>
    obtain ⟨a, h⟩ := dropResult_ok h
    exact (checkStep_steady h).moves

/-! ## Whose limits -/

/-- Hand `i` is valid in the configuration. -/
def validHand (config : Config F) (i : Nat) : Bool := config.hand_Valid.any fun valid => valid[i]?.any (· ≠ 0)

omit [Field F] in
theorem Parsed.validHand {raw : Raw F} {config : Config F} {task t : LpV2SyncFFH F} (h : Parsed raw config task t)
    (i : Nat) : validHand config i = t.isOn i := by
  unfold LpV2SyncFFH.validHand isOn
  rw [h.hand_Valid, Option.any_some]

/-- The limits configured under hand `i`. -/
def handLimits (config : Config F) (i : Nat) : Option (List (List F) × List (List F)) := do
  let ffhInfo ← config.hand_info
  let node ← ffhInfo (handName i)
  let lower ← node.lower_limits
  let upper ← node.upper_limits
  some (lower, upper)

/-- Hand `i` is clamped with the limits configured under it, and its controller has them. -/
def OwnLimits (config : Config F) (t : LpV2SyncFFH F) (i : Nat) : Prop :=
  handLimits config i = some (t.lowerLimits_, t.upperLimits_) ∧
    ∃ c, t.ffhs_[i]? = some (some c) ∧ handLimits config i = some c.limits

omit [Field F] in
theorem configured_limits {raw : Raw F} {config : Config F} {i : Nat} {c : FfhCtrl F}
    (h : config.hand_info.bind (fun ffhInfo => configuredFfh raw ffhInfo i) = some c) :
    handLimits config i = some c.limits := by
  obtain ⟨info, hinfo, h⟩ := Option.bind_eq_some_iff.mp h
  obtain ⟨node, hnode, h⟩ := Option.bind_eq_some_iff.mp h
  obtain ⟨ip, -, h⟩ := Option.bind_eq_some_iff.mp h
  obtain ⟨port, -, h⟩ := Option.bind_eq_some_iff.mp h
  obtain ⟨lo, hlo, h⟩ := Option.bind_eq_some_iff.mp h
  obtain ⟨up, hup, h⟩ := Option.bind_eq_some_iff.mp h
  cases h
  exact Option.bind_eq_some_iff.mpr ⟨info, hinfo, Option.bind_eq_some_iff.mpr ⟨node, hnode,
    Option.bind_eq_some_iff.mpr ⟨lo, hlo, Option.bind_eq_some_iff.mpr ⟨up, hup, rfl⟩⟩⟩⟩

omit [Field F] in
/-- The valid hand that `parseConfig` reads last. -/
theorem last_valid {t : LpV2SyncFFH F} {i : Nat} (hi : i ∈ handIds) (hon : t.isOn i = true) :
    ∃ k ∈ handIds, t.isOn k = true ∧ ∀ j ∈ handIds, k < j → t.isOn j = false := by
  by_cases h1 : t.isOn 1 = true
  · exact ⟨1, by decide, h1, fun j hj hlt => by rcases mem_handIds.mp hj with rfl | rfl <;> omega⟩
  · rcases mem_handIds.mp hi with rfl | rfl
    · refine ⟨0, by decide, hon, fun j hj hlt => ?_⟩
      rcases mem_handIds.mp hj with rfl | rfl
      · omega
      · simpa using h1
    · exact absurd hon h1

/-- After `parseConfig`, a successful `connectFFH` and any further operations, every valid
    hand has the limits configured under it exactly when each was given the defaults. -/
theorem limits_as_configured_iff [LinearOrder F] [Libm F] {raw : Raw F} {config : Config F} {task p q t : LpV2SyncFFH F}
    {socks : Nat → Int} {ops : List (Op F)} (hparse : (task.parseConfig raw config).res = .ok p)
    (hconn : (p.connectFFH socks).res = .ok (q, .SUCCESS)) (hops : (runs op q ops).res = .ok t) :
    (∀ i ∈ handIds, validHand config i = true → OwnLimits config t i) ↔
      ∀ i ∈ handIds, validHand config i = true →
        handLimits config i = some (FfhCtrl.defaultLower, FfhCtrl.defaultUpper) := by
  obtain ⟨hp, -⟩ := parse_spec hparse
  have hmoves : Moves q t := runs_inv op (I := fun t => Moves q t) (fun _ _ _ hi ht => hi.trans (op_moves ht))
    (Moves.refl q) hops
  have hall : Moves p t := (connectFFH_moves hconn).trans hmoves
  have hon : ∀ {i}, validHand config i = p.isOn i := fun {i} => hp.validHand i
  -- the controllers hold the defaults, the task what was configured
  have hctrl : ∀ i ∈ handIds, validHand config i = true → ∃ c, t.ffhs_[i]? = some (some c) ∧
      c.limits = (FfhCtrl.defaultLower, FfhCtrl.defaultUpper) := by
    intro i hi hv
    obtain ⟨_, c, -, hok, hc, -⟩ := overHands_each (by decide) hconn i hi (hon.symm.trans hv)
    have hl : c.limits = (FfhCtrl.defaultLower, FfhCtrl.defaultUpper) := by rw [FfhCtrl.connect_succeeded hok]; rfl
    obtain ⟨d, hd, hdl⟩ := hmoves.ffhs i c hc
    exact ⟨d, hd, hdl.elim (fun e => e.trans hl) id⟩
  have hconf : ∀ i ∈ handIds, validHand config i = true →
      ∃ c, p.ffhs_[i]? = some (some c) ∧ handLimits config i = some c.limits := by
    intro i hi hv
    have h := hp.ffhs i
    rw [if_pos ⟨hi, hon.symm.trans hv⟩] at h
    obtain ⟨c, hc, he⟩ := h
    exact ⟨c, he, configured_limits hc⟩
  constructor
  · intro hown i hi hv
    obtain ⟨-, c, hc, hl⟩ := hown i hi hv
    obtain ⟨d, hd, hdef⟩ := hctrl i hi hv
    obtain rfl := ffh_eq hc hd
    rw [hl, hdef]
  · intro hdef i hi hv
    obtain ⟨k, hk, hkon, hlast⟩ := last_valid hi (hon.symm.trans hv)
    obtain ⟨c, hc, hlo, hup⟩ := hp.limits k hk hkon hlast
    obtain ⟨d, hd, hdl⟩ := hconf k hk (hon.trans hkon)
    obtain rfl := ffh_eq hc hd
    rw [hdef k hk (hon.trans hkon)] at hdl
    have hcl : c.limits = (FfhCtrl.defaultLower, FfhCtrl.defaultUpper) := (Option.some.inj hdl).symm
    obtain ⟨e, he, hel⟩ := hctrl i hi hv
    refine ⟨?_, e, he, by rw [hel]; exact hdef i hi hv⟩
    rw [hdef i hi hv, hall.lowerLimits_, hall.upperLimits_, hlo, hup]
    exact congrArg some hcl.symm

/-- The shipped configuration gives its one valid hand the defaults: it has them still after a
    command, a reset, another connection and an iteration. -/
theorem limits_shipped :
    ∃ p q t : LpV2SyncFFH ℝ, (parseConfig blank (members 0 blank) (shipped "leap_motion_demo")).res = .ok p ∧
      (p.connectFFH fun _ => 3).res = .ok (q, .SUCCESS) ∧
      (runs op q [.setHandCmd (udp_hand_cmd.zero.set 1 0 90), .publishFfhCmd left_hand, .reset left_hand, .disconnectFFH,
        .connectFFH fun _ => 4, .runIteration]).res = .ok t ∧
      ∀ i ∈ handIds, validHand (shipped (F := ℝ) "leap_motion_demo") i = true → OwnLimits (shipped "leap_motion_demo") t i := by
  have hp : ∃ p : LpV2SyncFFH ℝ, (parseConfig blank (members 0 blank) (shipped "leap_motion_demo")).res = .ok p :=
    ⟨_, rfl⟩
  obtain ⟨p, hparse⟩ := hp
  have hq : ∃ q, (p.connectFFH fun _ => 3).res = .ok (q, .SUCCESS) := by cases hparse; exact ⟨_, rfl⟩
  obtain ⟨q, hconn⟩ := hq
  have ht : ∃ t, (runs op q [.setHandCmd (udp_hand_cmd.zero.set 1 0 90), .publishFfhCmd left_hand, .reset left_hand,
      .disconnectFFH, .connectFFH fun _ => 4, .runIteration]).res = .ok t := by cases hparse; cases hconn; exact ⟨_, rfl⟩
  obtain ⟨t, hops⟩ := ht
  refine ⟨p, q, t, hparse, hconn, hops, (limits_as_configured_iff hparse hconn hops).mpr fun i hi hv => ?_⟩
  rcases mem_handIds.mp hi with rfl | rfl
  · rfl
  · -- the right hand is not valid
    have hoff : validHand (shipped (F := ℝ) "leap_motion_demo") 1 = false := rfl
    rw [hoff] at hv
    cases hv

/-- Both hands on, each with its own upper limits. -/
def twoHands : Config ℝ :=
  { shipped "leap_motion_demo" with
    hand_Valid := some [1, 1]
    hand_info := some fun name =>
      if name = "left_hand" then
        some ⟨some "127.0.0.1", some 10086, some FfhCtrl.defaultLower, some (List.replicate 5 [45, 45, 5])⟩
      else if name = "right_hand" then
        some ⟨some "127.0.0.1", some 10087, some FfhCtrl.defaultLower, some (List.replicate 5 [60, 60, 8])⟩
      else none }

/-- The left hand is clamped with the right hand's limits, and its controller has the
    defaults. -/
theorem the_last_hand_decides :
    ∃ p q : LpV2SyncFFH ℝ, (parseConfig blank (members 0 blank) twoHands).res = .ok p ∧
      (p.connectFFH fun _ => 3).res = .ok (q, .SUCCESS) ∧ validHand twoHands 0 = true ∧ ¬ OwnLimits twoHands q 0 := by
  refine ⟨_, _, rfl, rfl, rfl, fun h => ?_⟩
  have hup : (List.replicate 5 [45, 45, 5] : List (List ℝ)) = List.replicate 5 [60, 60, 8] :=
    congrArg Prod.snd (Option.some.inj h.1)
  have hrow : (45 : ℝ) = 60 := by
    have := congrArg (fun m : List (List ℝ) => (m.head?.bind List.head?).getD 0) hup
    exact this
  norm_num at hrow

end LpV2SyncFFH

end LeapSyncFfh
