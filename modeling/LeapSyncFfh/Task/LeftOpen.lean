/-
  LeapSyncFfh.Task.LeftOpen — the last command before a hand's socket is closed.

  `~LpV2SyncFFH` calls `disconnect`, which closes the sockets and clears `inConnection_` of
  each controller, so the reset in `~FfhCtrl` never runs (`destroy_onHand`): what a hand
  was sent last is what it keeps. The menus end with a reset, and a pass of the self check
  does. The demo does not: `executeLoop` ends after the iteration in flight, and if that
  one, or the last that published, took its command from a tracked hand (`tracked`), the
  hand stays in that pose (`a_pose_is_kept`). In every other run, and for the right hand
  in all of them, the last command opens the hand (`left_open`).

  `Watched` is the invariant for one hand; with `Mirror`, `mustOpen` says in which phases
  the command its controller holds is an open one.
-/

import LeapSyncFfh.Task.Connecting
import LeapSyncFfh.Task.Limits
import LeapSyncFfh.Task.Program

namespace LeapSyncFfh

open Cells Emit CircularBuffer LeapMotionV2WrapperImpl LpV2SyncFFH

namespace Program

variable {F : Type}

/-! ## Opening and closing a hand -/

theorem connect_connected [Ring F] {task t : LpV2SyncFFH F} {r : ConnectAnswers}
    (h : (task.connect r).res = .ok (t, .SUCCESS)) :
    t.inConnection_ = true ∧
      ∀ i ∈ handIds, task.isOn i = true → ∃ c, t.ffhs_[i]? = some (some c) ∧ c.inConnection_ = true := by
  obtain ⟨⟨u, lret⟩, hu, h⟩ := bind_res_ok.mp h
  have hvalid : u.isOn = task.isOn := by
    unfold connectLeap at hu
    split at hu
    · obtain ⟨w, -, hu⟩ := bind_res_ok.mp hu
      cases hu; rfl
    · cases hu; rfl
  split at h
  · cases h
  · obtain ⟨⟨v, fret⟩, hv, h⟩ := bind_res_ok.mp h
    split at h
    · rename_i hs
      cases h; exact absurd rfl hs
    · rename_i hs
      cases h
      obtain rfl : fret = .SUCCESS := not_not.mp hs
      refine ⟨rfl, fun i hi hon => ?_⟩
      obtain ⟨c, c', -, hc, hc', -⟩ := overHands_each (by decide) hv i hi (by rw [hvalid]; exact hon)
      exact ⟨c', hc', by rw [FfhCtrl.connect_succeeded hc]; rfl⟩

/-- `disconnectFFH` closes the socket of each valid hand once. -/
theorem closeHands {is : List Nat} {task t : LpV2SyncFFH F} {ret : AR_RETURN_VALUE} (hnd : is.Nodup)
    (ht : (overHands (fun _ c => c._disconnect) is task).res = .ok (t, ret)) :
    ret = .SUCCESS ∧ ∀ h ∈ is, task.isOn h = true → ∃ c, t.ffhs_[h]? = some (some (FfhCtrl.closed c)) ∧
      onHand h (overHands (fun _ c => c._disconnect) is task).out = [.close c.udp_.sockfd_] := by
  have hret := overHands_succeeds (fun _ c c' r hr => by cases hr; rfl) ht
  subst hret
  refine ⟨rfl, fun h hh hon => ?_⟩
  obtain ⟨c, c', -, hres, hc', hout⟩ := overHands_each hnd ht h hh hon
  rw [FfhCtrl.disconnect_closed] at hres hout
  cases hres
  exact ⟨c, hc', hout⟩

/-- The controllers from `i` on go away; hand `h` sees nothing of it if its own is closed. -/
theorem destroyFfhs_onHand [Zero F] {h : Nat} : ∀ (cs : List (Option (FfhCtrl F))) (i : Nat),
    (∀ k c, i + k = h → cs[k]? = some (some c) → c.destroy = pure ()) → onHand h (destroyFfhs i cs).out = [] := by
  intro cs
  induction cs with
  | nil => intro i _; rfl
  | cons c cs ih =>
    intro i hq
    have hhead : onHand h (destroyFfh i c).out = [] := by
      cases c with
      | none => rfl
      | some c =>
        show onHand h (c.destroy.out.map (.udp i)) = []
        by_cases e : h = i
        · rw [hq 0 c (by omega) rfl]; rfl
        · exact onHand_udp_other e _
    have htail := ih (i + 1) fun k c hk hc => hq (k + 1) c (by omega) hc
    unfold destroyFfhs
    cases hres : (destroyFfh i c).res with
    | ok u => rw [bind_of_ok hres, onHand_append, hhead, htail]; rfl
    | error e => rw [bind_of_error hres]; exact hhead

/-- `disconnect` closes the socket of each valid hand, and its controller's flag. -/
theorem disconnect_onHand {task t : LpV2SyncFFH F} {ret : AR_RETURN_VALUE} {h : Nat} (hh : h ∈ handIds)
    (hon : task.isOn h = true) (hd : (task.disconnect).res = .ok (t, ret)) :
    ∃ c, t.ffhs_[h]? = some (some c) ∧ c.inConnection_ = false ∧ c.udp_.inConnection_ = false ∧
      ∃ fd, onHand h task.disconnect.out = [.close fd] := by
  obtain ⟨⟨u, lret⟩, hu, hd, hout⟩ := bind_ok_split hd
  have hleap : lret = .SUCCESS ∧ u.ffhs_ = task.ffhs_ ∧ u.isOn = task.isOn ∧ onHand h (task.disconnectLeap).out = [] := by
    unfold disconnectLeap at hu ⊢
    split at hu
    · rename_i hc
      rw [if_pos hc]
      obtain ⟨⟨w, wret⟩, hw, hu, ho⟩ := bind_ok_split hu
      cases hu
      rw [ho, mapOut_out, pure_out, List.append_nil, onHand_leap]
      unfold LeapMotionV2WrapperImpl.disconnect at hw
      rw [if_pos hc] at hw
      cases hw
      exact ⟨rfl, rfl, rfl, rfl⟩
    · rename_i hc
      rw [if_neg hc]
      cases hu
      exact ⟨rfl, rfl, rfl, rfl⟩
  obtain ⟨rfl, -, hvalid, hquiet⟩ := hleap
  rw [if_neg (by simp)] at hd hout
  obtain ⟨⟨v, fret⟩, hv, hd, ho⟩ := bind_ok_split hd
  obtain ⟨rfl, hall⟩ := closeHands (by decide) hv
  rw [if_neg (by simp)] at hd ho
  cases hd
  obtain ⟨c, hct, hclose⟩ := hall h hh (hvalid ▸ hon)
  refine ⟨c.closed, hct, rfl, rfl, c.udp_.sockfd_, ?_⟩
  rw [show (task.disconnect).out = _ from hout, ho, onHand_append, onHand_append, hquiet]
  show _ ++ (onHand h (disconnectFFH u).out ++ _) = _
  unfold disconnectFFH
  rw [hclose]
  rfl

/-- A connected task that goes away closes the socket of each valid hand, and sends it
    nothing more. -/
theorem destroy_onHand [Zero F] {task : LpV2SyncFFH F} {h : Nat} (hh : h ∈ handIds) (hon : task.isOn h = true)
    (hin : task.inConnection_ = true) (hd : (task.destroy).res = .ok ()) :
    ∃ fd, onHand h task.destroy.out = [.close fd] := by
  have hdef : task.destroy = task.disconnect >>= fun r => destroyFfhs 0 r.1.ffhs_ >>= fun _ =>
      mapOut Ev.leap r.1.lmWrap.disconnect >>= fun _ => pure () := by
    unfold destroy
    simp only [hin, if_true]
  rw [hdef] at hd ⊢
  obtain ⟨⟨t, ret⟩, ht, hd, hout⟩ := bind_ok_split hd
  obtain ⟨c, hc, hflag, hudp, fd, hclose⟩ := disconnect_onHand hh hon ht
  obtain ⟨-, -, hd, hout'⟩ := bind_ok_split hd
  refine ⟨fd, ?_⟩
  have hgone : onHand h (destroyFfhs 0 t.ffhs_).out = [] := by
    apply destroyFfhs_onHand t.ffhs_ 0
    intro k d hk hd
    obtain rfl : k = h := by omega
    obtain rfl := ffh_eq hc hd
    unfold FfhCtrl.destroy UdpClient.destroy
    rw [if_neg (by simp [hflag]), if_neg (by simp [hudp])]
  rw [hout, hout', onHand_append, onHand_append, hclose, hgone, bind_pure_out, mapOut_out, onHand_leap]
  rfl

/-! ## Which command opens a hand -/

section

variable [Ring F] [LinearOrder F]

/-- The zero command, as `reset` sends it or post-processed. -/
def Open (lo up : List (List F)) (cmd : udp_hand_cmd F) : Prop :=
  cmd = .zero ∨ postProcessHandCmd lo up .zero = .ok cmd

/-- The calls for hand `h` end with the closing of its socket, and the last command before
    opens the hand. -/
def LeftOpen (lo up : List (List F)) (h : Nat) (evs : List (Ev F)) : Prop :=
  ∃ es fd cmd, onHand h evs = es ++ [.close fd] ∧ lastCommand es = some cmd ∧ Open lo up cmd

end

/-- The left hand's last command must be open in the phases that follow a reset; in the
    demo, while what was published last is not a tracked pose. -/
def mustOpen (h : Nat) (g : Bool) : Phase F → Prop
  | .connecting | .connected | .selfMenu _ _ => True
  | .menu _ | .flow _ _ => h ≠ left_hand
  | .pass _ todo _ => h ≠ left_hand ∨ todo = []
  | .demo _ | .returned | .destroyed => h ≠ left_hand ∨ g = false

/-- A pass of the self check that has statements left ends with a reset. -/
def EndsReset (ph : Phase F) : Prop :=
  ∀ str todo tmp_cmd, ph = .pass str todo tmp_cmd → todo ≠ [] → todo.getLast? = some .reset

section

variable [Field F] [LinearOrder F] [Libm F]

/-- Whether the command published last was taken from a tracked hand: a confident first
    left hand publishes its pose, no hand or an unconfident one the open pose. -/
def tracked (g : Bool) (s : Prog F) (a : Act F) : Bool :=
  match iterating s a with
  | some hands =>
    if hands.isEmpty then false
    else
      match hands.find? isLeft with
      | some hand => !decide (hand.confidence < 3 / 10)
      | none => g
  | none => g

/-- Hand `h` must hold an open command. -/
def opens (lo up : List (List F)) (h : Nat) (must : Prop) (i : Nat) (cmd : udp_hand_cmd F) : Prop :=
  i = h → must → Open lo up cmd

/-- The invariant for the valid hand `h`, until the task is destroyed. -/
structure Watched (lo up : List (List F)) (h : Nat) (g : Bool) (tr : List (Ev F)) (s : Prog F) : Prop where
  on : s.task.isOn h = true
  lower : s.task.lowerLimits_ = lo
  upper : s.task.upperLimits_ = up
  mirror : Mirror tr s.task
  live : s.phase ≠ .connecting → s.task.inConnection_ = true ∧
    ∃ c, s.task.ffhs_[h]? = some (some c) ∧ c.inConnection_ = true
  opened : Holding (opens lo up h (mustOpen h g s.phase)) s.task
  ends : EndsReset s.phase

variable {lo up : List (List F)} {h : Nat} {g g' : Bool} {tr evs : List (Ev F)} {s t : Prog F}

/-! ## One step -/

omit [Libm F] in
/-- After operations that only send. -/
theorem Watched.move (hw : Watched lo up h g tr s) (hne : s.phase ≠ .connecting) {u : LpV2SyncFFH F} {cbs : CallBacks}
    {ph : Phase F} (hs : Steady s.task u) (hm : Mirror (tr ++ evs) u)
    (hk : Holding (opens lo up h (mustOpen h g' ph)) u)
    (hend : EndsReset ph) : Watched lo up h g' (tr ++ evs) ⟨u, cbs, ph⟩ where
  on := by
    have hon := hw.on
    unfold LpV2SyncFFH.isOn at hon ⊢
    rwa [hs.ffhValid]
  lower := hs.lowerLimits_.trans hw.lower
  upper := hs.upperLimits_.trans hw.upper
  mirror := hm
  live := fun _ => by
    obtain ⟨hin, c, hc, hlive⟩ := hw.live hne
    obtain ⟨d, hd, hl⟩ := ffh_of_links hs.links.symm hc
    exact ⟨hs.inConnection_.trans hin, d, hd, (congrArg (fun l => l.2.2.1) hl).trans hlive⟩
  opened := hk
  ends := hend

omit [Field F] [LinearOrder F] [Libm F] in
/-- A quiet step asks for no more open commands than were held. -/
theorem next_mustOpen {p q : Phase F} (hn : Next p q) (hq : mustOpen h g q) : mustOpen h g p := by
  cases hn with
  | stay p => exact hq
  | again op op' => exact hq
  | pass str str' tmp_cmd => trivial
  | passed str tmp_cmd => exact Or.inr rfl
  | thread d d' => exact hq
  | joined d => exact hq
  | _ => trivial

omit [Libm F] in
theorem watched_quiet (hw : Watched lo up h g tr s) (hk : Kept s.task t.task) (hn : Next s.phase t.phase)
    (hq : ∀ k, onHand k evs = []) : Watched lo up h g (tr ++ evs) t where
  on := by
    have hon := hw.on
    unfold LpV2SyncFFH.isOn at hon ⊢
    rwa [hk.ffhValid]
  lower := hk.lowerLimits_.trans hw.lower
  upper := hk.upperLimits_.trans hw.upper
  mirror := mirror_quiet hw.mirror hq hk.ffhs_
  live := fun hne => by
    have hs : s.phase ≠ .connecting := by
      intro e
      rw [e] at hn
      generalize t.phase = q at hn hne
      cases hn
      exact hne rfl
    rw [hk.ffhs_, hk.inConnection_]
    exact hw.live hs
  opened := fun i c hc hin hi hm => hw.opened i c (hk.ffhs_ ▸ hc) hin hi (next_mustOpen hn hm)
  ends := fun str todo tmp_cmd hph hne => by
    rw [hph] at hn
    generalize hp : s.phase = p at hn
    cases hn with
    | stay => exact hw.ends str todo tmp_cmd hp hne
    | pass => rfl

omit [Libm F] in
theorem watched_attempt (hh : h ∈ handIds) (hw : Watched lo up h g tr s) (hph : s.phase = .connecting) {r : ConnectAnswers}
    {u : LpV2SyncFFH F} {ret : AR_RETURN_VALUE} (hu : (s.task.connect r).res = .ok (u, ret)) :
    Watched lo up h g (tr ++ (s.task.connect r).out)
      { s with task := u, phase := if ret = .SUCCESS then .connected else .connecting } := by
  have hm := connect_moves hu
  have hhold : Holding (opens lo up h True) s.task := fun i c hc hin hi _ => hw.opened i c hc hin hi (by rw [hph]; trivial)
  have hzero : ∀ i, opens lo up h True i (.zero : udp_hand_cmd F) := fun _ _ _ => Or.inl rfl
  have hon : u.isOn h = true := by
    have hon := hw.on
    unfold LpV2SyncFFH.isOn at hon ⊢
    rwa [hm.ffhValid]
  refine ⟨hon, hm.lowerLimits_.trans hw.lower, hm.upperLimits_.trans hw.upper, mirror_connect hw.mirror hu,
    fun hne => ?_, fun i c hc hin hi _ => ?_, fun str todo tmp_cmd hp _ => ?_⟩
  · by_cases hs : ret = .SUCCESS
    · subst hs
      obtain ⟨hin, hall⟩ := connect_connected hu
      exact ⟨hin, hall h hh hw.on⟩
    · exact absurd (if_neg hs) hne
  · exact (connect_holding hzero hhold r).2 (u, ret) hu i c hc hin hi trivial
  · simp only [] at hp
    split at hp <;> cases hp

omit [Libm F] in
/-- A statement of the self check: once the last reset is done, the command is open. -/
theorem watched_check (hw : Watched lo up h g tr s) {str : String} {c : CheckStep} {todo : List CheckStep}
    {tmp_cmd tmp_cmd' : udp_hand_cmd F} {u : LpV2SyncFFH F} (hph : s.phase = .pass str (c :: todo) tmp_cmd)
    (hu : (s.task.checkStep tmp_cmd c).res = .ok (u, tmp_cmd')) :
    Watched lo up h g (tr ++ (s.task.checkStep tmp_cmd c).out) { s with task := u, phase := .pass str todo tmp_cmd' } := by
  have hlast := hw.ends str (c :: todo) tmp_cmd hph (by simp)
  have hreset : todo = [] → c = .reset := by
    rintro rfl
    simpa using hlast
  have hopened : Holding (opens lo up h (h ≠ left_hand)) s.task := fun i d hd hin hi hne =>
    hw.opened i d hd hin hi (by rw [hph]; exact Or.inl hne)
  have hoff : ∀ i cmd, opens lo up h (h ≠ left_hand) i cmd → i ≠ left_hand →
      opens lo up h (h ≠ left_hand ∨ todo = []) i cmd := by
    intro i cmd hk hne hi _
    exact hk hi (hi ▸ hne)
  refine hw.move (by rw [hph]; simp) (checkStep_steady hu) (mirror_checkStep hw.mirror hu) ?_ ?_
  · refine (checkStep_holding (K := opens lo up h (h ≠ left_hand ∨ todo = [])) (hopened.mono hoff) ?_ ?_ ?_).2 _ hu
    · intro hc i d hd hin hi hm
      rcases hm with hne | hnil
      · exact hopened i d hd hin hi hne
      · rw [hreset hnil] at hc; cases hc
    · exact fun _ _ _ => Or.inl rfl
    · rintro d second id j a rfl - -
      have never : ∀ cmd, opens lo up h (h ≠ left_hand ∨ todo = []) left_hand cmd := by
        intro cmd hi hm
        rcases hm with hne | hnil
        · exact absurd hi.symm hne
        · have := hreset hnil
          cases this
      exact ⟨never _, never _⟩
  · intro str' todo' tmp' hp hne
    cases hp
    rw [List.getLast?_cons_of_ne_nil hne] at hlast
    exact hlast

/-- What an iteration publishes is open unless its pose was tracked. -/
theorem chosen_open {task : LpV2SyncFFH F} {hands : List (LEAP_HAND F)}
    (hl : hands = [] ∨ ∃ hand ∈ hands, hand.type = .eLeapHandType_Left) {a : Act F} (hit : iterating s a = some hands)
    (hg : tracked g s a = false) : chosen task.handCmd hands = .zero := by
  unfold tracked at hg
  rw [hit] at hg
  simp only [] at hg
  unfold chosen
  split at hg
  · rename_i he
    rw [List.isEmpty_iff.mp he]; rfl
  · cases hf : hands.find? isLeft with
    | none =>
      rcases hl with rfl | hleft
      · rfl
      · exact absurd hleft (find_left_none.mp hf)
    | some hand =>
      rw [hf] at hg
      have hconf : hand.confidence < 3 / 10 := by simpa using hg
      rw [Option.bind_some, calPubFingerAngle_none.mpr hconf]; rfl

theorem watched_iterate (hw : Watched lo up h g tr s) {d : Threads F} {hands : List (LEAP_HAND F)}
    (hph : s.phase = .demo d) {a : Act F} (hit : iterating s a = some hands) {u : LpV2SyncFFH F} {r : AR_RETURN_VALUE}
    (hu : (s.task.iterateHands hands).res = .ok (u, r)) :
    Watched lo up h (tracked g s a) (tr ++ (s.task.iterateHands hands).out)
      { s with task := u, phase := .demo { d with exec := .top } } := by
  have hne : s.phase ≠ .connecting := by rw [hph]; simp
  have hsteady := (iterateHands_steady hu).1
  have hopened : Holding (opens lo up h (h ≠ left_hand ∨ g = false)) s.task := fun i c hc hin hi hm =>
    hw.opened i c hc hin hi (by rw [hph]; exact hm)
  have hend : EndsReset (F := F) (.demo { d with exec := .top }) := fun _ _ _ hp _ => by cases hp
  by_cases hl : hands = [] ∨ ∃ hand ∈ hands, hand.type = .eLeapHandType_Left
  · rw [(iterateHands_eq s.task hands).1 hl] at hu ⊢
    obtain ⟨v, hv, hu⟩ := bind_res_ok.mp hu
    cases hu
    rw [bind_pure_out]
    refine hw.move hne hsteady (mirror_publish hw.mirror hv) ?_ hend
    refine (publish_holding (K := opens lo up h (h ≠ left_hand ∨ tracked g s a = false)) ?_ ?_ ?_).2 _ hv
    · intro i c hc hin _ hi hm _
      exact hopened i c hc hin hm (Or.inl (hm ▸ hi))
    · intro hoff i c hc hin hi _
      refine hopened i c hc hin hi (Or.inl fun e => ?_)
      rw [← e, hw.on] at hoff
      cases hoff
    · intro c cmd _ _ hpost hi hm
      rcases hm with hm | hm
      · exact absurd hi.symm hm
      · right
        rw [chosen_open hl hit hm, hw.lower, hw.upper] at hpost
        exact hpost
  · have hsame : tracked g s a = g := by
      unfold tracked
      rw [hit]
      have hempty : hands.isEmpty = false := by
        rw [List.isEmpty_eq_false_iff]
        exact fun e => hl (Or.inl e)
      simp only [hempty, Bool.false_eq_true, if_false, find_left_none.mpr fun hm => hl (Or.inr hm)]
    rw [(iterateHands_eq s.task hands).2 hl] at hu ⊢
    cases hu
    rw [hsame]
    exact hw.move hne hsteady (mirror_quiet hw.mirror (fun _ => rfl) rfl) hopened hend

omit [Libm F] in
/-- The destructor closes the hand as it is. -/
theorem destroyed_open (hh : h ∈ handIds) (hw : Watched lo up h g tr s) (hph : s.phase = .returned)
    (hd : (s.task.destroy).res = .ok ()) (hg : h = left_hand → g = false) :
    LeftOpen lo up h (tr ++ s.task.destroy.out) := by
  obtain ⟨hin, c, hc, hlive⟩ := hw.live (by rw [hph]; simp)
  obtain ⟨fd, hclose⟩ := destroy_onHand hh hw.on hin hd
  refine ⟨onHand h tr, fd, c.handCmd_, by rw [onHand_append, hclose], hw.mirror h c hc hlive, ?_⟩
  apply hw.opened h c hc hlive rfl
  rw [hph]
  by_cases e : h = left_hand
  · exact Or.inr (hg e)
  · exact Or.inl e

/-! ## Runs -/

/-- The invariant, and what it has come to once the task is destroyed. -/
structure Led (lo up : List (List F)) (h : Nat) (g : Bool) (tr : List (Ev F)) (s : Prog F) : Prop where
  watched : s.phase ≠ .destroyed → Watched lo up h g tr s
  left : s.phase = .destroyed → (h = left_hand → g = false) → LeftOpen lo up h tr

omit [Libm F] in
theorem led_of {ph : Phase F} (hp : s.phase = ph) (hne : ph ≠ .destroyed) (hw : Watched lo up h g tr s) :
    Led lo up h g tr s := ⟨fun _ => hw, fun e => absurd (hp.symm.trans e) hne⟩

omit [Libm F] in
/-- A quiet step, before the destructor or after it. -/
theorem led_quiet (hl : Led lo up h g tr s) (hk : Kept s.task t.task) (hn : Next s.phase t.phase)
    (hq : ∀ k, onHand k evs = []) : Led lo up h g (tr ++ evs) t := by
  by_cases hp : s.phase = .destroyed
  · have ht : t.phase = .destroyed := by
      rw [hp] at hn
      generalize t.phase = q at hn
      cases hn; rfl
    refine ⟨fun hne => absurd ht hne, fun _ hg => ?_⟩
    obtain ⟨es, fd, cmd, hclose, hlast⟩ := hl.left hp hg
    exact ⟨es, fd, cmd, by rw [onHand_append, hq, List.append_nil, hclose], hlast⟩
  · refine ⟨fun _ => watched_quiet (hl.watched hp) hk hn hq, fun ht => ?_⟩
    rw [ht] at hn
    generalize s.phase = p at hn hp
    cases hn
    exact absurd rfl hp

omit [Libm F] in
/-- `testFlow` at its next read, or back in the menu. -/
theorem led_testing (hw : Watched lo up h g tr s) (hne : s.phase ≠ .connecting) {u : LpV2SyncFFH F}
    (hs : Steady s.task u) (hm : Mirror (tr ++ evs) u) (hk : Holding (opens lo up h (h ≠ left_hand)) u)
    (operCmd : String) (next : Option FfhCtrl.Flow) :
    Led lo up h g (tr ++ evs) { s with
      task := u, phase := match next with | some t => .flow operCmd t | none => .menu operCmd } := by
  cases next with
  | none => exact led_of rfl (by simp) (hw.move hne hs hm hk fun _ _ _ hp _ => by cases hp)
  | some f => exact led_of rfl (by simp) (hw.move hne hs hm hk fun _ _ _ hp _ => by cases hp)

omit [Libm F] in
/-- `quit` in the menu resets the left hand. -/
theorem watched_quit (hw : Watched lo up h g tr s) {operCmd : String} (hph : s.phase = .menu operCmd)
    {u : LpV2SyncFFH F} (hu : (s.task.resetFfh left_hand).res = .ok u) :
    Watched lo up h g (tr ++ (s.task.resetFfh left_hand).out) { s with task := u, phase := .returned } := by
  refine hw.move (by rw [hph]; simp) (resetFfh_steady hu) (mirror_resetFfh hw.mirror hu) ?_ fun _ _ _ hp _ => by cases hp
  refine (resetFfh_holding (K := opens lo up h _) (hw.opened.mono fun i cmd hk hi hm _ => ?_)
    fun _ _ => Or.inl rfl).2 u hu
  exact hk hm (by rw [hph]; exact hm ▸ hi)

theorem step_led (hh : h ∈ handIds) {a : Act F} (hl : Led lo up h g tr s) (hres : (step s a).res = .ok t) :
    Led lo up h (tracked g s a) (tr ++ (step s a).out) t := by
  have hd := step_does s a
  generalize step s a = x at hd hres ⊢
  cases hd with
  | quiet _ _ hit hq hn =>
    obtain ⟨⟨es, hes⟩, hk⟩ := hq
    have hg : tracked g s a = g := by unfold tracked; rw [hit]
    rw [hg]
    exact led_quiet hl (hk t hres) (hn t hres) fun k => by rw [hes, onHand_leap]
  | attempt r hph =>
    obtain ⟨⟨u, ret⟩, hu, ht⟩ := bind_res_ok.mp hres
    cases ht
    rw [bind_pure_out]
    exact led_of rfl (by split <;> simp) (watched_attempt hh (hl.watched (by rw [hph]; simp)) hph hu)
  | test word operCmd hph =>
    obtain ⟨⟨u, next⟩, hu, ht⟩ := bind_res_ok.mp hres
    cases ht
    rw [bind_pure_out]
    have hw := hl.watched (by rw [hph]; simp)
    have hopened := hw.opened
    rw [hph] at hopened
    exact led_testing hw (by rw [hph]; simp) (testFlow_steady hu) (mirror_testFlow hw.mirror hu)
      ((testFlow_holding hopened).2 (u, next) hu) _ next
  | quit word operCmd hph =>
    obtain ⟨u, hu, ht⟩ := bind_res_ok.mp hres
    cases ht
    rw [bind_pure_out]
    exact led_of rfl (by simp) (watched_quit (hl.watched (by rw [hph]; simp)) hph hu)
  | flow word operCmd f hph =>
    obtain ⟨⟨u, next⟩, hu, ht⟩ := bind_res_ok.mp hres
    cases ht
    rw [bind_pure_out]
    have hw := hl.watched (by rw [hph]; simp)
    have hopened := hw.opened
    rw [hph] at hopened
    -- an entry may leave any command with the left hand
    have never : ∀ cmd, opens lo up h (h ≠ left_hand) left_hand cmd := fun cmd hi hne => absurd hi.symm hne
    exact led_testing hw (by rw [hph]; simp) (readFlow_steady hu) (mirror_readFlow hw.mirror hu)
      ((readFlow_holding hopened (never _) fun _ _ _ _ _ _ _ _ => never _).2 (u, next) hu) _ next
  | check str c todo tmp_cmd hph =>
    obtain ⟨⟨u, tmp⟩, hu, ht⟩ := bind_res_ok.mp hres
    cases ht
    rw [bind_pure_out]
    exact led_of rfl (by simp) (watched_check (hl.watched (by rw [hph]; simp)) hph hu)
  | iterate d hands hph hit =>
    obtain ⟨⟨u, r⟩, hu, ht⟩ := bind_res_ok.mp hres
    cases ht
    rw [bind_pure_out]
    exact led_of rfl (by simp) (watched_iterate (hl.watched (by rw [hph]; simp)) hph hit hu)
  | destroy hph =>
    obtain ⟨_, hd, ht⟩ := bind_res_ok.mp hres
    cases ht
    rw [bind_pure_out]
    have hwatched := hl.watched (by rw [hph]; simp)
    constructor
    · intro hne
      exact absurd rfl hne
    · intro _ hg
      exact destroyed_open hh hwatched hph hd hg

omit [Libm F] in
/-- A new task is watched: nothing is connected, nothing was sent. -/
theorem launch_led {addr : Nat} {raw : Raw F} {config : Config F} {task : LpV2SyncFFH F}
    (hmake : (make addr raw config).res = .ok task) (hon : validHand config h = true) :
    Led task.lowerLimits_ task.upperLimits_ h false [] (launch task) := by
  have hp := (make_spec hmake).1
  refine led_of rfl (by simp [launch]) ⟨?_, rfl, rfl, ?_, fun hne => absurd rfl hne, ?_, fun _ _ _ he => by cases he⟩
  · unfold validHand at hon
    rwa [hp.hand_Valid] at hon
  · intro i c hc hin
    rw [made_unconnected hmake hc] at hin; cases hin
  · intro i c hc hin
    rw [made_unconnected hmake hc] at hin; cases hin

/-- In every run that ends with the destructor, the last command before the closing of a
    valid hand's socket opens the hand: the right hand always, the left hand when the
    command published last for it was not a tracked pose. -/
theorem left_open {addr : Nat} {raw : Raw F} {config : Config F} {task : LpV2SyncFFH F} {acts : List (Act F)}
    (hmake : (make addr raw config).res = .ok task) (hrun : (program addr raw config acts).res = .ok t)
    (hend : t.phase = .destroyed) :
    ∀ h ∈ handIds, validHand config h = true → (h = left_hand → ghost step tracked false (launch task) acts = false) →
      LeftOpen task.lowerLimits_ task.upperLimits_ h (program addr raw config acts).out := by
  intro h hh hon hg
  rw [program_runs hmake] at hrun ⊢
  have hled := runs_ghost step tracked (J := Led task.lowerLimits_ task.upperLimits_ h)
    (fun _ _ _ _ _ hl ht => step_led hh hl ht) (launch_led hmake hon) hrun
  exact hled.left hend hg

end

/-- Test by hand, left with `quit`. -/
def quitting : List (Act ℝ) := [.attempt (answering 0 0), .start .zero, .read (some "quit"), .destroy]

theorem left_open_quit :
    ∃ (task : LpV2SyncFFH ℝ) (t : Prog ℝ), (make 0 blank (shipped "test_by_hand")).res = .ok task ∧
      (program 0 blank (shipped "test_by_hand") quitting).res = .ok t ∧
      LeftOpen task.lowerLimits_ task.upperLimits_ left_hand (program 0 blank (shipped "test_by_hand") quitting).out :=
  ⟨_, _, rfl, rfl, left_open rfl rfl rfl left_hand (by decide) rfl fun _ => rfl⟩

/-! ## A pose that is kept -/

/-- A message reaches the polling thread: the check of the flag, then the poll. -/
def polled (f : LEAP_TRACKING_EVENT ℝ) : List (Act ℝ) := [.service 0 none, .service 0 (some (.tracking f))]

/-- Connect, start, and run `start()` until it waits. -/
def opening : List (Act ℝ) := [.attempt (answering 1 1), .start .zero] ++ List.replicate 15 .main

/-- The operator types `q`; both threads end, `start()` returns and the task goes away. -/
def ending : List (Act ℝ) :=
  [.monitor none, .monitor (some 'q'), .monitor none, .monitor none, .service 0 none, .monitor none, .exec, .main, .main,
    .destroy]

/-- The wrapper has handled `fs`, and its one thread is at the check of the flag. -/
structure Polling (cbs : CallBacks) (fs : List (LEAP_TRACKING_EVENT ℝ)) (w : LeapMotionV2WrapperImpl ℝ) : Prop where
  thread : w.pollingThread_ = [.check]
  connected : w.inConncetion_ = true
  ready : Ready cbs fs w

theorem poll_frame (task : LpV2SyncFFH ℝ) {cbs : CallBacks} (d : Threads ℝ) {fs : List (LEAP_TRACKING_EVENT ℝ)}
    {f : LEAP_TRACKING_EVENT ℝ} (h : Polling cbs fs task.lmWrap) (hf : Fits fs f) :
    ∃ w, (runs step ⟨task, cbs, .demo d⟩ (polled f)).res = .ok ⟨{ task with lmWrap := w }, cbs, .demo d⟩ ∧
      Polling cbs (fs ++ [f]) w ∧ w.hands_ = handsAfter fs task.lmWrap.hands_ f := by
  obtain ⟨hth, hin, hr⟩ := h
  have hr' : Ready cbs fs (setSvc task 0 .poll).lmWrap := ⟨hr.bound, hr.ring, hr.lastFrame⟩
  obtain ⟨l, hl⟩ := tracking_fits hr' hf
  obtain ⟨-, hhands, hready⟩ := (tracking_step hr' f).2 _ hl
  have hcheck : (step ⟨task, cbs, .demo d⟩ (.service 0 none)).res = .ok ⟨setSvc task 0 .poll, cbs, .demo d⟩ := by
    simp [step, serviceStep, hth, hin]
  have hpoll : (setSvc task 0 .poll).lmWrap.pollingThread_ = [.poll] := by
    show task.lmWrap.pollingThread_.set 0 .poll = _
    rw [hth]; rfl
  refine ⟨{ task.lmWrap with
      lastFrame := some l, frameBuffer_ := task.lmWrap.frameBuffer_.added f, hands_ := handsAfter fs task.lmWrap.hands_ f },
    ?_, ⟨hth, hin, hready.bound, hready.ring, hready.lastFrame⟩, rfl⟩
  refine bind_res_ok.mpr ⟨_, hcheck, bind_res_ok.mpr ⟨_, ?_, rfl⟩⟩
  simp only [step, serviceStep, hpoll, List.getElem?_cons_zero, handleMessage]
  rw [bind_res_ok]
  refine ⟨_, bind_res_ok.mpr ⟨_, hl, rfl⟩, ?_⟩
  simp [setSvc, hth]

theorem behind_replicate (n : Nat) (f : LEAP_TRACKING_EVENT ℝ) :
    behind (List.replicate n f) = if frameCount_ - 1 ≤ n then f.nHands else 0 := by
  unfold behind
  rw [List.length_replicate]
  split
  · rename_i hn
    have hlt : n - (frameCount_ - 1) < n := by unfold frameCount_ at hn ⊢; omega
    rw [List.getElem?_replicate, if_pos hlt]; rfl
  · rfl

/-- From the sixtieth delivery of one event on, its hands are the ones stored. -/
theorem poll_frames {task : LpV2SyncFFH ℝ} {cbs : CallBacks} (d : Threads ℝ) {f : LEAP_TRACKING_EVENT ℝ}
    (h : Polling cbs [] task.lmWrap) (h0 : 0 < f.nHands) (h2 : f.nHands ≤ 2) (n : Nat) :
    ∃ w, (runs step ⟨task, cbs, .demo d⟩ ((List.replicate n f).flatMap polled)).res =
        .ok ⟨{ task with lmWrap := w }, cbs, .demo d⟩ ∧
      Polling cbs (List.replicate n f) w ∧ (frameCount_ ≤ n → w.hands_ = f.pHands) := by
  induction n with
  | zero => exact ⟨task.lmWrap, rfl, h, fun hn => absurd hn (by decide)⟩
  | succ n ih =>
    obtain ⟨w, hrun, hw, -⟩ := ih
    have hb := behind_replicate n f
    have hfit : Fits (List.replicate n f) f := ⟨h2, Or.inr (by rw [hb]; split <;> omega)⟩
    obtain ⟨w', hrun', hw', hhands⟩ := poll_frame { task with lmWrap := w } d hw hfit
    rw [List.replicate_succ', List.flatMap_append, runs_append]
    refine ⟨w', bind_res_ok.mpr ⟨_, hrun, by simpa using hrun'⟩, hw', fun hn => ?_⟩
    rw [hhands, handsAfter, if_neg (by omega), hb, if_pos (by omega), List.take_of_length_le (by rw [f.sized]),
      List.drop_eq_nil_of_le (by rw [resize_length]), List.append_nil]

/-- The shipped demo with all its threads at the top of their loops. -/
structure Turning (s : Prog ℝ) : Prop where
  phase : s.phase = .demo ⟨.waiting, .top, .top⟩
  running : s.task.running_ = true
  valid : s.task.ffhValid = [1, 0]
  ffh : ∃ c, s.task.ffhs_ = [some c, none] ∧ c.inConnection_ = true ∧ c.udp_.inConnection_ = true
  connected : s.task.inConnection_ = true
  lower : s.task.lowerLimits_ = FfhCtrl.defaultLower
  upper : s.task.upperLimits_ = FfhCtrl.defaultUpper

theorem opening_turning :
    ∃ s : Prog ℝ, (program 0 blank (shipped "leap_motion_demo") opening).res = .ok s ∧ Turning s ∧
      Polling s.cbs [] s.task.lmWrap :=
  ⟨_, rfl, ⟨rfl, rfl, rfl, ⟨_, rfl, rfl, rfl⟩, rfl, rfl, rfl⟩, rfl, rfl,
    ⟨rfl, holds_setSize _ frameCount_ rfl, fun _ h => by cases h⟩⟩

theorem ending_closes {s : Prog ℝ} {cbs : CallBacks} {fs : List (LEAP_TRACKING_EVENT ℝ)} (h : Turning s)
    (hp : Polling cbs fs s.task.lmWrap) :
    ∃ t fd, (runs step s ending).res = .ok t ∧ t.phase = .destroyed ∧
      onHand left_hand (runs step s ending).out = [.close fd] := by
  obtain ⟨⟨w, ffhs_, handCmd, ffhValid, inConnection_, lo, up, name, d1, d2, running_⟩, cbs', ph⟩ := s
  obtain ⟨addr, handle, inConncetion_, pollingThread_, dev, last, hands_, ring, conns⟩ := w
  obtain ⟨hph, hrun, hv, ⟨c, hc, hcin, hudp⟩, hin, -, -⟩ := h
  obtain ⟨hth, hleap, -⟩ := hp
  simp only at hph hrun hv hc hin hth hleap
  subst hph hrun hv hc hin hth hleap
  obtain ⟨⟨sa, fd, ip, port, uin, fds⟩, hcmd, idx, cin, clo, cup⟩ := c
  simp only at hcin hudp
  subst hcin hudp
  exact ⟨_, _, rfl, rfl, rfl⟩

/-- A flat left hand: the thumb lies along the palm. -/
def flat : LEAP_HAND ℝ :=
  ⟨.eLeapHandType_Left, 1, ⟨⟨0, -1, 0⟩, ⟨0, 0, -1⟩⟩, fun _ => ⟨fun _ => ⟨⟨0, 0, 0⟩, ⟨0, 0, -1⟩⟩⟩⟩

def event (hands : List (LEAP_HAND ℝ)) : LEAP_TRACKING_EVENT ℝ := ⟨⟨1, 0⟩, 1, hands.length, hands, 90, rfl⟩

/-- Sixty frames with the flat hand, one iteration, and `q`. -/
def flatSession : List (Act ℝ) :=
  opening ++ (List.replicate 60 (event [flat])).flatMap polled ++ List.replicate 4 .exec ++ ending

/-- Its palm angle is a right angle in degrees. -/
theorem flat_thumbToPalm : 0 < thumbToPalm (palmNormal flat) (flat.digits 0) := by
  have hn : palmNormal flat = ⟨0, -1, 0⟩ := by
    norm_num [palmNormal, flat, Vector3.ofLeap, Vector3.normalized, Vector3.magnitudeSquared, Vector3.scale, LEAP_EPSILON,
      Libm.sqrt]
  rw [hn]
  have hacos : ((flat.digits 0).bones middleBone).direction.angleToPlane ⟨0, -1, 0⟩ = Real.arccos 0 := by
    simp [flat, Vector3.angleToPlane, LEAP_BONE.direction, Vector3.dot, Libm.acos]
  unfold thumbToPalm
  rw [hacos, Real.arccos_zero]
  unfold r2d
  positivity

/-- One iteration that copied the flat hand sends its palm angle to the left hand. -/
theorem flat_iteration {task : LpV2SyncFFH ℝ} {c : FfhCtrl ℝ} (hv : task.isValid left_hand = .ok true)
    (hc : task.ffhs_[left_hand]? = some (some c)) (hlo : Covers task.lowerLimits_) (hup : Covers task.upperLimits_) :
    ∃ cmd, 0 < cmd.get 0 3 ∧ task.iterateHands [flat] =
      ⟨[.udp left_hand (.sendto c.udp_.sockfd_ c.udp_.server_addr cmd)],
        .ok ((task.setHandCmd cmd).setFfh left_hand { c with handCmd_ := cmd }, .SUCCESS)⟩ := by
  have hleft : ∃ hand ∈ [flat], hand.type = .eLeapHandType_Left := ⟨flat, List.mem_singleton.mpr rfl, rfl⟩
  rw [(iterateHands_eq task [flat]).1 (Or.inr hleft)]
  have ho := publish_outcome task left_hand (chosen task.handCmd [flat])
  obtain ⟨cmd, hcmd⟩ := (postProcess_returns_iff _ _ (chosen task.handCmd [flat])).mpr ⟨hlo, hup⟩
  have hconf : ¬ flat.confidence < 3 / 10 := by norm_num [flat]
  have hfirst : [flat].find? isLeft = some flat := rfl
  have hpalm := (chosen_palm task.handCmd hfirst hconf).1
  rw [if_neg (not_lt.mpr flat_thumbToPalm.le)] at hpalm
  refine ⟨cmd, by rw [postProcess_palm hcmd, hpalm]; exact flat_thumbToPalm, ?_⟩
  generalize (task.setHandCmd (chosen task.handCmd [flat])).publishFfhCmd left_hand = x at ho ⊢
  cases ho with
  | off hoff => rw [hv] at hoff; cases hoff
  | sent c' cmd' _ hc' hcmd' =>
    obtain rfl := ffh_eq hc hc'
    obtain rfl : cmd = cmd' := by rw [hcmd] at hcmd'; exact Except.ok.inj hcmd'
    rfl
  | fault e hn => exact absurd hcmd (hn c cmd hv hc)

theorem iteration_turning {s : Prog ℝ} (h : Turning s) (hleap : s.task.lmWrap.inConncetion_ = true)
    (hhands : s.task.lmWrap.hands_ = [flat]) :
    ∃ t fd sa cmd, (runs step s (List.replicate 4 .exec)).res = .ok t ∧
      t.task.lmWrap = s.task.lmWrap ∧ Turning t ∧ 0 < cmd.get 0 3 ∧
      (runs step s (List.replicate 4 .exec)).out = [.udp left_hand (.sendto fd sa cmd)] := by
  obtain ⟨c, hc, hcin, hudp⟩ := h.ffh
  have hv : s.task.isValid left_hand = .ok true := by
    unfold LpV2SyncFFH.isValid
    rw [h.valid]; rfl
  have hc0 : s.task.ffhs_[left_hand]? = some (some c) := by rw [hc]; rfl
  obtain ⟨cmd, hpos, hit⟩ := flat_iteration hv hc0 (by rw [h.lower]; decide) (by rw [h.upper]; decide)
  have hrun : runs step s (List.replicate 4 .exec) =
      ⟨[.udp left_hand (.sendto c.udp_.sockfd_ c.udp_.server_addr cmd)],
        .ok { s with task := (s.task.setHandCmd cmd).setFfh left_hand { c with handCmd_ := cmd } }⟩ := by
    obtain ⟨task, cbs, ph⟩ := s
    obtain rfl : ph = .demo ⟨.waiting, .top, .top⟩ := h.phase
    have hl : task.lmWrap.inConncetion_ = true := hleap
    have htop : step ⟨task, cbs, .demo ⟨.waiting, .top, .top⟩⟩ .exec = pure ⟨task, cbs, .demo ⟨.waiting, .top, .check⟩⟩ := by
      simp [step, demoStep, execStep, show task.running_ = true from h.running]
    have hrow := exec_runIteration task cbs (d := ⟨.waiting, .top, .check⟩) rfl
    rw [if_pos hl, runIteration_connected hl, show task.lmWrap.hands = [flat] from hhands, hit] at hrow
    rw [List.replicate_succ, runs, htop, pure_bind]
    exact hrow
  rw [hrun]
  refine ⟨_, _, _, cmd, rfl, rfl, ⟨h.phase, h.running, h.valid, ⟨{ c with handCmd_ := cmd }, ?_, hcin, hudp⟩, h.connected,
    h.lower, h.upper⟩, hpos, rfl⟩
  show s.task.ffhs_.set 0 _ = _
  rw [hc]; rfl

/-- The demo ends after an iteration with the flat hand: the thumb is left turned out. -/
theorem a_pose_is_kept :
    ∃ (task : LpV2SyncFFH ℝ) (t : Prog ℝ), (make 0 blank (shipped "leap_motion_demo")).res = .ok task ∧
      (program 0 blank (shipped "leap_motion_demo") flatSession).res = .ok t ∧ t.phase = .destroyed ∧
      validHand (shipped (F := ℝ) "leap_motion_demo") left_hand = true ∧
      ¬ LeftOpen task.lowerLimits_ task.upperLimits_ left_hand
        (program 0 blank (shipped "leap_motion_demo") flatSession).out := by
  obtain ⟨⟨task, cbs, ph⟩, hs, hturn, hpoll⟩ := opening_turning
  obtain rfl : ph = .demo ⟨.waiting, .top, .top⟩ := hturn.phase
  obtain ⟨made, hmade, -⟩ := bind_res_ok.mp hs
  -- the frames, the iteration, the end
  obtain ⟨w, hw, hwpoll, hhands⟩ :=
    poll_frames ⟨.waiting, .top, .top⟩ (f := event [flat]) hpoll (by decide) (by decide) 60
  have hturn' : Turning ⟨{ task with lmWrap := w }, cbs, .demo ⟨.waiting, .top, .top⟩⟩ :=
    ⟨rfl, hturn.running, hturn.valid, hturn.ffh, hturn.connected, hturn.lower, hturn.upper⟩
  obtain ⟨u, fd, sa, cmd, hu, huw, hut, hpos, huout⟩ := iteration_turning hturn' hwpoll.connected (hhands le_rfl)
  obtain ⟨t, fd', ht, hgone, hclose⟩ := ending_closes hut (by rw [huw]; exact hwpoll)
  have hframes : (program 0 blank (shipped "leap_motion_demo")
      (opening ++ (List.replicate 60 (event [flat])).flatMap polled)).res =
        .ok ⟨{ task with lmWrap := w }, cbs, .demo ⟨.waiting, .top, .top⟩⟩ := by
    rw [program_append]
    exact bind_res_ok.mpr ⟨_, hs, hw⟩
  rw [flatSession, program_append, program_append, bind_assoc, bind_of_ok hframes, bind_of_ok hu, huout]
  refine ⟨made, t, hmade, ht, hgone, rfl, ?_⟩
  intro ⟨es, fd'', cmd', hclosed, hlast, hopen⟩
  rw [onHand_append, onHand_append, hclose, ← List.append_assoc] at hclosed
  obtain ⟨rfl, -⟩ := List.append_inj' hclosed rfl
  have hsent : lastCommand (onHand left_hand [.udp left_hand (.sendto fd sa cmd)]) = some cmd := rfl
  rw [lastCommand_append, hsent] at hlast
  cases hlast
  rcases hopen with rfl | hpost
  · exact lt_irrefl _ hpos
  · rw [postProcess_palm hpost] at hpos
    exact lt_irrefl _ hpos

end Program

end LeapSyncFfh
