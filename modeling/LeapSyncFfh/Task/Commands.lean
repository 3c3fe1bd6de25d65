/-
  LeapSyncFfh.Task.Commands — rules about the commands sent, hand by hand.

  The loops of `connectFFH` and `disconnectFFH` do their operation once on each valid hand
  when they succeed, and nothing on the others (`overHands_each`, `overHands_other`).

  `K h cmd` is any property of the commands of hand `h`. `Meets K`: an output that sends a
  command sends one with `K`. `Holding K`: so does what a connected controller holds. The
  rules give both for each operation of the task; an operation on hand `i` needs nothing
  about what `i` held before, only about the new command.

  `Mirror tr task`: after the outputs `tr`, a connected controller holds the last command
  its hand was sent. So a property of the last command sent is one of the state.
-/

import LeapSyncFfh.Task.Iteration

namespace LeapSyncFfh

open Cells Emit

variable {F : Type}

/-- The last command among the calls. -/
def lastCommand (es : List (UdpEv F)) : Option (udp_hand_cmd F) := (es.filterMap UdpEv.command).getLast?

theorem lastCommand_append (es fs : List (UdpEv F)) : lastCommand (es ++ fs) = (lastCommand fs).or (lastCommand es) := by
  simp [lastCommand]

namespace LpV2SyncFFH

/-- The calls made for hand `h`, in order. -/
def onHand (h : Nat) (evs : List (Ev F)) : List (UdpEv F) := evs.filterMap fun
  | .udp hand e => if hand = h then some e else none
  | .leap _ => none

@[simp] theorem onHand_nil (h : Nat) : onHand h ([] : List (Ev F)) = [] := rfl

@[simp] theorem onHand_append (h : Nat) (es fs : List (Ev F)) : onHand h (es ++ fs) = onHand h es ++ onHand h fs := by
  simp [onHand]

@[simp] theorem onHand_udp_same (h : Nat) (es : List (UdpEv F)) : onHand h (es.map (.udp h)) = es := by
  simp [onHand, List.filterMap_map]

@[simp] theorem onHand_udp_other {h i : Nat} (hne : h ≠ i) (es : List (UdpEv F)) : onHand h (es.map (.udp i)) = [] := by
  simp [onHand, List.filterMap_map, Ne.symm hne]

@[simp] theorem onHand_leap (h : Nat) (es : List (LeapEv F)) : onHand h (es.map .leap) = [] := by
  simp [onHand, List.filterMap_map]

/-! ## The loop over the hands -/

/-- It leaves the other hands as they are. -/
theorem overHands_other {op : Nat → FfhCtrl F → Emit (UdpEv F) Fault (FfhCtrl F × AR_RETURN_VALUE)} :
    ∀ {is : List Nat} {task t : LpV2SyncFFH F} {ret : AR_RETURN_VALUE}, (overHands op is task).res = .ok (t, ret) →
      ∀ h, h ∉ is → t.ffhs_[h]? = task.ffhs_[h]? ∧ onHand h (overHands op is task).out = [] := by
  intro is
  induction is with
  | nil => intro task t ret ht h _; cases ht; exact ⟨rfl, rfl⟩
  | cons i is ih =>
    intro task t ret ht h hh
    have hne : h ≠ i := fun e => hh (e ▸ List.mem_cons_self)
    have hrest : h ∉ is := fun hm => hh (List.mem_cons_of_mem _ hm)
    rcases overHands_cons ht with ⟨-, ht, hout⟩ | ⟨c, c', r, -, -, -, ⟨-, rfl, -, hout⟩ | ⟨-, ht, hout⟩⟩
    · rw [hout]; exact ih ht h hrest
    · rw [hout]; exact ⟨setFfh_other hne, onHand_udp_other hne _⟩
    · obtain ⟨h1, h2⟩ := ih ht h hrest
      rw [hout, onHand_append, onHand_udp_other hne, h2]
      exact ⟨h1.trans (setFfh_other hne), rfl⟩

/-- A call that succeeded has done its operation once on each valid hand. -/
theorem overHands_each {op : Nat → FfhCtrl F → Emit (UdpEv F) Fault (FfhCtrl F × AR_RETURN_VALUE)} :
    ∀ {is : List Nat} {task t : LpV2SyncFFH F}, is.Nodup → (overHands op is task).res = .ok (t, .SUCCESS) →
      ∀ h ∈ is, task.isOn h = true → ∃ c c', task.ffhs_[h]? = some (some c) ∧ (op h c).res = .ok (c', .SUCCESS) ∧
        t.ffhs_[h]? = some (some c') ∧ onHand h (overHands op is task).out = (op h c).out := by
  intro is
  induction is with
  | nil => intro task t _ _ h hh; cases hh
  | cons i is ih =>
    intro task t hnd ht h hh hon
    obtain ⟨hi, hnd⟩ := List.nodup_cons.mp hnd
    rcases overHands_cons ht with ⟨hoff, ht, hout⟩ | ⟨c, c', r, -, hc, hres, ⟨-, -, hret, -⟩ | ⟨rfl, ht, hout⟩⟩
    · rcases List.mem_cons.mp hh with rfl | hh
      · exact absurd (hoff.symm.trans hon) Bool.false_ne_true
      · rw [hout]; exact ih hnd ht h hh hon
    · cases hret
    · rw [hout, onHand_append]
      rcases List.mem_cons.mp hh with rfl | hh
      · -- its round; the rest of the loop does not touch it
        obtain ⟨hkeep, hno⟩ := overHands_other ht h hi
        exact ⟨c, c', hc, hres, hkeep.trans (setFfh_same hc), by rw [onHand_udp_same, hno, List.append_nil]⟩
      · have hne : h ≠ i := fun e => hi (e ▸ hh)
        obtain ⟨d, d', hd, hop, hd', hcalls⟩ := ih hnd ht h hh hon
        rw [setFfh_other hne] at hd
        exact ⟨d, d', hd, hop, hd', by rw [onHand_udp_other hne, hcalls, List.nil_append]⟩

/-- Where no operation fails, the loop does not. -/
theorem overHands_succeeds {op : Nat → FfhCtrl F → Emit (UdpEv F) Fault (FfhCtrl F × AR_RETURN_VALUE)}
    (hop : ∀ i c c' r, (op i c).res = .ok (c', r) → r = .SUCCESS) :
    ∀ {is : List Nat} {task t : LpV2SyncFFH F} {ret : AR_RETURN_VALUE}, (overHands op is task).res = .ok (t, ret) →
      ret = .SUCCESS := by
  intro is
  induction is with
  | nil => intro task t ret ht; cases ht; rfl
  | cons i is ih =>
    intro task t ret ht
    rcases overHands_cons ht with ⟨-, ht, -⟩ | ⟨c, c', r, -, -, hres, ⟨hr, -⟩ | ⟨-, ht, -⟩⟩
    · exact ih ht
    · exact absurd (hop i c c' r hres) hr
    · exact ih ht

/-! ## A property of every command -/

section Holding

variable (K : Nat → udp_hand_cmd F → Prop)

/-- A command that the output sends has `K`. -/
def Meets (e : Ev F) : Prop := ∀ h cmd, command e = some (h, cmd) → K h cmd

/-- What a connected controller holds has `K`. -/
def Holding (task : LpV2SyncFFH F) : Prop :=
  ∀ h c, task.ffhs_[h]? = some (some c) → c.inConnection_ = true → K h c.handCmd_

variable {K}

theorem Holding.mono {K' : Nat → udp_hand_cmd F → Prop} {task : LpV2SyncFFH F} (h : Holding K task)
    (hk : ∀ i cmd, K i cmd → K' i cmd) : Holding K' task := fun i c hc hin => hk i _ (h i c hc hin)

theorem meets_leap (e : LeapEv F) : Meets K (.leap e) := fun _ _ h => by cases h

/-- What hand `i` held before does not matter. -/
theorem holding_setFfh (task : LpV2SyncFFH F) {i : Nat} {c : FfhCtrl F}
    (h : Holding (fun k cmd => k ≠ i → K k cmd) task) (hc : c.inConnection_ = true → K i c.handCmd_) :
    Holding K (task.setFfh i c) := by
  intro k d hd hin
  rcases ffhs_setFfh hd with ⟨rfl, rfl⟩ | ⟨hne, hd⟩
  · exact hc hin
  · exact h k d hd hin hne

/-- The same rule for an operation of one controller. -/
def CtrlMeets (k : udp_hand_cmd F → Prop) {α : Type} (x : Emit (UdpEv F) Fault (FfhCtrl F × α)) : Prop :=
  Sat (fun e => ∀ cmd, e.command = some cmd → k cmd) (fun r => r.1.inConnection_ = true → k r.1.handCmd_) x

/-- An operation that ends by sending what it leaves. -/
theorem ctrlMeets_sent {k : udp_hand_cmd F → Prop} {α : Type} {c : FfhCtrl F} {fd : Int}
    {addr : Option sockaddr_in} {a : α} (hk : k c.handCmd_) :
    CtrlMeets k (⟨[.sendto fd addr c.handCmd_], .ok (c, a)⟩ : Emit (UdpEv F) Fault (FfhCtrl F × α)) := by
  refine ⟨fun e he cmd hcmd => ?_, fun r hr => by cases hr; exact fun _ => hk⟩
  rw [List.mem_singleton.mp he] at hcmd
  cases hcmd; exact hk

theorem withFfh_holding {α : Type} {task : LpV2SyncFFH F} {i : Nat}
    {op : FfhCtrl F → Emit (UdpEv F) Fault (FfhCtrl F × α)} (h : Holding (fun k cmd => k ≠ i → K k cmd) task)
    (hop : ∀ c, task.ffhs_[i]? = some (some c) → CtrlMeets (K i) (op c)) :
    Sat (Meets K) (fun r => Holding K r.1) (task.withFfh i op) := by
  refine withFfh_sat fun c hc => sat_mono (hop c hc) (fun e he => ?_) fun r hr => holding_setFfh task h hr
  intro k cmd hk
  cases e with
  | sendto fd addr data => cases hk; exact he _ rfl
  | socket fd => cases hk
  | close fd => cases hk

theorem overHands_holding {op : Nat → FfhCtrl F → Emit (UdpEv F) Fault (FfhCtrl F × AR_RETURN_VALUE)}
    (hop : ∀ i c, (c.inConnection_ = true → K i c.handCmd_) → CtrlMeets (K i) (op i c)) :
    ∀ {is : List Nat} {task : LpV2SyncFFH F}, Holding K task →
      Sat (Meets K) (fun r => Holding K r.1) (overHands op is task) := by
  intro is
  induction is with
  | nil => intro task h; exact sat_pure h
  | cons i is ih =>
    intro task h
    unfold overHands
    apply sat_bind (sat_lift (Q := fun _ => True) fun _ _ => trivial)
    intro b _
    split
    · exact ih h
    · apply sat_bind (withFfh_holding (h.mono fun k cmd hk _ => hk) fun c hc => hop i c (h i c hc))
      intro r hr
      split
      · exact sat_pure hr
      · exact ih hr

theorem connectFFH_holding [Ring F] (hz : ∀ i, K i .zero) {task : LpV2SyncFFH F} (h : Holding K task)
    (socks : Nat → Int) : Sat (Meets K) (fun r => Holding K r.1) (task.connectFFH socks) := by
  refine overHands_holding (fun i c hc => ?_) h
  by_cases hs : socks i < 0
  · rw [FfhCtrl.connect_refused c hs]
    refine ⟨fun e he cmd hcmd => ?_, fun r hr => by cases hr; exact hc⟩
    rcases List.mem_cons.mp he with rfl | he
    · cases hcmd
    · rw [List.mem_singleton.mp he] at hcmd; cases hcmd
  · rw [FfhCtrl.connect_connected c (not_lt.mp hs)]
    refine ⟨fun e he cmd hcmd => ?_, fun r hr => by cases hr; exact fun _ => hz i⟩
    rcases List.mem_cons.mp he with rfl | he
    · cases hcmd
    · rw [List.mem_singleton.mp he] at hcmd; cases hcmd; exact hz i

theorem loose_holding : Loose (Holding (F := F) K) := ⟨fun _ _ h => h, fun _ _ h => h⟩

theorem connect_holding [Ring F] (hz : ∀ i, K i .zero) {task : LpV2SyncFFH F} (h : Holding K task)
    (r : ConnectAnswers) : Sat (Meets K) (fun a => Holding K a.1) (task.connect r) := by
  refine (connect_within (P := fun _ => True) loose_holding h ?_ fun u hu => ?_).sat
  · exact ⟨fun e _ => meets_leap e, fun _ _ => trivial, fun _ _ => trivial⟩
  · exact (connectFFH_holding hz hu r.socks).within

theorem sendTo_holding {task : LpV2SyncFFH F} {i : Nat} {cmd : udp_hand_cmd F}
    (h : Holding (fun k cmd => k ≠ i → K k cmd) task) (hk : K i cmd) : Sat (Meets K) (Holding K) (task.sendTo i cmd) := by
  refine sat_bind (withFfh_holding h fun c _ => ⟨fun e he d hd => ?_, fun r hr => by cases hr; exact fun _ => hk⟩)
    fun r hr => sat_pure hr
  have he' : e ∈ [UdpEv.sendto c.udp_.sockfd_ c.udp_.server_addr cmd] := he
  rw [List.mem_singleton.mp he'] at hd
  cases hd; exact hk

theorem resetFfh_holding [Zero F] {task : LpV2SyncFFH F} {i : Nat} (h : Holding (fun k cmd => k ≠ i → K k cmd) task)
    (hz : K i .zero) : Sat (Meets K) (Holding K) (task.resetFfh i) := by
  refine sat_bind (withFfh_holding h fun c _ => ⟨fun e he d hd => ?_, fun r hr => by cases hr; exact fun _ => hz⟩)
    fun r hr => sat_pure hr
  have he' : e ∈ [UdpEv.sendto c.udp_.sockfd_ c.udp_.server_addr .zero] := he
  rw [List.mem_singleton.mp he'] at hd
  cases hd; exact hz

/-- Publishing: what matters is the post-processed command. -/
theorem publish_holding [Ring F] [LinearOrder F] {task : LpV2SyncFFH F} {i : Nat} {pre : udp_hand_cmd F}
    (h : Holding (fun k cmd => task.isOn i = true → k ≠ i → K k cmd) task) (hoff : task.isOn i = false → Holding K task)
    (hk : ∀ c cmd, task.isValid i = .ok true → task.ffhs_[i]? = some (some c) →
      postProcessHandCmd task.lowerLimits_ task.upperLimits_ pre = .ok cmd → K i cmd) :
    Sat (Meets K) (Holding K) ((task.setHandCmd pre).publishFfhCmd i) := by
  have ho := publish_outcome task i pre
  generalize (task.setHandCmd pre).publishFfhCmd i = x at ho ⊢
  cases ho with
  | off hv => exact sat_pure (hoff (isOn_of hv))
  | sent c cmd hv hc hp =>
    refine ⟨fun e he => ?_, fun t ht => ?_⟩
    · rw [List.mem_singleton.mp he]
      intro k d hd
      cases hd; exact hk c cmd hv hc hp
    · cases ht
      exact holding_setFfh (task.setHandCmd cmd) (fun k d hd hin => h k d hd hin (isOn_of hv)) fun _ => hk c cmd hv hc hp
  | fault e _ => exact sat_fail e

theorem testFlow_holding {task : LpV2SyncFFH F} (h : Holding K task) :
    Sat (Meets K) (fun r => Holding K r.1) task.testFlow := by
  apply withFfh_holding (h.mono fun k cmd hk _ => hk)
  intro c hc
  unfold FfhCtrl.testFlow
  split <;> exact sat_pure (h left_hand c hc)

/-- A read of `testFlow` sends nothing, the zero command, or the entry it completes. -/
theorem readFlow_holding [DivisionRing F] {task : LpV2SyncFFH F} {t : FfhCtrl.Flow} {word : Option String}
    (h : Holding K task) (hz : K left_hand .zero)
    (he : ∀ c strs i j a, task.ffhs_[left_hand]? = some (some c) → t.completed word = some strs →
      FfhCtrl.Entry strs i j a → K left_hand (c.handCmd_.set i j a)) :
    Sat (Meets K) (fun r => Holding K r.1) (task.readFlow t word) := by
  apply withFfh_holding (h.mono fun k cmd hk _ => hk)
  intro c hc
  have ho := c.flowStep_outcome t word
  generalize c.flowStep t word = x at ho
  cases ho with
  | quit _ => exact sat_pure (h left_hand c hc)
  | reset next _ => exact ctrlMeets_sent (c := { c with handCmd_ := .zero }) hz
  | next next _ => exact sat_pure (h left_hand c hc)
  | entered strs i j a next hs hent => 
    exact ctrlMeets_sent (c := { c with handCmd_ := c.handCmd_.set i j a }) (he c strs i j a hc hs hent)
  | fault strs e _ _ => exact sat_fail e

/-- A statement of the self check: a joint's command with the angle, then as it is left. -/
theorem checkStep_holding [Zero F] {task : LpV2SyncFFH F} {tmp_cmd : udp_hand_cmd F} {s : CheckStep}
    (h : Holding (fun k cmd => k ≠ left_hand → K k cmd) task) (hclear : s = .clear → Holding K task)
    (hz : s = .reset → K left_hand .zero)
    (hj : ∀ c second id j a, s = .joint second id j → task.ffhs_[left_hand]? = some (some c) →
      task.checkAngle second id j = .ok a → K left_hand (tmp_cmd.set id j a) ∧
        K left_hand (if j ≠ 2 then (tmp_cmd.set id j a).set id j 0 else tmp_cmd.set id j a)) :
    Sat (Meets K) (fun r => Holding K r.1) (task.checkStep tmp_cmd s) := by
  cases s with
  | reset => exact sat_bind (resetFfh_holding h (hz rfl)) fun t ht => sat_pure ht
  | clear => exact sat_pure (hclear rfl)
  | joint second id j =>
    by_cases hn : ∃ c, task.ffhs_[left_hand]? = some (some c)
    · obtain ⟨c, hc⟩ := hn
      apply sat_bind (sat_lift fun a ha => hj c second id j a rfl hc ha)
      intro a ha
      apply sat_bind (sendTo_holding h ha.1)
      intro t ht
      refine sat_bind (sendTo_holding (ht.mono fun k cmd hk _ => hk) ha.2) fun u hu => sat_pure hu
    · apply sat_bind (sat_lift (Q := fun _ => True) fun _ _ => trivial)
      intro a _
      obtain ⟨e, he⟩ := sendTo_none (fun c hc => hn ⟨c, hc⟩) (tmp_cmd.set id j a)
      simp only [he, fail_bind]
      exact sat_fail e

theorem disconnectFFH_holding {task : LpV2SyncFFH F} (h : Holding K task) :
    Sat (Meets K) (fun r => Holding K r.1) task.disconnectFFH := by
  refine overHands_holding (fun i c _ => ?_) h
  rw [FfhCtrl.disconnect_closed]
  refine ⟨fun e he cmd hcmd => ?_, fun r hr => by cases hr; exact fun hin => by cases hin⟩
  rw [List.mem_singleton.mp he] at hcmd
  cases hcmd

/-- A controller that goes away sends the zero command or none. -/
theorem destroyFfh_meets [Zero F] (hz : ∀ i, K i .zero) (i : Nat) (c : Option (FfhCtrl F)) :
    Sat (Meets K) (fun _ => True) (destroyFfh i c) := by
  cases c with
  | none => exact sat_pure trivial
  | some c =>
    refine sat_mapOut ⟨fun e he k cmd hcmd => ?_, fun _ _ => trivial⟩
    unfold FfhCtrl.destroy UdpClient.destroy at he
    split at he
    · have he' : e ∈ [UdpEv.sendto c.udp_.sockfd_ c.udp_.server_addr .zero, .close c.udp_.sockfd_] := he
      rcases List.mem_cons.mp he' with rfl | he'
      · cases hcmd; exact hz i
      · rw [List.mem_singleton.mp he'] at hcmd; cases hcmd
    · split at he
      · have he' : e ∈ [UdpEv.close c.udp_.sockfd_] := he
        rw [List.mem_singleton.mp he'] at hcmd; cases hcmd
      · cases he

theorem destroy_meets [Zero F] (hz : ∀ i, K i .zero) {task : LpV2SyncFFH F} (h : Holding K task) :
    Sat (Meets K) (fun _ => True) task.destroy := by
  have hleap : ∀ u : LpV2SyncFFH F, Within (fun e => Meets K (.leap e)) (fun _ => True) (fun _ => True)
      u.lmWrap.disconnect := fun _ => ⟨fun e _ => meets_leap e, fun _ _ => trivial, fun _ _ => trivial⟩
  have hdisc := disconnect_within loose_holding h (hleap task) fun u hu => (disconnectFFH_holding hu).within
  exact (destroy_within h hdisc (fun i c => (destroyFfh_meets hz i c).within) fun u _ => hleap u).sat

end Holding

/-! ## The last command sent is the one held -/

/-- A connected controller holds the last command its hand was sent. -/
def Mirror (tr : List (Ev F)) (task : LpV2SyncFFH F) : Prop :=
  ∀ h c, task.ffhs_[h]? = some (some c) → c.inConnection_ = true → lastCommand (onHand h tr) = some c.handCmd_

/-- A controller that is connected now was so before, unless it was sent a command. -/
structure Mirrors (c c' : FfhCtrl F) (es : List (UdpEv F)) : Prop where
  sent : ∀ cmd, lastCommand es = some cmd → c'.handCmd_ = cmd
  unsent : lastCommand es = none → c'.inConnection_ = true → c.inConnection_ = true ∧ c'.handCmd_ = c.handCmd_

theorem mirror_setFfh (task : LpV2SyncFFH F) {tr : List (Ev F)} {i : Nat} {c c' : FfhCtrl F} {es : List (UdpEv F)}
    (h : Mirror tr task) (hc : task.ffhs_[i]? = some (some c)) (hm : Mirrors c c' es) :
    Mirror (tr ++ es.map (.udp i)) (task.setFfh i c') := by
  intro k d hd hin
  rw [onHand_append, lastCommand_append]
  rcases ffhs_setFfh hd with ⟨rfl, rfl⟩ | ⟨hne, hd⟩
  · rw [onHand_udp_same]
    cases hl : lastCommand es with
    | some cmd => rw [hm.sent cmd hl]; rfl
    | none =>
      obtain ⟨hin', e⟩ := hm.unsent hl hin
      rw [h k c hc hin', e]; rfl
  · rw [onHand_udp_other hne, h k d hd hin]; rfl

/-- Outputs for no hand, and the same controllers. -/
theorem mirror_quiet {tr evs : List (Ev F)} {task t : LpV2SyncFFH F} (h : Mirror tr task)
    (hq : ∀ k, onHand k evs = []) (hf : t.ffhs_ = task.ffhs_) : Mirror (tr ++ evs) t := by
  intro k c hc hin
  rw [onHand_append, hq k, List.append_nil]
  exact h k c (hf ▸ hc) hin

theorem mirror_withFfh {α : Type} {tr : List (Ev F)} {task t : LpV2SyncFFH F} {i : Nat} {a : α}
    {op : FfhCtrl F → Emit (UdpEv F) Fault (FfhCtrl F × α)} (h : Mirror tr task)
    (hop : ∀ c c' a, (op c).res = .ok (c', a) → Mirrors c c' (op c).out) (ht : (task.withFfh i op).res = .ok (t, a)) :
    Mirror (tr ++ (task.withFfh i op).out) t := by
  obtain ⟨c, c', hc, hres, rfl, hout⟩ := withFfh_returned ht
  rw [hout]
  exact mirror_setFfh task h hc (hop c c' a hres)

/-- A call that sends what it leaves in the controller. -/
theorem mirrors_sent {c c' : FfhCtrl F} (fd : Int) (addr : Option sockaddr_in) :
    Mirrors c c' [.sendto fd addr c'.handCmd_] := ⟨fun cmd hl => (by cases hl; rfl), fun hl => by cases hl⟩

theorem mirrors_refl (c : FfhCtrl F) : Mirrors c c [] := ⟨fun cmd hl => (by cases hl), fun _ hin => ⟨hin, rfl⟩⟩

theorem mirror_sendTo {tr : List (Ev F)} {task t : LpV2SyncFFH F} {i : Nat} {cmd : udp_hand_cmd F} (h : Mirror tr task)
    (ht : (task.sendTo i cmd).res = .ok t) : Mirror (tr ++ (task.sendTo i cmd).out) t := by
  obtain ⟨⟨u, a⟩, hu, ht, hout⟩ := bind_ok_split ht
  cases ht
  rw [show (task.sendTo i cmd).out = _ from hout, pure_out, List.append_nil]
  exact mirror_withFfh h (fun c c' a hop => by cases hop; exact mirrors_sent _ _) hu

theorem mirror_resetFfh [Zero F] {tr : List (Ev F)} {task t : LpV2SyncFFH F} {i : Nat} (h : Mirror tr task)
    (ht : (task.resetFfh i).res = .ok t) : Mirror (tr ++ (task.resetFfh i).out) t := by
  obtain ⟨⟨u, a⟩, hu, ht, hout⟩ := bind_ok_split ht
  cases ht
  rw [show (task.resetFfh i).out = _ from hout, pure_out, List.append_nil]
  exact mirror_withFfh h (fun c c' a hop => by cases hop; exact mirrors_sent _ _) hu

theorem mirror_testFlow {tr : List (Ev F)} {task t : LpV2SyncFFH F} {next : Option FfhCtrl.Flow} (h : Mirror tr task)
    (ht : (task.testFlow).res = .ok (t, next)) : Mirror (tr ++ (task.testFlow).out) t := by
  refine mirror_withFfh h (fun c c' a hop => ?_) ht
  unfold FfhCtrl.testFlow at hop
  split at hop <;> cases hop <;> exact mirrors_refl c

theorem mirror_readFlow [DivisionRing F] {tr : List (Ev F)} {task t : LpV2SyncFFH F} {f : FfhCtrl.Flow}
    {word : Option String} {next : Option FfhCtrl.Flow} (h : Mirror tr task)
    (ht : (task.readFlow f word).res = .ok (t, next)) : Mirror (tr ++ (task.readFlow f word).out) t := by
  refine mirror_withFfh h (fun c c' a hop => ?_) ht
  have ho := c.flowStep_outcome f word
  rw [bind_pure_out]
  generalize c.flowStep f word = x at ho hop ⊢
  cases ho with
  | quit _ => cases hop; exact mirrors_refl c
  | reset _ _ => cases hop; exact mirrors_sent _ _
  | next _ _ => cases hop; exact mirrors_refl c
  | entered _ i j a _ _ _ => cases hop; exact mirrors_sent _ _
  | fault _ e _ _ => cases hop

theorem mirror_publish [Ring F] [LinearOrder F] {tr : List (Ev F)} {task t : LpV2SyncFFH F} {i : Nat}
    {pre : udp_hand_cmd F} (h : Mirror tr task) (ht : ((task.setHandCmd pre).publishFfhCmd i).res = .ok t) :
    Mirror (tr ++ ((task.setHandCmd pre).publishFfhCmd i).out) t := by
  have ho := publish_outcome task i pre
  generalize (task.setHandCmd pre).publishFfhCmd i = x at ho ht ⊢
  cases ho with
  | off _ => cases ht; exact mirror_quiet h (fun _ => rfl) rfl
  | sent c cmd _ hc _ => cases ht; exact mirror_setFfh (task.setHandCmd cmd) h hc (mirrors_sent _ _)
  | fault e _ => cases ht

theorem mirror_checkStep [Zero F] {tr : List (Ev F)} {task t : LpV2SyncFFH F} {tmp tmp' : udp_hand_cmd F} {s : CheckStep}
    (h : Mirror tr task) (ht : (task.checkStep tmp s).res = .ok (t, tmp')) :
    Mirror (tr ++ (task.checkStep tmp s).out) t := by
  cases s with
  | reset =>
    obtain ⟨u, hu, ht, hout⟩ := bind_ok_split ht
    cases ht
    rw [show (task.checkStep tmp .reset).out = _ from hout, pure_out, List.append_nil]
    exact mirror_resetFfh h hu
  | clear => cases ht; exact mirror_quiet h (fun _ => rfl) rfl
  | joint second id j =>
    obtain ⟨a, -, ht, h1⟩ := bind_ok_split ht
    obtain ⟨u, hu, ht, h2⟩ := bind_ok_split ht
    obtain ⟨v, hv, ht, h3⟩ := bind_ok_split ht
    cases ht
    rw [show (task.checkStep tmp (.joint second id j)).out = _ from h1, h2, h3, lift_out, pure_out, List.nil_append,
      List.append_nil, ← List.append_assoc]
    exact mirror_sendTo (mirror_sendTo h hu) hv

theorem mirror_connectFFH [Ring F] {socks : Nat → Int} : ∀ {is : List Nat} {tr : List (Ev F)} {task t : LpV2SyncFFH F}
    {ret : AR_RETURN_VALUE}, Mirror tr task → (overHands (fun i c => c._connect (socks i)) is task).res = .ok (t, ret) →
    Mirror (tr ++ (overHands (fun i c => c._connect (socks i)) is task).out) t := by
  have hop : ∀ i (c c' : FfhCtrl F) r, (c._connect (socks i)).res = .ok (c', r) → Mirrors c c' (c._connect (socks i)).out := by
    intro i c c' r hres
    by_cases hs : socks i < 0
    · rw [FfhCtrl.connect_refused c hs] at hres ⊢
      cases hres
      exact ⟨fun cmd hl => (by cases hl), fun _ hin => ⟨hin, rfl⟩⟩
    · rw [FfhCtrl.connect_connected c (not_lt.mp hs)] at hres ⊢
      cases hres
      exact ⟨fun cmd hl => (by cases hl; rfl), fun hl => by cases hl⟩
  intro is
  induction is with
  | nil => intro tr task t ret h ht; cases ht; exact mirror_quiet h (fun _ => rfl) rfl
  | cons i is ih =>
    intro tr task t ret h ht
    rcases overHands_cons ht with ⟨-, ht, hout⟩ | ⟨c, c', r, -, hc, hres, ⟨-, rfl, -, hout⟩ | ⟨-, ht, hout⟩⟩
    · rw [hout]; exact ih h ht
    · rw [hout]; exact mirror_setFfh task h hc (hop i c c' r hres)
    · rw [hout, ← List.append_assoc]
      exact ih (mirror_setFfh task h hc (hop i c c' r hres)) ht

/-- Outputs of the Leap wrapper. -/
theorem mirror_leap {α : Type} {tr : List (Ev F)} {task t : LpV2SyncFFH F} (h : Mirror tr task)
    (x : Emit (LeapEv F) Fault α) (hf : t.ffhs_ = task.ffhs_) : Mirror (tr ++ (mapOut Ev.leap x).out) t :=
  mirror_quiet h (fun k => onHand_leap k x.out) hf

theorem mirror_connect [Ring F] {tr : List (Ev F)} {task t : LpV2SyncFFH F} {r : ConnectAnswers} {ret : AR_RETURN_VALUE}
    (h : Mirror tr task) (ht : (task.connect r).res = .ok (t, ret)) : Mirror (tr ++ (task.connect r).out) t := by
  obtain ⟨⟨u, lret⟩, hu, ht, hout⟩ := bind_ok_split ht
  have hout' : (task.connect r).out = _ := hout
  rw [hout', ← List.append_assoc]
  have hleap : Mirror (tr ++ (task.connectLeap r).out) u := by
    unfold connectLeap at hu ⊢
    split at hu
    · rename_i hdemo
      rw [if_pos hdemo]
      obtain ⟨w, -, hw, ho⟩ := bind_ok_split hu
      cases hw
      rw [ho, pure_out, List.append_nil]
      exact mirror_leap h _ rfl
    · rename_i hdemo
      rw [if_neg hdemo]
      cases hu
      exact mirror_quiet h (fun _ => rfl) rfl
  split at ht
  · rename_i hf
    cases ht
    rw [if_pos hf]
    exact mirror_quiet hleap (fun _ => rfl) rfl
  · rename_i hf
    rw [if_neg hf]
    obtain ⟨⟨v, fret⟩, hv, ht, ho⟩ := bind_ok_split ht
    have hffh := mirror_connectFFH hleap hv
    rw [ho, ← List.append_assoc]
    split at ht
    · rename_i hs
      cases ht
      rw [if_pos hs]
      exact mirror_quiet hffh (fun _ => rfl) rfl
    · rename_i hs
      cases ht
      rw [if_neg hs]
      exact mirror_quiet hffh (fun _ => rfl) rfl

end LpV2SyncFFH

end LeapSyncFfh
