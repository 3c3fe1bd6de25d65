/-
  LeapSyncFfh.Task.Hands — what an operation on one hand's controller comes to.

  `ffhs_[i]->op` runs on the controller at `i` or faults (`withFfh_of`, `withFfh_none`);
  `Published` lists what publishing a command can come to. `Steady`: nothing but the
  command and the controllers' own commands has changed, which is so after everything
  that only sends. `connect_within`, `disconnect_within` and `destroy_within` are the rules
  for the calls that go over the hands.
-/

import LeapSyncFfh.Task.LpV2SyncFfh

namespace LeapSyncFfh

open Cells Emit

variable {F : Type}

/-- All of a controller but its command. -/
def FfhCtrl.link (c : FfhCtrl F) : UdpClient × Nat × Bool × List (List F) × List (List F) :=
  (c.udp_, c.index_, c.inConnection_, c.lowerLimits_, c.upperLimits_)

namespace LpV2SyncFFH

/-! ## One hand -/

/-- The commands among the outputs, each with its hand. -/
def command : Ev F → Option (Nat × udp_hand_cmd F)
  | .udp hand (.sendto _ _ data) => some (hand, data)
  | _ => none

def commands (evs : List (Ev F)) : List (Nat × udp_hand_cmd F) := evs.filterMap command

def setHandCmd (task : LpV2SyncFFH F) (cmd : udp_hand_cmd F) : LpV2SyncFFH F := { task with handCmd := cmd }

/-- The task with `c` at `ffhs_[i]`. -/
def setFfh (task : LpV2SyncFFH F) (i : Nat) (c : FfhCtrl F) : LpV2SyncFFH F :=
  { task with ffhs_ := task.ffhs_.set i (some c) }

theorem setFfh_same {task : LpV2SyncFFH F} {i : Nat} {c c' : FfhCtrl F} (hc : task.ffhs_[i]? = some (some c)) :
    (task.setFfh i c').ffhs_[i]? = some (some c') := by
  show (task.ffhs_.set i (some c'))[i]? = _
  rw [List.getElem?_set, if_pos rfl, if_pos (List.getElem?_eq_some_iff.mp hc).1]

theorem setFfh_other {task : LpV2SyncFFH F} {i h : Nat} {c : FfhCtrl F} (hne : h ≠ i) :
    (task.setFfh i c).ffhs_[h]? = task.ffhs_[h]? := by
  show (task.ffhs_.set i (some c))[h]? = _
  rw [List.getElem?_set, if_neg (Ne.symm hne)]

theorem ffhs_setFfh {task : LpV2SyncFFH F} {i h : Nat} {c d : FfhCtrl F} (hd : (task.setFfh i c).ffhs_[h]? = some (some d)) :
    (h = i ∧ d = c) ∨ (h ≠ i ∧ task.ffhs_[h]? = some (some d)) := by
  by_cases e : h = i
  · subst e
    have hd' : (task.ffhs_.set h (some c))[h]? = some (some d) := hd
    rw [List.getElem?_set, if_pos rfl] at hd'
    split at hd'
    · cases hd'; exact Or.inl ⟨rfl, rfl⟩
    · cases hd'
  · rw [setFfh_other e] at hd
    exact Or.inr ⟨e, hd⟩

theorem ffh_eq {task : LpV2SyncFFH F} {i : Nat} {c d : FfhCtrl F} (hc : task.ffhs_[i]? = some (some c))
    (hd : task.ffhs_[i]? = some (some d)) : c = d := Option.some.inj (Option.some.inj (hc.symm.trans hd))

theorem withFfh_of {α : Type} {task : LpV2SyncFFH F} {i : Nat} {c : FfhCtrl F} (hc : task.ffhs_[i]? = some (some c))
    (op : FfhCtrl F → Emit (UdpEv F) Fault (FfhCtrl F × α)) :
    task.withFfh i op = mapOut (.udp i) (op c) >>= fun r => pure (task.setFfh i r.1, r.2) := by
  unfold withFfh
  rw [subscript_ok.mpr hc, lift_ok_bind]
  rfl

/-- Without a controller nothing is emitted. -/
theorem withFfh_none {α : Type} {task : LpV2SyncFFH F} {i : Nat} (hn : ∀ c, task.ffhs_[i]? ≠ some (some c))
    (op : FfhCtrl F → Emit (UdpEv F) Fault (FfhCtrl F × α)) : ∃ e, task.withFfh i op = fail e := by
  unfold withFfh subscript
  split
  · rename_i x hx
    cases x with
    | none => exact ⟨.nullPointer, by rw [lift_ok_bind]⟩
    | some c => exact absurd hx (hn c)
  · exact ⟨_, lift_error_bind _ _⟩

/-- The rule for `ffhs_[i]->op`. -/
theorem withFfh_sat {α : Type} {task : LpV2SyncFFH F} {i : Nat}
    {op : FfhCtrl F → Emit (UdpEv F) Fault (FfhCtrl F × α)} {p : Ev F → Prop} {Q : LpV2SyncFFH F × α → Prop}
    (h : ∀ c, task.ffhs_[i]? = some (some c) →
      Sat (fun e => p (.udp i e)) (fun r => Q (task.setFfh i r.1, r.2)) (op c)) : Sat p Q (task.withFfh i op) := by
  by_cases hn : ∃ c, task.ffhs_[i]? = some (some c)
  · obtain ⟨c, hc⟩ := hn
    rw [withFfh_of hc]
    exact sat_bind (sat_mapOut (h c hc)) fun r hr => sat_pure hr
  · obtain ⟨e, he⟩ := withFfh_none (fun c hc => hn ⟨c, hc⟩) op
    rw [he]; exact sat_fail e

theorem sendTo_of {task : LpV2SyncFFH F} {i : Nat} {c : FfhCtrl F} (hc : task.ffhs_[i]? = some (some c))
    (cmd : udp_hand_cmd F) :
    task.sendTo i cmd = ⟨[.udp i (.sendto c.udp_.sockfd_ c.udp_.server_addr cmd)],
      .ok (task.setFfh i { c with handCmd_ := cmd })⟩ := by
  unfold sendTo
  rw [withFfh_of hc]
  rfl

/-- Without a controller `sendTo` faults. -/
theorem sendTo_none {task : LpV2SyncFFH F} {i : Nat} (hn : ∀ c, task.ffhs_[i]? ≠ some (some c)) (cmd : udp_hand_cmd F) :
    ∃ e, task.sendTo i cmd = fail e := by
  unfold sendTo
  obtain ⟨e, he⟩ := withFfh_none hn (fun c => do let c ← c.send_hand_cmd_of cmd; pure (c, ()))
  exact ⟨e, by rw [he, fail_bind]⟩

/-- What publishing `pre` for hand `i` comes to: nothing for a hand that is off, the
    post-processed command for one that is on, or a fault that sends nothing. -/
inductive Published [Ring F] [LinearOrder F] (task : LpV2SyncFFH F) (i : Nat) (pre : udp_hand_cmd F) :
    Emit (Ev F) Fault (LpV2SyncFFH F) → Prop
  | off : task.isValid i = .ok false → Published task i pre (pure (task.setHandCmd pre))
  | sent (c : FfhCtrl F) (cmd : udp_hand_cmd F) : task.isValid i = .ok true → task.ffhs_[i]? = some (some c) →
      postProcessHandCmd task.lowerLimits_ task.upperLimits_ pre = .ok cmd →
      Published task i pre ⟨[.udp i (.sendto c.udp_.sockfd_ c.udp_.server_addr cmd)],
        .ok ((task.setHandCmd cmd).setFfh i { c with handCmd_ := cmd })⟩
  | fault (e : Fault) : (∀ c cmd, task.isValid i = .ok true → task.ffhs_[i]? = some (some c) →
      postProcessHandCmd task.lowerLimits_ task.upperLimits_ pre ≠ .ok cmd) → Published task i pre (fail e)

theorem publish_outcome [Ring F] [LinearOrder F] (task : LpV2SyncFFH F) (i : Nat) (pre : udp_hand_cmd F) :
    Published task i pre ((task.setHandCmd pre).publishFfhCmd i) := by
  unfold publishFfhCmd
  rw [show (task.setHandCmd pre).isValid i = task.isValid i from rfl]
  cases hv : task.isValid i with
  | error e => rw [lift_error_bind]; exact .fault e fun _ _ h => by rw [hv] at h; cases h
  | ok b =>
    rw [lift_ok_bind]
    cases b with
    | false => exact .off hv
    | true =>
      show Published task i pre (lift (task.setHandCmd pre).postProcess >>= fun t => t.sendTo i t.handCmd)
      unfold postProcess
      rw [show (task.setHandCmd pre).handCmd = pre from rfl]
      cases hp : postProcessHandCmd task.lowerLimits_ task.upperLimits_ pre with
      | error e =>
        rw [show (postProcessHandCmd (task.setHandCmd pre).lowerLimits_ (task.setHandCmd pre).upperLimits_ pre) =
          .error e from hp]
        exact .fault e fun _ _ _ _ h => by rw [hp] at h; cases h
      | ok cmd =>
        rw [show (postProcessHandCmd (task.setHandCmd pre).lowerLimits_ (task.setHandCmd pre).upperLimits_ pre) =
          .ok cmd from hp]
        show Published task i pre ((task.setHandCmd cmd).sendTo i cmd)
        by_cases hn : ∃ c, task.ffhs_[i]? = some (some c)
        · obtain ⟨c, hc⟩ := hn
          rw [sendTo_of (show (task.setHandCmd cmd).ffhs_[i]? = some (some c) from hc) cmd]
          exact .sent c cmd hv hc hp
        · obtain ⟨e, he⟩ := sendTo_none (show ∀ c, (task.setHandCmd cmd).ffhs_[i]? ≠ some (some c) from
            fun c hc => hn ⟨c, hc⟩) cmd
          rw [he]
          exact .fault e fun c _ _ hc _ => hn ⟨c, hc⟩

/-- A call through `ffhs_[i]` that returned. -/
theorem withFfh_returned {α : Type} {task t : LpV2SyncFFH F} {i : Nat} {a : α}
    {op : FfhCtrl F → Emit (UdpEv F) Fault (FfhCtrl F × α)} (h : (task.withFfh i op).res = .ok (t, a)) :
    ∃ c c', task.ffhs_[i]? = some (some c) ∧ (op c).res = .ok (c', a) ∧ t = task.setFfh i c' ∧
      (task.withFfh i op).out = (op c).out.map (.udp i) := by
  by_cases hn : ∃ c, task.ffhs_[i]? = some (some c)
  · obtain ⟨c, hc⟩ := hn
    rw [withFfh_of hc] at h ⊢
    obtain ⟨⟨c', a'⟩, hop, h⟩ := bind_res_ok.mp h
    cases h
    exact ⟨c, c', hc, hop, rfl, by rw [bind_pure_out]; rfl⟩
  · obtain ⟨e, he⟩ := withFfh_none (fun c hc => hn ⟨c, hc⟩) op
    rw [he] at h; cases h

/-- Hand `i` is valid. -/
def isOn (task : LpV2SyncFFH F) (i : Nat) : Bool := task.ffhValid[i]?.any (· ≠ 0)

theorem isOn_of {task : LpV2SyncFFH F} {i : Nat} {b : Bool} (h : task.isValid i = .ok b) : task.isOn i = b := by
  unfold isValid at h
  cases hv : subscript (Fault.outOfBounds .ffhValid) task.ffhValid i with
  | error e => rw [hv] at h; cases h
  | ok v =>
    rw [hv] at h
    cases h
    unfold isOn
    rw [subscript_ok.mp hv]
    rfl

/-- The first round of the loop over the hands, in a call that returned: a hand that is
    off is passed over; one that is on ends the loop or lets it go on. -/
theorem overHands_cons {op : Nat → FfhCtrl F → Emit (UdpEv F) Fault (FfhCtrl F × AR_RETURN_VALUE)} {i : Nat}
    {is : List Nat} {task t : LpV2SyncFFH F} {ret : AR_RETURN_VALUE}
    (h : (overHands op (i :: is) task).res = .ok (t, ret)) :
    (task.isOn i = false ∧ (overHands op is task).res = .ok (t, ret) ∧
      (overHands op (i :: is) task).out = (overHands op is task).out) ∨
    ∃ c c' r, task.isOn i = true ∧ task.ffhs_[i]? = some (some c) ∧ (op i c).res = .ok (c', r) ∧
      ((r ≠ .SUCCESS ∧ t = task.setFfh i c' ∧ ret = .ACTION_FAIL ∧
          (overHands op (i :: is) task).out = (op i c).out.map (.udp i)) ∨
        (r = .SUCCESS ∧ (overHands op is (task.setFfh i c')).res = .ok (t, ret) ∧
          (overHands op (i :: is) task).out =
            (op i c).out.map (.udp i) ++ (overHands op is (task.setFfh i c')).out)) := by
  have hdef : overHands op (i :: is) task = lift (task.isValid i) >>= fun b =>
      if !b then overHands op is task
      else task.withFfh i (op i) >>= fun r =>
        if r.2 ≠ .SUCCESS then pure (r.1, .ACTION_FAIL) else overHands op is r.1 := rfl
  rw [hdef] at h ⊢
  obtain ⟨b, hb, h⟩ := bind_res_ok.mp h
  rw [lift_res] at hb
  rw [hb, lift_ok_bind]
  cases b with
  | false => exact Or.inl ⟨isOn_of hb, h, rfl⟩
  | true =>
    right
    obtain ⟨⟨u, r⟩, hu, h⟩ := bind_res_ok.mp h
    obtain ⟨c, c', hc, hop, rfl, hout⟩ := withFfh_returned hu
    refine ⟨c, c', r, isOn_of hb, hc, hop, ?_⟩
    simp only [Bool.not_true, Bool.false_eq_true, if_false]
    rw [bind_of_ok hu, hout]
    by_cases hr : r = .SUCCESS
    · subst hr
      exact Or.inr ⟨rfl, h, rfl⟩
    · left
      rw [if_pos hr] at h
      cases h
      exact ⟨hr, rfl, rfl, by simp [hr]⟩

/-! ## The calls that go over the hands -/

section Calls

variable {p : Ev F → Prop} {P : Fault → Prop} {I : LpV2SyncFFH F → Prop}

/-- `I` does not depend on the wrapper or on the flag. -/
structure Loose (I : LpV2SyncFFH F → Prop) : Prop where
  lmWrap : ∀ task w, I task → I { task with lmWrap := w }
  inConnection_ : ∀ task b, I task → I { task with inConnection_ := b }

/-- The part of `connect` and of `disconnect` that calls the wrapper. -/
theorem leap_within (hI : Loose I) {task : LpV2SyncFFH F} (h : I task) {c : Prop} [Decidable c]
    {x : Emit (LeapEv F) Fault (LeapMotionV2WrapperImpl F × AR_RETURN_VALUE)}
    (hx : Within (fun e => p (.leap e)) P (fun _ => True) x) :
    Within p P (fun a => I a.1) (if c then mapOut .leap x >>= fun w => pure ({ task with lmWrap := w.1 }, w.2)
      else pure (task, .SUCCESS)) := by
  split
  · exact within_bind (within_mapOut hx) fun w _ => within_pure (hI.lmWrap task w.1 h)
  · exact within_pure h

/-- The rest: the controllers, if the first part succeeded, and the flag, if they did. -/
theorem ffhs_within (hI : Loose I) {leapPart : Emit (Ev F) Fault (LpV2SyncFFH F × AR_RETURN_VALUE)}
    (hleap : Within p P (fun a => I a.1) leapPart)
    {ffhs : LpV2SyncFFH F → Emit (Ev F) Fault (LpV2SyncFFH F × AR_RETURN_VALUE)}
    (hffh : ∀ u, I u → Within p P (fun a => I a.1) (ffhs u)) (b : Bool) :
    Within p P (fun a => I a.1) (leapPart >>= fun leap =>
      if leap.2 ≠ .SUCCESS then pure (leap.1, .ACTION_FAIL)
      else ffhs leap.1 >>= fun ffh =>
        if ffh.2 ≠ .SUCCESS then pure ffh else pure ({ ffh.1 with inConnection_ := b }, .SUCCESS)) := by
  apply within_bind hleap
  intro leap hl
  split
  · exact within_pure hl
  · apply within_bind (hffh leap.1 hl)
    intro ffh hf
    split
    · exact within_pure hf
    · exact within_pure (hI.inConnection_ ffh.1 b hf)

theorem connect_within [Ring F] (hI : Loose I) {task : LpV2SyncFFH F} (h : I task) {r : ConnectAnswers}
    (hleap : Within (fun e => p (.leap e)) P (fun _ => True) (task.lmWrap.connect r.leap))
    (hffh : ∀ u, I u → Within p P (fun a => I a.1) (u.connectFFH r.socks)) :
    Within p P (fun a => I a.1) (task.connect r) := by
  have hfirst : Within p P (fun a => I a.1) (task.connectLeap r) := leap_within hI h hleap
  exact ffhs_within hI hfirst hffh true

theorem disconnect_within (hI : Loose I) {task : LpV2SyncFFH F} (h : I task)
    (hleap : Within (fun e => p (.leap e)) P (fun _ => True) task.lmWrap.disconnect)
    (hffh : ∀ u, I u → Within p P (fun a => I a.1) u.disconnectFFH) :
    Within p P (fun a => I a.1) task.disconnect := by
  have hfirst : Within p P (fun a => I a.1) task.disconnectLeap := leap_within hI h hleap
  exact ffhs_within hI hfirst hffh false

theorem destroy_within [Zero F] {task : LpV2SyncFFH F} (h : I task)
    (hdisc : Within p P (fun a => I a.1) task.disconnect)
    (hone : ∀ i c, Within p P (fun _ => True) (destroyFfh i c))
    (hleap : ∀ u, I u → Within (fun e => p (.leap e)) P (fun _ => True) u.lmWrap.disconnect) :
    Within p P (fun _ => True) task.destroy := by
  have hall : ∀ (cs : List (Option (FfhCtrl F))) i, Within p P (fun _ => True) (destroyFfhs i cs) := by
    intro cs
    induction cs with
    | nil => intro i; exact within_pure trivial
    | cons c cs ih => intro i; exact within_bind (hone i c) fun _ _ => ih (i + 1)
  -- what follows the body of the destructor
  have hrest : ∀ u, I u → Within p P (fun _ => True)
      (destroyFfhs 0 u.ffhs_ >>= fun _ => mapOut Ev.leap u.lmWrap.disconnect >>= fun _ => pure ()) := by
    intro u hu
    apply within_bind (hall u.ffhs_ 0)
    intro _ _
    exact within_bind (within_mapOut (hleap u hu)) fun _ _ => within_pure trivial
  unfold destroy
  simp only []
  split
  · exact within_bind hdisc fun a ha => hrest a.1 ha
  · exact within_bind (Q := fun a => I a.1) (within_pure h) fun a ha => hrest a.1 ha

end Calls

/-! ## Operations that only send -/

/-- Nothing changed but the command, and the controllers' commands. -/
structure Steady (task t : LpV2SyncFFH F) : Prop where
  lmWrap : t.lmWrap = task.lmWrap
  links : t.ffhs_.map (Option.map FfhCtrl.link) = task.ffhs_.map (Option.map FfhCtrl.link)
  ffhValid : t.ffhValid = task.ffhValid
  inConnection_ : t.inConnection_ = task.inConnection_
  lowerLimits_ : t.lowerLimits_ = task.lowerLimits_
  upperLimits_ : t.upperLimits_ = task.upperLimits_
  taskName_ : t.taskName_ = task.taskName_
  selfCheckData1 : t.selfCheckData1 = task.selfCheckData1
  selfCheckData2 : t.selfCheckData2 = task.selfCheckData2
  running_ : t.running_ = task.running_

theorem Steady.refl (task : LpV2SyncFFH F) : Steady task task := ⟨rfl, rfl, rfl, rfl, rfl, rfl, rfl, rfl, rfl, rfl⟩

theorem Steady.trans {a b c : LpV2SyncFFH F} (h : Steady a b) (k : Steady b c) : Steady a c :=
  ⟨k.lmWrap.trans h.lmWrap, k.links.trans h.links, k.ffhValid.trans h.ffhValid,
    k.inConnection_.trans h.inConnection_, k.lowerLimits_.trans h.lowerLimits_, k.upperLimits_.trans h.upperLimits_,
    k.taskName_.trans h.taskName_, k.selfCheckData1.trans h.selfCheckData1, k.selfCheckData2.trans h.selfCheckData2,
    k.running_.trans h.running_⟩

theorem steady_setHandCmd (task : LpV2SyncFFH F) (cmd : udp_hand_cmd F) : Steady task (task.setHandCmd cmd) :=
  ⟨rfl, rfl, rfl, rfl, rfl, rfl, rfl, rfl, rfl, rfl⟩

/-- Replacing a controller by one with the same `f` leaves all the `f`s as they were. -/
theorem map_setFfh {β : Type} {task : LpV2SyncFFH F} {i : Nat} {c c' : FfhCtrl F} (f : FfhCtrl F → β)
    (hc : task.ffhs_[i]? = some (some c)) (hf : f c' = f c) :
    (task.setFfh i c').ffhs_.map (Option.map f) = task.ffhs_.map (Option.map f) := by
  show (task.ffhs_.set i (some c')).map (Option.map f) = _
  obtain ⟨hi, e⟩ := List.getElem?_eq_some_iff.mp hc
  rw [List.map_set, Option.map_some, hf, ← Option.map_some (f := f) (a := c), ← e,
    ← List.getElem_map (f := Option.map f) (h := by rw [List.length_map]; exact hi), List.set_getElem_self]

theorem steady_setFfh {task : LpV2SyncFFH F} {i : Nat} {c c' : FfhCtrl F} (hc : task.ffhs_[i]? = some (some c))
    (hl : c'.link = c.link) : Steady task (task.setFfh i c') :=
  ⟨rfl, map_setFfh FfhCtrl.link hc hl, rfl, rfl, rfl, rfl, rfl, rfl, rfl, rfl⟩

/-- Two lists of controllers with the same links have their controllers at the same hands. -/
theorem ffh_of_links {xs ys : List (Option (FfhCtrl F))}
    (h : xs.map (Option.map FfhCtrl.link) = ys.map (Option.map FfhCtrl.link)) {i : Nat} {c : FfhCtrl F}
    (hc : xs[i]? = some (some c)) : ∃ c', ys[i]? = some (some c') ∧ c'.link = c.link := by
  have e := congrArg (fun l => l[i]?) h
  simp only [List.getElem?_map, hc, Option.map_some] at e
  cases ho : ys[i]? with
  | none => rw [ho] at e; cases e
  | some o =>
    rw [ho] at e
    cases o with
    | none => cases e
    | some c' => exact ⟨c', rfl, (Option.some.inj (Option.some.inj e)).symm⟩

theorem sendTo_steady {task t : LpV2SyncFFH F} {i : Nat} {cmd : udp_hand_cmd F} (h : (task.sendTo i cmd).res = .ok t) :
    Steady task t := by
  by_cases hn : ∃ c, task.ffhs_[i]? = some (some c)
  · obtain ⟨c, hc⟩ := hn
    rw [sendTo_of hc] at h
    cases h
    exact steady_setFfh hc rfl
  · obtain ⟨e, he⟩ := sendTo_none (fun c hc => hn ⟨c, hc⟩) cmd
    rw [he] at h; cases h

/-- A read of `testFlow` only sends. -/
theorem flow_link [DivisionRing F] {c c' : FfhCtrl F} {t : FfhCtrl.Flow} {word : Option String}
    {next : Option FfhCtrl.Flow}
    (h : (c.flowStep t word >>= fun r => pure (flowing r)).res = .ok (c', next)) : c'.link = c.link := by
  have ho := c.flowStep_outcome t word
  generalize c.flowStep t word = x at ho h
  cases ho with
  | quit _ => cases h; rfl
  | reset _ _ => cases h; rfl
  | next _ _ => cases h; rfl
  | entered _ i j a _ _ _ => cases h; rfl
  | fault _ e _ _ => cases h

theorem withFfh_steady {α : Type} {task t : LpV2SyncFFH F} {i : Nat} {a : α}
    {op : FfhCtrl F → Emit (UdpEv F) Fault (FfhCtrl F × α)} (hop : ∀ c c' a, (op c).res = .ok (c', a) → c'.link = c.link)
    (h : (task.withFfh i op).res = .ok (t, a)) : Steady task t := by
  obtain ⟨c, c', hc, hres, rfl, -⟩ := withFfh_returned h
  exact steady_setFfh hc (hop c c' a hres)

theorem readFlow_steady [DivisionRing F] {task t : LpV2SyncFFH F} {f : FfhCtrl.Flow} {word : Option String}
    {next : Option FfhCtrl.Flow} (h : (task.readFlow f word).res = .ok (t, next)) : Steady task t :=
  withFfh_steady (fun _ _ _ hop => flow_link hop) h

theorem testFlow_steady {task t : LpV2SyncFFH F} {next : Option FfhCtrl.Flow}
    (h : (task.testFlow).res = .ok (t, next)) : Steady task t := by
  refine withFfh_steady (fun c c' a hop => ?_) h
  unfold FfhCtrl.testFlow at hop
  split at hop <;> cases hop <;> rfl

theorem resetFfh_steady [Zero F] {task t : LpV2SyncFFH F} {i : Nat} (h : (task.resetFfh i).res = .ok t) :
    Steady task t := by
  obtain ⟨r, hr, h⟩ := bind_res_ok.mp h
  cases h
  exact withFfh_steady (fun c c' a hop => by cases hop; rfl) hr

theorem checkStep_steady [Zero F] {task t : LpV2SyncFFH F} {tmp tmp' : udp_hand_cmd F} {s : CheckStep}
    (h : (task.checkStep tmp s).res = .ok (t, tmp')) : Steady task t := by
  cases s with
  | reset =>
    obtain ⟨u, hu, h⟩ := bind_res_ok.mp h
    cases h
    exact resetFfh_steady hu
  | clear => cases h; exact steady_setHandCmd task .zero
  | joint second id j =>
    obtain ⟨a, -, h⟩ := bind_res_ok.mp h
    obtain ⟨u, hu, h⟩ := bind_res_ok.mp h
    obtain ⟨v, hv, h⟩ := bind_res_ok.mp h
    cases h
    exact (sendTo_steady hu).trans (sendTo_steady hv)

theorem Published.steady [Ring F] [LinearOrder F] {task t : LpV2SyncFFH F} {i : Nat} {pre : udp_hand_cmd F}
    {x : Emit (Ev F) Fault (LpV2SyncFFH F)} (h : Published task i pre x) (ht : x.res = .ok t) : Steady task t := by
  cases h with
  | off _ => cases ht; exact steady_setHandCmd task pre
  | sent c cmd _ hc _ =>
    cases ht
    have hc' : (task.setHandCmd cmd).ffhs_[i]? = some (some c) := hc
    exact (steady_setHandCmd task cmd).trans (steady_setFfh hc' rfl)
  | fault e _ => cases ht

end LpV2SyncFFH

end LeapSyncFfh
