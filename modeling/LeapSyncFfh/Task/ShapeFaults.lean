/-
  LeapSyncFfh.Task.ShapeFaults — what each operation of the task needs of the arrays that
  the configuration sizes, and of the controllers it puts there.

  `ShapeFault`: a subscript outside `ffhValid`, `ffhs_`, a limit matrix or a self-check
  table, or a call through a null pointer. Each operation has its condition and, where that
  fails, ends with such a fault (`Exact`): a call on hand `i` needs its controller, a
  publication the fifteen limits, a joint of the self check its cell of the table. No
  operation changes what the conditions read (`Alike`).

  The constructor puts a controller at every valid hand, so connecting and destroying is
  safe (`Wired`); the modes of `start()` use the left hand without asking whether it is
  valid, and index the tables without asking for their shape (`Fits`).
-/

import LeapSyncFfh.Task.LeapConnections
import LeapSyncFfh.Task.Limits

namespace LeapSyncFfh

open Cells Emit LeapMotionV2WrapperImpl

variable {F : Type}

/-! ## Shape faults -/

/-- Outside an array that the file sizes or the hands index, or through a null pointer. -/
def ShapeFault : Fault → Prop
  | .nullPointer => True
  | .outOfBounds .ffhValid => True
  | .outOfBounds .ffhs => True
  | .outOfBounds .limits => True
  | .outOfBounds .selfCheckData => True
  | _ => False

/-- In the arrays of the frames and the device, or on an unsized ring. -/
def LeapFault : Fault → Prop
  | .divisionByZero => True
  | .outOfBounds .m_buffer => True
  | .outOfBounds .lastFramePHands => True
  | .outOfBounds .framePHands => True
  | .outOfBounds .hands => True
  | .outOfBounds .serial => True
  | _ => False

theorem LeapFault.not_shape {e : Fault} (h : LeapFault e) : ¬ ShapeFault e := by
  cases e with
  | outOfBounds a => cases a <;> first | exact h.elim | exact id
  | divisionByZero => exact id
  | _ => exact h.elim

theorem aborted_not_shape {e : Fault} (h : e = .aborted) : ¬ ShapeFault e := by
  rw [h]
  exact id

theorem limit_fault {limits : List (List F)} {i : Fin 5} {j : Fin 4} {e : Fault} (h : limit limits i j = .error e) :
    e = .outOfBounds .limits := by
  unfold limit subscript at h
  simp only [bind, Except.bind] at h
  split at h
  · rename_i hrow
    split at hrow
    · cases hrow
    · cases hrow; cases h; rfl
  · split at h
    · cases h
    · cases h; rfl

theorem postProcess_fault [Ring F] [LinearOrder F] {lo up : List (List F)} {cmd : udp_hand_cmd F} {e : Fault}
    (h : postProcessHandCmd lo up cmd = .error e) : e = .outOfBounds .limits := by
  unfold postProcessHandCmd at h
  simp only [bind, Except.bind] at h
  split at h
  · rename_i hs
    cases h
    refine sweep_fault (P := fun e => e = .outOfBounds .limits) (fun p a e' he => ?_) hs
    unfold clampAngle at he
    simp only [bind, Except.bind] at he
    split at he
    · rename_i hl; cases he; exact limit_fault hl
    · split at he
      · rename_i hu; cases he; exact limit_fault hu
      · cases he
  · cases h

theorem add_fault {T : Type} {b : CircularBuffer T} {v : T} {e : Fault} (h : b.add v = .error e) : LeapFault e := by
  unfold CircularBuffer.add store CircularBuffer.updateHeadTail at h
  simp only [bind, Except.bind] at h
  split at h
  · rename_i hs
    split at hs
    · cases hs
    · cases hs; cases h; trivial
  · split at h
    · cases h; trivial
    · cases h

theorem copyInto_fault {α : Type} {src : List α} {n : Nat} {dst : List α} {e : Fault}
    (h : copyInto (.outOfBounds .framePHands) (.outOfBounds .hands) src n dst = .error e) : LeapFault e := by
  by_cases hlt : src.length < n ∨ dst.length < n
  · obtain ⟨e', he', h'⟩ := copyInto_error (Fault.outOfBounds .framePHands) (.outOfBounds .hands) hlt
    rw [h'] at h
    cases h
    rcases he' with rfl | rfl <;> trivial
  · rw [copyInto_ok (by omega) (by omega)] at h
    cases h

theorem onFrame_fault [Zero F] {w : LeapMotionV2WrapperImpl F} {f : LEAP_TRACKING_EVENT F} {e : Fault}
    (h : w.onFrame f = .error e) : LeapFault e := by
  simp only [onFrame, bind, Except.bind] at h
  split at h
  · rename_i hadd; cases h; exact add_fault hadd
  split at h
  · rename_i hback
    unfold CircularBuffer.back subscript at hback
    split at hback
    · cases hback
    · cases hback; cases h; trivial
  split at h
  · cases h
  · split at h
    · rename_i hcopy; cases h; exact copyInto_fault hcopy
    · cases h

/-- A message faults in the arrays of the frames and the device only. -/
theorem handleMessage_ends [Zero F] (cbs : CallBacks) (w : LeapMotionV2WrapperImpl F) (m : LEAP_CONNECTION_MESSAGE F) :
    Ends LeapFault (fun _ => True) (w.handleMessage cbs m) := by
  refine (handleMessage_rule cbs (fun u p _ => ⟨fun e he => ?_, fun _ _ => trivial⟩)
    (fun u f _ => ⟨fun e he => ?_, fun _ _ => trivial⟩) (fun u m arg _ => ⟨fun e he => ?_, fun _ _ => trivial⟩)
    trivial m).2
  · rw [lift_res] at he
    unfold setDevice at he
    split at he
    · cases he
    · cases he; trivial
  · rw [lift_res] at he
    unfold setFrame deepCopyTrackingEvent at he
    simp only [bind, Except.bind] at he
    split at he
    · rename_i hcopy
      split at hcopy
      · cases hcopy
      · cases hcopy; cases he; trivial
    · cases he
  · rw [lift_res] at he
    unfold runHandler at he
    split at he
    · exact onFrame_fault he
    · cases he

theorem enter_fault [DivisionRing F] {c : FfhCtrl F} {strs : Fin 3 → String} {e : Fault} (h : c.enter strs = .error e) :
    ¬ ShapeFault e := by
  rw [FfhCtrl.enter_convert] at h
  cases hc : FfhCtrl.convert (stof (F := F)) strs with
  | ok r => rw [hc] at h; cases h
  | error e' =>
    rw [hc] at h
    cases h
    rcases FfhCtrl.convert_error stof hc with rfl | ha | rfl | rfl
    · exact id
    · rcases stof_error ha with rfl | rfl <;> exact id
    · exact id
    · exact id

/-- A word read in `testFlow` faults in its conversion, or at the hand's own five by four. -/
theorem flowStep_ends [DivisionRing F] (c : FfhCtrl F) (t : FfhCtrl.Flow) (word : Option String) :
    Ends (fun e => ¬ ShapeFault e) (fun _ => True) (c.flowStep t word) := by
  unfold FfhCtrl.flowStep
  simp only []
  split
  · exact ends_pure trivial
  split
  · exact ends_bind (Q := fun _ => True) (ends_of_ok rfl trivial) fun _ _ => ends_pure trivial
  split
  · refine ends_bind (Q := fun _ => True) ⟨fun e he => enter_fault he, fun _ _ => trivial⟩ fun d _ => ?_
    exact ends_bind (ends_emit _) fun _ _ => ends_pure trivial
  · exact ends_pure trivial

namespace LpV2SyncFFH

/-! ## What the operations keep -/

/-- Hand `i` has its controller. -/
def Has (task : LpV2SyncFFH F) (i : Nat) : Prop := ∃ c, task.ffhs_[i]? = some (some c)

/-- What the file decides is the same: the controllers there are, and the arrays. -/
structure Alike (task t : LpV2SyncFFH F) : Prop where
  ffhs : ∀ i, Has t i ↔ Has task i
  ffhValid : t.ffhValid = task.ffhValid
  lowerLimits_ : t.lowerLimits_ = task.lowerLimits_
  upperLimits_ : t.upperLimits_ = task.upperLimits_
  taskName_ : t.taskName_ = task.taskName_
  selfCheckData1 : t.selfCheckData1 = task.selfCheckData1
  selfCheckData2 : t.selfCheckData2 = task.selfCheckData2

theorem Alike.refl (task : LpV2SyncFFH F) : Alike task task := ⟨fun _ => Iff.rfl, rfl, rfl, rfl, rfl, rfl, rfl⟩

theorem Alike.trans {a b c : LpV2SyncFFH F} (h : Alike a b) (k : Alike b c) : Alike a c :=
  ⟨fun i => (k.ffhs i).trans (h.ffhs i), k.ffhValid.trans h.ffhValid, k.lowerLimits_.trans h.lowerLimits_,
    k.upperLimits_.trans h.upperLimits_, k.taskName_.trans h.taskName_, k.selfCheckData1.trans h.selfCheckData1,
    k.selfCheckData2.trans h.selfCheckData2⟩

theorem Alike.isOn {task t : LpV2SyncFFH F} (h : Alike task t) (i : Nat) : t.isOn i = task.isOn i := by
  unfold LpV2SyncFFH.isOn
  rw [h.ffhValid]

theorem Steady.alike {task t : LpV2SyncFFH F} (h : Steady task t) : Alike task t := by
  refine ⟨fun i => ⟨fun ⟨c, hc⟩ => ?_, fun ⟨c, hc⟩ => ?_⟩, h.ffhValid, h.lowerLimits_, h.upperLimits_, h.taskName_,
    h.selfCheckData1, h.selfCheckData2⟩
  · obtain ⟨c', hc', -⟩ := ffh_of_links h.links hc
    exact ⟨c', hc'⟩
  · obtain ⟨c', hc', -⟩ := ffh_of_links h.links.symm hc
    exact ⟨c', hc'⟩

theorem alike_setFfh {task : LpV2SyncFFH F} {i : Nat} {c : FfhCtrl F} (hc : task.ffhs_[i]? = some (some c))
    (c' : FfhCtrl F) : Alike task (task.setFfh i c') := by
  refine ⟨fun k => ?_, rfl, rfl, rfl, rfl, rfl, rfl⟩
  by_cases e : k = i
  · subst e
    exact iff_of_true ⟨c', setFfh_same hc⟩ ⟨c, hc⟩
  · unfold Has
    rw [setFfh_other e]

/-! ## What each operation needs -/

theorem isValid_exact {ω : Type} (task : LpV2SyncFFH F) (i : Nat) :
    Exact ShapeFault (i < task.ffhValid.length) (fun b => task.isOn i = b)
      (lift (task.isValid i) : Emit ω Fault Bool) := by
  by_cases hi : i < task.ffhValid.length
  · have hv : task.isValid i = .ok (task.ffhValid[i] ≠ 0) := by
      unfold isValid
      rw [subscript_lt hi]
      rfl
    exact ends_of_ok hv ⟨hi, isOn_of hv⟩
  · have hv : task.isValid i = .error (.outOfBounds .ffhValid) := by
      unfold isValid
      rw [subscript_ge (Nat.not_lt.mp hi)]
      rfl
    rw [hv]
    exact ends_fail ⟨trivial, hi⟩

/-- A call through a null controller. -/
theorem withFfh_null {α : Type} {task : LpV2SyncFFH F} {i : Nat} (hn : ¬ Has task i)
    (op : FfhCtrl F → Emit (UdpEv F) Fault (FfhCtrl F × α)) : ∃ e, ShapeFault e ∧ task.withFfh i op = fail e := by
  unfold withFfh subscript
  split
  · rename_i x hx
    cases x with
    | none => exact ⟨.nullPointer, trivial, by rw [lift_ok_bind]⟩
    | some c => exact absurd ⟨c, hx⟩ hn
  · exact ⟨.outOfBounds .ffhs, trivial, lift_error_bind _ _⟩

/-- A call on a controller that is there ends as the operation does. -/
theorem withFfh_ends {α : Type} {P : Fault → Prop} {task : LpV2SyncFFH F} {i : Nat} (h : Has task i)
    {op : FfhCtrl F → Emit (UdpEv F) Fault (FfhCtrl F × α)} (hop : ∀ c, Ends P (fun _ => True) (op c)) :
    Ends P (fun r => Alike task r.1) (task.withFfh i op) := by
  obtain ⟨c, hc⟩ := h
  rw [withFfh_of hc]
  exact ends_bind (ends_mapOut (hop c)) fun r _ => ends_pure (alike_setFfh hc r.1)

/-- An operation that returns needs the controller and nothing else. -/
theorem withFfh_exact {α : Type} (task : LpV2SyncFFH F) (i : Nat)
    {op : FfhCtrl F → Emit (UdpEv F) Fault (FfhCtrl F × α)} (hop : ∀ c, ∃ r, (op c).res = .ok r) :
    Exact ShapeFault (Has task i) (fun r => Alike task r.1) (task.withFfh i op) := by
  by_cases h : Has task i
  · have hall : ∀ c, Ends (fun e => ShapeFault e ∧ ¬ Has task i) (fun _ => True) (op c) := fun c => by
      obtain ⟨r, hr⟩ := hop c
      exact ends_of_ok hr trivial
    exact ends_mono (withFfh_ends h hall) (fun _ he => he) fun _ hr => ⟨h, hr⟩
  · obtain ⟨e, hs, he⟩ := withFfh_null h op
    rw [he]
    exact ends_fail ⟨hs, h⟩

theorem sendTo_exact (task : LpV2SyncFFH F) (i : Nat) (cmd : udp_hand_cmd F) :
    Exact ShapeFault (Has task i) (fun t => Alike task t) (task.sendTo i cmd) :=
  exact_congr (iff_of_eq (and_true _)) (exact_bind (withFfh_exact task i fun _ => ⟨_, rfl⟩) fun _ _ hr => exact_pure hr)

theorem resetFfh_exact [Zero F] (task : LpV2SyncFFH F) (i : Nat) :
    Exact ShapeFault (Has task i) (fun t => Alike task t) (task.resetFfh i) :=
  exact_congr (iff_of_eq (and_true _)) (exact_bind (withFfh_exact task i fun _ => ⟨_, rfl⟩) fun _ _ hr => exact_pure hr)

theorem testFlow_exact (task : LpV2SyncFFH F) :
    Exact ShapeFault (Has task left_hand) (fun r => Alike task r.1) task.testFlow :=
  withFfh_exact task left_hand fun _ => ⟨_, rfl⟩

section Publishing

variable [Ring F] [LinearOrder F]

theorem postProcess_exact {ω : Type} (task : LpV2SyncFFH F) :
    Exact ShapeFault (Covers task.lowerLimits_ ∧ Covers task.upperLimits_) (fun t => Alike task t)
      (lift task.postProcess : Emit ω Fault (LpV2SyncFFH F)) := by
  unfold postProcess
  cases hp : postProcessHandCmd task.lowerLimits_ task.upperLimits_ task.handCmd with
  | ok cmd =>
    refine ends_of_ok (a := task.setHandCmd cmd) rfl ⟨?_, (steady_setHandCmd task cmd).alike⟩
    exact (postProcess_returns_iff _ _ _).mp ⟨cmd, hp⟩
  | error e =>
    refine ends_fail ⟨by rw [postProcess_fault hp]; trivial, fun hcov => ?_⟩
    obtain ⟨cmd, hcmd⟩ := (postProcess_returns_iff _ _ task.handCmd).mpr hcov
    rw [hp] at hcmd
    cases hcmd

/-- What publishing for the left hand needs: the limits and the controller, if it is valid. -/
def Publishable (task : LpV2SyncFFH F) : Prop :=
  left_hand < task.ffhValid.length ∧
    (task.isOn left_hand = true → (Covers task.lowerLimits_ ∧ Covers task.upperLimits_) ∧ Has task left_hand)

theorem publish_exact (task : LpV2SyncFFH F) (pre : udp_hand_cmd F) :
    Exact ShapeFault (Publishable task) (fun t => Alike task t)
      ((task.setHandCmd pre).publishFfhCmd left_hand) := by
  have hpre : Alike task (task.setHandCmd pre) := (steady_setHandCmd task pre).alike
  refine exact_bind (isValid_exact (task.setHandCmd pre) left_hand) fun b _ hb => ?_
  have hon : task.isOn left_hand = b := hb
  cases b with
  | false => exact exact_congr (iff_of_true trivial fun h => by rw [hon] at h; cases h) (exact_pure hpre)
  | true =>
    refine exact_congr ?_ (exact_bind (postProcess_exact (task.setHandCmd pre)) fun t _ ht =>
      exact_congr (((ht.ffhs left_hand).trans (hpre.ffhs left_hand)))
        (exact_mono (sendTo_exact t left_hand t.handCmd) fun u hu => hpre.trans (ht.trans hu)))
    exact ⟨fun h _ => h, fun h => h hon⟩

end Publishing

section Iterating

variable [Field F] [LinearOrder F] [Libm F]

theorem iterateHands_exact (task : LpV2SyncFFH F) (hands : List (LEAP_HAND F)) :
    Exact ShapeFault (hands = [] ∨ (∃ hand ∈ hands, hand.type = .eLeapHandType_Left) → Publishable task)
      (fun r => Alike task r.1) (task.iterateHands hands) := by
  by_cases hl : hands = [] ∨ ∃ hand ∈ hands, hand.type = .eLeapHandType_Left
  · rw [(iterateHands_eq task hands).1 hl]
    refine exact_congr ⟨fun h _ => h.1, fun h => ⟨h hl, trivial⟩⟩
      (exact_bind (publish_exact task _) fun t _ ht => exact_pure ht)
  · rw [(iterateHands_eq task hands).2 hl]
    exact exact_congr (iff_of_true trivial fun h => absurd h hl) (exact_pure (Alike.refl task))

end Iterating

/-- The table has the cell that joint `j` of finger `id` is checked with. -/
def HasAngle (task : LpV2SyncFFH F) (second : Bool) (id : Fin 5) (j : Fin 4) : Prop :=
  ∃ row, (task.selfCheckData second)[id.val]? = some row ∧ j.val < row.length

theorem checkAngle_exact {ω : Type} (task : LpV2SyncFFH F) (second : Bool) (id : Fin 5) (j : Fin 4) :
    Exact ShapeFault (HasAngle task second id j) (fun _ => True)
      (lift (task.checkAngle second id j) : Emit ω Fault F) := by
  unfold checkAngle HasAngle
  cases hr : (task.selfCheckData second)[id.val]? with
  | none =>
    rw [subscript_ge (List.getElem?_eq_none_iff.mp hr)]
    exact ends_fail ⟨trivial, fun ⟨row, h, _⟩ => by cases h⟩
  | some row =>
    rw [subscript_ok.mpr hr]
    by_cases hj : j.val < row.length
    · simp only [bind, Except.bind, subscript_lt hj]
      exact ends_of_ok rfl ⟨⟨row, rfl, hj⟩, trivial⟩
    · simp only [bind, Except.bind, subscript_ge (Nat.not_lt.mp hj)]
      exact ends_fail ⟨trivial, fun ⟨row', h, h'⟩ => by cases h; exact hj h'⟩

/-- What a statement of the self check needs. -/
def Checkable (task : LpV2SyncFFH F) : CheckStep → Prop
  | .reset => Has task left_hand
  | .clear => True
  | .joint second id j => HasAngle task second id j ∧ Has task left_hand

theorem checkStep_exact [Zero F] (task : LpV2SyncFFH F) (tmp_cmd : udp_hand_cmd F) (c : CheckStep) :
    Exact ShapeFault (Checkable task c) (fun r => Alike task r.1) (task.checkStep tmp_cmd c) := by
  cases c with
  | reset =>
    exact exact_congr (iff_of_eq (and_true _)) (exact_bind (resetFfh_exact task left_hand) fun t _ ht => exact_pure ht)
  | clear => exact exact_pure (steady_setHandCmd task .zero).alike
  | joint second id j =>
    refine exact_bind (checkAngle_exact task second id j) fun a _ _ => ?_
    refine exact_congr (iff_of_eq (and_true _)) (exact_bind (sendTo_exact task left_hand _) fun t hleft ht => ?_)
    -- the second command goes to the same controller
    refine exact_congr ⟨fun _ => trivial, fun _ => ⟨(ht.ffhs left_hand).mpr hleft, trivial⟩⟩ (exact_bind
      (sendTo_exact t left_hand _) fun u _ hu => exact_pure (ht.trans hu))

/-! ## Connecting and destroying -/

/-- What the constructor leaves: both hands have their flag, a valid one its controller. -/
structure Wired (task : LpV2SyncFFH F) : Prop where
  hands : handTotalNum ≤ task.ffhValid.length
  ffhs : ∀ i ∈ handIds, task.isOn i = true → Has task i

theorem Wired.alike {task t : LpV2SyncFFH F} (h : Wired task) (ha : Alike task t) : Wired t :=
  ⟨by rw [ha.ffhValid]; exact h.hands, fun i hi hon => (ha.ffhs i).mpr (h.ffhs i hi (by rw [← ha.isOn i]; exact hon))⟩

/-- The loop over the hands returns, when its operation does. -/
theorem overHands_ends {op : Nat → FfhCtrl F → Emit (UdpEv F) Fault (FfhCtrl F × AR_RETURN_VALUE)}
    (hop : ∀ i c, ∃ r, (op i c).res = .ok r) : ∀ {is : List Nat} {task : LpV2SyncFFH F}, (∀ i ∈ is, i ∈ handIds) →
      Wired task → Ends (fun _ => False) (fun r => Alike task r.1) (overHands op is task) := by
  intro is
  induction is with
  | nil => exact fun _ _ => ends_pure (Alike.refl _)
  | cons i is ih =>
    intro task his hw
    have hi : i ∈ handIds := his i List.mem_cons_self
    have hrest : ∀ k ∈ is, k ∈ handIds := fun k hk => his k (List.mem_cons_of_mem i hk)
    have hlen : i < task.ffhValid.length := Nat.lt_of_lt_of_le (List.mem_range.mp hi) hw.hands
    unfold overHands
    refine ends_bind (exact_returns (isValid_exact task i) hlen) fun b hb => ?_
    cases b with
    | false => exact ih hrest hw
    | true =>
      refine ends_bind (exact_returns (withFfh_exact task i (hop i)) (hw.ffhs i hi hb)) fun r hr => ?_
      split
      · exact ends_pure hr
      · exact ends_mono (ih hrest (hw.alike hr)) (fun _ h => h) fun _ h => hr.trans h

theorem alike_lmWrap (task : LpV2SyncFFH F) (w : LeapMotionV2WrapperImpl F) : Alike task { task with lmWrap := w } :=
  ⟨fun _ => Iff.rfl, rfl, rfl, rfl, rfl, rfl, rfl⟩

theorem alike_inConnection (task : LpV2SyncFFH F) (b : Bool) : Alike task { task with inConnection_ := b } :=
  ⟨fun _ => Iff.rfl, rfl, rfl, rfl, rfl, rfl, rfl⟩

theorem connectFFH_ends [Ring F] {task : LpV2SyncFFH F} (h : Wired task) (socks : Nat → Int) :
    Ends (fun _ => False) (fun r => Alike task r.1) (task.connectFFH socks) := by
  refine overHands_ends (fun i c => ?_) (fun i hi => hi) h
  by_cases hs : socks i < 0
  · rw [FfhCtrl.connect_refused c hs]; exact ⟨_, rfl⟩
  · rw [FfhCtrl.connect_connected c (Int.not_lt.mp hs)]; exact ⟨_, rfl⟩

/-- LeapC's `connect` faults in its assertions only. -/
theorem leapConnect_ends (w : LeapMotionV2WrapperImpl F) (r : LeapAnswers) :
    Ends (fun e => e = .aborted) (fun _ => True) (w.connect r) := by
  unfold LeapMotionV2WrapperImpl.connect
  split
  · exact ends_fail rfl
  · refine ends_bind (ends_emit _) fun _ _ => ?_
    simp only []
    split
    · exact ends_fail rfl
    · split
      · split
        · exact ends_fail rfl
        · exact ends_pure trivial
      · exact ends_pure trivial

theorem loose_alike (task : LpV2SyncFFH F) : Loose (Alike task) where
  lmWrap u w h := h.trans (alike_lmWrap u w)
  inConnection_ u b h := h.trans (alike_inConnection u b)

theorem connect_ends [Ring F] {task : LpV2SyncFFH F} (h : Wired task) (r : ConnectAnswers) :
    Ends (fun e => e = .aborted) (fun a => Alike task a.1) (task.connect r) := by
  refine (connect_within (p := fun _ => True) (loose_alike task) (Alike.refl task) (leapConnect_ends task.lmWrap r.leap).within ?_).2
  intro u hu
  have hffh := connectFFH_ends (h.alike hu) r.socks
  exact (ends_mono hffh (fun _ e => e.elim) fun _ ha => hu.trans ha).within

theorem leapDisconnect_ends (w : LeapMotionV2WrapperImpl F) :
    Ends (fun _ => False) (fun _ => True) w.disconnect := by
  unfold LeapMotionV2WrapperImpl.disconnect
  split
  · exact ends_of_ok rfl trivial
  · exact ends_pure trivial

theorem disconnect_ends {task : LpV2SyncFFH F} (h : Wired task) :
    Ends (fun _ => False) (fun a => Alike task a.1) task.disconnect := by
  refine (disconnect_within (p := fun _ => True) (loose_alike task) (Alike.refl task) (leapDisconnect_ends task.lmWrap).within ?_).2
  intro u hu
  have hffh : Ends (fun _ => False) (fun a => Alike u a.1) u.disconnectFFH :=
    overHands_ends (fun i c => ⟨_, rfl⟩) (fun i hi => hi) (h.alike hu)
  exact (ends_mono hffh (fun _ e => e) fun _ ha => hu.trans ha).within

theorem destroyFfh_ends [Zero F] (i : Nat) (c : Option (FfhCtrl F)) :
    Ends (fun _ => False) (fun _ => True) (destroyFfh i c) := by
  have udp : ∀ c : UdpClient, Ends (fun _ => False) (fun _ => True) (c.destroy : Emit (UdpEv F) Fault Unit) := by
    intro c
    unfold UdpClient.destroy
    split
    · exact ends_of_ok rfl trivial
    · exact ends_pure trivial
  cases c with
  | none => exact ends_pure trivial
  | some c =>
    refine ends_mapOut (f := Ev.udp i) ?_
    unfold FfhCtrl.destroy
    split
    · exact ends_bind (Q := fun _ => True) (ends_of_ok rfl trivial) fun d _ =>
        ends_bind (Q := fun _ => True) (ends_of_ok rfl trivial) fun r _ => udp r.1.udp_
    · exact udp c.udp_

theorem destroy_ends [Zero F] {task : LpV2SyncFFH F} (h : Wired task) :
    Ends (fun _ => False) (fun _ => True) task.destroy :=
  (destroy_within (p := fun _ => True) (Alike.refl task) (disconnect_ends h).within (fun i c => (destroyFfh_ends i c).within)
    fun u _ => (leapDisconnect_ends u.lmWrap).within).2

/-! ## The task that fits its mode -/

/-- The task has what its mode needs. -/
structure Fits (task : LpV2SyncFFH F) : Prop where
  wired : Wired task
  test_by_hand : task.taskName_ = "test_by_hand" → Has task left_hand
  self_check : task.taskName_ = "self_check" → ∀ c ∈ checkPass, Checkable task c
  leap_motion_demo : task.taskName_ = "leap_motion_demo" → Publishable task

theorem Alike.selfCheckData {task t : LpV2SyncFFH F} (h : Alike task t) (second : Bool) :
    t.selfCheckData second = task.selfCheckData second := by
  unfold LpV2SyncFFH.selfCheckData
  rw [h.selfCheckData1, h.selfCheckData2]

theorem Alike.checkable {task t : LpV2SyncFFH F} (h : Alike task t) (c : CheckStep) :
    Checkable t c ↔ Checkable task c := by
  cases c with
  | reset => exact h.ffhs left_hand
  | clear => exact Iff.rfl
  | joint second id j =>
    exact and_congr (by unfold HasAngle; rw [h.selfCheckData]) (h.ffhs left_hand)

/-- One statement of a pass, on the task and the local. -/
def checking [Zero F] (s : LpV2SyncFFH F × udp_hand_cmd F) (c : CheckStep) :
    Emit (Ev F) Fault (LpV2SyncFFH F × udp_hand_cmd F) := s.1.checkStep s.2 c

/-- The statements of a pass, in a row. -/
theorem checking_exact [Zero F] (todo : List CheckStep) :
    ∀ (task : LpV2SyncFFH F) (tmp_cmd : udp_hand_cmd F), Exact ShapeFault (∀ c ∈ todo, Checkable task c)
      (fun _ => True) (runs checking (task, tmp_cmd) todo) := by
  induction todo with
  | nil => exact fun _ _ => exact_congr (iff_of_true trivial fun _ hc => (List.not_mem_nil hc).elim) (exact_pure trivial)
  | cons c todo ih =>
    intro task tmp_cmd
    refine exact_congr (List.forall_mem_cons).symm (exact_bind (checkStep_exact task tmp_cmd c) fun r _ hr => ?_)
    exact exact_congr (forall₂_congr fun c _ => hr.checkable c) (ih r.1 r.2)

theorem Alike.publishable {task t : LpV2SyncFFH F} (h : Alike task t) : Publishable t ↔ Publishable task := by
  unfold Publishable
  rw [h.ffhValid, h.isOn left_hand, h.lowerLimits_, h.upperLimits_, h.ffhs left_hand]

theorem Fits.alike {task t : LpV2SyncFFH F} (h : Fits task) (ha : Alike task t) : Fits t where
  wired := h.wired.alike ha
  test_by_hand e := (ha.ffhs left_hand).mpr (h.test_by_hand (by rw [← ha.taskName_]; exact e))
  self_check e c hc := (ha.checkable c).mpr (h.self_check (by rw [← ha.taskName_]; exact e) c hc)
  leap_motion_demo e := ha.publishable.mpr (h.leap_motion_demo (by rw [← ha.taskName_]; exact e))

end LpV2SyncFFH

end LeapSyncFfh
