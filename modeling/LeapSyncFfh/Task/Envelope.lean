/-
  LeapSyncFfh.Task.Envelope — which runs keep every command inside the envelope.

  `reset` sends zeros, which are inside. The other three ways to the wire are not limited:
  `testFlow` sends the entered angle as it is (its check is commented out), the self check
  sends its table and what is left in `tmp_cmd`, and `postProcessHandCmd` leaves out the
  joint `ThumbPalm`, which `calPubFingerAngle` cuts from below only. `dataProcess`, which
  has all the limits, is never called.

  A run of the model ends where the code would go on with an angle that is no value of the
  exact type, or with what it read or wrote outside an array (`Garbled`). Nothing is known of
  what the code sends from there on, so such a run does not keep the envelope. An exception
  that nothing catches, a null pointer or `abort()` ends the program.

  `Permitted` says of a step's inputs and of the state before it that none of these takes a
  command out of the envelope. A triple entered in `testFlow` throws, or is inside and keeps
  the thumb clear of what the controller holds; the tables have their cells, inside; where
  `tmp_cmd` was never written it is inside by luck (`Leftover`). After its first joint a pass
  leaves zeros behind it, which is why nothing more is asked of `tmp_cmd` (`Passing`).

  `step_inside` and `inside_permitted` are the two directions for a step, `Inv` is what they
  rest on, and `envelope_iff` says it of runs.
-/

import LeapSyncFfh.Leap.Overrun
import LeapSyncFfh.Task.ConfigSafety
import Mathlib.Data.List.Infix

namespace LeapSyncFfh

open Cells Emit LeapMotionV2WrapperImpl LpV2SyncFFH

/-! ## One angle of a command -/

section

variable {F : Type} [Ring F] [LinearOrder F]

theorem envelope_set_iff {cmd : udp_hand_cmd F} (i : Fin 5) (j : Fin 4) (a : F)
    (h : ∀ k l, (k, l) ≠ (i, j) → Inside l (cmd.get k l)) :
    Envelope (cmd.set i j a) ↔ Inside j a ∧ Clear (cmd.set i j a) := by
  constructor
  · intro he
    have hin := he.inside i j
    rw [udp_hand_cmd.get_set_same] at hin
    exact ⟨hin, he.clear⟩
  · rintro ⟨hin, hclear⟩
    refine ⟨fun k l => ?_, hclear⟩
    rw [udp_hand_cmd.get_set]
    split
    · rename_i e; rw [e.2]; exact hin
    · rename_i e; exact h k l fun hkl => e ⟨congrArg Prod.fst hkl, congrArg Prod.snd hkl⟩

/-- Joint `j` of finger `i` may go to `a` without the thumb and the index finger meeting. -/
structure KeepsClear (cmd : udp_hand_cmd F) (i : Fin 5) (j : Fin 4) (a : F) : Prop where
  index : i = 1 → j = 0 → 20 < a → cmd.get 0 0 ≤ 5 ∧ cmd.get 0 1 ≤ 5
  thumb : i = 0 → j = 0 ∨ j = 1 → 5 < a → cmd.get 1 0 ≤ 20

theorem clear_set_iff {cmd : udp_hand_cmd F} (h : Clear cmd) (i : Fin 5) (j : Fin 4) (a : F) :
    Clear (cmd.set i j a) ↔ KeepsClear cmd i j a := by
  constructor
  · refine fun hc => ⟨?_, ?_⟩
    · rintro rfl rfl h20
      have hmeet : ∀ l, (cmd.set 1 0 a).get 0 l = cmd.get 0 l := fun l =>
        udp_hand_cmd.get_set_other _ _ (Or.inl (by decide))
      constructor
      · refine not_lt.mp fun h5 => hc ⟨?_, Or.inl ?_⟩
        · rw [udp_hand_cmd.get_set_same]; exact h20
        · rw [hmeet]; exact h5
      · refine not_lt.mp fun h5 => hc ⟨?_, Or.inr ?_⟩
        · rw [udp_hand_cmd.get_set_same]; exact h20
        · rw [hmeet]; exact h5
    · rintro rfl hj h5
      refine not_lt.mp fun h20 => hc ⟨?_, ?_⟩
      · rw [udp_hand_cmd.get_set_other _ _ (Or.inl (by decide))]; exact h20
      · rcases hj with rfl | rfl
        · exact Or.inl (by rw [udp_hand_cmd.get_set_same]; exact h5)
        · exact Or.inr (by rw [udp_hand_cmd.get_set_same]; exact h5)
  · rintro hk ⟨h20, h5⟩
    by_cases hindex : i = 1 ∧ j = 0
    · obtain ⟨rfl, rfl⟩ := hindex
      rw [udp_hand_cmd.get_set_same] at h20
      obtain ⟨h0, h1⟩ := hk.index rfl rfl h20
      rcases h5 with h5 | h5
      · rw [udp_hand_cmd.get_set_other _ _ (Or.inl (by decide))] at h5
        exact absurd h5 (not_lt.mpr h0)
      · rw [udp_hand_cmd.get_set_other _ _ (Or.inl (by decide))] at h5
        exact absurd h5 (not_lt.mpr h1)
    · rw [udp_hand_cmd.get_set, if_neg fun e => hindex ⟨e.1.symm, e.2.symm⟩] at h20
      -- the thumb's joint is the one set, or was there before
      have thumb : ∀ l, l = 0 ∨ l = 1 → 5 < (cmd.set i j a).get 0 l → 5 < cmd.get 0 l := by
        intro l hl h5
        rw [udp_hand_cmd.get_set] at h5
        split at h5
        · rename_i e
          exact absurd (hk.thumb e.1.symm (e.2 ▸ hl) h5) (not_le.mpr h20)
        · exact h5
      exact h ⟨h20, h5.imp (thumb 0 (Or.inl rfl)) (thumb 1 (Or.inr rfl))⟩

/-- One angle of a command that is inside. -/
theorem entered_iff {cmd : udp_hand_cmd F} (h : Envelope cmd) (i : Fin 5) (j : Fin 4) (a : F) :
    Envelope (cmd.set i j a) ↔ Inside j a ∧ KeepsClear cmd i j a := by
  rw [envelope_set_iff i j a fun k l _ => h.inside k l, clear_set_iff h.clear]

theorem envelope_zeroed [IsStrictOrderedRing F] {cmd : udp_hand_cmd F} (h : Envelope cmd) (i : Fin 5) (j : Fin 4) :
    Envelope (cmd.set i j 0) := by
  refine (entered_iff h i j 0).mpr ⟨inside_zero j, ?_⟩
  exact ⟨fun _ _ h20 => absurd h20 (by norm_num), fun _ _ h5 => absurd h5 (by norm_num)⟩

/-! ## A pass of the self check -/

/-- What a pass finds in `tmp_cmd`, but for the angle that its first joint sets: the local is
    not initialised, so the first time nothing wrote it. -/
structure Leftover (tmp_cmd : udp_hand_cmd F) : Prop where
  inside : ∀ k l, (k, l) ≠ (0, 0) → Inside l (tmp_cmd.get k l)
  clear : 20 < tmp_cmd.get 1 0 → tmp_cmd.get 0 1 ≤ 5

/-- An angle of the table that may go out with the rest of `tmp_cmd`. -/
structure TableAngle (tmp_cmd : udp_hand_cmd F) (second : Bool) (id : Fin 5) (j : Fin 4) (angle : F) : Prop where
  inside : Inside j angle
  leftover : second = false → id = 0 → j = 0 → Leftover tmp_cmd
  thumb : second = false → id = 0 → j = 0 ∨ j = 1 → 20 < tmp_cmd.get 1 0 → angle ≤ 5

/-- Where a pass stands: `todo` is what is left of it. From its first joint on the command is
    inside, and each joint but `LrDir` is zero once it has been checked. -/
structure Passing (task : LpV2SyncFFH F) (todo : List CheckStep) (tmp_cmd : udp_hand_cmd F) : Prop where
  rest : todo <:+ checkPass
  ffh : todo ≠ checkPass → Has task left_hand
  begun : .joint false 0 0 ∉ todo → Envelope tmp_cmd
  zeroed : ∀ k l, l ≠ 2 → .joint false k l ∉ todo → tmp_cmd.get k l = 0

/-- What the first half of a pass has behind it at a joint. -/
def Behind : List CheckStep → Prop
  | .joint second id j :: todo =>
    (¬ (second = false ∧ id = 0 ∧ j = 0) → .joint false 0 0 ∉ .joint second id j :: todo) ∧
      (id = 1 ∧ j = 0 → .joint false 0 0 ∉ .joint second id j :: todo ∧ .joint false 0 1 ∉ .joint second id j :: todo) ∧
      (second = true → .joint false 1 0 ∉ .joint second id j :: todo)
  | _ => True

instance : DecidablePred Behind := fun todo =>
  match todo with
  | .joint _ _ _ :: _ => inferInstanceAs (Decidable (_ ∧ _ ∧ _))
  | .reset :: _ => isTrue trivial
  | .clear :: _ => isTrue trivial
  | [] => isTrue trivial

theorem checkPass_behind {todo : List CheckStep} (h : todo <:+ checkPass) : Behind todo := by
  have hall : ∀ rest ∈ checkPass.tails, Behind rest := by decide +kernel
  exact hall todo ((List.mem_tails _ _).mpr h)

theorem passing_start (task : LpV2SyncFFH F) (tmp_cmd : udp_hand_cmd F) : Passing task checkPass tmp_cmd where
  rest := List.suffix_rfl
  ffh := fun h => absurd rfl h
  begun := fun h => absurd (by decide) h
  zeroed := fun k l _ h => by
    have hall : ∀ k l, CheckStep.joint false k l ∈ checkPass := by decide
    exact absurd (hall k l) h

/-- The command with an angle of the table is inside exactly when the angle may go out. -/
theorem table_envelope_iff [IsStrictOrderedRing F] {task : LpV2SyncFFH F} {second : Bool} {id : Fin 5} {j : Fin 4}
    {todo : List CheckStep} {tmp_cmd : udp_hand_cmd F} (h : Passing task (.joint second id j :: todo) tmp_cmd) (a : F) :
    Envelope (tmp_cmd.set id j a) ↔ TableAngle tmp_cmd second id j a := by
  obtain ⟨hbegun, hindex, hsecond⟩ := checkPass_behind h.rest
  by_cases hfirst : second = false ∧ id = 0 ∧ j = 0
  · obtain ⟨rfl, rfl, rfl⟩ := hfirst
    have h10 : (tmp_cmd.set 0 0 a).get 1 0 = tmp_cmd.get 1 0 := udp_hand_cmd.get_set_other _ _ (Or.inl (by decide))
    have h01 : (tmp_cmd.set 0 0 a).get 0 1 = tmp_cmd.get 0 1 := udp_hand_cmd.get_set_other _ _ (Or.inr (by decide))
    have hclear : Clear (tmp_cmd.set 0 0 a) ↔ (20 < tmp_cmd.get 1 0 → a ≤ 5 ∧ tmp_cmd.get 0 1 ≤ 5) := by
      unfold Clear
      rw [h10, h01, udp_hand_cmd.get_set_same, not_and, not_or, not_lt, not_lt]
    constructor
    · intro he
      have hc := hclear.mp he.clear
      refine ⟨by simpa using he.inside 0 0, fun _ _ _ => ⟨fun k l hkl => ?_, fun h20 => (hc h20).2⟩,
        fun _ _ _ h20 => (hc h20).1⟩
      have hin := he.inside k l
      rwa [udp_hand_cmd.get_set, if_neg fun e => hkl (Prod.ext e.1 e.2)] at hin
    · intro ht
      have hleft := ht.leftover rfl rfl rfl
      refine (envelope_set_iff 0 0 a hleft.inside).mpr ⟨ht.inside, hclear.mpr fun h20 => ?_⟩
      exact ⟨ht.thumb rfl rfl (Or.inl rfl) h20, hleft.clear h20⟩
  · rw [entered_iff (h.begun (hbegun hfirst))]
    have hfive : (0 : F) ≤ 5 := by norm_num
    constructor
    · rintro ⟨hin, hk⟩
      refine ⟨hin, fun e1 e2 e3 => absurd ⟨e1, e2, e3⟩ hfirst, fun _ e2 hj h20 => not_lt.mp fun h5 => ?_⟩
      exact absurd (hk.thumb e2 hj h5) (not_le.mpr h20)
    · refine fun ht => ⟨ht.inside, fun e1 e2 _ => ?_, fun e1 hj h5 => not_lt.mp fun h20 => ?_⟩
      · obtain ⟨h0, h1⟩ := hindex ⟨e1, e2⟩
        rw [h.zeroed 0 0 (by decide) h0, h.zeroed 0 1 (by decide) h1]
        exact ⟨hfive, hfive⟩
      · cases second with
        | false => exact absurd (ht.thumb rfl e1 hj h20) (not_le.mpr h5)
        | true =>
          rw [h.zeroed 1 0 (by decide) (hsecond rfl)] at h20
          exact absurd h20 (by norm_num)

end

/-! ## What the code goes on behind -/

/-- An angle that is infinite or no number, and what was read or written outside an array.
    A ring without a size is not among these: the division behind that write ends the program.
    Nor are `ffhValid` and `ffhs_`, whose subscripts stay inside (`Wired`). -/
def Garbled : Fault → Prop
  | .notExact => True
  | .outOfBounds .finger => True
  | .outOfBounds .angle => True
  | .outOfBounds .limits => True
  | .outOfBounds .selfCheckData => True
  | e => Overruns e

theorem leap_garbled {e : Fault} (h : LeapFault e) (hn : ¬ Overruns e) : ¬ Garbled e := by
  cases e with
  | outOfBounds a => cases a <;> first | exact h.elim | exact hn
  | divisionByZero => exact id
  | _ => exact h.elim

theorem garbled_of_overruns {e : Fault} (h : Overruns e) : Garbled e := by
  cases e with
  | outOfBounds a => cases a <;> first | exact h | exact h.elim
  | _ => exact h.elim

namespace LpV2SyncFFH

variable {F : Type}

/-- A call through a null pointer ends the program. -/
theorem withFfh_ungarbled {α : Type} {task : LpV2SyncFFH F} {i : Nat}
    {op : FfhCtrl F → Emit (UdpEv F) Fault (FfhCtrl F × α)}
    (hop : ∀ c, task.ffhs_[i]? = some (some c) → Ends (fun e => ¬ Garbled e) (fun _ => True) (op c)) :
    Ends (fun e => ¬ Garbled e) (fun _ => True) (task.withFfh i op) := by
  unfold withFfh subscript
  split
  · rename_i x hx
    rw [lift_ok_bind]
    cases x with
    | none => exact ends_fail id
    | some c => exact ends_bind (ends_mapOut (hop c hx)) fun _ _ => ends_pure trivial
  · rw [lift_error_bind]
    exact ends_fail id

theorem sendTo_ungarbled (task : LpV2SyncFFH F) (i : Nat) (cmd : udp_hand_cmd F) :
    Ends (fun e => ¬ Garbled e) (fun _ => True) (task.sendTo i cmd) :=
  ends_bind (withFfh_ungarbled fun _ _ => ends_of_ok rfl trivial) fun _ _ => ends_pure trivial

theorem resetFfh_ungarbled [Zero F] (task : LpV2SyncFFH F) (i : Nat) :
    Ends (fun e => ¬ Garbled e) (fun _ => True) (task.resetFfh i) :=
  ends_bind (withFfh_ungarbled fun _ _ => ends_of_ok rfl trivial) fun _ _ => ends_pure trivial

section Entries

variable [DivisionRing F]

/-- A triple converts in one way. -/
theorem entry_unique {strs : Fin 3 → String} {i k : Fin 5} {j l : Fin 4} {a b : F} (h : FfhCtrl.Entry strs i j a)
    (h' : FfhCtrl.Entry strs k l b) : i = k ∧ j = l ∧ a = b := by
  have hf := h.finger.symm.trans h'.finger
  have hj := h.joint.symm.trans h'.joint
  have ha := h.angle.symm.trans h'.angle
  simp only [Except.ok.injEq] at hf hj ha
  exact ⟨Fin.ext (by omega), Fin.ext (by omega), ha⟩

theorem entry_converts {strs : Fin 3 → String} {i : Fin 5} {j : Fin 4} {a : F} (h : FfhCtrl.Entry strs i j a) :
    FfhCtrl.convert stof strs = .ok (i, j, a) := (FfhCtrl.convert_ok stof).mpr ⟨h.angle, h.finger, h.joint⟩

/-- A read that enters a triple sends the command with the entry. -/
theorem readFlow_sends {task : LpV2SyncFFH F} {t : FfhCtrl.Flow} {word : Option String} {c : FfhCtrl F}
    {strs : Fin 3 → String} {i : Fin 5} {j : Fin 4} {a : F} (hc : task.ffhs_[left_hand]? = some (some c))
    (hs : t.completed word = some strs) (he : FfhCtrl.Entry strs i j a) :
    (task.readFlow t word).out = [.udp left_hand (.sendto c.udp_.sockfd_ c.udp_.server_addr (c.handCmd_.set i j a))] := by
  unfold readFlow
  rw [withFfh_of hc, bind_pure_out, mapOut_out, bind_pure_out]
  have ho := c.flowStep_outcome t word
  generalize c.flowStep t word = x at ho ⊢
  cases ho with
  | quit hn => rw [hs] at hn; cases hn
  | reset next hn => rw [hs] at hn; cases hn
  | next next hn => rw [hs] at hn; cases hn
  | entered strs' i' j' a' next hs' he' =>
    obtain rfl : strs' = strs := by rw [hs] at hs'; exact (Option.some.inj hs').symm
    obtain ⟨rfl, rfl, rfl⟩ := entry_unique he he'
    rfl
  | fault strs' e hs' hno =>
    obtain rfl : strs' = strs := by rw [hs] at hs'; exact (Option.some.inj hs').symm
    rw [entry_converts he] at hno
    cases hno

/-- A triple that does not convert ends the read so. -/
theorem readFlow_faults {task : LpV2SyncFFH F} {t : FfhCtrl.Flow} {word : Option String} {c : FfhCtrl F}
    {strs : Fin 3 → String} {e : Fault} (hc : task.ffhs_[left_hand]? = some (some c)) (hs : t.completed word = some strs)
    (he : FfhCtrl.convert (stof (F := F)) strs = .error e) : (task.readFlow t word).res = .error e := by
  unfold readFlow
  rw [withFfh_of hc]
  have ho := c.flowStep_outcome t word
  generalize c.flowStep t word = x at ho ⊢
  cases ho with
  | quit hn => rw [hs] at hn; cases hn
  | reset next hn => rw [hs] at hn; cases hn
  | next next hn => rw [hs] at hn; cases hn
  | entered strs' i j a next hs' he' =>
    obtain rfl : strs' = strs := by rw [hs] at hs'; exact (Option.some.inj hs').symm
    rw [entry_converts he'] at he
    cases he
  | fault strs' e' hs' he' =>
    obtain rfl : strs' = strs := by rw [hs] at hs'; exact (Option.some.inj hs').symm
    rw [he] at he'
    cases he'
    rfl

variable [LinearOrder F]

/-- The triple throws, or enters an angle that is inside and keeps the thumb clear. -/
def Enterable (cmd : udp_hand_cmd F) (strs : Fin 3 → String) : Prop :=
  ((stof (strs 2) : Except Fault F) = .error .uncaught ∨ stoi (strs 0) = .error .uncaught ∨
    stoi (strs 1) = .error .uncaught) ∨
  ∃ i j angle, FfhCtrl.Entry strs i j angle ∧ Inside j angle ∧ KeepsClear cmd i j angle

theorem Enterable.entry {cmd : udp_hand_cmd F} {strs : Fin 3 → String} (h : Enterable cmd strs) {i : Fin 5} {j : Fin 4}
    {a : F} (he : FfhCtrl.Entry strs i j a) : Inside j a ∧ KeepsClear cmd i j a := by
  rcases h with hthrows | ⟨k, l, b, hb, hin, hk⟩
  · have hv := (FfhCtrl.convert_uncaught stof).mpr hthrows
    rw [entry_converts he] at hv
    cases hv
  · obtain ⟨rfl, rfl, rfl⟩ := entry_unique he hb
    exact ⟨hin, hk⟩

theorem Enterable.ungarbled {cmd : udp_hand_cmd F} {strs : Fin 3 → String} (h : Enterable cmd strs) {e : Fault}
    (he : FfhCtrl.convert (stof (F := F)) strs = .error e) : ¬ Garbled e := by
  rcases h with hthrows | ⟨i, j, a, ha, -⟩
  · rw [(FfhCtrl.convert_uncaught stof).mpr hthrows] at he
    cases he
    exact id
  · rw [entry_converts ha] at he
    cases he

theorem readFlow_ungarbled {task : LpV2SyncFFH F} {t : FfhCtrl.Flow} {word : Option String}
    (h : ∀ c strs, task.ffhs_[left_hand]? = some (some c) → t.completed word = some strs → Enterable c.handCmd_ strs) :
    Ends (fun e => ¬ Garbled e) (fun _ => True) (task.readFlow t word) := by
  refine withFfh_ungarbled fun c hc => ends_bind (Q := fun _ => True) ?_ fun _ _ => ends_pure trivial
  have ho := c.flowStep_outcome t word
  generalize c.flowStep t word = x at ho ⊢
  cases ho with
  | fault strs e hs he => exact ends_fail ((h c strs hc hs).ungarbled he)
  | _ => exact ends_of_ok rfl trivial

/-- A triple after which nothing garbled is sent, and that enters what is inside, is enterable. -/
theorem enterable_of {cmd : udp_hand_cmd F} {strs : Fin 3 → String}
    (hent : ∀ i j a, FfhCtrl.Entry strs i j a → Inside j a ∧ KeepsClear cmd i j a)
    (hfault : ∀ e, FfhCtrl.convert (stof (F := F)) strs = .error e → ¬ Garbled e) : Enterable cmd strs := by
  cases hv : FfhCtrl.convert (stof (F := F)) strs with
  | ok r =>
    obtain ⟨i, j, a⟩ := r
    obtain ⟨ha, hf, hj⟩ := (FfhCtrl.convert_ok stof).mp hv
    exact .inr ⟨i, j, a, ⟨ha, hf, hj⟩, hent i j a ⟨ha, hf, hj⟩⟩
  | error e =>
    have hn := hfault e hv
    refine .inl ((FfhCtrl.convert_uncaught stof).mp ?_)
    rcases FfhCtrl.convert_error stof hv with rfl | ha | rfl | rfl
    · exact hv
    · rcases stof_error ha with rfl | rfl
      · exact hv
      · exact absurd trivial hn
    · exact absurd trivial hn
    · exact absurd trivial hn

end Entries

/-! ## A statement of the self check -/

section Checks

variable [Ring F] [LinearOrder F]

/-- The table has its cell, with an angle that may go out. -/
def Checks (task : LpV2SyncFFH F) (tmp_cmd : udp_hand_cmd F) : CheckStep → Prop
  | .joint second id j => ∃ angle, task.checkAngle second id j = .ok angle ∧ TableAngle tmp_cmd second id j angle
  | _ => True

omit [LinearOrder F] in
/-- A joint of the self check sends the command with the table's angle. -/
theorem checkStep_sends {task : LpV2SyncFFH F} {tmp_cmd : udp_hand_cmd F} {c : FfhCtrl F} {second : Bool} {id : Fin 5}
    {j : Fin 4} {angle : F} (hc : task.ffhs_[left_hand]? = some (some c))
    (ha : task.checkAngle second id j = .ok angle) :
    .udp left_hand (.sendto c.udp_.sockfd_ c.udp_.server_addr (tmp_cmd.set id j angle)) ∈
      (task.checkStep tmp_cmd (.joint second id j)).out := by
  simp only [checkStep, ha, lift_ok_bind, sendTo_of hc]
  rw [bind_of_ok rfl]
  exact List.mem_append_left _ (List.mem_singleton.mpr rfl)

omit [Ring F] [LinearOrder F] in
theorem checkAngle_fault {task : LpV2SyncFFH F} {second : Bool} {id : Fin 5} {j : Fin 4} {e : Fault}
    (h : task.checkAngle second id j = .error e) : e = .outOfBounds .selfCheckData := by
  simp only [checkAngle, bind, Except.bind] at h
  split at h
  · rename_i hr
    unfold subscript at hr
    split at hr
    · cases hr
    · cases hr; cases h; rfl
  · unfold subscript at h
    split at h
    · cases h
    · cases h; rfl

/-- A pass behind its first statement has the left hand. -/
theorem passing_has {task : LpV2SyncFFH F} {c : CheckStep} {todo : List CheckStep} {tmp_cmd : udp_hand_cmd F}
    (h : Passing task (c :: todo) tmp_cmd) (hc : c ≠ .reset) : Has task left_hand := by
  refine h.ffh fun e => hc ?_
  have hhead : checkPass.head? = some .reset := by decide
  rw [← e] at hhead
  exact Option.some.inj hhead

variable [IsStrictOrderedRing F]

theorem Checks.envelope {task : LpV2SyncFFH F} {second : Bool} {id : Fin 5} {j : Fin 4} {todo : List CheckStep}
    {tmp_cmd : udp_hand_cmd F} (h : Passing task (.joint second id j :: todo) tmp_cmd)
    (ht : Checks task tmp_cmd (.joint second id j)) {angle : F} (ha : task.checkAngle second id j = .ok angle) :
    Envelope (tmp_cmd.set id j angle) ∧
      Envelope (if j ≠ 2 then (tmp_cmd.set id j angle).set id j 0 else tmp_cmd.set id j angle) := by
  obtain ⟨b, hb, hangle⟩ := ht
  obtain rfl : b = angle := by rw [ha] at hb; exact (Except.ok.inj hb).symm
  have hset := (table_envelope_iff h b).mpr hangle
  refine ⟨hset, ?_⟩
  split
  · exact envelope_zeroed hset id j
  · exact hset

theorem check_inside {task : LpV2SyncFFH F} {c : CheckStep} {todo : List CheckStep} {tmp_cmd : udp_hand_cmd F}
    (hh : Holding (fun _ => Envelope) task) (h : Passing task (c :: todo) tmp_cmd) (ht : Checks task tmp_cmd c) :
    Sat (Meets fun _ => Envelope) (fun r => Holding (fun _ => Envelope) r.1) (task.checkStep tmp_cmd c) := by
  apply checkStep_holding (hh.mono fun k cmd hk _ => hk) (fun _ => hh) (fun _ => zero_envelope)
  rintro d second id j angle rfl hd hangle
  exact ht.envelope h hangle

omit [IsStrictOrderedRing F] in
theorem check_ungarbled {task : LpV2SyncFFH F} {c : CheckStep} {tmp_cmd : udp_hand_cmd F} (ht : Checks task tmp_cmd c) :
    Ends (fun e => ¬ Garbled e) (fun _ => True) (task.checkStep tmp_cmd c) := by
  cases c with
  | reset => exact ends_bind (resetFfh_ungarbled task left_hand) fun _ _ => ends_pure trivial
  | clear => exact ends_pure trivial
  | joint second id j =>
    obtain ⟨angle, ha, -⟩ := ht
    refine ends_bind (Q := fun _ => True) (ends_of_ok ha trivial) fun a _ => ?_
    exact ends_bind (sendTo_ungarbled task left_hand _) fun t _ =>
      ends_bind (sendTo_ungarbled t left_hand _) fun _ _ => ends_pure trivial

theorem passing_next {task u : LpV2SyncFFH F} {c : CheckStep} {todo : List CheckStep} {tmp_cmd tmp_cmd' : udp_hand_cmd F}
    (h : Passing task (c :: todo) tmp_cmd) (ht : Checks task tmp_cmd c)
    (hu : (task.checkStep tmp_cmd c).res = .ok (u, tmp_cmd')) : Passing u todo tmp_cmd' := by
  have hrest : todo <:+ checkPass := (List.suffix_cons c todo).trans h.rest
  have halike := (checkStep_steady hu).alike
  -- a statement that leaves the local as it was
  have quiet : Has task left_hand → (∀ second id j, c ≠ .joint second id j) → tmp_cmd' = tmp_cmd →
      Passing u todo tmp_cmd' := by
    rintro hhas hno rfl
    have hmem : ∀ k l, .joint false k l ∉ todo → CheckStep.joint false k l ∉ c :: todo := fun k l hn hm =>
      (List.mem_cons.mp hm).elim (fun e => hno _ _ _ e.symm) hn
    exact ⟨hrest, fun _ => (halike.ffhs left_hand).mpr hhas, fun hn => h.begun (hmem 0 0 hn),
      fun k l hl hn => h.zeroed k l hl (hmem k l hn)⟩
  cases c with
  | reset =>
    obtain ⟨t, hreset, hu⟩ := bind_res_ok.mp hu
    obtain ⟨⟨v, x⟩, hv, -⟩ := bind_res_ok.mp hreset
    obtain ⟨d, -, hd, -⟩ := withFfh_returned hv
    cases hu
    exact quiet ⟨d, hd⟩ (fun _ _ _ e => by cases e) rfl
  | clear =>
    cases hu
    exact quiet (passing_has h fun e => by cases e) (fun _ _ _ e => by cases e) rfl
  | joint second id j =>
    have hhas := passing_has h fun e => by cases e
    obtain ⟨a, ha, hu⟩ := bind_res_ok.mp hu
    obtain ⟨v, -, hu⟩ := bind_res_ok.mp hu
    obtain ⟨w, -, hu⟩ := bind_res_ok.mp hu
    cases hu
    refine ⟨hrest, fun _ => (halike.ffhs left_hand).mpr hhas, fun _ => (ht.envelope h ha).2, fun k l hl hn => ?_⟩
    by_cases hsame : k = id ∧ l = j
    · obtain ⟨rfl, rfl⟩ := hsame
      rw [if_pos hl, udp_hand_cmd.get_set_same]
    · have hother : ∀ b, (tmp_cmd.set id j b).get k l = tmp_cmd.get k l := fun b => by
        rw [udp_hand_cmd.get_set, if_neg hsame]
      have hkeep : (if j ≠ 2 then (tmp_cmd.set id j a).set id j 0 else tmp_cmd.set id j a).get k l = tmp_cmd.get k l := by
        split
        · rw [udp_hand_cmd.get_set, if_neg hsame, hother]
        · exact hother a
      rw [hkeep]
      refine h.zeroed k l hl fun hm => (List.mem_cons.mp hm).elim (fun e => ?_) hn
      cases e
      exact hsame ⟨rfl, rfl⟩

/-- A statement that sends inside and reads inside its table. -/
theorem checks_of {task : LpV2SyncFFH F} {c : CheckStep} {todo : List CheckStep} {tmp_cmd : udp_hand_cmd F}
    (h : Passing task (c :: todo) tmp_cmd) (hout : ∀ w ∈ (task.checkStep tmp_cmd c).out, Meets (fun _ => Envelope) w)
    (hfault : ∀ e, (task.checkStep tmp_cmd c).res = .error e → ¬ Garbled e) : Checks task tmp_cmd c := by
  cases c with
  | reset => trivial
  | clear => trivial
  | joint second id j =>
    cases ha : task.checkAngle second id j with
    | error e =>
      have hres : (task.checkStep tmp_cmd (.joint second id j)).res = .error e := by
        simp only [checkStep, ha, lift_error_bind, fail_res]
      rw [checkAngle_fault ha] at hres
      exact absurd trivial (hfault _ hres)
    | ok angle =>
      obtain ⟨d, hd⟩ := passing_has h fun e => by cases e
      have henv : Envelope (tmp_cmd.set id j angle) := hout _ (checkStep_sends hd ha) left_hand _ rfl
      exact ⟨angle, ha, (table_envelope_iff h angle).mp henv⟩

end Checks

/-! ## An iteration -/

section Iterations

variable [Field F] [LinearOrder F] [Libm F]

/-- An iteration that publishes has its limits; and of a tracked left hand, the palm angle of
    the thumb is at most 30, and the other fingers' in `handCmd` are inside. -/
def Iterable (task : LpV2SyncFFH F) (hands : List (LEAP_HAND F)) : Prop :=
  (hands = [] ∨ ∃ hand ∈ hands, hand.type = .eLeapHandType_Left) → task.isOn left_hand = true →
    (Covers task.lowerLimits_ ∧ Covers task.upperLimits_) ∧
    ∀ hand, hands.find? isLeft = some hand → ¬ hand.confidence < 3 / 10 →
      thumbToPalm (palmNormal hand) (hand.digits 0) ≤ 30 ∧ ∀ k ≠ 0, Inside 3 (task.handCmd.get k 3)

omit [Libm F] in
/-- Publishing for a hand that is on faults in the limits as `postProcessHandCmd` does. -/
theorem publish_faults {task : LpV2SyncFFH F} {pre : udp_hand_cmd F} {e : Fault}
    (hv : task.isValid left_hand = .ok true)
    (hp : postProcessHandCmd task.lowerLimits_ task.upperLimits_ pre = .error e) :
    ((task.setHandCmd pre).publishFfhCmd left_hand).res = .error e := by
  have hpost : (task.setHandCmd pre).postProcess = .error e := by
    unfold postProcess
    rw [show postProcessHandCmd (task.setHandCmd pre).lowerLimits_ (task.setHandCmd pre).upperLimits_
      (task.setHandCmd pre).handCmd = .error e from hp]
    rfl
  unfold publishFfhCmd
  rw [show (task.setHandCmd pre).isValid left_hand = .ok true from hv, lift_ok_bind, hpost]
  rfl

variable [IsStrictOrderedRing F]

/-- What an iteration publishes leaves the envelope only by a palm angle. -/
theorem chosen_inside_iff (handCmd : udp_hand_cmd F) (hands : List (LEAP_HAND F)) :
    (∀ i, Inside 3 ((chosen handCmd hands).get i 3)) ↔
      ∀ hand, hands.find? isLeft = some hand → ¬ hand.confidence < 3 / 10 →
        thumbToPalm (palmNormal hand) (hand.digits 0) ≤ 30 ∧ ∀ k ≠ 0, Inside 3 (handCmd.get k 3) := by
  have opened : chosen handCmd hands = .zero → ∀ i, Inside 3 ((chosen handCmd hands).get i 3) := by
    intro hz i
    rw [hz]; exact inside_zero 3
  cases hf : hands.find? isLeft with
  | none =>
    refine iff_of_true (opened ?_) fun hand h => by cases h
    unfold chosen
    rw [hf]; rfl
  | some hand =>
    by_cases hconf : hand.confidence < 3 / 10
    · refine iff_of_true (opened ?_) fun hand' h hn => absurd (Option.some.inj h ▸ hconf) hn
      unfold chosen
      rw [hf, Option.bind_some, calPubFingerAngle_none.mpr hconf]; rfl
    · obtain ⟨h0, hk⟩ := chosen_palm handCmd hf hconf
      have h30 : (LIMIT_HCMD_UPPER 3 : F) = 30 := rfl
      constructor
      · rintro hin hand' h -
        obtain rfl := Option.some.inj h
        refine ⟨?_, fun k hne => hk k hne ▸ hin k⟩
        have hle := (hin 0).2
        rw [h0, h30] at hle
        split at hle
        · rename_i hneg
          exact hneg.le.trans hle
        · exact hle
      · intro h i
        obtain ⟨hpalm, hothers⟩ := h hand rfl hconf
        by_cases hi : i = 0
        · subst hi
          rw [h0]
          split
          · exact inside_zero 3
          · rename_i hn
            have hlow : (-30 : F) ≤ 0 := by norm_num
            exact ⟨hlow.trans (not_lt.mp hn), hpalm⟩
        · rw [hk i hi]; exact hothers i hi

theorem iterate_inside {task : LpV2SyncFFH F} {hands : List (LEAP_HAND F)}
    (hb : task.isOn left_hand = true → Bounded task.lowerLimits_ task.upperLimits_)
    (hh : Holding (fun _ => Envelope) task) (hi : Iterable task hands) :
    Sat (Meets fun _ => Envelope) (fun r => Holding (fun _ => Envelope) r.1) (task.iterateHands hands) := by
  by_cases hl : hands = [] ∨ ∃ hand ∈ hands, hand.type = .eLeapHandType_Left
  · rw [(iterateHands_eq task hands).1 hl]
    refine sat_bind ?_ fun t ht => sat_pure ht
    apply publish_holding (hh.mono fun k cmd hk _ _ => hk) (fun _ => hh)
    intro c cmd hv _ hpost
    have hon := isOn_of hv
    exact (postProcess_envelope (hb hon) hpost).mpr ((chosen_inside_iff task.handCmd hands).mpr (hi hl hon).2)
  · rw [(iterateHands_eq task hands).2 hl]
    exact sat_pure hh

omit [IsStrictOrderedRing F] in
theorem iterate_ungarbled {task : LpV2SyncFFH F} {hands : List (LEAP_HAND F)} (hw : Wired task) (hi : Iterable task hands) :
    Ends (fun e => ¬ Garbled e) (fun _ => True) (task.iterateHands hands) := by
  have hlen : left_hand < task.ffhValid.length := Nat.lt_of_lt_of_le (by decide) hw.hands
  refine ends_mono (exact_returns (iterateHands_exact task hands) fun hl => ?_) (fun _ h => h) fun _ _ => trivial
  exact ⟨hlen, fun hon => ⟨(hi hl hon).1, hw.ffhs left_hand (by decide) hon⟩⟩

/-- An iteration that publishes inside, with limits that have their cells. -/
theorem iterable_of {task : LpV2SyncFFH F} {hands : List (LEAP_HAND F)} (hw : Wired task)
    (hb : task.isOn left_hand = true → Bounded task.lowerLimits_ task.upperLimits_)
    (hout : ∀ w ∈ (task.iterateHands hands).out, Meets (fun _ => Envelope) w)
    (hfault : ∀ e, (task.iterateHands hands).res = .error e → ¬ Garbled e) : Iterable task hands := by
  intro hl hon
  have hv : task.isValid left_hand = .ok true := by
    have hlen : left_hand < task.ffhValid.length := Nat.lt_of_lt_of_le (by decide) hw.hands
    obtain ⟨b, hv, hb⟩ := ends_total (exact_returns (isValid_exact (ω := Ev F) task left_hand) hlen)
    rw [hon] at hb
    rw [hb]
    exact hv
  rw [(iterateHands_eq task hands).1 hl] at hout hfault
  rw [bind_pure_out] at hout
  cases hp : postProcessHandCmd task.lowerLimits_ task.upperLimits_ (chosen task.handCmd hands) with
  | error e =>
    have hres := publish_faults hv hp
    rw [bind_of_error hres] at hfault
    rw [postProcess_fault hp] at hfault
    exact absurd trivial (hfault _ rfl)
  | ok cmd =>
    refine ⟨(postProcess_returns_iff _ _ _).mp ⟨cmd, hp⟩, (chosen_inside_iff task.handCmd hands).mp ?_⟩
    have ho := publish_outcome task left_hand (chosen task.handCmd hands)
    generalize (task.setHandCmd (chosen task.handCmd hands)).publishFfhCmd left_hand = x at ho hout
    cases ho with
    | off hoff => rw [hv] at hoff; cases hoff
    | sent c cmd' _ _ hp' =>
      exact (postProcess_envelope (hb hon) hp').mp (hout _ (List.mem_singleton.mpr rfl) left_hand cmd' rfl)
    | fault e hn =>
      obtain ⟨c, hc⟩ := hw.ffhs left_hand (by decide) hon
      exact absurd hp (hn c cmd hv hc)

end Iterations

end LpV2SyncFFH

namespace Program

variable {F : Type} [Field F] [LinearOrder F] [Libm F]

/-! ## The condition -/

/-- Of a read, the triple that it completes; of a statement of the self check, its cell of the
    table; of an iteration, the hands it has copied; of a poll, the message. -/
def Permitted (s : Prog F) : Act F → Prop
  | .read word =>
    ∀ operCmd t, s.phase = .flow operCmd t → ∀ c strs, s.task.ffhs_[left_hand]? = some (some c) →
      t.completed word = some strs → Enterable c.handCmd_ strs
  | .check => ∀ str c todo tmp_cmd, s.phase = .pass str (c :: todo) tmp_cmd → Checks s.task tmp_cmd c
  | .exec => ∀ hands, iterating s .exec = some hands → Iterable s.task hands
  | .service i answer =>
    ∀ m, s.phase ≠ .destroyed → s.task.lmWrap.pollingThread_[i]? = some .poll → answer = some m →
      Contained s.cbs s.task.lmWrap m
  | _ => True

/-- The limits that the task clamps with are bounded, a connected controller's command is
    inside, `testFlow` runs on a connected one, and a pass leaves zeros behind it. -/
structure Inv (s : Prog F) : Prop where
  wired : Wired s.task
  bounded : s.task.isOn left_hand = true → Bounded s.task.lowerLimits_ s.task.upperLimits_
  holding : Holding (fun _ => Envelope) s.task
  flow : ∀ operCmd t, s.phase = .flow operCmd t →
    ∃ c, s.task.ffhs_[left_hand]? = some (some c) ∧ c.inConnection_ = true
  pass : ∀ str todo tmp_cmd, s.phase = .pass str todo tmp_cmd → Passing s.task todo tmp_cmd

/-! ## A permitted step stays inside -/

omit [Libm F] in
/-- The clamping limits stay bounded when the hands that are on and the limits stay. -/
theorem bounded_of {task u : LpV2SyncFFH F} (hv : u.ffhValid = task.ffhValid)
    (hlo : u.lowerLimits_ = task.lowerLimits_) (hup : u.upperLimits_ = task.upperLimits_)
    (h : task.isOn left_hand = true → Bounded task.lowerLimits_ task.upperLimits_) :
    u.isOn left_hand = true → Bounded u.lowerLimits_ u.upperLimits_ := by
  intro hon
  rw [hlo, hup]
  apply h
  unfold LpV2SyncFFH.isOn at hon ⊢
  rwa [hv] at hon

omit [Libm F] in
theorem bounded_alike {task u : LpV2SyncFFH F} (ha : Alike task u)
    (h : task.isOn left_hand = true → Bounded task.lowerLimits_ task.upperLimits_) :
    u.isOn left_hand = true → Bounded u.lowerLimits_ u.upperLimits_ :=
  bounded_of ha.ffhValid ha.lowerLimits_ ha.upperLimits_ h

omit [Field F] [LinearOrder F] [Libm F] in
/-- The connected left hand stays connected under operations that only send. -/
theorem connected_steady {task u : LpV2SyncFFH F} (hs : Steady task u)
    (h : ∃ c, task.ffhs_[left_hand]? = some (some c) ∧ c.inConnection_ = true) :
    ∃ c, u.ffhs_[left_hand]? = some (some c) ∧ c.inConnection_ = true := by
  obtain ⟨c, hc, hin⟩ := h
  obtain ⟨d, hd, hl⟩ := ffh_of_links hs.links.symm hc
  exact ⟨d, hd, (congrArg (fun l => l.2.2.1) hl).trans hin⟩

omit [Field F] [LinearOrder F] [Libm F] in
/-- `testFlow` goes on to read only for a connected hand. -/
theorem testFlow_connected {task u : LpV2SyncFFH F} {t : FfhCtrl.Flow} (h : (task.testFlow).res = .ok (u, some t)) :
    ∃ c, u.ffhs_[left_hand]? = some (some c) ∧ c.inConnection_ = true := by
  have hs := testFlow_steady h
  obtain ⟨c, c', hc, hop, -, -⟩ := withFfh_returned h
  refine connected_steady hs ⟨c, hc, ?_⟩
  unfold FfhCtrl.testFlow at hop
  split at hop
  · cases hop
  · rename_i hn; simpa using hn

omit [Field F] [LinearOrder F] [Libm F] in
theorem Kept.alike {task t : LpV2SyncFFH F} (h : Kept task t) (hw : Wired task) : Wired t := by
  refine ⟨by rw [h.ffhValid]; exact hw.hands, fun i hi hon => ?_⟩
  unfold Has
  rw [h.ffhs_]
  refine hw.ffhs i hi ?_
  unfold LpV2SyncFFH.isOn at hon ⊢
  rwa [h.ffhValid] at hon

omit [Libm F] in
/-- An operation that sends inside and opens nothing, and where the program goes from it. -/
theorem op_inside {α : Type} {s : Prog F} (h : Inv s) {x : Emit (Ev F) Fault α} {task : α → LpV2SyncFFH F}
    {phase : α → Phase F} (hx : Sat (Meets fun _ => Envelope) (fun r => Holding (fun _ => Envelope) (task r)) x)
    (hs : ∀ r, x.res = .ok r → Steady s.task (task r))
    (hflow : ∀ r operCmd t, x.res = .ok r → phase r = .flow operCmd t →
      ∃ c, (task r).ffhs_[left_hand]? = some (some c) ∧ c.inConnection_ = true)
    (hpass : ∀ r str todo tmp_cmd, x.res = .ok r → phase r = .pass str todo tmp_cmd → Passing (task r) todo tmp_cmd) :
    Sat (Meets fun _ => Envelope) Inv (x >>= fun r => pure { s with task := task r, phase := phase r }) := by
  apply sat_bind (sat_res hx)
  intro r hr
  obtain ⟨hhold, hres⟩ := hr
  have halike := (hs r hres).alike
  exact sat_pure ⟨h.wired.alike halike, bounded_alike halike h.bounded, hhold, fun operCmd t => hflow r operCmd t hres,
    fun str todo tmp_cmd => hpass r str todo tmp_cmd hres⟩

omit [Libm F] in
/-- Where `testFlow` runs, the command was inside, so it stays so exactly for an entry that is. -/
theorem Inv.entered {s : Prog F} (h : Inv s) {operCmd : String} {t : FfhCtrl.Flow} (hph : s.phase = .flow operCmd t)
    {c : FfhCtrl F} (hc : s.task.ffhs_[left_hand]? = some (some c)) : Envelope c.handCmd_ := by
  obtain ⟨d, hd, hin⟩ := h.flow operCmd t hph
  obtain rfl := ffh_eq hc hd
  exact h.holding left_hand c hc hin

variable [IsStrictOrderedRing F]

theorem step_sends {s : Prog F} {a : Act F} (h : Inv s) (hp : Permitted s a) :
    Sat (Meets fun _ => Envelope) Inv (step s a) := by
  have hd := step_does s a
  generalize step s a = x at hd ⊢
  cases hd with
  | quiet _ _ hit hq hn =>
    obtain ⟨⟨es, hes⟩, hk⟩ := hq
    refine ⟨fun w hw => ?_, fun t ht => ?_⟩
    · rw [hes] at hw
      obtain ⟨e, -, rfl⟩ := List.mem_map.mp hw
      exact meets_leap e
    · have hkept := hk t ht
      have hnext := hn t ht
      refine ⟨hkept.alike h.wired, bounded_of hkept.ffhValid hkept.lowerLimits_ hkept.upperLimits_ h.bounded,
        fun i c hc => h.holding i c (hkept.ffhs_ ▸ hc), fun operCmd f hf => ?_, fun str todo tmp_cmd hf => ?_⟩
      · rw [hkept.ffhs_]
        rw [hf] at hnext
        generalize hph : s.phase = ph at hnext
        cases hnext
        exact h.flow operCmd f hph
      · rw [hf] at hnext
        generalize hph : s.phase = ph at hnext
        cases hnext with
        | stay =>
          have hpass := h.pass str todo tmp_cmd hph
          refine ⟨hpass.rest, fun hne => ?_, hpass.begun, hpass.zeroed⟩
          unfold Has
          rw [hkept.ffhs_]
          exact hpass.ffh hne
        | pass => exact passing_start t.task tmp_cmd
  | attempt r hph =>
    apply sat_bind (sat_res (connect_holding (fun _ => zero_envelope) h.holding r))
    intro u hu
    apply sat_pure
    obtain ⟨hhold, hres⟩ := hu
    have halike := (connect_ends h.wired r).2 u hres
    refine ⟨h.wired.alike halike, bounded_alike halike h.bounded, hhold, fun operCmd f hf => ?_,
      fun str todo tmp_cmd hf => ?_⟩ <;>
    · simp only [] at hf
      split at hf <;> cases hf
  | test word operCmd hph =>
    refine op_inside h (testFlow_holding h.holding) (fun r hr => testFlow_steady hr) (fun r op f hr hf => ?_)
      fun r str todo tmp_cmd _ hf => ?_
    · obtain ⟨u, next⟩ := r
      cases next with
      | none => cases hf
      | some f' => exact testFlow_connected hr
    · split at hf <;> cases hf
  | quit word operCmd hph =>
    exact op_inside h (resetFfh_holding (h.holding.mono fun k cmd hk _ => hk) zero_envelope)
      (fun r hr => resetFfh_steady hr) (fun r op f _ hf => (by cases hf)) fun r str todo tmp_cmd _ hf => by cases hf
  | flow word operCmd t hph =>
    have hent : ∀ c strs i j a, s.task.ffhs_[left_hand]? = some (some c) → t.completed word = some strs →
        FfhCtrl.Entry strs i j a → Envelope (c.handCmd_.set i j a) := by
      intro c strs i j a hc hs he
      exact (entered_iff (h.entered hph hc) i j a).mpr ((hp operCmd t hph c strs hc hs).entry he)
    refine op_inside h (readFlow_holding h.holding zero_envelope hent) (fun r hr => readFlow_steady hr)
      (fun r op f hr _ => connected_steady (readFlow_steady hr) (h.flow operCmd t hph)) fun r str todo tmp_cmd _ hf => ?_
    split at hf <;> cases hf
  | check str c todo tmp_cmd hph =>
    have hpass := h.pass str (c :: todo) tmp_cmd hph
    have hc := hp str c todo tmp_cmd hph
    refine op_inside h (check_inside h.holding hpass hc) (fun r hr => checkStep_steady hr)
      (fun r op f _ hf => (by cases hf)) fun r str' todo' tmp_cmd' hr hf => ?_
    cases hf
    exact passing_next hpass hc hr
  | iterate d hands hph hit =>
    exact op_inside h (iterate_inside h.bounded h.holding (hp hands hit)) (fun r hr => (iterateHands_steady hr).1)
      (fun r op f _ hf => (by cases hf)) fun r str todo tmp_cmd _ hf => by cases hf
  | destroy hph =>
    apply sat_bind (destroy_meets (fun _ => zero_envelope) h.holding)
    intro _ _
    exact sat_pure ⟨h.wired, h.bounded, h.holding, fun op f hf => (by cases hf), fun str todo tmp_cmd hf => by cases hf⟩

omit [IsStrictOrderedRing F] in
/-- What an iteration's step ends with is what the iteration does. -/
theorem exec_res {s : Prog F} {hands : List (LEAP_HAND F)} (hit : iterating s .exec = some hands) :
    (step s .exec).out = (s.task.iterateHands hands).out ∧
      ∀ e, (step s .exec).res = .error e ↔ (s.task.iterateHands hands).res = .error e := by
  have hd := step_does s .exec
  generalize step s .exec = x at hd ⊢
  cases hd with
  | quiet _ _ hn _ _ => rw [hit] at hn; cases hn
  | iterate d hands' hph hit' =>
    obtain rfl : hands' = hands := by rw [hit] at hit'; exact (Option.some.inj hit').symm
    exact ⟨bind_pure_out _ _, fun e => bind_pure_error⟩

omit [IsStrictOrderedRing F] in
/-- A permitted step does not end garbled. -/
theorem step_ungarbled {s : Prog F} {a : Act F} (h : Inv s) (hp : Permitted s a) :
    Ends (fun e => ¬ Garbled e) (fun _ => True) (step s a) := by
  have demo : ∀ {f : Threads F → Emit (Ev F) Fault (Prog F)},
      (∀ d, s.phase = .demo d → Ends (fun e => ¬ Garbled e) (fun _ => True) (f d)) →
      Ends (fun e => ¬ Garbled e) (fun _ => True) (demoStep s f) := by
    intro f hf
    unfold demoStep
    split
    · rename_i d hph
      exact hf d hph
    · exact ends_pure trivial
  cases a with
  | attempt r =>
    show Ends _ _ (attemptStep s r)
    unfold attemptStep
    split
    · exact ends_bind (ends_mono (connect_ends h.wired r) (fun e he => by rw [he]; exact id) fun _ _ => trivial)
        fun _ _ => ends_pure trivial
    · exact ends_pure trivial
  | start tmp_cmd => exact ends_pure trivial
  | read word =>
    show Ends _ _ (readStep s word)
    unfold readStep
    split
    · unfold menuStep
      split
      · exact ends_bind (withFfh_ungarbled fun _ _ => ends_of_ok rfl trivial) fun _ _ => ends_pure trivial
      split
      · exact ends_bind (resetFfh_ungarbled s.task left_hand) fun _ _ => ends_pure trivial
      · exact ends_pure trivial
    · rename_i operCmd t hph
      refine ends_bind (readFlow_ungarbled fun c strs hc hs => hp operCmd t hph c strs hc hs) fun _ _ => ends_pure trivial
    · exact ends_pure trivial
    · exact ends_pure trivial
  | check =>
    show Ends _ _ (passStep s)
    unfold passStep
    split
    · rename_i str c todo tmp_cmd hph
      exact ends_bind (check_ungarbled (hp str c todo tmp_cmd hph)) fun _ _ => ends_pure trivial
    · exact ends_pure trivial
    · exact ends_pure trivial
  | main => exact demo fun d _ => ends_pure trivial
  | monitor key =>
    exact demo fun d _ => ends_bind (ends_mono (monitorStep_ends s.task key d.monitor) (fun _ hn => hn.elim)
      fun _ _ => trivial) fun _ _ => ends_pure trivial
  | exec =>
    cases hit : iterating s .exec with
    | some hands =>
      exact ⟨fun e he => (iterate_ungarbled h.wired (hp hands hit)).1 e (((exec_res hit).2 e).mp he), fun _ _ => trivial⟩
    | none =>
      refine demo fun d hph => ?_
      simp only [iterating, hph] at hit
      cases he : d.exec with
      | check =>
        simp only [he] at hit
        split at hit
        · rename_i hin
          simp only [execStep, hin, Bool.not_true, Bool.false_eq_true, if_false]
          exact ends_pure trivial
        · cases hit
      | act hands => rw [he] at hit; cases hit
      | unborn => exact ends_pure trivial
      | top => exact ends_pure trivial
      | copy => exact ends_pure trivial
      | ended => exact ends_pure trivial
  | service i answer =>
    simp only [step]
    split
    · exact ends_pure trivial
    · rename_i hlive
      refine ends_bind (Q := fun _ => True) ?_ fun _ _ => ends_pure trivial
      unfold serviceStep
      split
      · exact ends_pure trivial
      · rename_i hpoll
        split
        · rename_i m
          have hm := (message_contained_iff s.cbs s.task.lmWrap m).mpr (hp m (fun e => hlive e) hpoll rfl)
          refine ends_bind (Q := fun _ => True) (ends_mapOut ⟨fun e he => ?_, fun _ _ => trivial⟩) fun _ _ => ends_pure trivial
          exact leap_garbled ((handleMessage_ends s.cbs s.task.lmWrap m).1 e he) (hm e he)
        · exact ends_pure trivial
      · exact ends_pure trivial
  | destroy =>
    simp only [step]
    split
    · exact ends_bind (ends_mono (destroy_ends h.wired) (fun _ hn => hn.elim) fun _ _ => trivial) fun _ _ =>
        ends_pure trivial
    · exact ends_pure trivial

theorem step_inside {s : Prog F} {a : Act F} (h : Inv s) (hp : Permitted s a) :
    Within (Meets fun _ => Envelope) (fun e => ¬ Garbled e) Inv (step s a) := by
  obtain ⟨hout, hinv⟩ := step_sends h hp
  exact ⟨hout, (step_ungarbled h hp).1, hinv⟩

/-! ## A step that stays inside was permitted -/

theorem inside_permitted {s : Prog F} {a : Act F} (h : Inv s)
    (hout : ∀ w ∈ (step s a).out, Meets (fun _ => Envelope) w) (hfault : ∀ e, (step s a).res = .error e → ¬ Garbled e) :
    Permitted s a := by
  cases a with
  | read word =>
    intro operCmd t hph c strs hc hs
    have hstep : step s (.read word) = flowStep s operCmd t word := by simp only [step, readStep, hph]
    rw [hstep] at hout hfault
    unfold flowStep at hout hfault
    rw [bind_pure_out] at hout
    refine enterable_of (fun i j a he => ?_) fun e he => hfault e (bind_pure_error.mpr (readFlow_faults hc hs he))
    rw [readFlow_sends hc hs he] at hout
    exact (entered_iff (h.entered hph hc) i j a).mp (hout _ (List.mem_singleton.mpr rfl) left_hand _ rfl)
  | check =>
    intro str c todo tmp_cmd hph
    have hstep : step s .check = (s.task.checkStep tmp_cmd c >>= fun r =>
        pure { s with task := r.1, phase := .pass str todo r.2 }) := by simp only [step, passStep, hph]
    rw [hstep] at hout hfault
    rw [bind_pure_out] at hout
    exact checks_of (h.pass str (c :: todo) tmp_cmd hph) hout fun e he => hfault e (bind_pure_error.mpr he)
  | exec =>
    intro hands hit
    obtain ⟨hsent, hres⟩ := exec_res hit
    rw [hsent] at hout
    exact iterable_of h.wired h.bounded hout fun e he => hfault e ((hres e).mpr he)
  | service i answer =>
    rintro m hlive hpoll rfl
    have hstep : step s (.service i (some m)) = (serviceStep s.task s.cbs i (some m) >>= fun task =>
        pure { s with task := task }) := by simp only [step]
    rw [hstep] at hfault
    refine (message_contained_iff s.cbs s.task.lmWrap m).mp fun e he hover => ?_
    have hservice : (serviceStep s.task s.cbs i (some m)).res = .error e := by
      unfold serviceStep
      rw [hpoll]
      exact bind_pure_error.mpr he
    exact hfault e (bind_pure_error.mpr hservice) (garbled_of_overruns hover)
  | _ => trivial

/-! ## Runs -/

omit [Libm F] [IsStrictOrderedRing F] in
/-- A new task clamps with limits that were configured. -/
theorem made_bounded {addr : Nat} {raw : Raw F} {config : Config F} {task : LpV2SyncFFH F}
    (hb : ∀ i ∈ handIds, validHand config i = true → ∀ lo up, handLimits config i = some (lo, up) → Bounded lo up)
    (hmake : (make addr raw config).res = .ok task) (hon : task.isOn left_hand = true) :
    Bounded task.lowerLimits_ task.upperLimits_ := by
  obtain ⟨hp, -⟩ := make_spec hmake
  obtain ⟨k, hk, hkon, hlast⟩ := last_valid (show left_hand ∈ handIds by decide) hon
  obtain ⟨c, hc, hlo, hup⟩ := hp.limits k hk hkon hlast
  have hconf := hp.ffhs k
  rw [if_pos ⟨hk, hkon⟩] at hconf
  obtain ⟨d, hd, he⟩ := hconf
  obtain rfl := ffh_eq hc he
  have hvalid : validHand config k = true := by
    unfold validHand
    rw [hp.hand_Valid]
    exact hkon
  rw [hlo, hup]
  exact hb k hk hvalid _ _ (configured_limits hd)

omit [Libm F] [IsStrictOrderedRing F] in
theorem launch_inv {addr : Nat} {raw : Raw F} {config : Config F} {task : LpV2SyncFFH F}
    (hb : ∀ i ∈ handIds, validHand config i = true → ∀ lo up, handLimits config i = some (lo, up) → Bounded lo up)
    (hmake : (make addr raw config).res = .ok task) : Inv (launch task) where
  wired := by
    have hparsed := (make_spec hmake).1
    refine ⟨(make_ends addr raw config).2 task hmake, fun i hi hon => (made_has hparsed hi).mpr ?_⟩
    rw [hparsed.validHand i]
    exact hon
  bounded := made_bounded hb hmake
  holding := fun i c hc hin => by rw [made_unconnected hmake hc] at hin; cases hin
  flow := fun operCmd t hf => by cases hf
  pass := fun str todo tmp_cmd hf => by cases hf

/-- Every command that the program sends is inside the envelope: those of the run are, and
    it does not go on from a garbled state to send others. -/
def KeepsEnvelope (run : Emit (Ev F) Fault (Prog F)) : Prop :=
  (∀ hand fd server_addr cmd, .udp hand (.sendto fd server_addr cmd) ∈ run.out → Envelope cmd) ∧
    ∀ e, run.res = .error e → ¬ Garbled e

/-- A run keeps the envelope exactly when every step of it is permitted, for a configuration
    whose limits are bounded. -/
theorem envelope_iff {addr : Nat} {raw : Raw F} {config : Config F} {task : LpV2SyncFFH F}
    (hb : ∀ i ∈ handIds, validHand config i = true → ∀ lo up, handLimits config i = some (lo, up) → Bounded lo up)
    (hmake : (make addr raw config).res = .ok task) (acts : List (Act F)) :
    KeepsEnvelope (program addr raw config acts) ↔ Along step Permitted (launch task) acts := by
  have hmeets : ∀ out : List (Ev F), (∀ hand fd server_addr cmd, .udp hand (.sendto fd server_addr cmd) ∈ out →
      Envelope cmd) ↔ ∀ w ∈ out, Meets (fun _ => Envelope) w := by
    intro out
    constructor
    · intro h w hw hand cmd hcmd
      cases w with
      | leap e => cases hcmd
      | udp i e =>
        cases e with
        | sendto fd server_addr data => cases hcmd; exact h _ fd server_addr _ hw
        | socket fd => cases hcmd
        | close fd => cases hcmd
    · intro h hand fd server_addr cmd hw
      exact h _ hw hand cmd rfl
  unfold KeepsEnvelope
  rw [program_runs hmake, hmeets]
  exact runs_within_iff step (fun _ _ => step_inside) (fun _ _ => inside_permitted) acts (launch task)
    (launch_inv hb hmake)

omit [Libm F] in
/-- The default limits are inside the envelope. -/
theorem defaults_bounded : Bounded (FfhCtrl.defaultLower : List (List F)) FfhCtrl.defaultUpper := by
  intro i j l u hj hl hu
  obtain ⟨row, hr, hl⟩ := limit_ok_iff.mp hl
  obtain ⟨row', hr', hu⟩ := limit_ok_iff.mp hu
  unfold FfhCtrl.defaultLower at hr
  unfold FfhCtrl.defaultUpper at hr'
  rw [List.getElem?_replicate, if_pos i.isLt] at hr hr'
  cases hr
  cases hr'
  unfold LIMIT_HCMD_LOWER LIMIT_HCMD_UPPER
  fin_cases j
  · cases hl; cases hu; norm_num
  · cases hl; cases hu; norm_num
  · cases hl; cases hu; norm_num
  · exact absurd rfl hj

omit [Libm F] in
theorem shipped_bounded (task_name : String) :
    ∀ i ∈ handIds, validHand (shipped (F := F) task_name) i = true → ∀ lo up,
      handLimits (shipped (F := F) task_name) i = some (lo, up) → Bounded lo up := by
  intro i hi hv lo up hlim
  rcases mem_handIds.mp hi with rfl | rfl
  · cases hlim; exact defaults_bounded
  · cases hv

/-- Test by hand: connect, start, and the words of the operator. -/
def typing (words : List String) : List (Act ℝ) :=
  [.attempt (answering 0 0), .start .zero] ++ words.map fun word => .read (some word)

theorem twelve_enterable {strs : Fin 3 → String} (h0 : strs 0 = "0") (h1 : strs 1 = "0") (h2 : strs 2 = "12") :
    Enterable (udp_hand_cmd.zero : udp_hand_cmd ℝ) strs := by
  have htwelve : (stof "12" : Except Fault ℝ) = .ok 12 := by
    unfold stof
    rw [show strtof "12" = .ok 12 by decide +kernel]
    norm_num [bind, Except.bind]
  have hclear : KeepsClear (udp_hand_cmd.zero : udp_hand_cmd ℝ) 0 0 12 := by
    refine ⟨fun h => absurd h (by decide), fun _ _ _ => ?_⟩
    show (0 : ℝ) ≤ 20
    norm_num
  refine Or.inr ⟨0, 0, 12, ⟨by rw [h2]; exact htwelve, by rw [h0]; rfl, by rw [h1]; rfl⟩, ?_, hclear⟩
  show (0 : ℝ) ≤ 12 ∧ (12 : ℝ) ≤ 90
  norm_num

/-- An angle of 12 for the thumb, and the end of the test. -/
theorem envelope_shipped :
    KeepsEnvelope (program (F := ℝ) 0 blank (shipped "test_by_hand") (typing ["test", "0", "0", "12", "quit"])) := by
  have hmake : ∃ task : LpV2SyncFFH ℝ, (make 0 blank (shipped "test_by_hand")).res = .ok task := ⟨_, rfl⟩
  obtain ⟨task, hmake⟩ := hmake
  refine (envelope_iff (shipped_bounded "test_by_hand") hmake _).mpr ?_
  cases hmake
  refine ⟨trivial, fun t ht => ?_⟩
  cases ht
  refine ⟨trivial, fun t ht => ?_⟩
  cases ht
  -- "test"; a triple is not complete before its third word
  refine ⟨fun op f hf => (by cases hf), fun t ht => ?_⟩
  cases ht
  refine ⟨fun op f hf c strs _ hs => (by cases hf; cases hs), fun t ht => ?_⟩
  cases ht
  refine ⟨fun op f hf c strs _ hs => (by cases hf; cases hs), fun t ht => ?_⟩
  cases ht
  refine ⟨fun op f hf c strs hc hs => ?_, fun t _ => ⟨fun op f _ c strs _ hs => (by cases hs), fun _ _ => trivial⟩⟩
  cases hf
  cases hs
  cases hc
  exact twelve_enterable rfl rfl rfl

/-- An angle of 100 is sent as it is entered. -/
theorem an_entry_goes_out_unlimited :
    (∀ i ∈ handIds, validHand (shipped (F := ℝ) "test_by_hand") i = true → ∀ lo up,
      handLimits (shipped (F := ℝ) "test_by_hand") i = some (lo, up) → Bounded lo up) ∧
    ∃ fd server_addr, ∃ cmd : udp_hand_cmd ℝ, .udp left_hand (.sendto fd server_addr cmd) ∈
      (program 0 blank (shipped "test_by_hand") (typing ["test", "0", "0", "100"])).out ∧ ¬ Envelope cmd := by
  refine ⟨shipped_bounded _, ?_⟩
  have hrun : ∃ s c op f strs, (program 0 blank (shipped "test_by_hand") (typing ["test", "0", "0"])).res = .ok s ∧
      s.task.ffhs_[left_hand]? = some (some c) ∧ s.phase = .flow op f ∧ f.completed (some "100") = some strs ∧
      strs 0 = "0" ∧ strs 1 = "0" ∧ strs 2 = "100" := ⟨_, _, _, _, _, rfl, rfl, rfl, rfl, rfl, rfl, rfl⟩
  obtain ⟨s, c, op, f, strs, hrun, hc, hph, hf, h0, h1, h2⟩ := hrun
  have hent : FfhCtrl.Entry strs 0 0 (100 : ℝ) := by
    refine ⟨?_, by rw [h0]; rfl, by rw [h1]; rfl⟩
    rw [h2]
    unfold stof
    rw [show strtof "100" = .ok 100 by decide +kernel]
    norm_num [bind, Except.bind]
  have hsent : (step s (.read (some "100"))).out =
      [.udp left_hand (.sendto c.udp_.sockfd_ c.udp_.server_addr (c.handCmd_.set 0 0 100))] := by
    simp only [step, readStep, hph, flowStep, bind_pure_out]
    exact readFlow_sends hc hf hent
  have hout : (program 0 blank (shipped "test_by_hand") (typing ["test", "0", "0", "100"])).out =
      (program 0 blank (shipped "test_by_hand") (typing ["test", "0", "0"])).out ++ (step s (.read (some "100"))).out := by
    rw [show typing ["test", "0", "0", "100"] = typing ["test", "0", "0"] ++ [.read (some "100")] from rfl, program_append,
      bind_of_ok hrun]
    simp only [runs, bind_pure]
  refine ⟨_, _, _, by rw [hout, hsent]; exact List.mem_append_right _ (List.mem_singleton.mpr rfl), fun henv => ?_⟩
  have hle := (henv.inside 0 0).2
  rw [udp_hand_cmd.get_set_same] at hle
  have h90 : (LIMIT_HCMD_UPPER 0 : ℝ) = 90 := rfl
  rw [h90] at hle
  norm_num at hle

end Program

end LeapSyncFfh
