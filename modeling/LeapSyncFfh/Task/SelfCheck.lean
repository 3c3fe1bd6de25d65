/-
  LeapSyncFfh.Task.SelfCheck — the commands that the self check sends.

  `sends` and `leaves` are what a statement of a pass sends and leaves in the local
  `tmp_cmd`; a pass with its tables and its hand sends just that (`steps_sent`).

  A turn of `sendFingerCommands` puts every joint of its finger back to zero but `LrDir`.
  So from the zero command each command has one joint bent at most, beside the swings
  (`half_get`), whatever the order of the fingers.

  `memset` clears the member `handCmd`, not the local. What a half of a pass sends shows
  what was in the local before it, but for the first angle it sets (`sends_agree_iff`),
  and after a half that is the swings of its table (`half_leaves`).
-/

import LeapSyncFfh.Lib.Reader
import LeapSyncFfh.Task.ConfigSafety

namespace LeapSyncFfh

open Cells Emit

variable {F : Type} [Zero F]

namespace LpV2SyncFFH

/-- `angles[id][j]`, zero outside the table. -/
def angles (task : LpV2SyncFFH F) (second : Bool) (id : Fin 5) (j : Fin 4) : F :=
  (((task.selfCheckData second)[id.val]?.getD [])[j.val]?).getD 0

/-! ## What a statement sends -/

/-- The local after a statement. -/
def leaves (angles : Bool → Fin 5 → Fin 4 → F) (tmp_cmd : udp_hand_cmd F) : CheckStep → udp_hand_cmd F
  | .joint second id j =>
    let tmp_cmd := tmp_cmd.set id j (angles second id j)
    if j ≠ 2 then tmp_cmd.set id j 0 else tmp_cmd
  | _ => tmp_cmd

def sends (angles : Bool → Fin 5 → Fin 4 → F) (tmp_cmd : udp_hand_cmd F) : CheckStep → List (udp_hand_cmd F)
  | .reset => [.zero]
  | .clear => []
  | .joint second id j => [tmp_cmd.set id j (angles second id j), leaves angles tmp_cmd (.joint second id j)]

def sendsAll (angles : Bool → Fin 5 → Fin 4 → F) : udp_hand_cmd F → List CheckStep → List (udp_hand_cmd F)
  | _, [] => []
  | tmp_cmd, c :: cs => sends angles tmp_cmd c ++ sendsAll angles (leaves angles tmp_cmd c) cs

@[simp] theorem leaves_reset (angles : Bool → Fin 5 → Fin 4 → F) (tmp_cmd : udp_hand_cmd F) :
    leaves angles tmp_cmd .reset = tmp_cmd := rfl

theorem sendsAll_append (angles : Bool → Fin 5 → Fin 4 → F) (tmp_cmd : udp_hand_cmd F) (cs ds : List CheckStep) :
    sendsAll angles tmp_cmd (cs ++ ds) = sendsAll angles tmp_cmd cs ++ sendsAll angles (cs.foldl (leaves angles) tmp_cmd) ds := by
  induction cs generalizing tmp_cmd with
  | nil => rfl
  | cons c cs ih => simp only [List.cons_append, sendsAll, ih, List.append_assoc, List.foldl_cons]

theorem Alike.angles {task t : LpV2SyncFFH F} (h : Alike task t) : t.angles = task.angles := by
  unfold LpV2SyncFFH.angles
  simp only [h.selfCheckData]

theorem checkAngle_of {task : LpV2SyncFFH F} {second : Bool} {id : Fin 5} {j : Fin 4} (h : HasAngle task second id j) :
    task.checkAngle second id j = .ok (task.angles second id j) := by
  obtain ⟨row, hr, hj⟩ := h
  simp only [checkAngle, angles, subscript_ok.mpr hr, bind, Except.bind, subscript_lt hj, hr, Option.getD_some,
    List.getElem?_eq_getElem hj]

omit [Zero F] in
@[simp] theorem commands_append (es fs : List (Ev F)) : commands (es ++ fs) = commands es ++ commands fs := by
  simp [commands]

omit [Zero F] in
/-- The commands to one hand, without their hand. -/
theorem sent_inj {hand : Nat} {xs ys : List (udp_hand_cmd F)} :
    xs.map (Prod.mk hand) = ys.map (Prod.mk hand) ↔ xs = ys :=
  (List.map_injective_iff.mpr (Prod.mk_right_injective hand)).eq_iff

omit [Zero F] in
theorem sendTo_sent {task : LpV2SyncFFH F} (h : Has task left_hand) (cmd : udp_hand_cmd F) :
    ∃ t, (task.sendTo left_hand cmd).res = .ok t ∧ Alike task t ∧
      commands (task.sendTo left_hand cmd).out = [(left_hand, cmd)] := by
  obtain ⟨c, hc⟩ := h
  rw [sendTo_of hc]
  exact ⟨_, rfl, alike_setFfh hc _, rfl⟩

theorem resetFfh_sent {task : LpV2SyncFFH F} (h : Has task left_hand) :
    ∃ t, (task.resetFfh left_hand).res = .ok t ∧ Alike task t ∧
      commands (task.resetFfh left_hand).out = [(left_hand, .zero)] := by
  obtain ⟨c, hc⟩ := h
  unfold resetFfh
  rw [withFfh_of hc]
  exact ⟨_, rfl, alike_setFfh hc _, rfl⟩

theorem step_sent {task : LpV2SyncFFH F} {c : CheckStep} (h : Checkable task c) (tmp_cmd : udp_hand_cmd F) :
    ∃ t, (task.checkStep tmp_cmd c).res = .ok (t, leaves task.angles tmp_cmd c) ∧ Alike task t ∧
      commands (task.checkStep tmp_cmd c).out = (sends task.angles tmp_cmd c).map (Prod.mk left_hand) := by
  cases c with
  | reset =>
    obtain ⟨t, ht, ha, hout⟩ := resetFfh_sent h
    refine ⟨t, bind_res_ok.mpr ⟨t, ht, rfl⟩, ha, ?_⟩
    rw [checkStep, bind_pure_out]
    exact hout
  | clear => exact ⟨_, rfl, (steady_setHandCmd task .zero).alike, rfl⟩
  | joint second id j =>
    obtain ⟨hangle, hleft⟩ := h
    obtain ⟨t, ht, ha, hout⟩ := sendTo_sent hleft (tmp_cmd.set id j (task.angles second id j))
    obtain ⟨u, hu, hb, hout'⟩ := sendTo_sent ((ha.ffhs left_hand).mpr hleft) (leaves task.angles tmp_cmd (.joint second id j))
    have hstep : task.checkStep tmp_cmd (.joint second id j) =
        ⟨(task.sendTo left_hand (tmp_cmd.set id j (task.angles second id j))).out ++
          (t.sendTo left_hand (leaves task.angles tmp_cmd (.joint second id j))).out,
          .ok (u, leaves task.angles tmp_cmd (.joint second id j))⟩ := by
      simp only [checkStep, checkAngle_of hangle, lift_ok_bind]
      show (task.sendTo left_hand (tmp_cmd.set id j (task.angles second id j)) >>= fun t =>
        t.sendTo left_hand (leaves task.angles tmp_cmd (.joint second id j)) >>= fun u =>
          pure (u, leaves task.angles tmp_cmd (.joint second id j))) = _
      rw [bind_of_ok ht, bind_of_ok hu]
      simp
    rw [hstep]
    refine ⟨u, rfl, ha.trans hb, ?_⟩
    rw [commands_append, hout, hout']
    rfl

/-- A run of statements that has what it needs. -/
theorem steps_sent : ∀ {cs : List CheckStep} {task : LpV2SyncFFH F}, (∀ c ∈ cs, Checkable task c) →
    ∀ tmp_cmd : udp_hand_cmd F, ∃ t,
      (runs checking (task, tmp_cmd) cs).res = .ok (t, cs.foldl (leaves task.angles) tmp_cmd) ∧ Alike task t ∧
        commands (runs checking (task, tmp_cmd) cs).out = (sendsAll task.angles tmp_cmd cs).map (Prod.mk left_hand) := by
  intro cs
  induction cs with
  | nil => exact fun {task} _ tmp_cmd => ⟨task, rfl, Alike.refl task, rfl⟩
  | cons c cs ih =>
    intro task h tmp_cmd
    obtain ⟨hc, hcs⟩ := List.forall_mem_cons.mp h
    obtain ⟨t, ht, ha, hout⟩ := step_sent hc tmp_cmd
    have hangles := ha.angles
    obtain ⟨u, hu, hb, hout'⟩ := ih (fun d hd => (ha.checkable d).mpr (hcs d hd)) (leaves task.angles tmp_cmd c)
    rw [hangles] at hu hout'
    have hrun : runs checking (task, tmp_cmd) (c :: cs) =
        ⟨(task.checkStep tmp_cmd c).out ++ (runs checking (t, leaves task.angles tmp_cmd c) cs).out,
          (runs checking (t, leaves task.angles tmp_cmd c) cs).res⟩ := bind_of_ok ht _
    rw [hrun]
    refine ⟨u, hu, ha.trans hb, ?_⟩
    rw [commands_append, hout, hout', ← List.map_append]
    rfl

/-! ## One joint at a time -/

section Half

variable (T : Bool → Fin 5 → Fin 4 → F) (second : Bool)

/-- The turns of the fingers `ids`, one after another. -/
def half (ids : List (Fin 5)) : List CheckStep := ids.flatMap (sendFingerCommands second)

theorem half_cons (id : Fin 5) (ids : List (Fin 5)) :
    half second (id :: ids) = sendFingerCommands second id ++ half second ids := rfl

/-- What a turn leaves: its finger at rest but for the swing. -/
theorem turn_leaves (tmp_cmd : udp_hand_cmd F) (id k : Fin 5) (l : Fin 4) :
    ((sendFingerCommands second id).foldl (leaves T) tmp_cmd).get k l =
      if k = id then if l = 2 then T second id 2 else 0 else tmp_cmd.get k l := by
  simp only [sendFingerCommands, List.foldl_cons, List.foldl_nil, leaves]
  by_cases hk : k = id
  · subst hk
    fin_cases l <;> simp [udp_hand_cmd.get_set]
  · simp [udp_hand_cmd.get_set, hk]

theorem half_leaves (ids : List (Fin 5)) (tmp_cmd : udp_hand_cmd F) (k : Fin 5) (l : Fin 4) :
    ((half second ids).foldl (leaves T) tmp_cmd).get k l =
      if k ∈ ids then if l = 2 then T second k 2 else 0 else tmp_cmd.get k l := by
  induction ids generalizing tmp_cmd with
  | nil => simp [half]
  | cons id ids ih =>
    rw [half_cons, List.foldl_append, ih, turn_leaves]
    by_cases hk : k ∈ ids
    · simp [hk]
    · by_cases hid : k = id
      · subst hid
        simp [hk]
      · simp [hk, hid]

theorem turn_length (tmp_cmd : udp_hand_cmd F) (id : Fin 5) :
    (sendsAll T tmp_cmd (sendFingerCommands second id)).length = 8 := rfl

/-- The angles of the eight commands of a turn that finds its finger at rest: round `l`
    bends joint `l` in its first command, and the swing stays from the third round on. -/
theorem turn_get {tmp_cmd cmd : udp_hand_cmd F} {id : Fin 5} (hrest : ∀ l, tmp_cmd.get id l = 0) {n : Nat}
    (h : (sendsAll T tmp_cmd (sendFingerCommands second id))[n]? = some cmd) (k : Fin 5) (l : Fin 4) :
    cmd.get k l =
      if k = id then
        if l = 2 then if n < 4 then 0 else T second id 2
        else if n = 2 * l.val then T second id l else 0
      else tmp_cmd.get k l := by
  have hn : n < 8 := (List.getElem?_eq_some_iff.mp h).1
  simp only [sendFingerCommands, sendsAll, sends, leaves, List.cons_append, List.nil_append] at h
  by_cases hk : k = id
  · subst hk
    interval_cases n <;> simp at h <;> subst h <;> fin_cases l <;> simp [udp_hand_cmd.get_set, hrest]
  · interval_cases n <;> simp at h <;> subst h <;> simp [udp_hand_cmd.get_set, hk]

/-- The angles of the commands of a half that finds its fingers at rest, by the place of
    their finger in the order. -/
theorem half_get : ∀ {ids : List (Fin 5)} {tmp_cmd : udp_hand_cmd F}, ids.Nodup →
    (∀ id ∈ ids, ∀ l, tmp_cmd.get id l = 0) → ∀ {n : Nat} {cmd : udp_hand_cmd F},
      (sendsAll T tmp_cmd (half second ids))[n]? = some cmd → ∀ (k : Fin 5) (l : Fin 4), cmd.get k l =
        if k ∈ ids then
          if l = 2 then if n < 8 * ids.idxOf k + 4 then 0 else T second k 2
          else if n = 8 * ids.idxOf k + 2 * l.val then T second k l else 0
        else tmp_cmd.get k l := by
  intro ids
  induction ids with
  | nil => intro tmp_cmd _ _ n cmd h; simp [half, sendsAll] at h
  | cons id ids ih =>
    intro tmp_cmd hnd hrest n cmd h k l
    obtain ⟨hid, hnd⟩ := List.nodup_cons.mp hnd
    rw [half_cons, sendsAll_append, List.getElem?_append, turn_length] at h
    have hidx : ∀ k ∈ ids, (id :: ids).idxOf k = ids.idxOf k + 1 := fun k hk =>
      List.idxOf_cons_ne _ (by rintro rfl; exact hid hk)
    have hl := l.isLt
    split at h
    · -- still in the first turn: the fingers to come are at rest
      rename_i hn
      rw [turn_get T second (hrest id List.mem_cons_self) h]
      by_cases hk : k = id
      · subst hk
        simp
      · by_cases hmem : k ∈ ids
        · have hne : n ≠ 8 * (ids.idxOf k + 1) + 2 * l.val := by omega
          have hlt : n < 8 * (ids.idxOf k + 1) + 4 := by omega
          simp [hk, hmem, hidx k hmem, hrest k (List.mem_cons_of_mem _ hmem) l, hne, hlt]
        · simp [hk, hmem]
    · rename_i hn
      have hleft : ∀ k ∈ ids, ∀ l, ((sendFingerCommands second id).foldl (leaves T) tmp_cmd).get k l = 0 := by
        intro k hk l
        rw [turn_leaves, if_neg (by rintro rfl; exact hid hk)]
        exact hrest k (List.mem_cons_of_mem _ hk) l
      rw [ih hnd hleft h, turn_leaves]
      by_cases hmem : k ∈ ids
      · have hshift : n - 8 < 8 * ids.idxOf k + 4 ↔ n < 8 * (ids.idxOf k + 1) + 4 := by omega
        have hround : n - 8 = 8 * ids.idxOf k + 2 * l.val ↔ n = 8 * (ids.idxOf k + 1) + 2 * l.val := by omega
        simp only [hmem, List.mem_cons_of_mem, if_true, hidx k hmem, hshift, hround]
      · by_cases hk : k = id
        · subst hk
          have hlate : ¬ n < 4 := by omega
          have hpast : n ≠ 2 * l.val := by omega
          simp [hmem, hlate, hpast]
        · simp [hk, hmem]

theorem half_length (ids : List (Fin 5)) (tmp_cmd : udp_hand_cmd F) :
    (sendsAll T tmp_cmd (half second ids)).length = 8 * ids.length := by
  induction ids generalizing tmp_cmd with
  | nil => rfl
  | cons id ids ih =>
    rw [half_cons, sendsAll_append, List.length_append, turn_length, ih, List.length_cons]
    omega

end Half

/-- `sendFingerCommands` once on each finger, in any order, from the zero command: forty
    commands. Beside the swings one joint is bent at most; finger `k`, at place `p` of the
    order, gets its swing in the middle of its own turn, which is commands `8 p` to
    `8 p + 7`; and what is left is the swings. -/
theorem one_joint_at_a_time (task : LpV2SyncFFH F) (second : Bool) (hleft : Has task left_hand)
    (htable : Table (task.selfCheckData second)) (ids : List (Fin 5)) (hids : ids.Perm (List.finRange 5)) :
    ∃ (cmds : List (udp_hand_cmd F)) (t : LpV2SyncFFH F) (final : udp_hand_cmd F),
      (runs checking (task, .zero) (ids.flatMap (sendFingerCommands second))).res = .ok (t, final) ∧
      commands (runs checking (task, .zero) (ids.flatMap (sendFingerCommands second))).out = cmds.map (Prod.mk left_hand) ∧
      cmds.length = 40 ∧
      (∀ cmd ∈ cmds, ∀ k l k' l', l ≠ 2 → l' ≠ 2 → cmd.get k l ≠ 0 → cmd.get k' l' ≠ 0 → k = k' ∧ l = l') ∧
      (∀ p k n cmd, ids[p]? = some k → cmds[n]? = some cmd →
        cmd.get k 2 = if n < 8 * p + 4 then 0 else task.angles second k 2) ∧
      ∀ k l, final.get k l = if l = 2 then task.angles second k 2 else 0 := by
  have hnd : ids.Nodup := hids.nodup_iff.mpr (List.nodup_finRange 5)
  have hmem : ∀ k, k ∈ ids := fun k => hids.mem_iff.mpr (List.mem_finRange k)
  have hlen : ids.length = 5 := by rw [hids.length_eq, List.length_finRange]
  have hcheck : ∀ c ∈ half second ids, Checkable task c := by
    intro c hc
    obtain ⟨id, -, hc⟩ := List.mem_flatMap.mp hc
    have hangle := (table_iff task second).mp htable id
    simp only [sendFingerCommands, List.mem_cons, List.not_mem_nil, or_false] at hc
    rcases hc with rfl | rfl | rfl | rfl <;> exact ⟨hangle _, hleft⟩
  obtain ⟨t, ht, -, hout⟩ := steps_sent hcheck .zero
  have hget := fun (n : Nat) (cmd : udp_hand_cmd F) (h : (sendsAll task.angles .zero (half second ids))[n]? = some cmd) =>
    half_get task.angles second hnd (fun _ _ _ => udp_hand_cmd.get_zero _ _) h
  refine ⟨_, t, _, ht, hout, ?_, ?_, ?_, ?_⟩
  · rw [half_length, hlen]
  · intro cmd hcmd k l k' l' hl hl' hne hne'
    obtain ⟨n, hn⟩ := List.mem_iff_getElem?.mp hcmd
    rw [hget n cmd hn, if_pos (hmem _), if_neg hl] at hne
    rw [hget n cmd hn, if_pos (hmem _), if_neg hl'] at hne'
    have hbent : n = 8 * ids.idxOf k + 2 * l.val := by
      by_contra h
      exact hne (if_neg h)
    have hbent' : n = 8 * ids.idxOf k' + 2 * l'.val := by
      by_contra h
      exact hne' (if_neg h)
    have h4 := l.isLt
    have h4' := l'.isLt
    have hidx : ids.idxOf k = ids.idxOf k' := by omega
    exact ⟨(List.idxOf_inj (hmem k)).mp hidx, Fin.ext (by omega)⟩
  · intro p k n cmd hp hn
    obtain ⟨hlt, hk⟩ := List.getElem?_eq_some_iff.mp hp
    have hidx : ids.idxOf k = p := by rw [← hk]; exact hnd.idxOf_getElem p hlt
    rw [hget n cmd hn, if_pos (hmem k), if_pos rfl, hidx]
  · intro k l
    rw [half_leaves, if_pos (hmem k)]

/-- A task with a left hand and the two tables. -/
def tested (table1 table2 : List (List ℤ)) : LpV2SyncFFH ℤ :=
  { lmWrap := .make 0 0, ffhs_ := [some (.make 0 "10.0.0.1" 8001 (-1) .zero), none], handCmd := .zero, ffhValid := [1, 0],
    selfCheckData1 := table1, selfCheckData2 := table2, running_ := false }

theorem one_joint_at_a_time_backwards :
    ∃ (cmds : List (udp_hand_cmd ℤ)), cmds.length = 40 ∧
      commands (runs checking (tested (List.replicate 5 [45, 45, 8, 20]) [], .zero)
        ([4, 3, 2, 1, 0].flatMap (sendFingerCommands false))).out = cmds.map (Prod.mk left_hand) := by
  obtain ⟨cmds, -, -, -, hout, hlen, -⟩ := one_joint_at_a_time (tested (List.replicate 5 [45, 45, 8, 20]) []) false
    ⟨_, rfl⟩ (by decide) [4, 3, 2, 1, 0] (by decide)
  exact ⟨cmds, hlen, hout⟩

/-! ## What a pass shows of what was before it -/

section Pass

variable (T : Bool → Fin 5 → Fin 4 → F)

/-- What a first statement of a half shows of the local: all but the angle it sets. -/
theorem sends_agree_iff (second : Bool) (id : Fin 5) (j : Fin 4) (cs : List CheckStep) (tmp tmp' : udp_hand_cmd F) :
    sendsAll T tmp (.joint second id j :: cs) = sendsAll T tmp' (.joint second id j :: cs) ↔
      ∀ k l, (k, l) ≠ (id, j) → tmp.get k l = tmp'.get k l := by
  constructor
  · intro h k l hne
    have hset : tmp.set id j (T second id j) = tmp'.set id j (T second id j) := (List.cons.inj h).1
    have hget := congrArg (fun c => c.get k l) hset
    have hother : k ≠ id ∨ l ≠ j := by
      by_contra hn
      push Not at hn
      exact hne (Prod.ext hn.1 hn.2)
    simpa only [udp_hand_cmd.get_set_other _ _ hother] using hget
  · intro h
    have hset : tmp.set id j (T second id j) = tmp'.set id j (T second id j) := by
      apply udp_hand_cmd.ext_get
      intro k l
      rw [udp_hand_cmd.get_set, udp_hand_cmd.get_set]
      split
      · rfl
      · rename_i hne
        exact h k l fun e => hne ⟨congrArg Prod.fst e, congrArg Prod.snd e⟩
    simp only [sendsAll, sends, leaves, hset]

/-- The commands of a pass whose halves start from the zero command: those of the tables
    alone. -/
def tableCommands : List (udp_hand_cmd F) :=
  .zero :: sendsAll T .zero (half false [0, 1, 2, 3, 4]) ++ .zero :: sendsAll T .zero (half true [4, 3, 2, 1, 0]) ++ [.zero]

theorem checkPass_eq : checkPass = [.reset, .clear] ++ half false [0, 1, 2, 3, 4] ++ [.reset, .clear] ++
    half true [4, 3, 2, 1, 0] ++ [.reset] := rfl

theorem pass_sends (tmp_cmd : udp_hand_cmd F) :
    sendsAll T tmp_cmd checkPass = .zero :: sendsAll T tmp_cmd (half false [0, 1, 2, 3, 4]) ++
      .zero :: sendsAll T ((half false [0, 1, 2, 3, 4]).foldl (leaves T) tmp_cmd) (half true [4, 3, 2, 1, 0]) ++ [.zero] := by
  rw [checkPass_eq, sendsAll_append, sendsAll_append, sendsAll_append, sendsAll_append]
  simp [sendsAll, sends, leaves]

/-- What a pass leaves: the swings of the second table. -/
theorem pass_leaves (tmp_cmd : udp_hand_cmd F) (k : Fin 5) (l : Fin 4) :
    (checkPass.foldl (leaves T) tmp_cmd).get k l = if l = 2 then T true k 2 else 0 := by
  have hmem : k ∈ ([4, 3, 2, 1, 0] : List (Fin 5)) := by revert k; decide
  rw [checkPass_eq, List.foldl_append, List.foldl_append, List.foldl_cons, List.foldl_nil, leaves_reset, half_leaves,
    if_pos hmem]

/-- Swings are all zero when no angle but one of another joint tells of them. -/
theorem swings_iff {S : Fin 5 → F} {p : Fin 5 × Fin 4} (hp : p.2 ≠ 2) :
    (∀ k l, (k, l) ≠ p → (if l = 2 then S k else 0) = 0) ↔ ∀ k, S k = 0 := by
  constructor
  · intro h k
    have hne : (k, (2 : Fin 4)) ≠ p := fun e => hp (congrArg Prod.snd e).symm
    simpa using h k 2 hne
  · intro h k l _
    split
    · exact h k
    · rfl

/-- A pass sends the commands of the tables exactly when nothing was left in the local that
    it shows, and the first table has no swing. -/
theorem pass_iff (tmp_cmd : udp_hand_cmd F) :
    sendsAll T tmp_cmd checkPass = tableCommands T ↔
      (∀ k l, (k, l) ≠ ((0, 0) : Fin 5 × Fin 4) → tmp_cmd.get k l = 0) ∧ ∀ k, T false k 2 = 0 := by
  have hfirst : sendsAll T tmp_cmd (half false [0, 1, 2, 3, 4]) = sendsAll T .zero (half false [0, 1, 2, 3, 4]) ↔
      ∀ k l, (k, l) ≠ ((0, 0) : Fin 5 × Fin 4) → tmp_cmd.get k l = 0 := sends_agree_iff T false 0 0 _ tmp_cmd .zero
  have hsecond : sendsAll T ((half false [0, 1, 2, 3, 4]).foldl (leaves T) tmp_cmd) (half true [4, 3, 2, 1, 0]) =
      sendsAll T .zero (half true [4, 3, 2, 1, 0]) ↔ ∀ k, T false k 2 = 0 := by
    refine (sends_agree_iff T true 4 0 _ _ .zero).trans ?_
    have hall : ∀ k : Fin 5, k ∈ ([0, 1, 2, 3, 4] : List (Fin 5)) := by decide
    simp only [half_leaves, hall, if_true, udp_hand_cmd.get_zero]
    exact swings_iff (by decide)
  rw [pass_sends, tableCommands, ← hfirst, ← hsecond]
  constructor
  · intro h
    have hsplit := List.append_cancel_right h
    obtain ⟨h1, h2⟩ := List.append_inj hsplit (by simp only [List.length_cons, half_length])
    exact ⟨(List.cons.inj h1).2, (List.cons.inj h2).2⟩
  · rintro ⟨h1, h2⟩
    rw [h1, h2]

end Pass

/-! ## The loop -/

/-- Where `selfCheck` stands at its read. -/
structure Check (F : Type) where
  task : LpV2SyncFFH F
  str : String := ""
  tmp_cmd : udp_hand_cmd F

/-- `std::cin >> str` and the rest of the round, a whole pass where it is one. -/
def selfCheckRead (s : Check F) (word : Option String) :
    Emit (Ev F) Fault (Reader.Turn (Check F) (LpV2SyncFFH F)) :=
  let str := word.getD s.str
  if str = "test" then do
    let r ← runs checking (s.task, s.tmp_cmd) checkPass
    pure (.reading ⟨r.1, str, r.2⟩)
  else if str ≠ "quit" then pure (.reading { s with str := str })
  else pure (.returned s.task)

omit [Zero F] in
/-- Where the program stands after a round. -/
def checked (cbs : CallBacks) : Reader.Turn (Check F) (LpV2SyncFFH F) → Program.Prog F
  | .reading s => ⟨s.task, cbs, .selfMenu s.str s.tmp_cmd⟩
  | .returned task => ⟨task, cbs, .returned⟩

/-- A round is a step of the program, and the steps of a pass where it is one. -/
theorem selfCheckRead_steps {F : Type} [Field F] [LinearOrder F] [Libm F] (task : LpV2SyncFFH F) (cbs : CallBacks)
    (str : String) (tmp_cmd : udp_hand_cmd F) (word : Option String) :
    runs Program.step ⟨task, cbs, .selfMenu str tmp_cmd⟩
        (.read word :: if word.getD str = "test" then List.replicate checkPass.length .check ++ [.check] else []) =
      selfCheckRead ⟨task, str, tmp_cmd⟩ word >>= fun t => pure (checked cbs t) := by
  by_cases htest : word.getD str = "test"
  · have hread : Program.step ⟨task, cbs, .selfMenu str tmp_cmd⟩ (.read word) =
        pure ⟨task, cbs, .pass (word.getD str) checkPass tmp_cmd⟩ := by
      simp only [Program.step, Program.readStep, if_pos htest]
    rw [if_pos htest, runs, hread, pure_bind, runs_append, Program.passes_run]
    simp only [selfCheckRead, if_pos htest, bind_assoc, pure_bind]
    rfl
  by_cases hquit : word.getD str = "quit"
  · simp [runs, Program.step, Program.readStep, selfCheckRead, hquit, checked]
  · simp [runs, Program.step, Program.readStep, selfCheckRead, htest, hquit, checked]

theorem selfCheckRead_test {s : Check F} (h : ∀ c ∈ checkPass, Checkable s.task c) (word : Option String)
    (hw : word.getD s.str = "test") : ∃ t,
      (selfCheckRead s word).res = .ok (.reading ⟨t, "test", checkPass.foldl (leaves s.task.angles) s.tmp_cmd⟩) ∧
      Alike s.task t ∧
      commands (selfCheckRead s word).out = (sendsAll s.task.angles s.tmp_cmd checkPass).map (Prod.mk left_hand) := by
  obtain ⟨t, ht, ha, hout⟩ := steps_sent h s.tmp_cmd
  have hread : selfCheckRead s word = ⟨(runs checking (s.task, s.tmp_cmd) checkPass).out,
      .ok (.reading ⟨t, "test", checkPass.foldl (leaves s.task.angles) s.tmp_cmd⟩)⟩ := by
    simp only [selfCheckRead, hw, if_true]
    rw [bind_of_ok ht]
    simp
  rw [hread]
  exact ⟨t, rfl, ha, hout⟩

/-- The local after the words so far: untouched without a pass, the swings of the second
    table after one. -/
theorem selfCheck_before : ∀ {ws : List String} {s : Check F}, "quit" ∉ ws → (∀ c ∈ checkPass, Checkable s.task c) →
    ∃ u, (Reader.feed selfCheckRead s (ws.map some)).res = .ok (.reading u) ∧ Alike s.task u.task ∧
      ∀ k l, u.tmp_cmd.get k l =
        if "test" ∈ ws then if l = 2 then s.task.angles true k 2 else 0 else s.tmp_cmd.get k l := by
  intro ws
  induction ws with
  | nil => exact fun {s} _ _ => ⟨s, rfl, Alike.refl _, fun _ _ => by simp⟩
  | cons w ws ih =>
    intro s hquit h
    rw [List.mem_cons, not_or] at hquit
    obtain ⟨hw, hquit⟩ := hquit
    by_cases htest : w = "test"
    · subst htest
      obtain ⟨t, ht, ha, -⟩ := selfCheckRead_test h (some "test") rfl
      obtain ⟨u, hu, hb, hget⟩ := ih (s := ⟨t, "test", checkPass.foldl (leaves s.task.angles) s.tmp_cmd⟩) hquit
        fun c hc => (ha.checkable c).mpr (h c hc)
      rw [List.map_cons, Reader.feed_reading ht]
      refine ⟨u, hu, ha.trans hb, fun k l => ?_⟩
      rw [hget, if_pos List.mem_cons_self, ha.angles, pass_leaves, ite_self]
    · have hread : (selfCheckRead s (some w)).res = .ok (.reading { s with str := w }) := by
        simp [selfCheckRead, htest, Ne.symm hw]
      obtain ⟨u, hu, hb, hget⟩ := ih (s := { s with str := w }) hquit h
      rw [List.map_cons, Reader.feed_reading hread]
      refine ⟨u, hu, hb, fun k l => ?_⟩
      rw [hget]
      simp [Ne.symm htest]

/-- For every content of the local and all words read before, a pass sends the commands of
    the tables exactly when the first table has no swing and the local shows nothing: it was
    zero but for the first angle set, or, after an earlier pass, the second table has no
    swing either. -/
theorem selfCheck_pass_iff (task : LpV2SyncFFH F) (hleft : Has task left_hand) (h1 : Table task.selfCheckData1)
    (h2 : Table task.selfCheckData2) (tmp_cmd : udp_hand_cmd F) (ws : List String) (hquit : "quit" ∉ ws) :
    ∃ s, (Reader.feed selfCheckRead ⟨task, "", tmp_cmd⟩ (ws.map some)).res = .ok (.reading s) ∧
      (commands (selfCheckRead s (some "test")).out = (tableCommands task.angles).map (Prod.mk left_hand) ↔
        (if "test" ∈ ws then ∀ k, task.angles true k 2 = 0
          else ∀ k l, (k, l) ≠ ((0, 0) : Fin 5 × Fin 4) → tmp_cmd.get k l = 0) ∧ ∀ k, task.angles false k 2 = 0) := by
  have hneeds := (checkPass_needs task).mpr ⟨hleft, h1, h2⟩
  obtain ⟨s, hs, ha, hget⟩ := selfCheck_before (s := ⟨task, "", tmp_cmd⟩) hquit hneeds
  obtain ⟨t, -, -, hout⟩ := selfCheckRead_test (fun c hc => (ha.checkable c).mpr (hneeds c hc)) (some "test") rfl
  refine ⟨s, hs, ?_⟩
  rw [hout, sent_inj, ha.angles, pass_iff]
  refine and_congr_left fun _ => ?_
  simp only [hget]
  split
  · exact swings_iff (by decide)
  · rfl

/-- Tables without a swing. -/
def still : LpV2SyncFFH ℤ := tested (List.replicate 5 [45, 45, 0, 0]) (List.replicate 5 [90, 90, 0, 0])

/-- Tables with one. -/
def swinging : LpV2SyncFFH ℤ := tested (List.replicate 5 [45, 45, 8, 0]) (List.replicate 5 [90, 90, 8, 0])

theorem selfCheck_pass_still : ∃ s,
    (Reader.feed selfCheckRead ⟨still, "", .zero⟩ (["test"].map some)).res = .ok (.reading s) ∧
    commands (selfCheckRead s (some "test")).out = (tableCommands still.angles).map (Prod.mk left_hand) := by
  obtain ⟨s, hs, h⟩ := selfCheck_pass_iff still ⟨_, rfl⟩ (by decide) (by decide) .zero ["test"] (by decide)
  exact ⟨s, hs, h.mpr ⟨by decide, by decide⟩⟩

/-- From the zero command the second half still starts with the swings of the first. -/
theorem selfCheck_keeps_the_swings : ¬ ∀ (task : LpV2SyncFFH ℤ) (tmp_cmd : udp_hand_cmd ℤ), Has task left_hand →
    Table task.selfCheckData1 → Table task.selfCheckData2 →
    commands (selfCheckRead ⟨task, "", tmp_cmd⟩ (some "test")).out = (tableCommands task.angles).map (Prod.mk left_hand) := by
  intro h
  have hleft : Has swinging left_hand := ⟨_, rfl⟩
  have h1 : Table swinging.selfCheckData1 := by decide
  have h2 : Table swinging.selfCheckData2 := by decide
  have hneeds := (checkPass_needs swinging).mpr ⟨hleft, h1, h2⟩
  obtain ⟨-, -, -, hout⟩ := selfCheckRead_test (s := ⟨swinging, "", .zero⟩) hneeds (some "test") rfl
  have hall := h swinging .zero hleft h1 h2
  rw [hout, sent_inj, pass_iff] at hall
  exact absurd (hall.2 0) (by decide)

end LpV2SyncFFH

end LeapSyncFfh
