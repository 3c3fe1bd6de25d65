/-
  LeapSyncFfh.Task.ByHand — the hand's test program beside `LpV2SyncFFH` (the tests by hand).

  Both go through `singleJointTest` and `testFlow` on the left hand. After a `connect` that
  succeeded they hold the same controller, though only one of them was given limits, and
  from there each read does the same in both (`Twin`, `step_twin`): on the same words they
  make the same system calls for the left hand, end with the same fault, and leave the menu
  at the same word (`by_hand_alike`).

  The self checks are not twins. `sendFingerCommands` asks for a fourth angle where the copy
  takes three: with the three angles for a finger that the shipped file has, one ends after
  its first seven commands, which are the first seven of the other (`self_check_stops`).
-/

import LeapSyncFfh.Lib.Follows
import LeapSyncFfh.Task.LeftOpen
import LeapSyncFfh.Task.TestFfh

namespace LeapSyncFfh

open Cells Emit LpV2SyncFFH

namespace TestFfh

variable {F : Type}

/-! ## The tests by hand -/

/-- Both stand at the same read. -/
inductive Stands : Program.Phase F → Reading F → Prop
  | menu (operCmd : String) : Stands (.menu operCmd) (.menu operCmd)
  | flow (operCmd : String) (t : FfhCtrl.Flow) : Stands (.flow operCmd t) (.flow operCmd t)
  | returned : Stands .returned .finished

theorem Stands.over {phase : Program.Phase F} {reading : Reading F} (h : Stands phase reading) :
    phase = .returned ↔ reading = .finished := by
  cases h <;> simp

/-- The program with the left hand of the tool, both at the same read. -/
structure Twin (p : Program.Prog F) (t : Tool F) : Prop where
  ffh : p.task.ffhs_[left_hand]? = some (some t.ffh)
  stands : Stands p.phase t.reading

section Reads

variable [Field F] [LinearOrder F] [Libm F]

omit [Field F] [LinearOrder F] [Libm F] in
theorem twin_set {task : LpV2SyncFFH F} {c d : FfhCtrl F} (hc : task.ffhs_[left_hand]? = some (some c))
    (cbs : CallBacks) {phase : Program.Phase F} {reading : Reading F} (angles1 angles2 : List (List F))
    (h : Stands phase reading) : Twin ⟨task.setFfh left_hand d, cbs, phase⟩ ⟨d, angles1, angles2, reading⟩ :=
  ⟨setFfh_same hc, h⟩

/-- One read in both. -/
theorem step_twin {p : Program.Prog F} {t : Tool F} (h : Twin p t) (word : Option String) :
    Emit.Follows id Twin (Program.step p (.read word)) (mapOut (.udp left_hand) (step t word)) := by
  obtain ⟨task, cbs, phase⟩ := p
  obtain ⟨c, angles1, angles2, reading⟩ := t
  obtain ⟨hc, hstands⟩ := h
  have hc : task.ffhs_[left_hand]? = some (some c) := hc
  cases hstands with
  | menu operCmd =>
    simp only [Program.step, Program.readStep, Program.menuStep, step]
    by_cases htest : word.getD operCmd = "test"
    · simp only [if_pos htest, LpV2SyncFFH.testFlow, withFfh_of hc]
      cases hin : c.inConnection_ with
      | true =>
        have hflow : c.testFlow = .reading c {} := by simp [FfhCtrl.testFlow, hin]
        rw [hflow]
        exact follows_pure (twin_set hc cbs angles1 angles2 (.flow (word.getD operCmd) {}))
      | false =>
        have hflow : c.testFlow = .returned c .ACTION_FAIL := by simp [FfhCtrl.testFlow, hin]
        rw [hflow]
        exact follows_pure (twin_set hc cbs angles1 angles2 (.menu (word.getD operCmd)))
    by_cases hquit : word.getD operCmd = "quit"
    · simp only [if_neg htest, if_pos hquit, resetFfh, withFfh_of hc]
      refine ⟨rfl, (fun _ e => by cases e), fun t ht => ?_⟩
      cases ht
      exact ⟨_, rfl, twin_set hc cbs angles1 angles2 .returned⟩
    · simp only [if_neg htest, if_neg hquit]
      exact follows_pure ⟨hc, .menu (word.getD operCmd)⟩
  | flow operCmd f =>
    simp only [Program.step, Program.readStep, Program.flowStep, readFlow, withFfh_of hc, step]
    have hmap : mapOut (Ev.udp left_hand) (c.flowStep f word >>= fun next => pure (LpV2SyncFFH.flowing next)) =
        mapOut (Ev.udp left_hand) (c.flowStep f word) >>= fun next => pure (LpV2SyncFFH.flowing next) := by
      rw [mapOut_bind]
      rfl
    rw [hmap, mapOut_bind]
    simp only [bind_assoc, pure_bind]
    refine follows_bind (Q := Eq) ⟨rfl, fun e he => he, fun next hn => ⟨next, hn, rfl⟩⟩ ?_
    rintro next _ rfl
    cases next with
    | reading d g => exact follows_pure (twin_set hc cbs angles1 angles2 (.flow operCmd g))
    | returned d r => exact follows_pure (twin_set hc cbs angles1 angles2 (.menu operCmd))
  | returned => exact follows_pure ⟨hc, .returned⟩

omit [LinearOrder F] [Libm F] in
/-- A `connect` that gets its sockets: the left hand's calls are those of its `_connect`. -/
theorem connect_by_hand {task : LpV2SyncFFH F} {r : ConnectAnswers} (hw : Wired task)
    (hname : task.taskName_ = "test_by_hand") (hopen : task.SocketsOpen r.socks) (hon : task.isOn left_hand = true) :
    ∃ u c, (task.connect r).res = .ok (u, .SUCCESS) ∧ u.taskName_ = task.taskName_ ∧
      task.ffhs_[left_hand]? = some (some c) ∧ u.ffhs_[left_hand]? = some (some (c.connected (r.socks left_hand))) ∧
      onHand left_hand (task.connect r).out = (c._connect (r.socks left_hand)).out := by
  obtain ⟨⟨v, ret⟩, hv, -⟩ := ends_total (connectFFH_ends hw r.socks)
  have hv' : (overHands (fun i c => c._connect (r.socks i)) handIds task).res = .ok (v, ret) := hv
  obtain ⟨⟨ffhs, hframe⟩, hret, -, -⟩ := connectHands_spec r.socks (by decide) hv'
  obtain rfl : ret = .SUCCESS := hret.mpr hopen
  obtain ⟨c, c', hc, hres, hc', hout⟩ := overHands_each (by decide) hv' left_hand (by decide) hon
  obtain rfl := FfhCtrl.connect_succeeded hres
  have hconnect : task.connect r = task.connectFFH r.socks >>= fun ffh =>
      if ffh.2 ≠ .SUCCESS then pure ffh else pure ({ ffh.1 with inConnection_ := true }, .SUCCESS) := by
    have hother : task.taskName_ ≠ "leap_motion_demo" := by rw [hname]; decide
    rw [LpV2SyncFFH.connect, connectLeap, if_neg hother, pure_bind, if_neg (fun h => h rfl)]
  rw [hconnect, bind_of_ok hv]
  refine ⟨{ v with inConnection_ := true }, c, rfl, ?_, hc, hc', ?_⟩
  · rw [hframe]
  · show onHand left_hand ((task.connectFFH r.socks).out ++ []) = _
    rw [List.append_nil]
    exact hout

omit [LinearOrder F] [Libm F] in
/-- Connected, the controllers of the two agree: only one was given limits, and `_connect`
    sets both to the default. -/
theorem connected_alike {raw : Raw F} {info : String → Option (HandNode F)} {c : FfhCtrl F} {node : HandNode F}
    {ip : String} {port : Int} {sockfd : Int} {handCmd : udp_hand_cmd F} (h : configuredFfh raw info left_hand = some c)
    (hnode : info "left_hand" = some node) (hip : node.ip = some ip) (hport : node.port = some port) (sock : Int) :
    c.connected sock = (FfhCtrl.make 0 ip port sockfd handCmd).connected sock ∧ c.udp_.ip_ = ip ∧ c.udp_.port_ = port := by
  obtain ⟨node', hn, h⟩ := Option.bind_eq_some_iff.mp h
  obtain rfl : node = node' := Option.some.inj (hnode.symm.trans hn)
  obtain ⟨ip', hip', h⟩ := Option.bind_eq_some_iff.mp h
  obtain rfl : ip = ip' := Option.some.inj (hip.symm.trans hip')
  obtain ⟨port', hport', h⟩ := Option.bind_eq_some_iff.mp h
  obtain rfl : port = port' := Option.some.inj (hport.symm.trans hport')
  obtain ⟨lo, -, h⟩ := Option.bind_eq_some_iff.mp h
  obtain ⟨up, -, h⟩ := Option.bind_eq_some_iff.mp h
  obtain rfl := Option.some.inj h
  exact ⟨rfl, rfl, rfl⟩

/-- The program on the words, from its constructor. -/
def byHand (addr : Nat) (raw : Raw F) (config : Config F) (r : ConnectAnswers) (tmp_cmd : udp_hand_cmd F)
    (words : List (Option String)) : Emit (Ev F) Fault (Program.Prog F) :=
  Program.program addr raw config (.attempt r :: .start tmp_cmd :: words.map .read)

/-- The tool on the words, from `main`. -/
def testing (garbage : Garbage F) (config : Config F) (sock : Int) (words : List (Option String)) :
    Emit (UdpEv F) Fault (Tool F) := main garbage config sock >>= fun s => runs step s words

/-- The tests by hand in both, from the start, on the same file, socket and words: the same
    system calls for the left hand, the same fault, and the same word at which they are left. -/
theorem by_hand_alike {addr : Nat} {raw : Raw F} {garbage : Garbage F} {config : Config F} {r : ConnectAnswers}
    {task : LpV2SyncFFH F} {s : Tool F} (hmake : (make addr raw config).res = .ok task)
    (hmain : (main garbage config (r.socks left_hand)).res = .ok s) (hname : config.task_name = some "test_by_hand")
    (hopen : task.SocketsOpen r.socks) (tmp_cmd : udp_hand_cmd F) (words : List (Option String)) :
    onHand left_hand (byHand addr raw config r tmp_cmd words).out = (testing garbage config (r.socks left_hand) words).out ∧
    (∀ e, (byHand addr raw config r tmp_cmd words).res = .error e ↔
      (testing garbage config (r.socks left_hand) words).res = .error e) ∧
    ∀ p t, (byHand addr raw config r tmp_cmd words).res = .ok p →
      (testing garbage config (r.socks left_hand) words).res = .ok t →
        p.task.ffhs_[left_hand]? = some (some t.ffh) ∧ (p.phase = .returned ↔ t.reading = .finished) := by
  obtain ⟨hp, -⟩ := make_spec hmake
  have hw : Wired task :=
    ⟨(make_ends addr raw config).2 task hmake, fun i hi hon => (made_has hp hi).mpr (by rw [hp.validHand]; exact hon)⟩
  obtain ⟨g, c, ip, port, hread, hf, ⟨info, node, hinfo, hnode, hip, hport⟩, rfl, hs, hmainout⟩ := main_spec hmain
  have hby : task.taskName_ = "test_by_hand" := by
    rw [hp.task_name] at hname
    exact Option.some.inj hname
  have hon : task.isOn left_hand = true := by
    obtain ⟨⟨valid, hvalid, hne⟩, -⟩ := hread.ffh _ hf
    have hsame : g.ffhValid = task.ffhValid := Option.some.inj (hread.hand_Valid.symm.trans hp.hand_Valid)
    rw [LpV2SyncFFH.isOn, ← hsame]
    have hvalid' : g.ffhValid[left_hand]? = some valid := hvalid
    rw [hvalid']
    simp [hne]
  obtain ⟨u, c, hu, huname, hc, huc, huout⟩ := connect_by_hand hw hby hopen hon
  have hsock := hopen left_hand (by decide) hon
  obtain ⟨hconn, hcip, hcport⟩ : c.connected (r.socks left_hand) =
      wired (.make 0 ip port garbage.sockfd garbage.ffhCmd) (r.socks left_hand) ∧ c.udp_.ip_ = ip ∧ c.udp_.port_ = port := by
    have hgiven := hp.ffhs left_hand
    rw [if_pos ⟨by decide, hon⟩, hinfo] at hgiven
    obtain ⟨c', hc', hat⟩ := hgiven
    obtain rfl := ffh_eq hc hat
    rw [wired, if_neg (not_lt.mpr hsock)]
    exact connected_alike hc' hnode hip hport _
  have htool : testing garbage config (r.socks left_hand) words =
      ⟨(main garbage config (r.socks left_hand)).out ++ (runs step s words).out, (runs step s words).res⟩ :=
    bind_of_ok hmain _
  have hprog : byHand addr raw config r tmp_cmd words =
      ⟨(task.connect r).out ++ (runs Program.step ⟨u, fun _ _ => none, .menu ""⟩ (words.map .read)).out,
        (runs Program.step ⟨u, fun _ _ => none, .menu ""⟩ (words.map .read)).res⟩ := by
    have hattempt : Program.attemptStep (Program.launch task) r =
        task.connect r >>= fun a => pure ⟨a.1, fun _ _ => none, if a.2 = .SUCCESS then .connected else .connecting⟩ := rfl
    have hstart : Program.startStep ⟨u, fun _ _ => none, .connected⟩ tmp_cmd = ⟨u, fun _ _ => none, .menu ""⟩ := by
      simp [Program.startStep, huname, hby]
    rw [byHand, Program.program_runs hmake, runs, Program.step, hattempt, bind_assoc, bind_of_ok hu, pure_bind, if_pos rfl,
      runs, Program.step, pure_bind, hstart]
  have htwin : Twin ⟨u, fun _ _ => none, .menu ""⟩ s := by
    have hmenu : g.test garbage = .menu "" := by
      rw [Globals.test, if_pos (Option.some.inj (hread.task_name.symm.trans hname))]
    rw [hs, hmenu, ← hconn]
    exact ⟨huc, .menu ""⟩
  have hrun := follows_mapOut_runs (fun p t word h => step_twin (p := p) h word) words htwin
  rw [← runs_map (Program.step (F := F)) Program.Act.read] at hrun
  rw [htool, hprog]
  refine ⟨?_, fun e => ⟨fun he => ?_, fun he => hrun.fault e he⟩, fun p t hpr ht => ?_⟩
  · show onHand left_hand (_ ++ _) = _
    rw [onHand_append, hrun.out, mapOut_out, onHand_udp_same, huout, hmainout, if_neg (not_lt.mpr hsock),
      FfhCtrl.connect_connected c hsock, hcip, hcport]
  · obtain ⟨e', he', heq⟩ := hrun.renamed he
    obtain rfl : e = e' := heq
    exact he'
  · obtain ⟨t', ht', htw⟩ := hrun.returned hpr
    obtain rfl : t' = t := Except.ok.inj (ht'.symm.trans ht)
    exact ⟨htw.ffh, htw.stands.over⟩

end Reads

/-- One joint of the shipped hand is bent. -/
theorem by_hand_alike_shipped :
    onHand left_hand (byHand 0 (blank : Raw ℝ) (shipped "test_by_hand") (answering 0 1) .zero
        (["test", "1", "0", "45", "quit", "quit"].map some)).out =
      (testing ⟨0, .zero, .zero⟩ (shipped "test_by_hand") 3 (["test", "1", "0", "45", "quit", "quit"].map some)).out := by
  have hmake : ∃ task : LpV2SyncFFH ℝ, (make 0 blank (shipped "test_by_hand")).res = .ok task := ⟨_, rfl⟩
  have hmain : ∃ s : Tool ℝ, (main ⟨0, .zero, .zero⟩ (shipped "test_by_hand") 3).res = .ok s := ⟨_, rfl⟩
  obtain ⟨task, hmake⟩ := hmake
  obtain ⟨s, hmain⟩ := hmain
  exact (by_hand_alike (r := answering 0 1) hmake hmain rfl (fun _ _ _ => (by decide : (0 : Int) ≤ 3)) .zero _).1

/-! ## The self checks -/

section Checks

variable [Zero F]

/-- What a pass sends up to its first fourth angle. -/
theorem first_seven (task : LpV2SyncFFH F) :
    sendsAll task.angles .zero ([.reset, .clear] ++ turns [0]) =
      (passCommands task.selfCheckData1 task.selfCheckData2).take 7 := by
  have hhalf := half_shown task.selfCheckData1 [0, 1, 2, 3, 4] (by decide)
  rw [turns_cons, sendsAll_append] at hhalf
  have hturn : sendsAll task.angles .zero (turns [0]) = sendsAll (fun _ => entry task.selfCheckData1) .zero (turns [0]) := rfl
  have hseven : (passCommands task.selfCheckData1 task.selfCheckData2).take 7 =
      .zero :: ((List.range 30).map (shown task.selfCheckData1 [0, 1, 2, 3, 4])).take 6 := rfl
  rw [hseven, ← hhalf, List.take_left' (by rfl), ← hturn]
  rfl

/-- On tables that let a pass of the tool return, with three angles for the first finger, a
    pass of `LpV2SyncFFH` from the zero command ends with an access out of bounds, after
    the first seven commands of the sixty-three that the tool sends. -/
theorem self_check_stops {task : LpV2SyncFFH F} {c : FfhCtrl F} (hc : task.ffhs_[left_hand]? = some (some c))
    (h1 : Table3 task.selfCheckData1) (h2 : Table3 task.selfCheckData2)
    (hrow : (task.selfCheckData1[0]?.map List.length) = some 3) :
    (runs checking (task, .zero) checkPass).res = .error (.outOfBounds .selfCheckData) ∧
    commands (runs checking (task, .zero) checkPass).out =
      ((passCommands task.selfCheckData1 task.selfCheckData2).take 7).map (Prod.mk left_hand) ∧
    (pass c task.selfCheckData1 task.selfCheckData2).out.filterMap UdpEv.command =
      passCommands task.selfCheckData1 task.selfCheckData2 := by
  have hsplit : checkPass = ([.reset, .clear] ++ turns [0]) ++ .joint false 0 3 ::
      (half false [1, 2, 3, 4] ++ [.reset, .clear] ++ half true [4, 3, 2, 1, 0] ++ [.reset]) := by decide
  have hcan : ∀ s ∈ [CheckStep.reset, .clear] ++ turns [0], Checkable task s := by
    obtain ⟨row, hr, hlen⟩ := h1 0
    have hangle : ∀ j : Fin 4, j.val < 3 → HasAngle task false 0 j := fun j hj => ⟨row, hr, Nat.lt_of_lt_of_le hj hlen⟩
    intro s hs
    simp only [turns, fingerJoints, List.flatMap_cons, List.flatMap_nil, List.append_nil, List.map_cons, List.map_nil,
      List.cons_append, List.nil_append, List.mem_cons, List.not_mem_nil, or_false] at hs
    rcases hs with rfl | rfl | rfl | rfl | rfl
    · exact ⟨c, hc⟩
    · trivial
    · exact ⟨hangle 0 (by decide), c, hc⟩
    · exact ⟨hangle 1 (by decide), c, hc⟩
    · exact ⟨hangle 2 (by decide), c, hc⟩
  obtain ⟨t, ht, ha, hout⟩ := steps_sent hcan .zero
  have hfault : ∀ tmp_cmd, t.checkStep tmp_cmd (.joint false 0 3) = fail (.outOfBounds .selfCheckData) := by
    intro tmp_cmd
    obtain ⟨row, hr, hlen⟩ := Option.map_eq_some_iff.mp hrow
    have hdata : t.selfCheckData false = task.selfCheckData1 := ha.selfCheckData false
    have hangle : t.checkAngle false 0 3 = .error (.outOfBounds .selfCheckData) := by
      have hr' : task.selfCheckData1[(0 : Fin 5).val]? = some row := hr
      simp only [checkAngle, hdata, subscript_ok.mpr hr', bind, Except.bind]
      exact subscript_ge (by rw [hlen]; decide)
    simp only [checkStep, hangle, lift_error_bind]
  rw [hsplit, runs_append, bind_of_ok ht, runs]
  have hnext : checking (t, ([CheckStep.reset, .clear] ++ turns [0]).foldl (leaves task.angles) .zero) (.joint false 0 3) =
      fail (.outOfBounds .selfCheckData) := hfault _
  rw [hnext, fail_bind]
  refine ⟨rfl, ?_, ?_⟩
  · show commands (_ ++ []) = _
    rw [List.append_nil, hout, first_seven]
  · rw [(pass_by_tables c _ _).2 h1 h2, List.filterMap_map]
    exact List.filterMap_some

end Checks

/-- Tables with three columns, as those of the shipped file. -/
theorem self_check_stops_three_columns :
    (runs checking (tested (List.replicate 5 [60, 60, -10]) (List.replicate 5 [60, 60, 10]), .zero) checkPass).res =
      .error (.outOfBounds .selfCheckData) := by
  have hrows : ∀ row : List ℤ, 3 ≤ row.length → Table3 (List.replicate 5 row) := fun row hlen id =>
    ⟨row, by rw [List.getElem?_replicate, if_pos id.isLt], hlen⟩
  exact (self_check_stops (c := .make 0 "10.0.0.1" 8001 (-1) .zero) rfl (hrows _ (by decide)) (hrows _ (by decide)) rfl).1

end TestFfh

end LeapSyncFfh
