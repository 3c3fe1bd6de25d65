/-
  LeapSyncFfh.Task.TestFfh — the hand's own test program (test_FFH.cpp), left hand only.

  It has copies of the single joint test and of the self check that `LpV2SyncFFH` has, on a
  controller it owns. It goes on where `_connect` fails, and it never looks whether there is
  a controller: with the left hand off in `hand_Valid` it ends with a null pointer.

  A run is the words of the operator; a round of the self check is one of them. Whatever is
  read, the controller is as `_connect` left it but for its command (`Sending`), so all
  datagrams of a session go over one socket to one address, and it is closed behind a zero
  command exactly when the session ends (`session_wired`).

  The copy of `sendFingerCommands` takes three joints where the other takes four, and the
  local that it bends is the one that `memset` clears: a pass sends what its tables say,
  whatever was sent before (`pass_by_tables`).
-/

import LeapSyncFfh.Task.SelfCheck

namespace LeapSyncFfh

open Cells Emit LpV2SyncFFH

namespace TestFfh

variable {F : Type}

/-! ## The program -/

structure Globals (F : Type) where
  ffhValid : List Int
  ffh : Option (FfhCtrl F) := none
  g_taskName : String
  g_selfCheckAngles1 : List (List F)
  g_selfCheckAngles2 : List (List F)

/-- What the constructors leave: the socket number, the controller's command, and the local
    of `selfCheck`. -/
structure Garbage (F : Type) where
  sockfd : Int
  ffhCmd : udp_hand_cmd F
  handCmd : udp_hand_cmd F

/-- `parseConfig`: any exception leaves as another that `main` does not catch. -/
def parseConfig (raw : Garbage F) (node : Config F) : Except Fault (Globals F) := do
  let ffhValid ← as node.hand_Valid
  let ffhInfo ← as node.hand_info
  let handNode := ffhInfo (handName 0)
  let g_taskName ← as node.task_name
  let g_selfCheckAngles1 ← as node.self_check_angles1
  let g_selfCheckAngles2 ← as node.self_check_angles2
  let g : Globals F :=
    { ffhValid := ffhValid, g_taskName := g_taskName, g_selfCheckAngles1 := g_selfCheckAngles1,
      g_selfCheckAngles2 := g_selfCheckAngles2 }
  let valid ← subscript (.outOfBounds .ffhValid) ffhValid 0
  if valid ≠ 0 then do
    let handNode ← as handNode
    let ip ← as handNode.ip
    let port ← as handNode.port
    .ok { g with ffh := some (.make 0 ip port raw.sockfd raw.ffhCmd) }
  else .ok g

/-- Where the program stands at a read. -/
inductive Reading (F : Type) where
  /-- `singleJointTest`. -/
  | menu (operCmd : String)
  /-- `testFlow`. -/
  | flow (operCmd : String) (t : FfhCtrl.Flow)
  | selfCheck (str : String) (handCmd : udp_hand_cmd F)
  /-- `main` has returned. -/
  | finished

structure Tool (F : Type) where
  ffh : FfhCtrl F
  angles1 : List (List F)
  angles2 : List (List F)
  reading : Reading F

/-- The test that `g_taskName` names, at its first read. -/
def Globals.test (g : Globals F) (raw : Garbage F) : Reading F :=
  if g.g_taskName = "test_by_hand" then .menu "" else if g.g_taskName = "self_check" then .selfCheck "" raw.handCmd
  else .finished

/-- `main` up to its first read; a `_connect` that fails is only logged. -/
def main [Ring F] (raw : Garbage F) (config : Config F) (sock : Int) : Emit (UdpEv F) Fault (Tool F) := do
  let g ← lift (parseConfig raw config)
  match g.ffh with
  | none => fail .nullPointer
  | some ffh => do
    let r ← ffh._connect sock
    pure { ffh := r.1, angles1 := g.g_selfCheckAngles1, angles2 := g.g_selfCheckAngles2, reading := g.test raw }

/-- One round of the loop of `sendFingerCommands`, with `ffh` and `cmd`. -/
def checkJoint [Zero F] (angles : List (List F)) (s : FfhCtrl F × udp_hand_cmd F) (at_ : Fin 5 × Fin 4) :
    Emit (UdpEv F) Fault (FfhCtrl F × udp_hand_cmd F) := do
  let row ← lift (subscript (.outOfBounds .selfCheckData) angles at_.1)
  let angle ← lift (subscript (.outOfBounds .selfCheckData) row at_.2)
  let cmd := s.2.set at_.1 at_.2 angle
  let ffh ← s.1.send_hand_cmd_of cmd
  let cmd := if at_.2 ≠ 2 then cmd.set at_.1 at_.2 0 else cmd
  let ffh ← ffh.send_hand_cmd_of cmd
  pure (ffh, cmd)

/-- `for j < 3`. -/
def fingerJoints (id : Fin 5) : List (Fin 5 × Fin 4) := [(id, 0), (id, 1), (id, 2)]

/-- The round of `selfCheck` that a `test` begins. -/
def pass [Zero F] (ffh : FfhCtrl F) (angles1 angles2 : List (List F)) :
    Emit (UdpEv F) Fault (FfhCtrl F × udp_hand_cmd F) := do
  let ffh ← ffh.reset
  let s ← runs (checkJoint angles1) (ffh, .zero) ([0, 1, 2, 3, 4].flatMap fingerJoints)
  let ffh ← s.1.reset
  let s ← runs (checkJoint angles2) (ffh, .zero) ([4, 3, 2, 1, 0].flatMap fingerJoints)
  let ffh ← s.1.reset
  pure (ffh, s.2)

/-- The flow that goes on, or the menu once `testFlow` has returned. -/
def flowing (operCmd : String) : FfhCtrl.FlowStep F → FfhCtrl F × Reading F
  | .reading c t => (c, .flow operCmd t)
  | .returned c _ => (c, .menu operCmd)

/-- `std::cin >>` and what follows it up to the next read; `none` is the end of the input. -/
def step [DivisionRing F] (s : Tool F) (word : Option String) : Emit (UdpEv F) Fault (Tool F) :=
  match s.reading with
  | .menu operCmd =>
    let operCmd := word.getD operCmd
    if operCmd = "test" then
      let r := flowing operCmd s.ffh.testFlow
      pure { s with ffh := r.1, reading := r.2 }
    else if operCmd = "quit" then do
      let ffh ← s.ffh.reset
      pure { s with ffh := ffh, reading := .finished }
    else pure { s with reading := .menu operCmd }
  | .flow operCmd t => do
    let next ← s.ffh.flowStep t word
    let r := flowing operCmd next
    pure { s with ffh := r.1, reading := r.2 }
  | .selfCheck str handCmd =>
    let str := word.getD str
    if str = "test" then do
      let r ← pass s.ffh s.angles1 s.angles2
      pure { s with ffh := r.1, reading := .selfCheck str r.2 }
    else if str ≠ "quit" then pure { s with reading := .selfCheck str handCmd }
    else pure { s with reading := .finished }
  | .finished => pure s

/-- Once `main` has returned the globals are destroyed. -/
def exit [Zero F] (s : Tool F) : Emit (UdpEv F) Fault (Tool F) :=
  match s.reading with
  | .finished => do
    s.ffh.destroy
    pure s
  | _ => pure s

def session [DivisionRing F] (raw : Garbage F) (config : Config F) (sock : Int) (words : List (Option String)) :
    Emit (UdpEv F) Fault (Tool F) := do
  let s ← main raw config sock
  let t ← runs step s words
  exit t

/-! ## The socket -/

/-- The controller as `base`, but for its command. -/
def Sending (base c : FfhCtrl F) : Prop := ∃ cmd, c = { base with handCmd_ := cmd }

/-- A datagram over the socket of `base`. -/
def Datagram (base : FfhCtrl F) (e : UdpEv F) : Prop :=
  ∃ cmd, e = .sendto base.udp_.sockfd_ base.udp_.server_addr cmd

section Sends

variable {base c : FfhCtrl F}

theorem send_sends (h : Sending base c) (cmd : udp_hand_cmd F) :
    Sat (Datagram base) (Sending base) (c.send_hand_cmd_of cmd) := by
  obtain ⟨old, rfl⟩ := h
  exact ⟨fun e he => ⟨cmd, List.mem_singleton.mp he⟩, fun d hd => ⟨cmd, by cases hd; rfl⟩⟩

theorem reset_sends [Zero F] (h : Sending base c) : Sat (Datagram base) (Sending base) c.reset := send_sends h .zero

theorem checkJoint_sends [Zero F] (angles : List (List F)) {s : FfhCtrl F × udp_hand_cmd F} (h : Sending base s.1)
    (at_ : Fin 5 × Fin 4) : Sat (Datagram base) (fun t => Sending base t.1) (checkJoint angles s at_) := by
  refine sat_bind (sat_lift fun _ _ => trivial) fun row _ => sat_bind (sat_lift fun _ _ => trivial) fun angle _ => ?_
  exact sat_bind (send_sends h _) fun c hc => sat_bind (send_sends hc _) fun d hd => sat_pure hd

theorem pass_sends [Zero F] (angles1 angles2 : List (List F)) (h : Sending base c) :
    Sat (Datagram base) (fun t => Sending base t.1) (pass c angles1 angles2) := by
  have half : ∀ (angles : List (List F)) (js : List (Fin 5 × Fin 4)) {d : FfhCtrl F}, Sending base d →
      Sat (Datagram base) (fun t => Sending base t.1) (runs (checkJoint angles) (d, .zero) js) := fun angles js d hd =>
    runs_sends (checkJoint angles) (fun s at_ hs => checkJoint_sends angles hs at_) js hd
  refine sat_bind (reset_sends h) fun d hd => sat_bind (half angles1 _ hd) fun s hs => ?_
  refine sat_bind (reset_sends hs) fun d hd => sat_bind (half angles2 _ hd) fun s hs => ?_
  exact sat_bind (reset_sends hs) fun d hd => sat_pure hd

/-- What is read never leaves the socket. -/
theorem step_sends [DivisionRing F] {s : Tool F} (h : Sending base s.ffh) (word : Option String) :
    Sat (Datagram base) (fun t => Sending base t.ffh) (step s word) := by
  unfold step
  split
  · rename_i operCmd _
    simp only []
    split
    · refine sat_pure ?_
      unfold FfhCtrl.testFlow
      split <;> exact h
    split
    · exact sat_bind (reset_sends h) fun c hc => sat_pure hc
    · exact sat_pure h
  · rename_i operCmd t _
    obtain ⟨cmd, hc⟩ := h
    have ho := s.ffh.flowStep_outcome t word
    generalize s.ffh.flowStep t word = x at ho
    cases ho with
    | quit _ => exact sat_pure ⟨cmd, hc⟩
    | next _ _ => exact sat_pure ⟨cmd, hc⟩
    | fault _ e _ _ => rw [fail_bind]; exact sat_fail e
    | reset next _ =>
      refine sat_bind (Q := fun n => Sending base (flowing operCmd n).1) ⟨fun e he => ⟨.zero, ?_⟩, fun n hn => ?_⟩
        fun n hn => sat_pure hn
      · rw [List.mem_singleton.mp he, hc]
      · cases hn
        exact ⟨.zero, by rw [hc]; rfl⟩
    | entered strs i j a next _ _ =>
      refine sat_bind (Q := fun n => Sending base (flowing operCmd n).1)
        ⟨fun e he => ⟨s.ffh.handCmd_.set i j a, ?_⟩, fun n hn => ?_⟩ fun n hn => sat_pure hn
      · rw [List.mem_singleton.mp he, hc]
      · cases hn
        exact ⟨s.ffh.handCmd_.set i j a, by rw [hc]; rfl⟩
  · simp only []
    split
    · exact sat_bind (pass_sends s.angles1 s.angles2 h) fun r hr => sat_pure hr
    split
    · exact sat_pure h
    · exact sat_pure h
  · exact sat_pure h

end Sends

/-- What `_connect` leaves, and the system calls it makes. -/
def wired [Ring F] (c : FfhCtrl F) (sock : Int) : FfhCtrl F := if sock < 0 then c.refused sock else c.connected sock

/-- The address in the file. -/
def Configured (config : Config F) (ip : String) (port : Int) : Prop :=
  ∃ ffhInfo node, config.hand_info = some ffhInfo ∧ ffhInfo "left_hand" = some node ∧ node.ip = some ip ∧
    node.port = some port

/-- What `parseConfig` took from the file. -/
structure Read (raw : Garbage F) (config : Config F) (g : Globals F) : Prop where
  task_name : config.task_name = some g.g_taskName
  hand_Valid : config.hand_Valid = some g.ffhValid
  ffh : ∀ c, g.ffh = some c → (∃ valid, g.ffhValid[0]? = some valid ∧ valid ≠ 0) ∧
    ∃ ip port, Configured config ip port ∧ c = .make 0 ip port raw.sockfd raw.ffhCmd

theorem parseConfig_read {raw : Garbage F} {config : Config F} {g : Globals F} (h : parseConfig raw config = .ok g) :
    Read raw config g := by
  unfold parseConfig at h
  obtain ⟨hand_Valid, hand_info, task_name, angles1, angles2⟩ := config
  simp only [bind, Except.bind] at h
  cases hand_Valid with
  | none => cases h
  | some ffhValid =>
  cases hand_info with
  | none => cases h
  | some ffhInfo =>
  cases task_name with
  | none => cases h
  | some name =>
  cases angles1 with
  | none => cases h
  | some a1 =>
  cases angles2 with
  | none => cases h
  | some a2 =>
  simp only [as] at h
  cases hvalid : ffhValid[0]? with
  | none =>
    rw [subscript_ge (List.getElem?_eq_none_iff.mp hvalid)] at h
    cases h
  | some valid =>
  rw [subscript_ok.mpr hvalid] at h
  simp only [] at h
  split at h
  · rename_i hne
    cases hnode : ffhInfo (handName 0) with
    | none => rw [hnode] at h; cases h
    | some node =>
    rw [hnode] at h
    cases hip : node.ip with
    | none => simp only [hip] at h; cases h
    | some ip =>
    cases hport : node.port with
    | none => simp only [hip, hport] at h; cases h
    | some port =>
    simp only [hip, hport] at h
    cases h
    refine ⟨rfl, rfl, fun c hc => ⟨⟨valid, hvalid, hne⟩, ip, port, ⟨ffhInfo, node, rfl, hnode, hip, hport⟩, ?_⟩⟩
    exact (Option.some.inj hc).symm
  · cases h
    exact ⟨rfl, rfl, (fun _ e => by cases e)⟩

theorem main_spec [Ring F] {raw : Garbage F} {config : Config F} {sock : Int} {s : Tool F}
    (h : (main raw config sock).res = .ok s) : ∃ g c ip port, Read raw config g ∧ g.ffh = some c ∧
      Configured config ip port ∧ c = .make 0 ip port raw.sockfd raw.ffhCmd ∧
      s = ⟨wired c sock, g.g_selfCheckAngles1, g.g_selfCheckAngles2, g.test raw⟩ ∧
      (main raw config sock).out =
        if sock < 0 then [.socket sock, .close sock] else [.socket sock, .sendto sock (some (.make ip port)) .zero] := by
  unfold main at h ⊢
  cases hg : parseConfig raw config with
  | error e =>
    rw [hg] at h
    cases h
  | ok g =>
  rw [hg] at h
  rw [lift_ok_bind] at h ⊢
  cases hf : g.ffh with
  | none =>
    simp only [hf] at h
    cases h
  | some c =>
  have hread := parseConfig_read hg
  obtain ⟨-, ip, port, hconf, hc⟩ := hread.ffh c hf
  refine ⟨g, c, ip, port, hread, hf, hconf, hc, ?_⟩
  simp only [hf] at h ⊢
  unfold wired
  by_cases hs : sock < 0
  · rw [FfhCtrl.connect_refused _ hs] at h ⊢
    cases h
    rw [if_pos hs, if_pos hs]
    exact ⟨rfl, rfl⟩
  · rw [FfhCtrl.connect_connected _ (not_lt.mp hs)] at h ⊢
    cases h
    rw [if_neg hs, if_neg hs, hc]
    exact ⟨rfl, rfl⟩

/-- The destructors: a connected controller sends zero and closes its socket. -/
theorem destroy_out [Ring F] {c d : FfhCtrl F} {sock : Int} (hc : c.inConnection_ = false)
    (hudp : c.udp_.inConnection_ = false) (hd : Sending (wired c sock) d) :
    d.destroy.res = .ok () ∧ d.destroy.out =
      if sock < 0 then [] else [.sendto sock (some (.make c.udp_.ip_ c.udp_.port_)) .zero, .close sock] := by
  obtain ⟨cmd, rfl⟩ := hd
  unfold wired
  by_cases hs : sock < 0
  · simp only [if_pos hs, FfhCtrl.refused, FfhCtrl.destroy, hc, UdpClient.destroy, hudp, Bool.false_eq_true, if_false]
    exact ⟨rfl, rfl⟩
  · simp only [if_neg hs, FfhCtrl.connected, FfhCtrl.destroy]
    exact ⟨rfl, rfl⟩

/-- A session is over. -/
def Ended [DivisionRing F] (s : Tool F) (words : List (Option String)) : Prop :=
  ∃ t, (runs step s words).res = .ok t ∧ t.reading = .finished

/-- Every session with the program. Where `main` does not come to its first read, nothing is
    sent. Else all its datagrams go over its one socket to the address that `inet_addr` and
    `htons` make of the configured ip and port, the first of them zero; the socket is closed,
    behind a zero command, exactly when the session ends. Without a socket they go nowhere. -/
theorem session_wired [DivisionRing F] (raw : Garbage F) (config : Config F) (sock : Int) (words : List (Option String)) :
    (∀ e, (main raw config sock).res = .error e → session raw config sock words = fail e) ∧
    ∀ s, (main raw config sock).res = .ok s → ∃ ip port, ∃ cmds : List (udp_hand_cmd F), Configured config ip port ∧
      (sock < 0 → (session raw config sock words).out = .socket sock :: .close sock :: cmds.map (.sendto sock none)) ∧
      (0 ≤ sock → ¬ Ended s words → (session raw config sock words).out =
        .socket sock :: (udp_hand_cmd.zero :: cmds).map (.sendto sock (some (.make ip port)))) ∧
      (0 ≤ sock → Ended s words → (session raw config sock words).out =
        .socket sock :: (udp_hand_cmd.zero :: cmds ++ [udp_hand_cmd.zero]).map (.sendto sock (some (.make ip port))) ++
          [.close sock]) := by
  constructor
  · intro e he
    have hout : (main raw config sock).out = [] := by
      unfold main at he ⊢
      cases hg : parseConfig raw config with
      | error e => rfl
      | ok g =>
      rw [hg] at he
      rw [lift_ok_bind] at he ⊢
      cases hf : g.ffh with
      | none => rfl
      | some c =>
        simp only [hf] at he
        by_cases hs : sock < 0
        · rw [FfhCtrl.connect_refused _ hs] at he
          cases he
        · rw [FfhCtrl.connect_connected _ (not_lt.mp hs)] at he
          cases he
    rw [session, bind_of_error he, hout]
    rfl
  · intro s hs
    obtain ⟨g, c, ip, port, -, -, hconf, rfl, hs', hmain⟩ := main_spec hs
    have hffh : s.ffh = wired (.make 0 ip port raw.sockfd raw.ffhCmd) sock := by rw [hs']
    have hsat := runs_sends step (fun t word ht => step_sends ht word) words (s := s)
      (⟨s.ffh.handCmd_, rfl⟩ : Sending s.ffh s.ffh)
    -- what the words send
    have hmem : (runs step s words).out ∈
        Set.range (List.map (UdpEv.sendto s.ffh.udp_.sockfd_ s.ffh.udp_.server_addr)) := by
      rw [Set.range_list_map]
      intro e he
      obtain ⟨cmd, rfl⟩ := hsat.1 e he
      exact ⟨cmd, rfl⟩
    obtain ⟨cmds, hcmds⟩ := hmem
    -- and what the destructors do
    have hending : ∀ t, (runs step s words).res = .ok t → t.reading = .finished →
        (exit t).out = if sock < 0 then [] else [.sendto sock (some (.make ip port)) .zero, .close sock] := by
      intro t ht hfin
      have hkeep := hsat.2 t ht
      rw [hffh] at hkeep
      have hexit : exit t = t.ffh.destroy >>= fun _ => pure t := by
        unfold exit
        rw [hfin]
      rw [hexit, bind_pure_out]
      exact (destroy_out (c := .make 0 ip port raw.sockfd raw.ffhCmd) rfl rfl hkeep).2
    have hgoing : ¬ Ended s words → (session raw config sock words).out =
        (main raw config sock).out ++ (runs step s words).out := by
      intro hnot
      rw [session, bind_of_ok hs]
      cases hres : (runs step s words).res with
      | error e => rw [bind_of_error hres]
      | ok t =>
        have hexit : exit t = pure t := by
          unfold exit
          split
          · rename_i hfin
            exact absurd ⟨t, hres, hfin⟩ hnot
          · rfl
        rw [bind_of_ok hres, hexit]
        simp
    have hended : Ended s words → (session raw config sock words).out = (main raw config sock).out ++
        ((runs step s words).out ++ if sock < 0 then [] else [.sendto sock (some (.make ip port)) .zero, .close sock]) := by
      rintro ⟨t, ht, hfin⟩
      rw [session, bind_of_ok hs, bind_of_ok ht, hending t ht hfin]
    rw [hmain, ← hcmds] at hgoing hended
    have hbad : sock < 0 → s.ffh.udp_.sockfd_ = sock ∧ s.ffh.udp_.server_addr = none := by
      intro h
      rw [hffh, wired, if_pos h]
      exact ⟨rfl, rfl⟩
    have hgood : 0 ≤ sock → s.ffh.udp_.sockfd_ = sock ∧ s.ffh.udp_.server_addr = some (.make ip port) := by
      intro h
      rw [hffh, wired, if_neg (not_lt.mpr h)]
      exact ⟨rfl, rfl⟩
    refine ⟨ip, port, cmds, hconf, fun h => ?_, fun h hnot => ?_, fun h hend => ?_⟩
    · rw [(hbad h).1, (hbad h).2] at hgoing hended
      by_cases hend : Ended s words
      · rw [hended hend, if_pos h, if_pos h]
        simp
      · rw [hgoing hend, if_pos h]
        rfl
    · rw [(hgood h).1, (hgood h).2] at hgoing
      rw [hgoing hnot, if_neg (not_lt.mpr h)]
      rfl
    · rw [(hgood h).1, (hgood h).2] at hended
      rw [hended hend, if_neg (not_lt.mpr h), if_neg (not_lt.mpr h)]
      simp

/-! ## A pass of the self check -/

/-- Three angles for each of the five fingers. -/
def Table3 (angles : List (List F)) : Prop := ∀ id : Fin 5, ∃ row, angles[id.val]? = some row ∧ 3 ≤ row.length

section Pass

variable [Zero F]

/-- `angles[id][j]`, zero outside the table. -/
def entry (angles : List (List F)) (id : Fin 5) (j : Fin 4) : F := ((angles[id.val]?.getD [])[j.val]?).getD 0

/-- The turns of the fingers `ids`. -/
def turns (ids : List (Fin 5)) : List CheckStep := (ids.flatMap fingerJoints).map fun p => .joint false p.1 p.2

/-- Command `n` of half a pass over the fingers `ids`, six for each: its joint is bent in the
    first command of a round, a swing stays, and no fourth joint is bent at all. -/
def shown (angles : List (List F)) (ids : List (Fin 5)) (n : Nat) : udp_hand_cmd F := ⟨fun k => ⟨fun l =>
  if l = 2 then if n < 6 * ids.idxOf k + 4 then 0 else entry angles k 2
  else if l ≠ 3 ∧ n = 6 * ids.idxOf k + 2 * l.val then entry angles k l else 0⟩⟩

def passCommands (angles1 angles2 : List (List F)) : List (udp_hand_cmd F) :=
  .zero :: (List.range 30).map (shown angles1 [0, 1, 2, 3, 4]) ++
    .zero :: (List.range 30).map (shown angles2 [4, 3, 2, 1, 0]) ++ [.zero]

/-- The element that a round reads is there. -/
def HasEntry (angles : List (List F)) (p : Fin 5 × Fin 4) : Prop :=
  ∃ row, angles[p.1.val]? = some row ∧ p.2.val < row.length

theorem checkJoint_sent {angles : List (List F)} {p : Fin 5 × Fin 4} (h : HasEntry angles p) (c : FfhCtrl F)
    (cmd : udp_hand_cmd F) :
    checkJoint angles (c, cmd) p =
      ⟨(sends (fun _ => entry angles) cmd (.joint false p.1 p.2)).map (.sendto c.udp_.sockfd_ c.udp_.server_addr),
        .ok ({ c with handCmd_ := leaves (fun _ => entry angles) cmd (.joint false p.1 p.2) },
          leaves (fun _ => entry angles) cmd (.joint false p.1 p.2))⟩ := by
  obtain ⟨row, hrow, hj⟩ := h
  have hentry : entry angles p.1 p.2 = row[p.2.val] := by
    rw [entry, hrow, Option.getD_some, List.getElem?_eq_getElem hj, Option.getD_some]
  simp only [checkJoint, subscript_ok.mpr hrow, lift_ok_bind, subscript_lt hj, sends, leaves, hentry]
  rfl

theorem checkJoint_fault {angles : List (List F)} {p : Fin 5 × Fin 4} (h : ¬ HasEntry angles p) (c : FfhCtrl F)
    (cmd : udp_hand_cmd F) : checkJoint angles (c, cmd) p = fail (.outOfBounds .selfCheckData) := by
  cases hrow : angles[p.1.val]? with
  | none => simp only [checkJoint, subscript_ge (List.getElem?_eq_none_iff.mp hrow), lift_error_bind]
  | some row =>
    have hj : row.length ≤ p.2.val := by
      by_contra hlt
      exact h ⟨row, hrow, Nat.lt_of_not_le hlt⟩
    simp only [checkJoint, subscript_ok.mpr hrow, lift_ok_bind, subscript_ge hj, lift_error_bind]

theorem joints_sent {angles : List (List F)} : ∀ {ps : List (Fin 5 × Fin 4)}, (∀ p ∈ ps, HasEntry angles p) →
    ∀ (c : FfhCtrl F) (cmd : udp_hand_cmd F), ∃ d, Sending c d ∧
      runs (checkJoint angles) (c, cmd) ps =
        ⟨(sendsAll (fun _ => entry angles) cmd (ps.map fun p => .joint false p.1 p.2)).map
          (.sendto c.udp_.sockfd_ c.udp_.server_addr),
          .ok (d, (ps.map fun p => CheckStep.joint false p.1 p.2).foldl (leaves fun _ => entry angles) cmd)⟩ := by
  intro ps
  induction ps with
  | nil => exact fun _ c cmd => ⟨c, ⟨c.handCmd_, rfl⟩, rfl⟩
  | cons p ps ih =>
    intro h c cmd
    obtain ⟨hp, hps⟩ := List.forall_mem_cons.mp h
    obtain ⟨d, hd, hrest⟩ := ih hps { c with handCmd_ := leaves (fun _ => entry angles) cmd (.joint false p.1 p.2) }
      (leaves (fun _ => entry angles) cmd (.joint false p.1 p.2))
    refine ⟨d, ?_, ?_⟩
    · obtain ⟨last, rfl⟩ := hd
      exact ⟨last, rfl⟩
    · rw [runs, checkJoint_sent hp, bind_of_ok rfl, hrest, List.map_cons, sendsAll, List.map_append]
      rfl

/-- They return exactly when every angle is there. -/
theorem joints_return {angles : List (List F)} {ps : List (Fin 5 × Fin 4)} {c : FfhCtrl F} {cmd : udp_hand_cmd F}
    {r : FfhCtrl F × udp_hand_cmd F} (h : (runs (checkJoint angles) (c, cmd) ps).res = .ok r) :
    ∀ p ∈ ps, HasEntry angles p := by
  induction ps generalizing c cmd with
  | nil => nofun
  | cons p ps ih =>
    obtain ⟨s, hs, h⟩ := bind_res_ok.mp h
    refine List.forall_mem_cons.mpr ⟨?_, ih h⟩
    by_contra hp
    rw [checkJoint_fault hp] at hs
    cases hs

omit [Zero F] in
theorem table3_iff {angles : List (List F)} {ids : List (Fin 5)} (hids : ∀ id, id ∈ ids) :
    Table3 angles ↔ ∀ p ∈ ids.flatMap fingerJoints, HasEntry angles p := by
  constructor
  · intro h p hp
    obtain ⟨id, -, hp⟩ := List.mem_flatMap.mp hp
    obtain ⟨row, hrow, hlen⟩ := h id
    simp only [fingerJoints, List.mem_cons, List.not_mem_nil, or_false] at hp
    rcases hp with rfl | rfl | rfl
    · exact ⟨row, hrow, Nat.lt_of_lt_of_le (show 0 < 3 by decide) hlen⟩
    · exact ⟨row, hrow, Nat.lt_of_lt_of_le (show 1 < 3 by decide) hlen⟩
    · exact ⟨row, hrow, Nat.lt_of_lt_of_le (show 2 < 3 by decide) hlen⟩
  · intro h id
    obtain ⟨row, hrow, hlt⟩ := h (id, 2) (List.mem_flatMap.mpr ⟨id, hids id, by simp [fingerJoints]⟩)
    exact ⟨row, hrow, hlt⟩

/-- A turn is one of `sendFingerCommands` without its last round. -/
theorem turn_sends (T : Bool → Fin 5 → Fin 4 → F) (cmd : udp_hand_cmd F) (id : Fin 5) :
    sendsAll T cmd (turns [id]) = (sendsAll T cmd (sendFingerCommands false id)).take 6 := rfl

theorem turn_leaves (T : Bool → Fin 5 → Fin 4 → F) (cmd : udp_hand_cmd F) (id k : Fin 5) (l : Fin 4) :
    ((turns [id]).foldl (leaves T) cmd).get k l =
      if k = id ∧ l ≠ 3 then if l = 2 then T false id 2 else 0 else cmd.get k l := by
  simp only [turns, fingerJoints, List.flatMap_cons, List.flatMap_nil, List.append_nil, List.map_cons, List.map_nil,
    List.foldl_cons, List.foldl_nil, leaves]
  by_cases hk : k = id
  · subst hk
    fin_cases l <;> simp [udp_hand_cmd.get_set]
  · simp [udp_hand_cmd.get_set, hk]

theorem turns_cons (id : Fin 5) (ids : List (Fin 5)) : turns (id :: ids) = turns [id] ++ turns ids := by
  simp [turns]

/-- The commands of a half that finds its fingers at rest. -/
theorem turns_get (angles : List (List F)) : ∀ {ids : List (Fin 5)} {old : udp_hand_cmd F}, ids.Nodup →
    (∀ id ∈ ids, ∀ l, old.get id l = 0) → ∀ {n : Nat} {cmd : udp_hand_cmd F},
      (sendsAll (fun _ => entry angles) old (turns ids))[n]? = some cmd → ∀ (k : Fin 5) (l : Fin 4),
        cmd.get k l = if k ∈ ids then (shown angles ids n).get k l else old.get k l := by
  intro ids
  induction ids with
  | nil =>
    intro old _ _ n cmd h
    simp [turns, sendsAll] at h
  | cons id ids ih =>
    intro old hnd hrest n cmd h k l
    obtain ⟨hid, hnd⟩ := List.nodup_cons.mp hnd
    have hlen : (sendsAll (fun _ => entry angles) old (turns [id])).length = 6 := rfl
    rw [turns_cons, sendsAll_append, List.getElem?_append, hlen] at h
    have hidx : ∀ k ∈ ids, (id :: ids).idxOf k = ids.idxOf k + 1 := fun k hk =>
      List.idxOf_cons_ne _ (by rintro rfl; exact hid hk)
    have hl := l.isLt
    have hshown : ∀ (js : List (Fin 5)) (m : Nat), (shown angles js m).get k l =
        if l = 2 then if m < 6 * js.idxOf k + 4 then 0 else entry angles k 2
        else if l ≠ 3 ∧ m = 6 * js.idxOf k + 2 * l.val then entry angles k l else 0 := fun _ _ => rfl
    split at h
    · -- in the first turn: the fingers to come are at rest
      rename_i hn
      rw [turn_sends, List.getElem?_take_of_lt hn] at h
      rw [turn_get _ false (hrest id List.mem_cons_self) h, hshown]
      by_cases hk : k = id
      · subst hk
        have h3 : l = 3 → n ≠ 2 * l.val := by
          rintro rfl
          show n ≠ 6
          omega
        by_cases hl3 : l = 3
        · subst hl3
          rw [if_pos rfl, if_neg (by decide), if_neg (h3 rfl)]
          simp
        · simp [hl3]
      · by_cases hmem : k ∈ ids
        · have hne : n ≠ 6 * (ids.idxOf k + 1) + 2 * l.val := by omega
          have hlt : n < 6 * (ids.idxOf k + 1) + 4 := by omega
          simp [hk, hmem, hidx k hmem, hrest k (List.mem_cons_of_mem _ hmem) l, hne, hlt]
        · simp [hk, hmem]
    · rename_i hn
      have hleft : ∀ k ∈ ids, ∀ l, ((turns [id]).foldl (leaves fun _ => entry angles) old).get k l = 0 := by
        intro k hk l
        have hne : ¬ (k = id ∧ l ≠ 3) := fun e => hid (e.1 ▸ hk)
        rw [turn_leaves, if_neg hne]
        exact hrest k (List.mem_cons_of_mem _ hk) l
      rw [ih hnd hleft h, turn_leaves, hshown, hshown]
      by_cases hmem : k ∈ ids
      · have hshift : n - 6 < 6 * ids.idxOf k + 4 ↔ n < 6 * (ids.idxOf k + 1) + 4 := by omega
        have hround : n - 6 = 6 * ids.idxOf k + 2 * l.val ↔ n = 6 * (ids.idxOf k + 1) + 2 * l.val := by omega
        simp only [hmem, List.mem_cons_of_mem, if_true, hidx k hmem, hshift, hround]
      · by_cases hk : k = id
        · subst hk
          have hlate : ¬ n < 4 := by omega
          have hpast : l ≠ 3 → n ≠ 2 * l.val := by
            intro hl3
            have : l.val ≠ 3 := fun e => hl3 (Fin.ext e)
            omega
          by_cases hl3 : l = 3
          · subst hl3
            simp [hmem, hrest k List.mem_cons_self]
          · simp [hmem, hlate, hl3, hpast hl3]
        · simp [hk, hmem]

theorem turns_length (T : Bool → Fin 5 → Fin 4 → F) (ids : List (Fin 5)) (cmd : udp_hand_cmd F) :
    (sendsAll T cmd (turns ids)).length = 6 * ids.length := by
  induction ids generalizing cmd with
  | nil => rfl
  | cons id ids ih =>
    have hlen : (sendsAll T cmd (turns [id])).length = 6 := rfl
    rw [turns_cons, sendsAll_append, List.length_append, hlen, ih, List.length_cons]
    omega

/-- Half a pass, from the zero command. -/
theorem half_shown (angles : List (List F)) (ids : List (Fin 5)) (hids : ids.Perm (List.finRange 5)) :
    sendsAll (fun _ => entry angles) .zero (turns ids) = (List.range 30).map (shown angles ids) := by
  have hlen : (sendsAll (fun _ => entry angles) .zero (turns ids)).length = 30 := by
    rw [turns_length, hids.length_eq, List.length_finRange]
  refine List.ext_getElem (by rw [hlen, List.length_map, List.length_range]) fun n hn _ => ?_
  rw [List.getElem_map, List.getElem_range]
  apply udp_hand_cmd.ext_get
  intro k l
  rw [turns_get angles (hids.nodup_iff.mpr (List.nodup_finRange 5)) (fun _ _ _ => udp_hand_cmd.get_zero _ _)
    (List.getElem?_eq_getElem hn), if_pos (hids.mem_iff.mpr (List.mem_finRange k))]

/-- A pass returns exactly when both tables have three angles for each finger, and then it
    sends sixty-three commands, those of its tables alone. -/
theorem pass_by_tables (c : FfhCtrl F) (angles1 angles2 : List (List F)) :
    ((∃ r, (pass c angles1 angles2).res = .ok r) ↔ Table3 angles1 ∧ Table3 angles2) ∧
    (Table3 angles1 → Table3 angles2 → (pass c angles1 angles2).out =
      (passCommands angles1 angles2).map (.sendto c.udp_.sockfd_ c.udp_.server_addr)) := by
  have hup : ∀ id : Fin 5, id ∈ ([0, 1, 2, 3, 4] : List (Fin 5)) := by decide
  have hdown : ∀ id : Fin 5, id ∈ ([4, 3, 2, 1, 0] : List (Fin 5)) := by decide
  have hsent : Table3 angles1 → Table3 angles2 → ∃ cmd, pass c angles1 angles2 =
      ⟨(passCommands angles1 angles2).map (.sendto c.udp_.sockfd_ c.udp_.server_addr),
        .ok ({ c with handCmd_ := .zero }, cmd)⟩ := by
    intro h1 h2
    obtain ⟨d, ⟨cmd, rfl⟩, hfirst⟩ := joints_sent ((table3_iff hup).mp h1) { c with handCmd_ := .zero } .zero
    obtain ⟨d, ⟨cmd', rfl⟩, hsecond⟩ := joints_sent ((table3_iff hdown).mp h2) { c with handCmd_ := .zero } .zero
    have hhalf1 := half_shown angles1 [0, 1, 2, 3, 4] (by decide)
    have hhalf2 := half_shown angles2 [4, 3, 2, 1, 0] (by decide)
    unfold turns at hhalf1 hhalf2
    rw [hhalf1] at hfirst
    rw [hhalf2] at hsecond
    have hreset : ∀ b : FfhCtrl F,
        b.reset = ⟨[.sendto b.udp_.sockfd_ b.udp_.server_addr .zero], .ok { b with handCmd_ := .zero }⟩ := fun _ => rfl
    refine ⟨(turns [4, 3, 2, 1, 0]).foldl (leaves fun _ => entry angles2) .zero, ?_⟩
    rw [pass, hreset, bind_of_ok rfl, hfirst, bind_of_ok rfl]
    simp only []
    rw [hreset, bind_of_ok rfl, hsecond, bind_of_ok rfl]
    simp only []
    rw [hreset, bind_of_ok rfl]
    refine Emit.ext ?_ rfl
    simp [passCommands]
  refine ⟨⟨?_, ?_⟩, ?_⟩
  · rintro ⟨r, hr⟩
    obtain ⟨d, -, hr⟩ := bind_res_ok.mp hr
    obtain ⟨s, hs, hr⟩ := bind_res_ok.mp hr
    obtain ⟨d, -, hr⟩ := bind_res_ok.mp hr
    obtain ⟨t, ht, -⟩ := bind_res_ok.mp hr
    exact ⟨(table3_iff hup).mpr (joints_return hs), (table3_iff hdown).mpr (joints_return ht)⟩
  · rintro ⟨h1, h2⟩
    obtain ⟨cmd, h⟩ := hsent h1 h2
    exact ⟨_, by rw [h]⟩
  · intro h1 h2
    obtain ⟨cmd, h⟩ := hsent h1 h2
    rw [h]

end Pass

end TestFfh

end LeapSyncFfh
