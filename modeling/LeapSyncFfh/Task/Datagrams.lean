/-
  LeapSyncFfh.Task.Datagrams — no command goes over a socket that is not open.

  The account is of the system calls made for one hand (`openFds`), as `sockets_owned_iff`
  keeps it for a client alone. There the calls come in any order; the program's order is one
  of those that never use a closed descriptor. A `connect` that fails can leave a controller
  whose `sockfd_` is none of its open descriptors (`refused` overwrites it), but then it is
  called again and nothing is sent before it has succeeded for every valid hand; and what
  `disconnect` has closed is not connected for the destructors.

  `datagrams_open`: in every run, whatever faults it ends with, a datagram is for a hand the
  file marks as valid, goes to the address that `inet_addr` and `htons` make of the ip and the
  port in the file, and over a descriptor that was obtained for this hand and not closed since. `Bound` is the invariant for one
  hand; `Accounts` carries it through the steps that fault.
-/

import LeapSyncFfh.Lib.Accounts
import LeapSyncFfh.Ffh.Sockets
import LeapSyncFfh.Task.LeftOpen
import LeapSyncFfh.Task.ConfigSafety

namespace LeapSyncFfh

open Cells Emit LpV2SyncFFH

variable {F : Type}

namespace Datagrams

/-! ## The account of one hand -/

/-- The file marks hand `h` as valid, with this ip and port. -/
def Addressed (config : Config F) (h : Nat) (ip : String) (port : Int) : Prop :=
  validHand config h = true ∧ ∃ ffhInfo node, config.hand_info = some ffhInfo ∧ ffhInfo (handName h) = some node ∧
    node.ip = some ip ∧ node.port = some port

/-- The descriptors of hand `h` after one more output. -/
def handAccount (h : Nat) (fds : List Int) : Ev F → List Int
  | .udp i e => if i = h then account fds e else fds
  | .leap _ => fds

/-- A datagram for hand `h` goes over one of `fds` to the hand's address. -/
def Delivered (config : Config F) (h : Nat) (fds : List Int) (e : Ev F) : Prop :=
  ∀ fd addr cmd, e = .udp h (.sendto fd addr cmd) →
    fd ∈ fds ∧ ∃ ip port, Addressed config h ip port ∧ addr = some (.make ip port)

theorem fold_onHand (h : Nat) (fds : List Int) (tr : List (Ev F)) :
    tr.foldl (handAccount h) fds = (onHand h tr).foldl account fds := by
  induction tr generalizing fds with
  | nil => rfl
  | cons e tr ih =>
    rw [List.foldl_cons, ih]
    cases e with
    | leap _ => rfl
    | udp i e =>
      by_cases hi : i = h
      · simp [handAccount, onHand, hi]
      · simp [handAccount, onHand, hi]

theorem idle_leap {config : Config F} {h : Nat} {fds : List Int} (e : LeapEv F) :
    handAccount h fds (.leap e) = fds ∧ Delivered config h fds (.leap e) := ⟨rfl, nofun⟩

/-- Outputs of which none is a datagram for the hand. -/
theorem delivered_silent {config : Config F} {h : Nat} {fds : List Int} {tr : List (Ev F)}
    (hs : ∀ fd addr cmd, Ev.udp h (.sendto fd addr cmd) ∉ tr) : Heeds (handAccount h) (Delivered config h) fds tr := by
  induction tr generalizing fds with
  | nil => trivial
  | cons e tr ih =>
    refine ⟨fun fd addr cmd he => ?_, ih fun fd addr cmd hm => hs fd addr cmd (List.mem_cons_of_mem e hm)⟩
    exact absurd (he ▸ List.mem_cons_self) (hs fd addr cmd)

theorem mem_onHand {h : Nat} {tr : List (Ev F)} {e : UdpEv F} (hm : Ev.udp h e ∈ tr) : e ∈ onHand h tr :=
  List.mem_filterMap.mpr ⟨.udp h e, hm, by simp⟩

/-! ## What is sent over a controller's own socket -/

/-- A datagram over the socket of the controller it is for. -/
def OwnSend (task : LpV2SyncFFH F) (e : Ev F) : Prop :=
  ∃ i c cmd, task.ffhs_[i]? = some (some c) ∧ e = .udp i (.sendto c.udp_.sockfd_ c.udp_.server_addr cmd)

theorem OwnSend.steady {task t : LpV2SyncFFH F} (hs : Steady task t) {e : Ev F} (h : OwnSend t e) : OwnSend task e := by
  obtain ⟨i, c, cmd, hc, rfl⟩ := h
  obtain ⟨c', hc', hlink⟩ := ffh_of_links hs.links hc
  have hudp : c'.udp_ = c.udp_ := congrArg Prod.fst hlink
  exact ⟨i, c', cmd, hc', by rw [hudp]⟩

theorem withFfh_own {α : Type} {task : LpV2SyncFFH F} {i : Nat} {op : FfhCtrl F → Emit (UdpEv F) Fault (FfhCtrl F × α)}
    (hop : ∀ c, ∀ e ∈ (op c).out, ∃ cmd, e = .sendto c.udp_.sockfd_ c.udp_.server_addr cmd) :
    ∀ e ∈ (task.withFfh i op).out, OwnSend task e := by
  refine (withFfh_sat (Q := fun _ => True) fun c hc => ⟨fun e he => ?_, fun _ _ => trivial⟩).1
  obtain ⟨cmd, rfl⟩ := hop c e he
  exact ⟨i, c, cmd, hc, rfl⟩

theorem sendTo_own (task : LpV2SyncFFH F) (i : Nat) (cmd : udp_hand_cmd F) :
    ∀ e ∈ (task.sendTo i cmd).out, OwnSend task e := by
  unfold sendTo
  rw [bind_pure_out]
  exact withFfh_own fun c e he => ⟨cmd, List.mem_singleton.mp he⟩

theorem resetFfh_own [Zero F] (task : LpV2SyncFFH F) (i : Nat) : ∀ e ∈ (task.resetFfh i).out, OwnSend task e := by
  unfold resetFfh
  rw [bind_pure_out]
  exact withFfh_own fun c e he => ⟨.zero, List.mem_singleton.mp he⟩

theorem testFlow_own (task : LpV2SyncFFH F) : ∀ e ∈ (task.testFlow).out, OwnSend task e :=
  withFfh_own fun c e he => by cases he

theorem readFlow_own [DivisionRing F] (task : LpV2SyncFFH F) (t : FfhCtrl.Flow) (word : Option String) :
    ∀ e ∈ (task.readFlow t word).out, OwnSend task e := by
  refine withFfh_own fun c e he => ?_
  rw [bind_pure_out] at he
  have ho := c.flowStep_outcome t word
  generalize c.flowStep t word = x at ho he
  cases ho with
  | quit _ => cases he
  | next _ _ => cases he
  | fault _ _ _ _ => cases he
  | reset _ _ => exact ⟨.zero, List.mem_singleton.mp he⟩
  | entered _ i j a _ _ _ => exact ⟨c.handCmd_.set i j a, List.mem_singleton.mp he⟩

theorem checkStep_own [Zero F] (task : LpV2SyncFFH F) (tmp_cmd : udp_hand_cmd F) (s : CheckStep) :
    ∀ e ∈ (task.checkStep tmp_cmd s).out, OwnSend task e := by
  cases s with
  | reset =>
    rw [checkStep, bind_pure_out]
    exact resetFfh_own task left_hand
  | clear => nofun
  | joint second id j =>
    have hsat : Sat (OwnSend task) (fun _ => True) (task.checkStep tmp_cmd (.joint second id j)) := by
      refine sat_bind (sat_lift fun _ _ => trivial) fun angle _ => ?_
      refine sat_bind (Q := Steady task) ⟨sendTo_own task left_hand _, fun t ht => sendTo_steady ht⟩ fun t hs => ?_
      exact sat_bind (Q := fun _ => True) ⟨fun e he => (sendTo_own t left_hand _ e he).steady hs, fun _ _ => trivial⟩
        fun _ _ => sat_pure trivial
    exact hsat.1

theorem publish_own [Ring F] [LinearOrder F] (task : LpV2SyncFFH F) (i : Nat) (pre : udp_hand_cmd F) :
    ∀ e ∈ ((task.setHandCmd pre).publishFfhCmd i).out, OwnSend task e := by
  have ho := publish_outcome task i pre
  generalize (task.setHandCmd pre).publishFfhCmd i = x at ho
  cases ho with
  | off _ => nofun
  | fault _ _ => nofun
  | sent c cmd _ hc _ => exact fun e he => ⟨i, c, cmd, hc, List.mem_singleton.mp he⟩

theorem iterateHands_own [Field F] [LinearOrder F] [Libm F] (task : LpV2SyncFFH F) (hands : List (LEAP_HAND F)) :
    ∀ e ∈ (task.iterateHands hands).out, OwnSend task e := by
  by_cases hl : hands = [] ∨ ∃ hand ∈ hands, hand.type = .eLeapHandType_Left
  · rw [(iterateHands_eq task hands).1 hl, bind_pure_out]
    exact publish_own task left_hand _
  · rw [(iterateHands_eq task hands).2 hl]
    nofun

/-! ## Connecting -/

/-- A controller of hand `h` is configured for it: a valid hand, at its own address. -/
def Configured (config : Config F) (h : Nat) (task : LpV2SyncFFH F) : Prop :=
  ∀ c, task.ffhs_[h]? = some (some c) → h ∈ handIds ∧ task.isOn h = true ∧ Addressed config h c.udp_.ip_ c.udp_.port_

/-- The controller's socket is one of `fds`, and set up for its address. -/
def Linked (h : Nat) (fds : List Int) (task : LpV2SyncFFH F) : Prop :=
  ∀ c, task.ffhs_[h]? = some (some c) →
    c.udp_.sockfd_ ∈ fds ∧ c.udp_.server_addr = some (.make c.udp_.ip_ c.udp_.port_)

theorem configured_setFfh {config : Config F} {h i : Nat} {task : LpV2SyncFFH F} {c c' : FfhCtrl F}
    (hconf : Configured config h task) (hc : task.ffhs_[i]? = some (some c)) (hip : c'.udp_.ip_ = c.udp_.ip_)
    (hport : c'.udp_.port_ = c.udp_.port_) : Configured config h (task.setFfh i c') := by
  intro d hd
  rcases ffhs_setFfh hd with ⟨rfl, rfl⟩ | ⟨-, hd⟩
  · rw [hip, hport]
    exact hconf c hc
  · exact hconf d hd

/-- The `_connect` of hand `i`: its datagram goes over the socket just obtained. -/
theorem connectHand_accounts [Ring F] {config : Config F} {h i : Nat} {fds : List Int} {task : LpV2SyncFFH F}
    (hconf : Configured config h task) (sock : Int) :
    Accounts (handAccount h) (Delivered config h) fds
      (fun fds' r => Configured config h r.1 ∧ (r.2 = .SUCCESS → h = i ∨ Linked h fds task → Linked h fds' r.1))
      (task.withFfh i fun c => c._connect sock) := by
  by_cases hn : ∃ c, task.ffhs_[i]? = some (some c)
  · obtain ⟨c, hc⟩ := hn
    rw [withFfh_of hc]
    by_cases hs : sock < 0
    · rw [FfhCtrl.connect_refused c hs]
      refine ⟨delivered_silent fun fd addr cmd hm => ?_, fun r hr => ?_⟩
      · have hm' : Ev.udp h (.sendto fd addr cmd) ∈ [Ev.udp i (.socket sock), .udp i (.close sock)] := hm
        simp at hm'
      · cases hr
        exact ⟨configured_setFfh hconf hc rfl rfl, (fun e => by cases e)⟩
    · have hpos : 0 ≤ sock := Int.not_lt.mp hs
      rw [FfhCtrl.connect_connected c hpos]
      by_cases hi : i = h
      · subst hi
        have hgot : handAccount i fds (.udp i (.socket sock) : Ev F) = sock :: fds := by
          simp [handAccount, account, hpos]
        refine ⟨⟨(fun _ _ _ e => by cases e), ?_, trivial⟩, fun r hr => ?_⟩
        · rintro fd addr cmd ⟨⟩
          rw [hgot]
          exact ⟨List.mem_cons_self, _, _, (hconf c hc).2.2, rfl⟩
        · cases hr
          refine ⟨configured_setFfh hconf hc rfl rfl, fun _ _ d hd => ?_⟩
          obtain rfl := ffh_eq (setFfh_same hc) hd
          have hend : ([.udp i (.socket sock), .udp i (.sendto sock (some (.make c.udp_.ip_ c.udp_.port_)) .zero)] :
              List (Ev F)).foldl (handAccount i) fds = sock :: fds := by
            simp [handAccount, account, hpos]
          refine ⟨?_, rfl⟩
          show sock ∈ _
          exact hend ▸ List.mem_cons_self
      · have hidle : ∀ e ∈ ([.udp i (.socket sock), .udp i (.sendto sock (some (.make c.udp_.ip_ c.udp_.port_)) .zero)] :
            List (Ev F)), handAccount h fds e = fds ∧ Delivered config h fds e := by
          intro e he
          rcases List.mem_cons.mp he with rfl | he
          · exact ⟨if_neg hi, (fun _ _ _ e => by cases e)⟩
          · rw [List.mem_singleton.mp he]
            exact ⟨if_neg hi, fun _ _ _ e => by cases e; exact absurd rfl hi⟩
        obtain ⟨hheeds, hfold⟩ := heeds_idle _ _ hidle
        refine ⟨hheeds, fun r hr => ?_⟩
        cases hr
        refine ⟨configured_setFfh hconf hc rfl rfl, fun _ hl d hd => ?_⟩
        rw [setFfh_other (Ne.symm hi)] at hd
        rcases hl with hl | hl
        · exact absurd hl.symm hi
        · have hold := hl d hd
          rw [← hfold] at hold
          exact hold
  · obtain ⟨e, he⟩ := withFfh_none (fun c hc => hn ⟨c, hc⟩) fun c : FfhCtrl F => c._connect sock
    rw [he]
    exact accounts_fail e

/-- `connectFFH` for the hands `is`: where it succeeds, hand `h` is linked if it is one of
    them, or was before. -/
theorem connectHands_accounts [Ring F] {config : Config F} {h : Nat} (socks : Nat → Int) :
    ∀ {is : List Nat} {fds : List Int} {task : LpV2SyncFFH F}, Configured config h task →
      Accounts (handAccount h) (Delivered config h) fds
        (fun fds' r => Configured config h r.1 ∧ (r.2 = .SUCCESS → h ∈ is ∨ Linked h fds task → Linked h fds' r.1))
        (overHands (fun i c => c._connect (socks i)) is task) := by
  intro is
  induction is with
  | nil =>
    intro fds task hconf
    refine accounts_pure ⟨hconf, fun _ hl => ?_⟩
    rcases hl with hl | hl
    · cases hl
    · exact hl
  | cons i is ih =>
    intro fds task hconf
    unfold overHands
    refine accounts_bind (accounts_idle (sat_lift fun b hb => hb)) fun fds' on hon => ?_
    obtain ⟨rfl, hon⟩ := hon
    cases on with
    | false =>
      refine accounts_mono (ih hconf) fun fds'' r hr => ⟨hr.1, fun hret hl => hr.2 hret ?_⟩
      rcases hl with hl | hl
      · rcases List.mem_cons.mp hl with rfl | hl
        · -- a hand that is off has no controller
          refine Or.inr fun c hc => ?_
          have hoff : false = true := (isOn_of hon).symm.trans (hconf c hc).2.1
          cases hoff
        · exact Or.inl hl
      · exact Or.inr hl
    | true =>
      refine accounts_bind (connectHand_accounts hconf (socks i)) fun fds'' r hr => ?_
      obtain ⟨hconf', hlink⟩ := hr
      split
      · exact accounts_pure ⟨hconf', (fun e => by cases e)⟩
      · rename_i hret
        refine accounts_mono (ih hconf') fun fds3 r' hr' => ⟨hr'.1, fun hret' hl => hr'.2 hret' ?_⟩
        have hsucc : r.2 = .SUCCESS := not_not.mp hret
        rcases hl with hl | hl
        · rcases List.mem_cons.mp hl with hl | hl
          · exact Or.inr (hlink hsucc (Or.inl hl))
          · exact Or.inl hl
        · exact Or.inr (hlink hsucc (Or.inr hl))

theorem connect_accounts [Ring F] {config : Config F} {h : Nat} {fds : List Int} {task : LpV2SyncFFH F}
    (hconf : Configured config h task) (r : ConnectAnswers) :
    Accounts (handAccount h) (Delivered config h) fds
      (fun fds' a => Configured config h a.1 ∧ (a.2 = .SUCCESS → a.1.inConnection_ = true ∧ Linked h fds' a.1))
      (task.connect r) := by
  have hleap : Sat (fun e => handAccount h fds e = fds ∧ Delivered config h fds e) (fun a => Configured config h a.1)
      (task.connectLeap r) := by
    unfold connectLeap
    split
    · exact sat_bind (Q := fun _ => True) (sat_mapOut ⟨fun e _ => idle_leap e, fun _ _ => trivial⟩) fun w _ =>
        sat_pure hconf
    · exact sat_pure hconf
  unfold connect
  refine accounts_bind (accounts_idle hleap) fun fds' leap hl => ?_
  obtain ⟨rfl, hconf'⟩ := hl
  split
  · exact accounts_pure ⟨hconf', nofun⟩
  · refine accounts_bind (connectHands_accounts r.socks hconf') fun fds'' ffh hf => ?_
    obtain ⟨hconf'', hlink⟩ := hf
    split
    · rename_i hret
      exact accounts_pure ⟨hconf'', fun hs => absurd hs hret⟩
    · rename_i hret
      refine accounts_pure ⟨hconf'', fun _ => ⟨rfl, fun c hc => ?_⟩⟩
      have hc' : ffh.1.ffhs_[h]? = some (some c) := hc
      exact hlink (not_not.mp hret) (Or.inl (hconf'' c hc').1) c hc'

/-! ## Going away -/

/-- Nothing is done for a hand without a controller. -/
theorem overHands_absent {h : Nat} {op : Nat → FfhCtrl F → Emit (UdpEv F) Fault (FfhCtrl F × AR_RETURN_VALUE)} :
    ∀ {is : List Nat} {task : LpV2SyncFFH F}, (∀ c, task.ffhs_[h]? ≠ some (some c)) →
      Sat (fun e => ∀ u, e ≠ .udp h u) (fun r => ∀ c, r.1.ffhs_[h]? ≠ some (some c)) (overHands op is task) := by
  intro is
  induction is with
  | nil => exact fun hn => sat_pure hn
  | cons i is ih =>
    intro task hn
    unfold overHands
    refine sat_bind (Q := fun _ => True) (sat_lift fun _ _ => trivial) fun on _ => ?_
    split
    · exact ih hn
    · refine sat_bind (Q := fun r => ∀ c, r.1.ffhs_[h]? ≠ some (some c)) (withFfh_sat fun c hc => ?_) fun r hr => ?_
      · have hne : h ≠ i := by
          rintro rfl
          exact hn c hc
        refine ⟨fun u _ v e => ?_, fun r _ d hd => ?_⟩
        · cases e
          exact hne rfl
        · exact hn d (setFfh_other hne ▸ hd)
      · split
        · exact sat_pure hr
        · exact ih hr

theorem onHand_nil {h : Nat} {tr : List (Ev F)} : onHand h tr = [] ↔ ∀ e ∈ tr, ∀ u, e ≠ .udp h u := by
  unfold onHand
  rw [List.filterMap_eq_nil_iff]
  refine forall₂_congr fun e _ => ?_
  cases e with
  | leap _ => simp
  | udp i u => simp [eq_comm]

/-- The destructors send a configured hand nothing: `disconnect` comes first. -/
theorem destroy_silent [Zero F] {config : Config F} {h : Nat} {task : LpV2SyncFFH F} (hw : Wired task)
    (hconf : Configured config h task) (hin : task.inConnection_ = true) (fd : Int) (addr : Option sockaddr_in)
    (cmd : udp_hand_cmd F) : Ev.udp h (.sendto fd addr cmd) ∉ task.destroy.out := by
  intro hm
  by_cases hc : ∃ c, task.ffhs_[h]? = some (some c)
  · obtain ⟨c, hc⟩ := hc
    obtain ⟨hh, hon, -⟩ := hconf c hc
    obtain ⟨⟨⟩, hd, -⟩ := ends_total (destroy_ends hw)
    obtain ⟨fd', hclose⟩ := Program.destroy_onHand hh hon hin hd
    have hm' := mem_onHand hm
    rw [hclose] at hm'
    cases List.mem_singleton.mp hm'
  · have hn : ∀ c, task.ffhs_[h]? ≠ some (some c) := fun c h => hc ⟨c, h⟩
    have hloose : Loose fun t : LpV2SyncFFH F => ∀ c, t.ffhs_[h]? ≠ some (some c) := ⟨fun _ _ h => h, fun _ _ h => h⟩
    have hdisc := (disconnect_within (p := fun e => ∀ u, e ≠ Ev.udp h u) (P := fun _ => True) hloose hn
      (Sat.within ⟨fun _ _ => nofun, fun _ _ => trivial⟩) fun u hu => (overHands_absent hu).within).sat
    have hall : Sat (fun e => ∀ u, e ≠ Ev.udp h u) (fun _ => True) task.destroy := by
      unfold destroy
      simp only [hin, if_true]
      refine sat_bind hdisc fun a ha => ?_
      have hffhs : Sat (fun e => ∀ u, e ≠ Ev.udp h u) (fun _ => True) (destroyFfhs 0 a.1.ffhs_) :=
        ⟨onHand_nil.mp (Program.destroyFfhs_onHand a.1.ffhs_ 0 fun k d hk hd => by
          obtain rfl : k = h := by omega
          exact (ha d hd).elim), fun _ _ => trivial⟩
      refine sat_bind hffhs fun _ _ => ?_
      exact sat_bind (Q := fun _ => True) (sat_mapOut ⟨fun _ _ => nofun, fun _ _ => trivial⟩) fun _ _ =>
        sat_pure trivial
    exact hall.1 _ hm _ rfl

/-! ## A step -/

/-- Hand `h` between two steps: once the program is connected, its socket is open. -/
structure Bound (config : Config F) (h : Nat) (fds : List Int) (s : Program.Prog F) : Prop where
  wired : Wired s.task
  configured : Configured config h s.task
  linked : s.phase ≠ .connecting → s.phase ≠ .destroyed → s.task.inConnection_ = true ∧ Linked h fds s.task

section Steps

variable {config : Config F} {h : Nat} {fds : List Int} {s t : Program.Prog F}

theorem own_idle {task : LpV2SyncFFH F} (hconf : Configured config h task) (hlink : Linked h fds task) {e : Ev F}
    (he : OwnSend task e) : handAccount h fds e = fds ∧ Delivered config h fds e := by
  obtain ⟨i, c, cmd, hc, rfl⟩ := he
  constructor
  · exact ite_self fds
  · rintro fd addr cmd' ⟨⟩
    obtain ⟨hmem, haddr⟩ := hlink c hc
    exact ⟨hmem, _, _, (hconf c hc).2.2, haddr⟩

/-- After an operation that only sends. -/
theorem Bound.send (hb : Bound config h fds s) (h1 : s.phase ≠ .connecting) (h2 : s.phase ≠ .destroyed)
    (hs : Steady s.task t.task) : Bound config h fds t := by
  obtain ⟨hin, hlink⟩ := hb.linked h1 h2
  have back : ∀ c, t.task.ffhs_[h]? = some (some c) → ∃ c', s.task.ffhs_[h]? = some (some c') ∧ c'.udp_ = c.udp_ := by
    intro c hc
    obtain ⟨c', hc', hl⟩ := ffh_of_links hs.links hc
    exact ⟨c', hc', congrArg Prod.fst hl⟩
  refine ⟨hb.wired.alike hs.alike, fun c hc => ?_, fun _ _ => ⟨hs.inConnection_.trans hin, fun c hc => ?_⟩⟩
  · obtain ⟨c', hc', hudp⟩ := back c hc
    have hconf := hb.configured c' hc'
    rw [hudp] at hconf
    refine ⟨hconf.1, ?_, hconf.2.2⟩
    have hon := hconf.2.1
    unfold LpV2SyncFFH.isOn at hon ⊢
    rwa [hs.ffhValid]
  · obtain ⟨c', hc', hudp⟩ := back c hc
    exact hudp ▸ hlink c' hc'

theorem Bound.quiet (hb : Bound config h fds s) (hk : Program.Kept s.task t.task) (hn : Program.Next s.phase t.phase) :
    Bound config h fds t := by
  have hon : t.task.isOn = s.task.isOn := by
    unfold LpV2SyncFFH.isOn
    rw [hk.ffhValid]
  refine ⟨⟨by rw [hk.ffhValid]; exact hb.wired.hands, fun i hi ho => ?_⟩, fun c hc => ?_, fun h1 h2 => ?_⟩
  · obtain ⟨c, hc⟩ := hb.wired.ffhs i hi (hon ▸ ho)
    exact ⟨c, by rw [hk.ffhs_]; exact hc⟩
  · rw [hon]
    exact hb.configured c (hk.ffhs_ ▸ hc)
  · have hs : s.phase ≠ .connecting ∧ s.phase ≠ .destroyed := by
      generalize s.phase = p at hn
      generalize t.phase = q at hn h1 h2
      cases hn with
      | stay p => exact ⟨h1, h2⟩
      | _ => exact ⟨nofun, nofun⟩
    obtain ⟨hin, hlink⟩ := hb.linked hs.1 hs.2
    exact ⟨hk.inConnection_.trans hin, fun c hc => hlink c (hk.ffhs_ ▸ hc)⟩

variable [Field F] [LinearOrder F] [Libm F]

omit [Field F] [LinearOrder F] [Libm F] in
/-- A step that only sends, over the controllers' own sockets. -/
theorem send_accounts {α : Type} {x : Emit (Ev F) Fault α} {f : α → LpV2SyncFFH F} {g : α → Program.Prog F}
    (hb : Bound config h fds s) (h1 : s.phase ≠ .connecting) (h2 : s.phase ≠ .destroyed)
    (hown : ∀ e ∈ x.out, OwnSend s.task e) (hs : ∀ a, x.res = .ok a → Steady s.task (f a)) (hg : ∀ a, (g a).task = f a) :
    Accounts (handAccount h) (Delivered config h) fds (fun fds' t => Bound config h fds' t) (x >>= fun a => pure (g a)) := by
  have hsat : Sat (fun e => handAccount h fds e = fds ∧ Delivered config h fds e) (fun a => Steady s.task (f a)) x :=
    ⟨fun e he => own_idle hb.configured (hb.linked h1 h2).2 (hown e he), hs⟩
  refine accounts_bind (accounts_idle hsat) fun fds' a ha => ?_
  obtain ⟨rfl, ha⟩ := ha
  rw [← hg] at ha
  exact accounts_pure (hb.send h1 h2 ha)

theorem step_accounts (hb : Bound config h fds s) (a : Program.Act F) :
    Accounts (handAccount h) (Delivered config h) fds (fun fds' t => Bound config h fds' t) (Program.step s a) := by
  have hdoes := Program.step_does s a
  generalize Program.step s a = x at hdoes ⊢
  cases hdoes with
  | quiet _ _ _ hq hn =>
    have hsat : Sat (fun e => handAccount h fds e = fds ∧ Delivered config h fds e) (Bound config h fds) x := by
      refine ⟨fun e he => ?_, fun t ht => hb.quiet (hq.kept t ht) (hn t ht)⟩
      obtain ⟨es, hes⟩ := hq.leap
      rw [hes] at he
      obtain ⟨e', -, rfl⟩ := List.mem_map.mp he
      exact idle_leap e'
    refine accounts_mono (accounts_idle hsat) fun fds' t ht => ?_
    obtain ⟨rfl, ht⟩ := ht
    exact ht
  | attempt r hp =>
    refine accounts_bind (Q := fun fds' a => Wired a.1 ∧ Configured config h a.1 ∧
      (a.2 = .SUCCESS → a.1.inConnection_ = true ∧ Linked h fds' a.1)) ?_ fun fds' a ha => ?_
    · have hconn : Accounts (handAccount h) (Delivered config h) fds _ (s.task.connect r) := connect_accounts hb.configured r
      obtain ⟨hheeds, hret⟩ := hconn
      exact ⟨hheeds, fun a ha => ⟨hb.wired.alike ((connect_ends hb.wired r).2 a ha), hret a ha⟩⟩
    · obtain ⟨hw, hconf, hlink⟩ := ha
      refine accounts_pure ⟨hw, hconf, fun h1 _ => hlink ?_⟩
      by_contra hne
      exact h1 (if_neg hne)
  | test word operCmd hp =>
    exact send_accounts (f := Prod.fst) hb (by rw [hp]; nofun) (by rw [hp]; nofun) (testFlow_own s.task)
      (fun a ha => testFlow_steady ha) fun _ => rfl
  | quit word operCmd hp =>
    exact send_accounts (f := id) hb (by rw [hp]; nofun) (by rw [hp]; nofun) (resetFfh_own s.task left_hand)
      (fun a ha => resetFfh_steady ha) fun _ => rfl
  | flow word operCmd f hp =>
    exact send_accounts (f := Prod.fst) hb (by rw [hp]; nofun) (by rw [hp]; nofun) (readFlow_own s.task f word)
      (fun a ha => readFlow_steady ha) fun _ => rfl
  | check str c todo tmp_cmd hp =>
    exact send_accounts (f := Prod.fst) hb (by rw [hp]; nofun) (by rw [hp]; nofun) (checkStep_own s.task tmp_cmd c)
      (fun a ha => checkStep_steady ha) fun _ => rfl
  | iterate d hands hp hit =>
    exact send_accounts (f := Prod.fst) hb (by rw [hp]; nofun) (by rw [hp]; nofun) (iterateHands_own s.task hands)
      (fun a ha => (iterateHands_steady ha).1) fun _ => rfl
  | destroy hp =>
    obtain ⟨hin, -⟩ := hb.linked (by rw [hp]; nofun) (by rw [hp]; nofun)
    have hsilent := destroy_silent hb.wired hb.configured hin
    refine accounts_bind (Q := fun _ _ => True) ⟨delivered_silent hsilent, fun _ _ => trivial⟩ fun fds' _ _ => ?_
    exact accounts_pure ⟨hb.wired, hb.configured, fun _ h2 => absurd rfl h2⟩

end Steps

/-! ## A run -/

/-- The constructor makes no calls: the pointers it overwrites were null. -/
theorem make_silent [Zero F] (addr : Nat) (raw : Raw F) (config : Config F) : (make addr raw config).out = [] := by
  have parse : ∀ (info : String → Option (HandNode F)) {task : LpV2SyncFFH F} {i : Nat}, task.ffhs_[i]? = some none →
      Sat (fun _ => False) (fun t => ∀ j, j ≠ i → t.ffhs_[j]? = task.ffhs_[j]?) (parseHand raw info task i) := by
    intro info task i hnone
    have hnull : Sat (fun _ => False) (fun old => old = none)
        (lift (subscript (.outOfBounds .ffhs) task.ffhs_ i) : Emit (Ev F) Fault _) :=
      sat_lift fun old hold => Option.some.inj ((subscript_ok.mp hold).symm.trans hnone)
    unfold parseHand
    refine sat_bind (Q := fun _ => True) (sat_lift fun _ _ => trivial) fun b _ => ?_
    split
    · exact sat_pure fun _ _ => rfl
    · refine sat_bind (Q := fun _ => True) (sat_lift fun _ _ => trivial) fun node _ => ?_
      refine sat_bind (Q := fun _ => True) (sat_lift fun _ _ => trivial) fun ip _ => ?_
      refine sat_bind (Q := fun _ => True) (sat_lift fun _ _ => trivial) fun port _ => ?_
      refine sat_bind hnull fun old hold => ?_
      subst hold
      refine sat_bind (Q := fun _ => True) (sat_pure trivial) fun _ _ => ?_
      refine sat_bind (Q := fun _ => True) (sat_lift fun _ _ => trivial) fun lo _ => ?_
      refine sat_bind (Q := fun _ => True) (sat_lift fun _ _ => trivial) fun up _ => ?_
      exact sat_pure fun j hj => setFfh_other hj
  have hsat : Sat (fun _ => False) (fun _ => True) (make addr raw config) := by
    unfold make parseConfig
    refine sat_bind (Q := fun _ => True) (sat_lift fun _ _ => trivial) fun valid _ => ?_
    refine sat_bind (Q := fun _ => True) (sat_lift fun _ _ => trivial) fun info _ => ?_
    refine sat_bind (Q := fun _ => True) (sat_lift fun _ _ => trivial) fun name _ => ?_
    refine sat_bind (Q := fun _ => True) (sat_lift fun _ _ => trivial) fun data1 _ => ?_
    refine sat_bind (Q := fun _ => True) (sat_lift fun _ _ => trivial) fun data2 _ => ?_
    refine sat_bind (parse info rfl) fun t ht => ?_
    refine sat_bind (sat_mono (parse info ((ht 1 (by decide)).trans rfl)) (fun _ h => h) fun _ _ => trivial) fun u _ => ?_
    exact sat_pure trivial
  exact List.eq_nil_iff_forall_not_mem.mpr hsat.1

theorem configured_address {raw : Raw F} {config : Config F} {ffhInfo : String → Option (HandNode F)} {i : Nat}
    {c : FfhCtrl F} (hon : validHand config i = true) (hinfo : config.hand_info = some ffhInfo)
    (h : configuredFfh raw ffhInfo i = some c) :
    Addressed config i c.udp_.ip_ c.udp_.port_ := by
  unfold configuredFfh at h
  obtain ⟨node, hnode, h⟩ := Option.bind_eq_some_iff.mp h
  obtain ⟨ip, hip, h⟩ := Option.bind_eq_some_iff.mp h
  obtain ⟨port, hport, h⟩ := Option.bind_eq_some_iff.mp h
  obtain ⟨lo, -, h⟩ := Option.bind_eq_some_iff.mp h
  obtain ⟨up, -, h⟩ := Option.bind_eq_some_iff.mp h
  cases h
  exact ⟨hon, ffhInfo, node, hinfo, hnode, hip, hport⟩

theorem launch_bound [Zero F] {addr : Nat} {raw : Raw F} {config : Config F} {task : LpV2SyncFFH F}
    (hmake : (make addr raw config).res = .ok task) (h : Nat) : Bound config h [] (Program.launch task) := by
  obtain ⟨hp, -⟩ := make_spec hmake
  refine ⟨⟨(make_ends addr raw config).2 task hmake, fun i hi hon => (made_has hp hi).mpr (hp.validHand i ▸ hon)⟩,
    fun c hc => ?_, fun hne => absurd rfl hne⟩
  have hi := hp.ffhs h
  split at hi
  · rename_i hon
    obtain ⟨d, hd, he⟩ := hi
    obtain rfl := ffh_eq hc he
    obtain ⟨info, hinfo, hd⟩ := Option.bind_eq_some_iff.mp hd
    exact ⟨hon.1, hon.2, configured_address ((hp.validHand h).trans hon.2) hinfo hd⟩
  · have hnew : (members addr raw).ffhs_[h]? = some (some c) := hi.symm.trans hc
    rw [show (members addr raw).ffhs_ = List.replicate handTotalNum none from rfl, List.getElem?_replicate] at hnew
    split at hnew <;> cases hnew

theorem program_accounts [Field F] [LinearOrder F] [Libm F] (addr : Nat) (raw : Raw F) (config : Config F)
    (acts : List (Program.Act F)) (h : Nat) :
    Accounts (handAccount h) (Delivered config h) [] (fun fds t => Bound config h fds t)
      (Program.program addr raw config acts) := by
  have hsilent := make_silent addr raw config
  unfold Program.program
  refine accounts_bind (Q := fun fds task => Bound config h fds (Program.launch task)) ?_ fun fds task hb =>
    accounts_runs (fun fds s a hs => step_accounts hs a) acts hb
  refine ⟨by rw [hsilent]; trivial, fun task hmake => ?_⟩
  rw [hsilent]
  exact launch_bound hmake h

/-- In every run, also one that ends in a fault, a datagram is for a valid hand: it goes to
    the address made of the ip and the port that the file gives for it, over a descriptor that
    was obtained for this hand and has not been closed. -/
theorem datagrams_open [Field F] [LinearOrder F] [Libm F] {addr : Nat} {raw : Raw F} {config : Config F}
    {acts : List (Program.Act F)} {pre post : List (Ev F)} {h : Nat} {fd : Int} {server_addr : Option sockaddr_in}
    {cmd : udp_hand_cmd F}
    (hout : (Program.program addr raw config acts).out = pre ++ .udp h (.sendto fd server_addr cmd) :: post) :
    fd ∈ openFds (onHand h pre) ∧ ∃ ip port, Addressed config h ip port ∧ server_addr = some (.make ip port) := by
  have hheeds := (program_accounts addr raw config acts h).heeds
  rw [hout] at hheeds
  have hat := heeds_at hheeds fd server_addr cmd rfl
  rw [fold_onHand] at hat
  exact hat

/-- The opening reset of a connection, where the left hand's socket is the first call. -/
theorem datagrams_open_reset : ∃ (pre post : List (Ev ℝ)) (fd : Int) (server_addr : Option sockaddr_in)
    (cmd : udp_hand_cmd ℝ),
    (Program.program 0 blank (shipped "test_by_hand") [.attempt (answering 0 0)]).out =
      pre ++ .udp left_hand (.sendto fd server_addr cmd) :: post ∧
    fd ∈ openFds (onHand left_hand pre) ∧
    ∃ ip port, Addressed (shipped (F := ℝ) "test_by_hand") left_hand ip port ∧ server_addr = some (.make ip port) := by
  have hout : (Program.program 0 blank (shipped "test_by_hand") [.attempt (answering 0 0)]).out =
      [.udp left_hand (.socket 3)] ++ .udp left_hand (.sendto 3 (some (.make "127.0.0.1" 10086)) (.zero : udp_hand_cmd ℝ)) :: [] :=
    rfl
  exact ⟨_, _, _, _, _, hout, datagrams_open hout⟩

end Datagrams

end LeapSyncFfh
