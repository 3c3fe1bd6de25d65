/-
  LeapSyncFfh.Task.Connecting — what a `connect()` acquires and what a failed one leaves.

  `connect` opens the Leap connection (in leap_motion_demo mode), then a socket for each
  valid hand in turn, and returns at the first that fails without closing what it has
  opened. `Clean` says of the answers that nothing had been opened: in the demo only when
  nothing fails, else when the first valid hand's socket fails or none does.
  `connect_atomic_iff`: a call that fails leaves the resources as they were exactly when
  it is clean, and `tryConnect` ends with one of each exactly when every failed attempt
  was.
-/

import LeapSyncFfh.Task.Configuration

namespace LeapSyncFfh

open Cells Emit LeapMotionV2WrapperImpl

namespace LpV2SyncFFH

variable {F : Type}

/-! ## The resources -/

def live (pc : SvcPc) : Bool := pc ≠ .ended

/-- Leap connections created and not destroyed. -/
def leapConnections (task : LpV2SyncFFH F) : Nat := task.lmWrap.connections.length

/-- Polling threads that have not ended. -/
def pollingThreads (task : LpV2SyncFFH F) : Nat := task.lmWrap.pollingThread_.countP live

/-- Sockets of hand `i` that are open. -/
def sockets (task : LpV2SyncFFH F) (i : Nat) : Nat :=
  match task.ffhs_[i]? with
  | some (some c) => c.udp_.fds.length
  | _ => 0

/-- The same connections, the same live threads, the same sockets of each hand. -/
structure SameResources (task t : LpV2SyncFFH F) : Prop where
  connections : t.lmWrap.connections = task.lmWrap.connections
  threads : t.lmWrap.pollingThread_.filter live = task.lmWrap.pollingThread_.filter live
  sockets : t.ffhs_.map (Option.map (·.udp_.fds)) = task.ffhs_.map (Option.map (·.udp_.fds))

/-! ## The answers -/

/-- Some try finds a device, or the last leaves a count. -/
def DeviceSeen (r : LeapAnswers) : Prop :=
  (∃ k < 7, (r.tries k).notConnected = false ∧ 0 < (r.tries k).size) ∨ 0 < (r.tries 6).size

/-- Every valid hand gets its socket. -/
def SocketsOpen (task : LpV2SyncFFH F) (socks : Nat → Int) : Prop := ∀ i ∈ handIds, task.isOn i → 0 ≤ socks i

/-- The first valid hand gets none. -/
def FirstRefused (task : LpV2SyncFFH F) (socks : Nat → Int) : Prop :=
  ∃ i ∈ handIds, task.isOn i ∧ socks i < 0 ∧ ∀ j < i, ¬ task.isOn j

/-- Nothing is opened before something fails. -/
def Clean (task : LpV2SyncFFH F) (r : ConnectAnswers) : Prop :=
  if task.taskName_ = "leap_motion_demo" then DeviceSeen r.leap ∧ task.SocketsOpen r.socks
  else task.SocketsOpen r.socks ∨ task.FirstRefused r.socks

/-! ## The Leap connection -/

/-- The poll loop with `k` tries left. -/
theorem pollDevices_pos (tries : Nat → DeviceList) : ∀ k size, k ≤ 7 →
    (0 < pollDevices tries k size ↔ (∃ j, 7 - k ≤ j ∧ j < 7 ∧ (tries j).notConnected = false ∧ 0 < (tries j).size) ∨
      if k = 0 then 0 < size else 0 < (tries 6).size) := by
  intro k
  induction k with
  | zero =>
    intro size _
    have hno : ¬ ∃ j, 7 - 0 ≤ j ∧ j < 7 ∧ (tries j).notConnected = false ∧ 0 < (tries j).size :=
      fun ⟨j, h1, h2, _⟩ => by omega
    simp only [pollDevices, if_true, hno, false_or]
  | succ k ih =>
    intro size hk
    have hrest := ih (tries (7 - (k + 1))).size (by omega)
    have hlast : (if k = 0 then 0 < (tries (7 - (k + 1))).size else 0 < (tries 6).size) ↔ 0 < (tries 6).size := by
      by_cases h0 : k = 0
      · subst h0; rfl
      · rw [if_neg h0]
    rw [hlast] at hrest
    by_cases hf : (tries (7 - (k + 1))).notConnected = false ∧ 0 < (tries (7 - (k + 1))).size
    · simp only [pollDevices, hf.1, hf.2, Bool.false_eq_true, if_false, if_true, true_iff]
      exact Or.inl ⟨_, Nat.le_refl _, by omega, hf⟩
    · have hstep : pollDevices tries (k + 1) size = pollDevices tries k (tries (7 - (k + 1))).size := by
        simp only [pollDevices]
        split
        · rfl
        · rename_i hn
          rw [if_neg fun hp => hf ⟨by simpa using hn, hp⟩]
      rw [hstep, hrest, if_neg (Nat.succ_ne_zero k)]
      refine or_congr_left ⟨fun ⟨j, h1, h2, h3⟩ => ⟨j, by omega, h2, h3⟩, fun ⟨j, h1, h2, h3⟩ => ⟨j, ?_, h2, h3⟩⟩
      by_contra hlt
      have hj : j = 7 - (k + 1) := by omega
      exact hf (hj ▸ h3)

theorem deviceSeen_iff (r : LeapAnswers) : 0 < pollDevices r.tries 7 0 ↔ DeviceSeen r := by
  rw [pollDevices_pos r.tries 7 0 (Nat.le_refl _), if_neg (by decide)]
  unfold DeviceSeen
  refine or_congr_left ⟨fun ⟨j, _, h2, h3⟩ => ⟨j, h2, h3⟩, fun ⟨j, h2, h3⟩ => ⟨j, Nat.zero_le _, h2, h3⟩⟩

/-- The wrapper's `connect`: the connection stays open either way, and with a device seen
    one more thread polls. -/
theorem leap_connect {w w' : LeapMotionV2WrapperImpl F} {r : LeapAnswers} {ret : AR_RETURN_VALUE}
    (h : (w.connect r).res = .ok (w', ret)) :
    w'.connections = r.handle :: w.connections ∧
      ((DeviceSeen r ∧ ret = .SUCCESS ∧ w'.pollingThread_ = w.pollingThread_ ++ [.check]) ∨
        (¬ DeviceSeen r ∧ ret = .ACTION_FAIL ∧ w'.pollingThread_ = w.pollingThread_)) := by
  unfold LeapMotionV2WrapperImpl.connect at h
  split at h
  · cases h
  obtain ⟨-, -, h⟩ := bind_res_ok.mp h
  split at h
  · cases h
  split at h
  · rename_i hd
    split at h
    · cases h
    · cases h; exact ⟨rfl, Or.inl ⟨(deviceSeen_iff r).mp hd, rfl, rfl⟩⟩
  · rename_i hd
    cases h; exact ⟨rfl, Or.inr ⟨fun hs => hd ((deviceSeen_iff r).mpr hs), rfl, rfl⟩⟩

/-! ## The hands -/

/-- The valid hands of `is` whose socket is opened: those before the first refusal. -/
def opened (on : Nat → Bool) (socks : Nat → Int) : List Nat → List Nat
  | [] => []
  | i :: is => if on i then if socks i < 0 then [] else i :: opened on socks is else opened on socks is

theorem opened_subset (on : Nat → Bool) (socks : Nat → Int) {is : List Nat} {i : Nat} (h : i ∈ opened on socks is) :
    i ∈ is := by
  induction is with
  | nil => exact h
  | cons k is ih =>
    unfold opened at h
    split at h
    · split at h
      · cases h
      · rcases List.mem_cons.mp h with rfl | h
        · exact List.mem_cons_self
        · exact List.mem_cons_of_mem _ (ih h)
    · exact List.mem_cons_of_mem _ (ih h)

/-- When no socket is refused, the valid hands are all opened. -/
theorem opened_all {on : Nat → Bool} {socks : Nat → Int} {is : List Nat} (h : ∀ i ∈ is, on i → 0 ≤ socks i) {i : Nat}
    (hi : i ∈ is) (hon : on i) : i ∈ opened on socks is := by
  induction is with
  | nil => exact hi
  | cons k is ih =>
    unfold opened
    rcases List.mem_cons.mp hi with rfl | hi
    · rw [if_pos hon, if_neg (not_lt.mpr (h i List.mem_cons_self hon))]
      exact List.mem_cons_self
    · have hk := ih (fun j hj => h j (List.mem_cons_of_mem _ hj)) hi
      split
      · rename_i hon'
        rw [if_neg (not_lt.mpr (h k List.mem_cons_self hon'))]
        exact List.mem_cons_of_mem _ hk
      · exact hk

theorem sockets_setFfh {task : LpV2SyncFFH F} {i : Nat} {c : FfhCtrl F} (hc : task.ffhs_[i]? = some (some c))
    (c' : FfhCtrl F) (j : Nat) :
    (task.setFfh i c').sockets j = if j = i then c'.udp_.fds.length else task.sockets j := by
  unfold sockets
  by_cases e : j = i
  · subst e
    rw [if_pos rfl, setFfh_same hc]
  · rw [if_neg e, setFfh_other e]

/-- The loop of `connectFFH`: it succeeds exactly when no valid hand's socket is refused,
    and opens one more socket for each hand before the first refusal. -/
theorem connectHands_spec [Ring F] (socks : Nat → Int) : ∀ {is : List Nat} {task t : LpV2SyncFFH F} {ret : AR_RETURN_VALUE},
    is.Nodup → (overHands (fun i c => c._connect (socks i)) is task).res = .ok (t, ret) →
    (∃ ffhs, t = { task with ffhs_ := ffhs }) ∧ (ret = .SUCCESS ↔ ∀ i ∈ is, task.isOn i → 0 ≤ socks i) ∧
      (∀ i, t.sockets i = task.sockets i + if i ∈ opened task.isOn socks is then 1 else 0) ∧
      (opened task.isOn socks is = [] →
        t.ffhs_.map (Option.map (·.udp_.fds)) = task.ffhs_.map (Option.map (·.udp_.fds))) := by
  intro is
  induction is with
  | nil => intro task t ret _ h; cases h; exact ⟨⟨_, rfl⟩, by simp, by simp [opened], fun _ => rfl⟩
  | cons k is ih =>
    intro task t ret hnd h
    obtain ⟨hk, hnd⟩ := List.nodup_cons.mp hnd
    rcases overHands_cons h with ⟨hoff, h, -⟩ | ⟨c, c', r, hon, hc, hop, hr⟩
    · obtain ⟨hframe, hret, hsock, hsame⟩ := ih hnd h
      have hopen : opened task.isOn socks (k :: is) = opened task.isOn socks is := by
        rw [opened, if_neg (by simp [hoff])]
      refine ⟨hframe, ?_, ?_, ?_⟩
      · rw [hret, List.forall_mem_cons]; simp [hoff]
      · rw [hopen]; exact hsock
      · rw [hopen]; exact hsame
    by_cases hneg : socks k < 0
    · -- refused: the loop ends here
      rw [FfhCtrl.connect_refused c hneg] at hop
      cases hop
      have hopen : opened task.isOn socks (k :: is) = [] := by rw [opened, if_pos hon, if_pos hneg]
      rcases hr with ⟨-, rfl, rfl, -⟩ | ⟨hs, -⟩
      · refine ⟨⟨_, rfl⟩, ?_, fun i => ?_, fun _ => map_setFfh (·.udp_.fds) hc rfl⟩
        · apply iff_of_false (fun h => by cases h)
          intro hall
          have := hall k List.mem_cons_self hon
          omega
        · rw [hopen, sockets_setFfh hc]
          split
          · rename_i e; subst e; simp [sockets, hc, FfhCtrl.refused]
          · simp
      · cases hs
    · -- opened: the rest of the loop runs on the new controller
      have hpos : 0 ≤ socks k := by omega
      rw [FfhCtrl.connect_connected c hpos] at hop
      cases hop
      have hopen : opened task.isOn socks (k :: is) = k :: opened task.isOn socks is := by
        rw [opened, if_pos hon, if_neg hneg]
      rcases hr with ⟨hn, -⟩ | ⟨-, h, -⟩
      · exact absurd rfl hn
      · obtain ⟨⟨ffhs, hframe⟩, hret, hsock, -⟩ := ih hnd h
        refine ⟨⟨ffhs, hframe⟩, ?_, fun i => ?_, fun hnil => ?_⟩
        · rw [hret, List.forall_mem_cons]
          exact ⟨fun h => ⟨fun _ => hpos, h⟩, fun h => h.2⟩
        · have hmem : i ∈ opened (task.setFfh k (c.connected (socks k))).isOn socks is → i ∈ is := opened_subset _ _
          rw [hsock i, hopen, sockets_setFfh hc]
          show _ + (if i ∈ opened task.isOn socks is then 1 else 0) = _
          by_cases e : i = k
          · subst e
            have hno : i ∉ opened task.isOn socks is := fun hm => hk (hmem hm)
            simp [sockets, hc, FfhCtrl.connected, hno]
          · simp [e, List.mem_cons]
        · rw [hopen] at hnil; cases hnil

/-- What the loop over the hands did, with the Leap part done. -/
structure HandsOpened (task : LpV2SyncFFH F) (socks : Nat → Int) (t : LpV2SyncFFH F) (ret : AR_RETURN_VALUE) : Prop where
  taskName_ : t.taskName_ = task.taskName_
  ffhValid : t.ffhValid = task.ffhValid
  returned : ret = .SUCCESS ↔ task.SocketsOpen socks
  sockets : ∀ i, t.sockets i = task.sockets i + if i ∈ opened task.isOn socks handIds then 1 else 0
  same : opened task.isOn socks handIds = [] →
    t.ffhs_.map (Option.map (·.udp_.fds)) = task.ffhs_.map (Option.map (·.udp_.fds))

/-- A `connect` that returned: in the demo it opened the Leap connection, and stopped there
    without a device; then it went over the hands. -/
theorem connect_cases [Ring F] {task t : LpV2SyncFFH F} {r : ConnectAnswers} {ret : AR_RETURN_VALUE}
    (h : (task.connect r).res = .ok (t, ret)) :
    (task.taskName_ = "leap_motion_demo" ∧ t.lmWrap.connections = r.leap.handle :: task.lmWrap.connections ∧
      ((¬ DeviceSeen r.leap ∧ ret ≠ .SUCCESS ∧ t.taskName_ = task.taskName_ ∧ t.ffhValid = task.ffhValid ∧
          t.ffhs_ = task.ffhs_ ∧ t.lmWrap.pollingThread_ = task.lmWrap.pollingThread_) ∨
        (DeviceSeen r.leap ∧ t.lmWrap.pollingThread_ = task.lmWrap.pollingThread_ ++ [.check] ∧
          HandsOpened task r.socks t ret))) ∨
    (task.taskName_ ≠ "leap_motion_demo" ∧ t.lmWrap = task.lmWrap ∧ HandsOpened task r.socks t ret) := by
  obtain ⟨⟨u, lret⟩, hu, h⟩ := bind_res_ok.mp h
  -- what follows the Leap part, whatever that did to the wrapper
  have rest : ∀ w, u = { task with lmWrap := w } → lret = .SUCCESS →
      t.lmWrap = w ∧ HandsOpened task r.socks t ret := by
    rintro w rfl rfl
    rw [if_neg (by simp)] at h
    obtain ⟨⟨v, fret⟩, hv, h⟩ := bind_res_ok.mp h
    obtain ⟨⟨ffhs, rfl⟩, hret, hsock, hsame⟩ := connectHands_spec r.socks (by decide) hv
    by_cases hs : fret = .SUCCESS
    · subst hs
      rw [if_neg (by simp)] at h
      cases h
      exact ⟨rfl, rfl, rfl, hret, hsock, hsame⟩
    · rw [if_pos hs] at h
      cases h
      exact ⟨rfl, rfl, rfl, hret, hsock, hsame⟩
  unfold connectLeap at hu
  split at hu
  · rename_i hdemo
    obtain ⟨⟨w, wret⟩, hw, hu⟩ := bind_res_ok.mp hu
    cases hu
    obtain ⟨hconn, ⟨hd, rfl, hthr⟩ | ⟨hd, rfl, hthr⟩⟩ := leap_connect hw
    · obtain ⟨hlm, hands⟩ := rest w rfl rfl
      exact Or.inl ⟨hdemo, by rw [hlm]; exact hconn, Or.inr ⟨hd, by rw [hlm]; exact hthr, hands⟩⟩
    · rw [if_pos (by simp)] at h
      cases h
      exact Or.inl ⟨hdemo, hconn, Or.inl ⟨hd, by simp, rfl, rfl, rfl, hthr⟩⟩
  · rename_i hdemo
    cases hu
    obtain ⟨hlm, hands⟩ := rest task.lmWrap rfl rfl
    exact Or.inr ⟨hdemo, hlm, hands⟩

/-! ## One call -/

/-- Nothing is opened exactly when the first valid hand is refused, or none is valid. -/
theorem opened_nil_iff (task : LpV2SyncFFH F) (socks : Nat → Int) :
    opened task.isOn socks handIds = [] ↔ task.FirstRefused socks ∨ ∀ i ∈ handIds, task.isOn i = false := by
  have hids : handIds = [0, 1] := rfl
  have hfirst : task.FirstRefused socks ↔
      (task.isOn 0 = true ∧ socks 0 < 0) ∨ (task.isOn 1 = true ∧ socks 1 < 0 ∧ task.isOn 0 = false) := by
    unfold FirstRefused
    rw [hids]
    constructor
    · rintro ⟨i, hi, hon, hneg, hbefore⟩
      rcases List.mem_cons.mp hi with rfl | hi
      · exact Or.inl ⟨hon, hneg⟩
      · obtain rfl := List.mem_singleton.mp hi
        exact Or.inr ⟨hon, hneg, by simpa using hbefore 0 (by decide)⟩
    · rintro (⟨hon, hneg⟩ | ⟨hon, hneg, h0⟩)
      · exact ⟨0, by decide, hon, hneg, fun j hj => absurd hj (Nat.not_lt_zero j)⟩
      · exact ⟨1, by decide, hon, hneg, fun j hj => by
        obtain rfl : j = 0 := by omega
        simp [h0]⟩
  rw [hfirst, hids]
  simp only [opened, List.forall_mem_cons, List.not_mem_nil, false_implies, implies_true, and_true]
  by_cases h0 : task.isOn 0 = true <;> by_cases h1 : task.isOn 1 = true <;>
    by_cases s0 : socks 0 < 0 <;> by_cases s1 : socks 1 < 0 <;> simp [h0, h1, s0, s1]

theorem sockets_of_same {task t : LpV2SyncFFH F}
    (h : t.ffhs_.map (Option.map (·.udp_.fds)) = task.ffhs_.map (Option.map (·.udp_.fds))) (i : Nat) :
    t.sockets i = task.sockets i := by
  have count : ∀ u : LpV2SyncFFH F, u.sockets i =
      (((u.ffhs_.map (Option.map (·.udp_.fds)))[i]?.join).map List.length).getD 0 := by
    intro u
    unfold sockets
    rw [List.getElem?_map]
    cases u.ffhs_[i]? with
    | none => rfl
    | some o => cases o <;> rfl
  rw [count, count, h]

theorem not_same_of_connection {task t : LpV2SyncFFH F} {handle : Nat}
    (h : t.lmWrap.connections = handle :: task.lmWrap.connections) : ¬ SameResources task t := by
  intro hs
  have := congrArg List.length (h.symm.trans hs.connections)
  simp at this

/-- A call that does not succeed keeps the resources exactly when it is clean. -/
theorem connect_keeps_iff [Ring F] {task t : LpV2SyncFFH F} {r : ConnectAnswers} {ret : AR_RETURN_VALUE}
    (h : (task.connect r).res = .ok (t, ret)) :
    (ret ≠ .SUCCESS → SameResources task t) ↔ task.Clean r := by
  rcases connect_cases h with ⟨hdemo, hconn, ⟨hd, hret, -⟩ | ⟨hd, -, hands⟩⟩ | ⟨hdemo, hlm, hands⟩
  · exact iff_of_false (fun hk => not_same_of_connection hconn (hk hret)) fun hc => by
      rw [Clean, if_pos hdemo] at hc
      exact hd hc.1
  · rw [Clean, if_pos hdemo, ← hands.returned]
    constructor
    · intro hk
      refine ⟨hd, ?_⟩
      by_contra hret
      exact not_same_of_connection hconn (hk hret)
    · intro hc hn
      exact absurd hc.2 hn
  · rw [Clean, if_neg hdemo]
    by_cases hret : ret = .SUCCESS
    · exact iff_of_true (fun hn => absurd hret hn) (Or.inl (hands.returned.mp hret))
    have hopen : ¬ task.SocketsOpen r.socks := fun ho => hret (hands.returned.mpr ho)
    have hsome : ¬ ∀ i ∈ handIds, task.isOn i = false := fun hoff =>
      hopen fun i hi hon => by rw [hoff i hi] at hon; cases hon
    simp only [ne_eq, hret, not_false_eq_true, true_implies, hopen, false_or]
    rw [show task.FirstRefused r.socks ↔ opened task.isOn r.socks handIds = [] by
      rw [opened_nil_iff]; simp only [hsome, or_false]]
    constructor
    · intro hs
      by_contra hne
      obtain ⟨i, hi⟩ := List.exists_mem_of_ne_nil _ hne
      have := hands.sockets i
      rw [sockets_of_same hs.sockets, if_pos hi] at this
      omega
    · intro hnil
      exact ⟨by rw [hlm], by rw [hlm], hands.same hnil⟩

/-! ## Attempts until one succeeds -/

/-- One Leap connection and one polling thread in the demo, one socket per valid hand. -/
def OneOfEach (t : LpV2SyncFFH F) : Prop :=
  (t.taskName_ = "leap_motion_demo" → t.leapConnections = 1 ∧ t.pollingThreads = 1) ∧
    ∀ i ∈ handIds, t.isOn i → t.sockets i = 1

/-- What every attempt keeps: the task and its hands, and what it has acquired. -/
structure Grown (task t : LpV2SyncFFH F) : Prop where
  taskName_ : t.taskName_ = task.taskName_
  ffhValid : t.ffhValid = task.ffhValid
  connections : task.leapConnections ≤ t.leapConnections
  sockets : ∀ i, task.sockets i ≤ t.sockets i

theorem connect_grown [Ring F] {task t : LpV2SyncFFH F} {r : ConnectAnswers} {ret : AR_RETURN_VALUE}
    (h : (task.connect r).res = .ok (t, ret)) : Grown task t := by
  rcases connect_cases h with ⟨-, hconn, ⟨-, -, hname, hvalid, hffhs, -⟩ | ⟨-, -, hands⟩⟩ | ⟨-, hlm, hands⟩
  · refine ⟨hname, hvalid, ?_, fun i => ?_⟩
    · unfold leapConnections; rw [hconn]; simp
    · unfold sockets; rw [hffhs]
  · refine ⟨hands.taskName_, hands.ffhValid, ?_, fun i => ?_⟩
    · unfold leapConnections; rw [hconn]; simp
    · rw [hands.sockets]; exact Nat.le_add_right _ _
  · refine ⟨hands.taskName_, hands.ffhValid, ?_, fun i => ?_⟩
    · unfold leapConnections; rw [hlm]
    · rw [hands.sockets]; exact Nat.le_add_right _ _

/-- `Clean` reads the task's name and its valid hands only. -/
theorem clean_congr {task t : LpV2SyncFFH F} (hn : t.taskName_ = task.taskName_) (hv : t.ffhValid = task.ffhValid)
    (r : ConnectAnswers) : t.Clean r ↔ task.Clean r := by
  have hon : t.isOn = task.isOn := by funext i; unfold isOn; rw [hv]
  unfold Clean SocketsOpen FirstRefused
  rw [hn, hon]

theorem opened_on {on : Nat → Bool} {socks : Nat → Int} {is : List Nat} {i : Nat} (h : i ∈ opened on socks is) :
    on i = true := by
  induction is with
  | nil => cases h
  | cons k is ih =>
    unfold opened at h
    split at h
    · rename_i hon
      split at h
      · cases h
      · rcases List.mem_cons.mp h with rfl | h
        · exact hon
        · exact ih h
    · exact ih h

/-- More is open: in the demo a connection, else a socket of a hand that is on. -/
def Leaked (task t : LpV2SyncFFH F) : Prop :=
  if task.taskName_ = "leap_motion_demo" then task.leapConnections < t.leapConnections
  else ∃ i ∈ handIds, task.isOn i = true ∧ task.sockets i < t.sockets i

/-- A failed attempt that is not clean leaves a connection, or a hand's socket. -/
theorem connect_leaks [Ring F] {task t : LpV2SyncFFH F} {r : ConnectAnswers} {ret : AR_RETURN_VALUE}
    (h : (task.connect r).res = .ok (t, ret)) (hc : ¬ task.Clean r) : Leaked task t := by
  rcases connect_cases h with ⟨hdemo, hconn, -⟩ | ⟨hdemo, -, hands⟩
  · rw [Leaked, if_pos hdemo]
    unfold leapConnections
    rw [hconn]
    simp
  · rw [Leaked, if_neg hdemo]
    rw [Clean, if_neg hdemo, not_or] at hc
    have hne : opened task.isOn r.socks handIds ≠ [] := by
      rw [ne_eq, opened_nil_iff, not_or]
      exact ⟨hc.2, fun hoff => hc.1 fun i hi hon => by rw [hoff i hi] at hon; cases hon⟩
    obtain ⟨i, hi⟩ := List.exists_mem_of_ne_nil _ hne
    refine ⟨i, opened_subset _ _ hi, opened_on hi, ?_⟩
    rw [hands.sockets, if_pos hi]
    exact Nat.lt_succ_self _

/-- The attempt that succeeds acquires one of each. -/
theorem connect_acquires [Ring F] {task t : LpV2SyncFFH F} {r : ConnectAnswers}
    (h : (task.connect r).res = .ok (t, .SUCCESS)) :
    (task.taskName_ = "leap_motion_demo" →
        t.leapConnections = task.leapConnections + 1 ∧ t.pollingThreads = task.pollingThreads + 1) ∧
      ∀ i ∈ handIds, task.isOn i → t.sockets i = task.sockets i + 1 := by
  rcases connect_cases h with ⟨hdemo, hconn, ⟨-, hret, -⟩ | ⟨-, hthr, hands⟩⟩ | ⟨hdemo, -, hands⟩
  · exact absurd rfl hret
  · refine ⟨fun _ => ⟨?_, ?_⟩, fun i hi hon => ?_⟩
    · unfold leapConnections; rw [hconn]; rfl
    · unfold pollingThreads; rw [hthr, List.countP_append]; rfl
    · rw [hands.sockets, if_pos (opened_all (hands.returned.mp rfl) hi hon)]
  · refine ⟨fun hd => absurd hd hdemo, fun i hi hon => ?_⟩
    rw [hands.sockets, if_pos (opened_all (hands.returned.mp rfl) hi hon)]

theorem Grown.trans {a b c : LpV2SyncFFH F} (h : Grown a b) (k : Grown b c) : Grown a c :=
  ⟨k.taskName_.trans h.taskName_, k.ffhValid.trans h.ffhValid, h.connections.trans k.connections,
    fun i => (h.sockets i).trans (k.sockets i)⟩

/-- Nothing gives back what was left open. -/
theorem Leaked.grown {a b c : LpV2SyncFFH F} (h : Leaked a b) (k : Grown b c) : Leaked a c := by
  by_cases hdemo : a.taskName_ = "leap_motion_demo"
  · simp only [Leaked, if_pos hdemo] at h ⊢
    exact lt_of_lt_of_le h k.connections
  · simp only [Leaked, if_neg hdemo] at h ⊢
    obtain ⟨i, hi, hon, hlt⟩ := h
    exact ⟨i, hi, hon, lt_of_lt_of_le hlt (k.sockets i)⟩

theorem Grown.leaked {a b c : LpV2SyncFFH F} (h : Grown a b) (k : Leaked b c) : Leaked a c := by
  have hon : b.isOn = a.isOn := by funext i; unfold isOn; rw [h.ffhValid]
  by_cases hdemo : a.taskName_ = "leap_motion_demo"
  · simp only [Leaked, h.taskName_, if_pos hdemo] at k ⊢
    exact lt_of_le_of_lt h.connections k
  · simp only [Leaked, h.taskName_, hon, if_neg hdemo] at k ⊢
    obtain ⟨i, hi, hi', hlt⟩ := k
    exact ⟨i, hi, hi', lt_of_le_of_lt (h.sockets i) hlt⟩

/-- Failed attempts: they keep the resources if all were clean, and one that was not has
    left something. -/
theorem tried_spec [Ring F] : ∀ {failed : List ConnectAnswers} {task u : LpV2SyncFFH F},
    (tryConnect failed task).res = .ok (u, false) →
    Grown task u ∧ ((∀ r ∈ failed, task.Clean r) → SameResources task u) ∧
      ((∃ r ∈ failed, ¬ task.Clean r) → Leaked task u) := by
  intro failed
  induction failed with
  | nil =>
    intro task u h
    cases h
    exact ⟨⟨rfl, rfl, Nat.le_refl _, fun _ => Nat.le_refl _⟩, fun _ => ⟨rfl, rfl, rfl⟩, fun ⟨r, hr, _⟩ => by cases hr⟩
  | cons r rs ih =>
    intro task u h
    obtain ⟨⟨v, ret⟩, hv, h⟩ := bind_res_ok.mp h
    have hret : ret ≠ .SUCCESS := by
      rintro rfl
      rw [if_pos rfl] at h
      cases h
    rw [if_neg hret] at h
    obtain ⟨hgrown, hkeep, hleak⟩ := ih h
    have hfirst := connect_grown hv
    have hcong := clean_congr hfirst.taskName_ hfirst.ffhValid
    refine ⟨hfirst.trans hgrown, fun hall => ?_, fun ⟨r', hr', hbad⟩ => ?_⟩
    · have h1 := (connect_keeps_iff hv).mpr (hall r List.mem_cons_self) hret
      have h2 := hkeep fun r' hr' => (hcong r').mpr (hall r' (List.mem_cons_of_mem _ hr'))
      exact ⟨h2.connections.trans h1.connections, h2.threads.trans h1.threads, h2.sockets.trans h1.sockets⟩
    · rcases List.mem_cons.mp hr' with rfl | hr'
      · exact (connect_leaks hv hbad).grown hgrown
      · exact hfirst.leaked (hleak ⟨r', hr', fun hc => hbad ((hcong r').mp hc)⟩)

/-- A new task holds nothing. -/
theorem make_holds_nothing [Zero F] {addr : Nat} {raw : Raw F} {config : Config F} {task : LpV2SyncFFH F}
    (h : (make addr raw config).res = .ok task) :
    task.leapConnections = 0 ∧ task.pollingThreads = 0 ∧ ∀ i, task.sockets i = 0 := by
  obtain ⟨hp, -⟩ := make_spec h
  refine ⟨by unfold leapConnections; rw [hp.lmWrap]; rfl, by unfold pollingThreads; rw [hp.lmWrap]; rfl, fun i => ?_⟩
  have hi := hp.ffhs i
  unfold sockets
  split at hi
  · obtain ⟨c, hc, he⟩ := hi
    obtain ⟨info, -, hc'⟩ := Option.bind_eq_some_iff.mp hc
    obtain ⟨ip, port, lo, up, rfl⟩ := configuredFfh_new hc'
    rw [he]
    rfl
  · rw [hi, show (members addr raw).ffhs_ = List.replicate handTotalNum none from rfl, List.getElem?_replicate]
    by_cases h2 : i < handTotalNum
    · rw [if_pos h2]
    · rw [if_neg h2]

/-- `connect` is atomic exactly on clean answers: a call that fails keeps what was open
    exactly when they are clean, and after any number of failed attempts of a new task the
    first success leaves one of each exactly when all of theirs were. -/
theorem connect_atomic_iff [Ring F] :
    (∀ (task t : LpV2SyncFFH F) (r : ConnectAnswers) (ret : AR_RETURN_VALUE), (task.connect r).res = .ok (t, ret) →
      ((ret ≠ .SUCCESS → SameResources task t) ↔ task.Clean r)) ∧
    ∀ (addr : Nat) (raw : Raw F) (config : Config F) (task u t : LpV2SyncFFH F) (failed : List ConnectAnswers)
      (last : ConnectAnswers), (make addr raw config).res = .ok task → (tryConnect failed task).res = .ok (u, false) →
      (u.connect last).res = .ok (t, .SUCCESS) → (OneOfEach t ↔ ∀ r ∈ failed, task.Clean r) := by
  refine ⟨fun task t r ret h => connect_keeps_iff h, ?_⟩
  intro addr raw config task u t failed last hmake hfail hlast
  obtain ⟨hconn, hthr, hsock⟩ := make_holds_nothing hmake
  obtain ⟨hgrown, hkeep, hleak⟩ := tried_spec hfail
  obtain ⟨hdemo, hhands⟩ := connect_acquires hlast
  have hname : t.taskName_ = u.taskName_ := (connect_grown hlast).taskName_
  have hon : ∀ {i}, t.isOn i = task.isOn i := by
    intro i
    unfold isOn
    rw [(connect_grown hlast).ffhValid, hgrown.ffhValid]
  have hon' : ∀ {i}, u.isOn i = task.isOn i := by intro i; unfold isOn; rw [hgrown.ffhValid]
  constructor
  · intro hone
    by_contra hn
    push Not at hn
    have hl := hleak hn
    rw [Leaked] at hl
    split at hl
    · rename_i hd
      have h1 := (hdemo (hgrown.taskName_.trans hd)).1
      have h2 := (hone.1 (hname.trans (hgrown.taskName_.trans hd))).1
      omega
    · obtain ⟨i, hi, hi', hlt⟩ := hl
      have h1 := hhands i hi (hon'.trans hi')
      have h2 := hone.2 i hi (hon.trans hi')
      omega
  · intro hall
    have hs := hkeep hall
    refine ⟨fun hd => ?_, fun i hi hi' => ?_⟩
    · obtain ⟨h1, h2⟩ := hdemo (hname.symm.trans hd)
      have hc : u.leapConnections = task.leapConnections := by unfold leapConnections; rw [hs.connections]
      have ht : u.pollingThreads = task.pollingThreads := by
        unfold pollingThreads; rw [List.countP_eq_length_filter, List.countP_eq_length_filter, hs.threads]
      rw [h1, h2, hc, ht, hconn, hthr]
      exact ⟨rfl, rfl⟩
    · rw [hhands i hi (hon'.trans (hon.symm.trans hi')), sockets_of_same hs.sockets, hsock]

/-- LeapC answers every try with `devices` devices, and each hand gets socket 3. -/
def answering (handle devices : Nat) : ConnectAnswers :=
  ⟨⟨handle, true, true, fun _ => ⟨false, devices⟩, true⟩, fun _ => 3⟩

theorem connect_atomic_demo :
    ∃ task u t : LpV2SyncFFH ℚ, (make 0 blank (shipped "leap_motion_demo")).res = .ok task ∧
      (tryConnect [answering 1 0] task).res = .ok (u, false) ∧ (u.connect (answering 2 1)).res = .ok (t, .SUCCESS) ∧
      ((AR_RETURN_VALUE.SUCCESS ≠ .SUCCESS → SameResources u t) ↔ u.Clean (answering 2 1)) ∧
      (OneOfEach t ↔ ∀ r ∈ [answering 1 0], task.Clean r) := by
  have hm : ∃ task : LpV2SyncFFH ℚ, (make 0 blank (shipped "leap_motion_demo")).res = .ok task := ⟨_, rfl⟩
  obtain ⟨task, hmake⟩ := hm
  have hf : ∃ u, (tryConnect [answering 1 0] task).res = .ok (u, false) := by cases hmake; exact ⟨_, rfl⟩
  obtain ⟨u, hfail⟩ := hf
  have hl : ∃ t, (u.connect (answering 2 1)).res = .ok (t, .SUCCESS) := by cases hmake; cases hfail; exact ⟨_, rfl⟩
  obtain ⟨t, hlast⟩ := hl
  exact ⟨task, u, t, hmake, hfail, hlast, connect_atomic_iff.1 u t _ _ hlast,
    connect_atomic_iff.2 0 blank _ task u t _ _ hmake hfail hlast⟩

/-- No device answers the first attempt: its connection stays open, and the first success
    has two. -/
theorem a_retry_leaks_a_connection :
    ∃ task u t : LpV2SyncFFH ℚ, (make 0 blank (shipped "leap_motion_demo")).res = .ok task ∧
      (task.connect (answering 1 0)).res = .ok (u, .ACTION_FAIL) ∧ ¬ SameResources task u ∧
      (u.connect (answering 2 1)).res = .ok (t, .SUCCESS) ∧ t.leapConnections = 2 := by
  refine ⟨_, _, _, rfl, rfl, fun h => ?_, rfl, rfl⟩
  have := congrArg List.length h.connections
  cases this

end LpV2SyncFFH

end LeapSyncFfh
