/-
  LeapSyncFfh.Ffh.FfhCtrl — `ffhCtrl.cpp`: one hand, its command and its socket.

  `testFlow` reads tokens in a loop that need not end, so it is a machine that takes one
  step for each `std::cin >> str` (`FlowStep`): it stays at the next read or returns.
-/

import LeapSyncFfh.Ffh.UdpClient
import LeapSyncFfh.Common.Strto

namespace LeapSyncFfh

open Cells Emit

variable {F : Type}

structure FfhCtrl (F : Type) where
  udp_ : UdpClient
  handCmd_ : udp_hand_cmd F
  index_ : Nat
  inConnection_ : Bool := false
  lowerLimits_ : List (List F) := []
  upperLimits_ : List (List F) := []

namespace FfhCtrl

/-- The constructor; `handCmd_` and the socket number are left as they were. -/
def make (index : Nat) (ip : String) (port : Int) (sockfd : Int) (handCmd : udp_hand_cmd F) : FfhCtrl F :=
  { udp_ := .make ip port sockfd, handCmd_ := handCmd, index_ := index }

def setCmdLimit (c : FfhCtrl F) (lowerLimit upperLimit : List (List F)) : FfhCtrl F :=
  { c with lowerLimits_ := lowerLimit, upperLimits_ := upperLimit }

def defaultLower [Ring F] : List (List F) := List.replicate 5 [0, 0, -10]

def defaultUpper [Ring F] : List (List F) := List.replicate 5 [90, 90, 10]

def setDefaultCmdLimit [Ring F] (c : FfhCtrl F) : FfhCtrl F :=
  { c with lowerLimits_ := defaultLower, upperLimits_ := defaultUpper }

def _disconnect (c : FfhCtrl F) : Emit (UdpEv F) Fault (FfhCtrl F × AR_RETURN_VALUE) := do
  let (udp, r) ← c.udp_._disconnect
  if r < 0 then pure ({ c with udp_ := udp }, .ACTION_FAIL)
  else pure ({ c with udp_ := udp, inConnection_ := false }, .SUCCESS)

def send_hand_cmd (c : FfhCtrl F) : Emit (UdpEv F) Fault Unit := c.udp_.sendCmd c.handCmd_

def set_hand_cmd (c : FfhCtrl F) (cmd : udp_hand_cmd F) : FfhCtrl F := { c with handCmd_ := cmd }

/-- The overload `send_hand_cmd(cmd)`. -/
def send_hand_cmd_of (c : FfhCtrl F) (cmd : udp_hand_cmd F) : Emit (UdpEv F) Fault (FfhCtrl F) := do
  let c := c.set_hand_cmd cmd
  c.send_hand_cmd
  pure c

def reset [Zero F] (c : FfhCtrl F) : Emit (UdpEv F) Fault (FfhCtrl F) := do
  let c := { c with handCmd_ := .zero }
  c.send_hand_cmd
  pure c

def _connect [Ring F] (c : FfhCtrl F) (sock : Int) : Emit (UdpEv F) Fault (FfhCtrl F × AR_RETURN_VALUE) := do
  let (udp, r) ← c.udp_._connect sock
  if r < 0 then pure ({ c with udp_ := udp }, .ACTION_FAIL)
  else do
    let c := { c with udp_ := udp, inConnection_ := true }.setDefaultCmdLimit
    let c ← c.reset
    pure (c, .SUCCESS)

/-- `~FfhCtrl`, then `~UdpClient`. -/
def destroy [Zero F] (c : FfhCtrl F) : Emit (UdpEv F) Fault Unit :=
  if c.inConnection_ then do
    let c ← c.reset
    let (c, _) ← c._disconnect
    c.udp_.destroy
  else c.udp_.destroy

/-! ## What connecting and disconnecting do -/

/-- The controller after a `_connect` whose `socket()` failed. -/
def refused (c : FfhCtrl F) (sock : Int) : FfhCtrl F := { c with udp_ := { c.udp_ with sockfd_ := sock } }

/-- The controller after a `_connect` that got the socket `sock`. -/
def connected [Ring F] (c : FfhCtrl F) (sock : Int) : FfhCtrl F :=
  { c with
    udp_ := { c.udp_ with
      sockfd_ := sock, fds := sock :: c.udp_.fds, server_addr := some (.make c.udp_.ip_ c.udp_.port_), inConnection_ := true }
    inConnection_ := true, lowerLimits_ := defaultLower, upperLimits_ := defaultUpper, handCmd_ := .zero }

theorem connect_refused [Ring F] (c : FfhCtrl F) {sock : Int} (h : sock < 0) :
    c._connect sock = ⟨[.socket sock, .close sock], .ok (c.refused sock, .ACTION_FAIL)⟩ := by
  simp only [_connect, UdpClient._connect, h, if_true]
  rfl

theorem connect_connected [Ring F] (c : FfhCtrl F) {sock : Int} (h : 0 ≤ sock) :
    c._connect sock =
      ⟨[.socket sock, .sendto sock (some (.make c.udp_.ip_ c.udp_.port_)) .zero], .ok (c.connected sock, .SUCCESS)⟩ := by
  simp only [_connect, UdpClient._connect, if_neg (not_lt.mpr h)]
  rfl

theorem connect_succeeded [Ring F] {c c' : FfhCtrl F} {sock : Int} (h : (c._connect sock).res = .ok (c', .SUCCESS)) :
    c' = c.connected sock := by
  by_cases hs : sock < 0
  · rw [connect_refused c hs] at h; cases h
  · rw [connect_connected c (not_lt.mp hs)] at h; cases h; rfl

/-- The controller after `_disconnect`. -/
def closed (c : FfhCtrl F) : FfhCtrl F :=
  { c with udp_ := { c.udp_ with inConnection_ := false, fds := c.udp_.fds.erase c.udp_.sockfd_ }, inConnection_ := false }

theorem disconnect_closed (c : FfhCtrl F) : c._disconnect = ⟨[.close c.udp_.sockfd_], .ok (c.closed, .SUCCESS)⟩ := rfl

/-! ## `testFlow` -/

/-- Between two reads of `testFlow`: the three strings and the one to read next. -/
structure Flow where
  strs : Fin 3 → String := fun _ => ""
  next : Fin 3 := 0

inductive FlowStep (F : Type) where
  | reading (c : FfhCtrl F) (t : Flow)
  | returned (c : FfhCtrl F) (r : AR_RETURN_VALUE)

/-- `handCmd_.finger[stoi(strs[0])].angle[stoi(strs[1])] = stof(strs[2])`. The right-hand
    side is evaluated first, so what it throws comes first; an angle that is not exact is a
    value until it is written. -/
def enter [DivisionRing F] (c : FfhCtrl F) (strs : Fin 3 → String) : Except Fault (FfhCtrl F) :=
  match stof (strs 2) with
  | .error .uncaught => .error .uncaught
  | angle => do
    let fingerId ← stoi (strs 0)
    let jointId ← stoi (strs 1)
    if hf : 0 ≤ fingerId ∧ fingerId < 5 then
      if hj : 0 ≤ jointId ∧ jointId < 4 then do
        let angle : F ← angle
        .ok { c with handCmd_ := c.handCmd_.set ⟨fingerId.toNat, by omega⟩ ⟨jointId.toNat, by omega⟩ angle }
      else .error (.outOfBounds .angle)
    else .error (.outOfBounds .finger)

/-- `testFlow` up to its first read. -/
def testFlow (c : FfhCtrl F) : FlowStep F :=
  if !c.inConnection_ then .returned c .ACTION_FAIL else .reading c {}

/-- One read and what follows it up to the next; `none` is the end of the input, where
    `operator>>` leaves the string as it was. -/
def flowStep [DivisionRing F] (c : FfhCtrl F) (t : Flow) (word : Option String) :
    Emit (UdpEv F) Fault (FlowStep F) :=
  let str := word.getD (t.strs t.next)
  let strs := Function.update t.strs t.next str
  if str = "quit" then pure (.returned c .SUCCESS)
  else if str = "reset" then do
    let c ← c.reset
    pure (.reading c ⟨strs, 0⟩)
  else if t.next = 2 then do
    let c ← lift (c.enter strs)
    c.send_hand_cmd
    pure (.reading c ⟨strs, 0⟩)
  else pure (.reading c ⟨strs, t.next + 1⟩)

/-! ## What a read does -/

/-- The triple that a read completes, unless it is a keyword. -/
def Flow.completed (t : Flow) (word : Option String) : Option (Fin 3 → String) :=
  let str := word.getD (t.strs t.next)
  if str = "quit" ∨ str = "reset" ∨ t.next ≠ 2 then none else some (Function.update t.strs t.next str)

/-- A triple that converts, to a finger, a joint and an angle that are there. -/
structure Entry [DivisionRing F] (strs : Fin 3 → String) (i : Fin 5) (j : Fin 4) (angle : F) : Prop where
  angle : stof (strs 2) = .ok angle
  finger : stoi (strs 0) = .ok (i.val : Int)
  joint : stoi (strs 1) = .ok (j.val : Int)

section Convert

variable {A : Type} (stof : String → Except Fault A)

/-- The element that `enter` assigns to and its new value, for any type of angles; `stof` is
    the conversion to one. -/
def convert (strs : Fin 3 → String) : Except Fault (Fin 5 × Fin 4 × A) :=
  match stof (strs 2) with
  | .error .uncaught => .error .uncaught
  | angle => do
    let fingerId ← stoi (strs 0)
    let jointId ← stoi (strs 1)
    if hf : 0 ≤ fingerId ∧ fingerId < 5 then
      if hj : 0 ≤ jointId ∧ jointId < 4 then do
        let angle ← angle
        .ok (⟨fingerId.toNat, by omega⟩, ⟨jointId.toNat, by omega⟩, angle)
      else .error (.outOfBounds .angle)
    else .error (.outOfBounds .finger)

/-- The assignment. -/
def place (c : FfhCtrl A) (e : Fin 5 × Fin 4 × A) : FfhCtrl A :=
  { c with handCmd_ := c.handCmd_.set e.1 e.2.1 e.2.2 }

theorem convert_ok {strs : Fin 3 → String} {i : Fin 5} {j : Fin 4} {a : A} :
    convert stof strs = .ok (i, j, a) ↔
      stof (strs 2) = .ok a ∧ stoi (strs 0) = .ok (i.val : Int) ∧ stoi (strs 1) = .ok (j.val : Int) := by
  unfold convert
  constructor
  · intro h
    split at h
    · cases h
    cases hf : stoi (strs 0) with
    | error e => rw [hf] at h; cases h
    | ok f =>
    cases hj : stoi (strs 1) with
    | error e => rw [hf, hj] at h; cases h
    | ok k =>
      simp only [hf, hj, bind, Except.bind] at h
      split at h
      · rename_i h5
        split at h
        · rename_i h4
          split at h
          · cases h
          · rename_i a' ha
            cases h
            exact ⟨ha, by simp [h5.1], by simp [h4.1]⟩
        · cases h
      · cases h
  · rintro ⟨ha, hf, hj⟩
    rw [ha, hf, hj]
    simp only [bind, Except.bind]
    rw [dif_pos ⟨by omega, by omega⟩, dif_pos ⟨by omega, by omega⟩]
    rfl

/-- A triple that does not convert throws, has an angle that is not exact, or points outside. -/
theorem convert_error {strs : Fin 3 → String} {e : Fault} (h : convert stof strs = .error e) :
    e = .uncaught ∨ stof (strs 2) = .error e ∨ e = .outOfBounds .finger ∨ e = .outOfBounds .angle := by
  unfold convert at h
  split at h
  · cases h; exact .inl rfl
  cases hf : stoi (strs 0) with
  | error e' => rw [hf] at h; cases h; exact .inl (stoi_error hf)
  | ok f =>
  cases hj : stoi (strs 1) with
  | error e' => rw [hf, hj] at h; cases h; exact .inl (stoi_error hj)
  | ok k =>
    simp only [hf, hj, bind, Except.bind] at h
    split at h
    · split at h
      · split at h
        · rename_i ha
          cases h
          exact .inr (.inl ha)
        · cases h
      · cases h; exact .inr (.inr (.inr rfl))
    · cases h; exact .inr (.inr (.inl rfl))

/-- What throws: a string that is no number, or one outside its type's range. -/
theorem convert_uncaught {strs : Fin 3 → String} : convert stof strs = .error .uncaught ↔
    stof (strs 2) = .error .uncaught ∨ stoi (strs 0) = .error .uncaught ∨ stoi (strs 1) = .error .uncaught := by
  unfold convert
  constructor
  · intro h
    split at h
    · rename_i ha; exact .inl ha
    cases hf : stoi (strs 0) with
    | error e => rw [stoi_error hf]; exact .inr (.inl rfl)
    | ok f =>
    cases hj : stoi (strs 1) with
    | error e => rw [stoi_error hj]; exact .inr (.inr rfl)
    | ok k =>
      simp only [hf, hj, bind, Except.bind] at h
      split at h
      · split at h
        · split at h
          · rename_i ha
            cases h
            exact .inl ha
          · cases h
        · cases h
      · cases h
  · intro h
    split
    · rfl
    rename_i hno
    rcases h with ha | hf | hj
    · exact absurd ha hno
    · rw [hf]; rfl
    · cases hf : stoi (strs 0) with
      | error e => rw [stoi_error hf]; rfl
      | ok f => rw [hj]; rfl

end Convert

theorem enter_convert [DivisionRing F] (c : FfhCtrl F) (strs : Fin 3 → String) :
    c.enter strs = (convert stof strs).map c.place := by
  unfold enter convert
  split
  · rfl
  cases stoi (strs 0) with
  | error e => rfl
  | ok f =>
  cases stoi (strs 1) with
  | error e => rfl
  | ok k =>
    simp only [bind, Except.bind]
    split
    · split
      · split
        · rfl
        · rfl
      · rfl
    · rfl

theorem enter_ok [DivisionRing F] {c c' : FfhCtrl F} {strs : Fin 3 → String} :
    c.enter strs = .ok c' ↔ ∃ i j a, Entry strs i j a ∧ c' = { c with handCmd_ := c.handCmd_.set i j a } := by
  rw [enter_convert]
  constructor
  · intro h
    cases he : convert (stof (F := F)) strs with
    | error e => rw [he] at h; cases h
    | ok e =>
      obtain ⟨i, j, a⟩ := e
      rw [he] at h
      cases h
      obtain ⟨ha, hf, hj⟩ := (convert_ok stof).mp he
      exact ⟨i, j, a, ⟨ha, hf, hj⟩, rfl⟩
  · rintro ⟨i, j, a, ⟨ha, hf, hj⟩, rfl⟩
    rw [(convert_ok stof).mpr ⟨ha, hf, hj⟩]
    rfl

/-- What a read comes to: it ends the flow, resets, waits for the next word, or enters the
    triple it completes; a triple that does not convert, or points outside, faults. -/
inductive Reads [DivisionRing F] (c : FfhCtrl F) (t : Flow) (word : Option String) :
    Emit (UdpEv F) Fault (FlowStep F) → Prop
  | quit : t.completed word = none → Reads c t word (pure (.returned c .SUCCESS))
  | reset (next : Flow) : t.completed word = none →
      Reads c t word ⟨[.sendto c.udp_.sockfd_ c.udp_.server_addr .zero], .ok (.reading { c with handCmd_ := .zero } next)⟩
  | next (next : Flow) : t.completed word = none → Reads c t word (pure (.reading c next))
  | entered (strs : Fin 3 → String) (i : Fin 5) (j : Fin 4) (a : F) (next : Flow) : t.completed word = some strs →
      Entry strs i j a →
      Reads c t word ⟨[.sendto c.udp_.sockfd_ c.udp_.server_addr (c.handCmd_.set i j a)],
        .ok (.reading { c with handCmd_ := c.handCmd_.set i j a } next)⟩
  | fault (strs : Fin 3 → String) (e : Fault) : t.completed word = some strs → convert (stof (F := F)) strs = .error e →
      Reads c t word (fail e)

theorem flowStep_outcome [DivisionRing F] (c : FfhCtrl F) (t : Flow) (word : Option String) :
    Reads c t word (c.flowStep t word) := by
  unfold flowStep
  simp only []
  generalize hstr : word.getD (t.strs t.next) = str
  by_cases hq : str = "quit"
  · rw [if_pos hq]
    exact .quit (by unfold Flow.completed; rw [hstr]; simp [hq])
  rw [if_neg hq]
  by_cases hr : str = "reset"
  · rw [if_pos hr]
    exact .reset ⟨_, 0⟩ (by unfold Flow.completed; rw [hstr]; simp [hr])
  rw [if_neg hr]
  by_cases hn : t.next = 2
  · rw [if_pos hn]
    have hc : t.completed word = some (Function.update t.strs t.next str) := by
      unfold Flow.completed
      rw [hstr]
      simp [hq, hr, hn]
    cases he : c.enter (Function.update t.strs t.next str) with
    | ok d =>
      obtain ⟨i, j, a, hent, rfl⟩ := enter_ok.mp he
      exact .entered _ i j a ⟨_, 0⟩ hc hent
    | error e =>
      apply Reads.fault _ e hc
      rw [enter_convert] at he
      cases hv : convert (stof (F := F)) (Function.update t.strs t.next str) with
      | ok r => rw [hv] at he; cases he
      | error e' => rw [hv] at he; cases he; rfl
  · rw [if_neg hn]
    exact .next ⟨_, t.next + 1⟩ (by unfold Flow.completed; rw [hstr]; simp [hn])

end FfhCtrl

end LeapSyncFfh
