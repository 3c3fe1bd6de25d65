/-
  LeapSyncFfh.Ffh.HandData — the hand data that `FfhCtrl` receives (`recieve_hand_data`,
  `get_hand_data`).

  `udp_hand_data` is its bytes in memory; a byte is `none` until something writes it, as
  all of `handData_` are at first. `recvfrom` on a datagram socket takes one datagram, copies
  what fits into the buffer and returns how many bytes that were (`MSG_WAITALL` makes no
  difference there); what it finds is an argument of the call.

  Both methods take any answer that is not negative for a success, so a datagram that is too
  short overwrites the front of `handData_` and is reported as received. A call replaces the
  data by one whole datagram, or leaves it and reports a failure (`WholeOrNone`), exactly
  when no datagram is short (`whole_or_none_iff`).
-/

import LeapSyncFfh.Ffh.FfhCtrl

namespace LeapSyncFfh

open Emit

variable {F : Type}

/-! ## The data -/

/-- `sizeof(float)` -/
def sizeof_float : Nat := 4

/-- Three angles and three torques. -/
def sizeof_udp_finger_data : Nat := (3 + 3) * sizeof_float

/-- Five fingers and the palm angle of the thumb. -/
def sizeof_udp_hand_data : Nat := 5 * sizeof_udp_finger_data + sizeof_float

/-- `n` bytes of memory. -/
structure Memory (n : Nat) where
  bytes : List (Option UInt8)
  sized : bytes.length = n

abbrev udp_hand_data : Type := Memory sizeof_udp_hand_data

namespace Memory

variable {n : Nat}

/-- `{}` -/
def zero : Memory n := ⟨List.replicate n (some 0), List.length_replicate⟩

/-- Memory that nothing was written to. -/
def uninitialised : Memory n := ⟨List.replicate n none, List.length_replicate⟩

/-- `received` copied over the front, as far as it fits. -/
def copied (m : Memory n) (received : List UInt8) : Memory n where
  bytes := (received.take n).map some ++ m.bytes.drop received.length
  sized := by
    simp only [List.length_append, List.length_map, List.length_take, List.length_drop, m.sized]
    omega

end Memory

/-! ## Receiving -/

/-- What one `recvfrom` finds. -/
inductive Datagram where
  | error
  | datagram (bytes : List UInt8)

/-- No datagram, or one that fills the data. -/
def Datagram.Fills : Datagram → Prop
  | .error => True
  | .datagram bytes => sizeof_udp_hand_data ≤ bytes.length

inductive RecvEv where
  | recvfrom (fd : Int) (len : Nat)
  | printf (text : String)
  deriving DecidableEq, Repr

/-- The memory behind `data` after the call, and what the call returns. -/
def UdpClient.recieveData (c : UdpClient) {dataLen : Nat} (data : Memory dataLen) (r : Datagram) :
    Emit RecvEv Empty (Memory dataLen × Int) := do
  emit (.recvfrom c.sockfd_ dataLen)
  match r with
  | .error => pure (data, -1)
  | .datagram bytes => pure (data.copied bytes, (min bytes.length dataLen : Nat))

/-- `FfhCtrl` with its member `handData_`. -/
structure FfhReceiver (F : Type) extends FfhCtrl F where
  handData_ : udp_hand_data := .uninitialised

namespace FfhReceiver

def recieve_hand_data (c : FfhReceiver F) (r : Datagram) : Emit RecvEv Empty (FfhReceiver F × Int) := do
  let (handData, n) ← c.udp_.recieveData c.handData_ r
  pure ({ c with handData_ := handData }, n)

/-- The text as the source has it. -/
def receiveError : String := "receive data errror\n"

def get_hand_data (c : FfhReceiver F) (r : Datagram) : Emit RecvEv Empty (FfhReceiver F × udp_hand_data) := do
  let (handData, n) ← c.udp_.recieveData c.handData_ r
  let c := { c with handData_ := handData }
  if n < 0 then do
    emit (.printf receiveError)
    pure (c, .zero)
  else pure (c, c.handData_)

/-! ## Any calls -/

/-- A call, with what its `recvfrom` finds. -/
inductive HandCall where
  | recieve_hand_data (r : Datagram)
  | get_hand_data (r : Datagram)

def HandCall.datagram : HandCall → Datagram
  | .recieve_hand_data r => r
  | .get_hand_data r => r

/-- What a call returns. -/
inductive HandRet where
  | count (n : Int)
  | data (d : udp_hand_data)

def call (c : FfhReceiver F) : HandCall → Emit RecvEv Empty (FfhReceiver F × HandRet)
  | .recieve_hand_data r => do
    let (c, n) ← c.recieve_hand_data r
    pure (c, .count n)
  | .get_hand_data r => do
    let (c, d) ← c.get_hand_data r
    pure (c, .data d)

/-- The object after a call. -/
def after (c : FfhReceiver F) (h : HandCall) : Emit RecvEv Empty (FfhReceiver F) := c.call h >>= fun x => pure x.1

/-- The call says that it failed: a negative count, or the message and the empty data. -/
def Reports (out : List RecvEv) : HandRet → Prop
  | .count n => n < 0
  | .data d => .printf receiveError ∈ out ∧ d = .zero

/-- `d` is one whole datagram. -/
def Holds (d : udp_hand_data) (r : Datagram) : Prop :=
  ∃ bytes, r = .datagram bytes ∧ sizeof_udp_hand_data ≤ bytes.length ∧
    d.bytes = (bytes.take sizeof_udp_hand_data).map some

/-- The law of a call: its datagram whole, or nothing and a failure; and the data it hands
    out is that datagram, or the empty data of a failure. -/
structure WholeOrNone (c : FfhReceiver F) (h : HandCall) : Prop where
  stored : ∀ d ret, (c.call h).res = .ok (d, ret) →
    Holds d.handData_ h.datagram ∨ (d.handData_ = c.handData_ ∧ Reports (c.call h).out ret)
  returned : ∀ d data, (c.call h).res = .ok (d, .data data) →
    Holds data h.datagram ∨ Reports (c.call h).out (.data data)

/-- Enough bytes leave nothing of what was there. -/
theorem copied_whole (data : udp_hand_data) {bytes : List UInt8} (h : sizeof_udp_hand_data ≤ bytes.length) :
    Holds (data.copied bytes) (.datagram bytes) := by
  refine ⟨bytes, rfl, h, ?_⟩
  have hdrop : data.bytes.drop bytes.length = [] := List.drop_eq_nil_of_le (by rw [data.sized]; exact h)
  simp only [Memory.copied, hdrop, List.append_nil]

theorem holds_length {d : udp_hand_data} {bytes : List UInt8} (h : Holds d (.datagram bytes)) :
    sizeof_udp_hand_data ≤ bytes.length := by
  obtain ⟨bs, hbs, hle, -⟩ := h
  cases hbs
  exact hle

section Calls

variable (c : FfhReceiver F)

/-- After an error nothing is stored, and it is reported. -/
theorem call_error {h : HandCall} (hr : h.datagram = .error) :
    ∃ out ret, c.call h = ⟨out, .ok (c, ret)⟩ ∧ Reports out ret := by
  cases h with
  | recieve_hand_data r =>
    obtain rfl : r = .error := hr
    exact ⟨_, _, rfl, (by decide : (-1 : Int) < 0)⟩
  | get_hand_data r =>
    obtain rfl : r = .error := hr
    exact ⟨_, _, rfl, List.mem_cons_of_mem _ List.mem_cons_self, rfl⟩

/-- A datagram is stored as far as it fits, and never reported as a failure. -/
theorem call_datagram {h : HandCall} {bytes : List UInt8} (hr : h.datagram = .datagram bytes) :
    ∃ out ret, c.call h = ⟨out, .ok ({ c with handData_ := c.handData_.copied bytes }, ret)⟩ ∧ ¬ Reports out ret ∧
      ∀ data, ret = .data data → data = c.handData_.copied bytes := by
  have hn : ¬ ((min bytes.length sizeof_udp_hand_data : Nat) : Int) < 0 := by omega
  cases h with
  | recieve_hand_data r =>
    obtain rfl : r = .datagram bytes := hr
    exact ⟨_, _, rfl, hn, fun data hd => by cases hd⟩
  | get_hand_data r =>
    obtain rfl : r = .datagram bytes := hr
    have hget : c.get_hand_data (.datagram bytes) = ⟨[.recvfrom c.udp_.sockfd_ sizeof_udp_hand_data],
        .ok ({ c with handData_ := c.handData_.copied bytes }, c.handData_.copied bytes)⟩ := by
      unfold get_hand_data UdpClient.recieveData
      simp only [bind_assoc, pure_bind, if_neg hn]
      rfl
    refine ⟨_, _, by rw [call, hget]; rfl, fun h => ?_, fun data hd => by cases hd; rfl⟩
    have hmem := h.1
    simp at hmem

theorem wholeOrNone_iff (h : HandCall) : WholeOrNone c h ↔ h.datagram.Fills := by
  cases hr : h.datagram with
  | error =>
    obtain ⟨out, ret, hcall, hreports⟩ := call_error c hr
    refine iff_of_true ⟨fun d ret' hd => ?_, fun d data hd => ?_⟩ trivial
    · rw [hcall] at hd ⊢
      cases hd
      exact Or.inr ⟨rfl, hreports⟩
    · rw [hcall] at hd ⊢
      cases hd
      exact Or.inr hreports
  | datagram bytes =>
    obtain ⟨out, ret, hcall, hsilent, hdata⟩ := call_datagram c hr
    constructor
    · intro hlaw
      rcases hlaw.stored _ ret (by rw [hcall]) with hholds | ⟨-, hreports⟩
      · rw [hr] at hholds
        exact holds_length hholds
      · rw [hcall] at hreports
        exact absurd hreports hsilent
    · intro hfills
      have hwhole := copied_whole c.handData_ hfills
      refine ⟨fun d ret' hd => ?_, fun d data hd => ?_⟩
      · rw [hcall] at hd
        cases hd
        rw [hr]
        exact Or.inl hwhole
      · rw [hcall] at hd
        cases hd
        rw [hr, hdata data rfl]
        exact Or.inl hwhole

end Calls

/-- In every sequence of calls, from any object: each stores and hands out a whole datagram or
    reports a failure, exactly when every datagram received fills the data. -/
theorem whole_or_none_iff (c : FfhReceiver F) (hs : List HandCall) :
    Along after WholeOrNone c hs ↔ ∀ h ∈ hs, h.datagram.Fills := by
  constructor
  · exact forall_of_along after (fun c h => (wholeOrNone_iff c h).mp) fun c h _ => ⟨_, res_val (after c h)⟩
  · exact along_of_forall after (fun c h => (wholeOrNone_iff c h).mpr) c

/-- The first datagram has four bytes: the rest of what is handed out was never written. -/
theorem a_short_datagram_is_taken : ¬ ∀ (c : FfhReceiver ℤ) (hs : List HandCall), Along after WholeOrNone c hs := by
  intro h
  have hlaw := (h ⟨.make 0 "10.0.0.1" 8001 3 .zero, .uninitialised⟩ [.get_hand_data (.datagram [1, 2, 3, 4])]).1
  have hlen : sizeof_udp_hand_data ≤ 4 := (wholeOrNone_iff _ _).mp hlaw
  exact absurd hlen (by decide)

end FfhReceiver

end LeapSyncFfh
