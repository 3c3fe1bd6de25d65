/-
  LeapSyncFfh.Ffh.Sockets — the descriptors of a `UdpClient`, over any sequence of
  `_connect` and `_disconnect` calls that ends with its destruction, made on the client
  itself or through `FfhCtrl`.

  The account is kept from the system calls alone (`openFds`), not from the client's
  fields: `socket()` adds the descriptor it returns unless it failed, `close()` removes one.
  `Ownership` is the law: after every call at most one descriptor is open, `inConnection_`
  says that `sockfd_` is it, `close()` was only called on an open one; and the destructor
  leaves none.

  Neither class asks for its state before it acts: `_connect` overwrites `sockfd_`, also
  when it holds a descriptor, and closes what a failed `socket()` returned; `_disconnect`
  closes `sockfd_` whatever it is. So the law holds exactly for the sequences in which
  connects that get a socket and disconnects take turns (`ownership_iff`).
-/

import LeapSyncFfh.Ffh.FfhCtrl

namespace LeapSyncFfh

open Emit

variable {F σ : Type}

/-! ## The account of the system calls -/

/-- The descriptors obtained and not closed, after one more system call. -/
def account (fds : List Int) : UdpEv F → List Int
  | .socket fd => if 0 ≤ fd then fd :: fds else fds
  | .sendto _ _ _ => fds
  | .close fd => fds.erase fd

def openFds (tr : List (UdpEv F)) : List Int := tr.foldl account []

/-- At most one descriptor after the call; and `close` only on one that is open. -/
structure Allowed (fds : List Int) (e : UdpEv F) : Prop where
  one : (account fds e).length ≤ 1
  own : ∀ fd, e = .close fd → fd ∈ fds

def isSend : UdpEv F → Bool
  | .sendto _ _ _ => true
  | _ => false

@[simp] theorem openFds_append (tr tr' : List (UdpEv F)) : openFds (tr ++ tr') = tr'.foldl account (openFds tr) :=
  List.foldl_append

theorem openFds_nonneg (tr : List (UdpEv F)) : ∀ fd ∈ openFds tr, 0 ≤ fd := by
  induction tr using List.reverseRecOn with
  | nil => intro fd hfd; exact (List.not_mem_nil hfd).elim
  | append_singleton tr e ih =>
    intro fd hfd
    rw [openFds_append] at hfd
    cases e with
    | socket new =>
      by_cases hnew : 0 ≤ new
      · rw [List.foldl_cons, List.foldl_nil, account, if_pos hnew] at hfd
        rcases List.mem_cons.mp hfd with rfl | hfd
        · exact hnew
        · exact ih fd hfd
      · rw [List.foldl_cons, List.foldl_nil, account, if_neg hnew] at hfd
        exact ih fd hfd
    | sendto => exact ih fd hfd
    | close old => exact ih fd (List.mem_of_mem_erase hfd)

/-- Sending moves no descriptor. -/
theorem heeds_sends (fds : List Int) (hone : fds.length ≤ 1) {sends : List (UdpEv F)}
    (hs : ∀ e ∈ sends, isSend e = true) : Heeds account Allowed fds sends ∧ sends.foldl account fds = fds := by
  apply heeds_idle
  intro e he
  cases e with
  | sendto => exact ⟨rfl, hone, fun fd h => by cases h⟩
  | _ => cases hs _ he

/-! ## The law -/

structure SocketLaw (tr : List (UdpEv F)) (c : UdpClient) : Prop where
  allowed : Heeds account Allowed [] tr
  flag : c.inConnection_ = true ↔ c.sockfd_ ∈ openFds tr

structure Released (tr : List (UdpEv F)) : Prop where
  allowed : Heeds account Allowed [] tr
  none_open : openFds tr = []

/-- A call, with what `socket()` returns in it. -/
inductive SocketCall where
  | _connect (sock : Int)
  | _disconnect
  deriving DecidableEq, Repr

/-- The law after every call, and once the object is destroyed after the last. -/
def Ownership (step : σ → SocketCall → Emit (UdpEv F) Fault σ) (destroy : σ → Emit (UdpEv F) Fault Unit)
    (udp : σ → UdpClient) (s : σ) (calls : List SocketCall) : Prop :=
  Throughout step (fun tr t => SocketLaw tr (udp t)) s calls ∧
    ∀ t, (runs step s calls).res = .ok t → Released ((runs step s calls).out ++ (destroy t).out)

/-- Connects that get a socket and disconnects take turns; `c` tells whether the client
    is connected before. -/
def Alternates (c : Bool) : List SocketCall → Prop
  | [] => True
  | ._connect sock :: calls => c = false ∧ 0 ≤ sock ∧ Alternates true calls
  | ._disconnect :: calls => c = true ∧ Alternates false calls

/-! ## The calls of the two classes -/

def UdpClient.call (c : UdpClient) : SocketCall → Emit (UdpEv F) Fault UdpClient
  | ._connect sock => do
    let (c, _) ← c._connect sock
    pure c
  | ._disconnect => do
    let (c, _) ← c._disconnect
    pure c

def FfhCtrl.call [Ring F] (c : FfhCtrl F) : SocketCall → Emit (UdpEv F) Fault (FfhCtrl F)
  | ._connect sock => do
    let (c, _) ← c._connect sock
    pure c
  | ._disconnect => do
    let (c, _) ← c._disconnect
    pure c

/-- What the calls and the destructor of a class do to the client it owns, in the states
    that meet `ok`. -/
structure Drives (step : σ → SocketCall → Emit (UdpEv F) Fault σ) (destroy : σ → Emit (UdpEv F) Fault Unit)
    (udp : σ → UdpClient) (ok : σ → Prop) : Prop where
  connected : ∀ s sock, ok s → 0 ≤ sock → ∃ t sends, step s (._connect sock) = ⟨.socket sock :: sends, .ok t⟩ ∧
    (∀ e ∈ sends, isSend e = true) ∧ ok t ∧ (udp t).sockfd_ = sock ∧ (udp t).inConnection_ = true
  refused : ∀ s sock, ok s → sock < 0 → ∃ t, step s (._connect sock) = ⟨[.socket sock, .close sock], .ok t⟩
  closed : ∀ s, ok s → ∃ t, step s ._disconnect = ⟨[.close (udp s).sockfd_], .ok t⟩ ∧ ok t ∧
    (udp t).inConnection_ = false
  destroyed : ∀ s, ok s → ∃ sends, (∀ e ∈ sends, isSend e = true) ∧
    (destroy s).out = sends ++ if (udp s).inConnection_ = true then [.close (udp s).sockfd_] else []

theorem udpClient_drives : Drives (F := F) UdpClient.call UdpClient.destroy (fun c => c) fun _ => True where
  connected c sock _ h := by
    have heq : c.call (F := F) (._connect sock) = ⟨[.socket sock], .ok { c with
        sockfd_ := sock, fds := sock :: c.fds, server_addr := some (.make c.ip_ c.port_), inConnection_ := true }⟩ := by
      simp only [UdpClient.call, UdpClient._connect, if_neg (not_lt.mpr h)]
      rfl
    exact ⟨_, [], heq, fun e he => (List.not_mem_nil he).elim, trivial, rfl, rfl⟩
  refused c sock _ h := by
    have heq : c.call (F := F) (._connect sock) = ⟨[.socket sock, .close sock], .ok { c with sockfd_ := sock }⟩ := by
      simp only [UdpClient.call, UdpClient._connect, if_pos h]
      rfl
    exact ⟨_, heq⟩
  closed c _ := ⟨_, rfl, trivial, rfl⟩
  destroyed c _ := by
    refine ⟨[], fun e he => (List.not_mem_nil he).elim, ?_⟩
    unfold UdpClient.destroy
    by_cases h : c.inConnection_ = true
    · simp only [if_pos h]; rfl
    · simp only [if_neg h]; rfl

/-- `FfhCtrl` keeps its flag equal to its client's. -/
theorem ffhCtrl_drives [Ring F] :
    Drives (F := F) FfhCtrl.call FfhCtrl.destroy FfhCtrl.udp_ fun c => c.inConnection_ = c.udp_.inConnection_ where
  connected c sock _ h := by
    refine ⟨c.connected sock, [.sendto sock (some (.make c.udp_.ip_ c.udp_.port_)) .zero], ?_, ?_, rfl, rfl, rfl⟩
    · rw [FfhCtrl.call, FfhCtrl.connect_connected c h]; rfl
    · intro e he
      rw [List.mem_singleton.mp he]; rfl
  refused c sock _ h := by
    refine ⟨c.refused sock, ?_⟩
    rw [FfhCtrl.call, FfhCtrl.connect_refused c h]; rfl
  closed c _ := ⟨c.closed, rfl, rfl, rfl⟩
  destroyed c hc := by
    unfold FfhCtrl.destroy
    by_cases h : c.udp_.inConnection_ = true
    · refine ⟨[.sendto c.udp_.sockfd_ c.udp_.server_addr .zero], fun e he => ?_, ?_⟩
      · rw [List.mem_singleton.mp he]; rfl
      · rw [if_pos (hc.trans h), if_pos h]; rfl
    · refine ⟨[], fun e he => (List.not_mem_nil he).elim, ?_⟩
      rw [if_neg (fun h' => h (hc.symm.trans h')), if_neg h, UdpClient.destroy, if_neg h]; rfl

/-! ## Exactly the alternating sequences -/

/-- What the law leaves when it has held after every call so far. -/
structure Owns (tr : List (UdpEv F)) (c : UdpClient) : Prop where
  allowed : Heeds account Allowed [] tr
  held : openFds tr = if c.inConnection_ = true then [c.sockfd_] else []

theorem Owns.law {tr : List (UdpEv F)} {c : UdpClient} (h : Owns tr c) : SocketLaw tr c := by
  refine ⟨h.allowed, ?_⟩
  rw [h.held]
  by_cases hc : c.inConnection_ = true <;> simp [hc]

/-- The calls the law survives. -/
def Turn (c : UdpClient) : SocketCall → Prop
  | ._connect sock => c.inConnection_ = false ∧ 0 ≤ sock
  | ._disconnect => c.inConnection_ = true

section

variable {step : σ → SocketCall → Emit (UdpEv F) Fault σ} {destroy : σ → Emit (UdpEv F) Fault Unit}
  {udp : σ → UdpClient} {ok : σ → Prop}

theorem drives_turn (D : Drives step destroy udp ok) {tr : List (UdpEv F)} {s : σ} {call : SocketCall} {t : σ}
    (hok : ok s) (hs : Owns tr (udp s)) (hc : Turn (udp s) call) (h : (step s call).res = .ok t) :
    ok t ∧ Owns (tr ++ (step s call).out) (udp t) := by
  cases call with
  | _connect sock =>
    obtain ⟨hoff, hsock⟩ := hc
    obtain ⟨u, sends, heq, hsends, hok', hfd, hflag⟩ := D.connected s sock hok hsock
    rw [heq] at h ⊢
    obtain rfl : u = t := Except.ok.inj h
    have hnone : openFds tr = [] := by rw [hs.held, hoff]; rfl
    have hacc : account [] (.socket sock : UdpEv F) = [sock] := if_pos hsock
    obtain ⟨hrest, hopen⟩ := heeds_sends [sock] (by simp) hsends
    refine ⟨hok', (heeds_append _ _ _ _ _).mpr ⟨hs.allowed, ?_⟩, ?_⟩
    · show Heeds account Allowed (openFds tr) _
      rw [hnone]
      exact ⟨⟨by rw [hacc]; simp, fun fd he => by cases he⟩, by rw [hacc]; exact hrest⟩
    · rw [openFds_append, hnone, List.foldl_cons, hacc, hopen, hflag, hfd]; rfl
  | _disconnect =>
    obtain ⟨u, heq, hok', hflag⟩ := D.closed s hok
    rw [heq] at h ⊢
    obtain rfl : u = t := Except.ok.inj h
    have hheld : openFds tr = [(udp s).sockfd_] := hs.held.trans (if_pos hc)
    refine ⟨hok', (heeds_append _ _ _ _ _).mpr ⟨hs.allowed, ?_⟩, ?_⟩
    · show Heeds account Allowed (openFds tr) _
      rw [hheld]
      exact ⟨⟨by simp [account], fun fd he => by cases he; simp⟩, trivial⟩
    · rw [openFds_append, hheld, hflag]; simp [account]

/-- Any other call breaks the law. -/
theorem drives_turn_of_law (D : Drives step destroy udp ok) {tr : List (UdpEv F)} {s : σ} {call : SocketCall} {t : σ}
    (hok : ok s) (hs : Owns tr (udp s)) (h : SocketLaw (tr ++ (step s call).out) (udp t)) : Turn (udp s) call := by
  have hnew : Heeds account Allowed (openFds tr) (step s call).out := ((heeds_append _ _ _ _ _).mp h.allowed).2
  cases call with
  | _connect sock =>
    by_cases hsock : 0 ≤ sock
    · obtain ⟨u, sends, heq, -⟩ := D.connected s sock hok hsock
      rw [heq] at hnew
      refine ⟨?_, hsock⟩
      cases hc : (udp s).inConnection_ with
      | false => rfl
      | true =>
        have hlen := hnew.1.one
        rw [hs.held, if_pos hc] at hlen
        simp [account, hsock] at hlen
    · -- `close` is called with the number of the failed `socket()`
      obtain ⟨u, heq⟩ := D.refused s sock hok (not_le.mp hsock)
      rw [heq] at hnew
      have hmem := hnew.2.1.own sock rfl
      rw [account, if_neg hsock] at hmem
      exact absurd (openFds_nonneg tr sock hmem) hsock
  | _disconnect =>
    obtain ⟨u, heq, -⟩ := D.closed s hok
    rw [heq] at hnew
    have hmem := hnew.1.own _ rfl
    rw [hs.held] at hmem
    split at hmem
    · assumption
    · exact (List.not_mem_nil hmem).elim

theorem along_alternates (D : Drives step destroy udp ok) :
    ∀ (calls : List SocketCall) (s : σ), ok s →
      (Along step (fun s call => Turn (udp s) call) s calls ↔ Alternates (udp s).inConnection_ calls) := by
  intro calls
  induction calls with
  | nil => intro s _; exact Iff.rfl
  | cons call calls ih =>
    intro s hok
    cases call with
    | _connect sock =>
      rw [Along, Alternates, Turn, and_assoc]
      refine and_congr_right fun _ => and_congr_right fun hsock => ?_
      obtain ⟨t, sends, heq, -, hok', -, hflag⟩ := D.connected s sock hok hsock
      rw [heq, ← hflag, ← ih t hok']
      exact ok_imp_iff
    | _disconnect =>
      rw [Along, Alternates, Turn]
      refine and_congr_right fun _ => ?_
      obtain ⟨t, heq, hok', hflag⟩ := D.closed s hok
      rw [heq, ← hflag, ← ih t hok']
      exact ok_imp_iff

/-- The destructor closes what the client still holds. -/
theorem drives_released (D : Drives step destroy udp ok) {tr : List (UdpEv F)} {s : σ} (hok : ok s)
    (hs : Owns tr (udp s)) : Released (tr ++ (destroy s).out) := by
  obtain ⟨sends, hsends, hout⟩ := D.destroyed s hok
  rw [hout]
  by_cases hc : (udp s).inConnection_ = true
  · have hheld : openFds tr = [(udp s).sockfd_] := hs.held.trans (if_pos hc)
    obtain ⟨hrest, hopen⟩ := heeds_sends [(udp s).sockfd_] (by simp) hsends
    rw [if_pos hc]
    refine ⟨(heeds_append _ _ _ _ _).mpr ⟨hs.allowed, (heeds_append _ _ _ _ _).mpr ?_⟩, ?_⟩
    · show Heeds account Allowed (openFds tr) sends ∧ _
      rw [show List.foldl account [] tr = openFds tr from rfl, hheld, hopen]
      exact ⟨hrest, ⟨by simp [account], fun fd he => by cases he; simp⟩, trivial⟩
    · rw [openFds_append, hheld, List.foldl_append, hopen]; simp [account]
  · have hnone : openFds tr = [] := hs.held.trans (if_neg hc)
    obtain ⟨hrest, hopen⟩ := heeds_sends [] (by simp) hsends
    rw [if_neg hc, List.append_nil]
    refine ⟨(heeds_append _ _ _ _ _).mpr ⟨hs.allowed, ?_⟩, ?_⟩
    · show Heeds account Allowed (openFds tr) sends
      rw [hnone]; exact hrest
    · rw [openFds_append, hnone, hopen]

theorem drives_returns (D : Drives step destroy udp ok) {s : σ} (hok : ok s) (call : SocketCall) :
    ∃ t, (step s call).res = .ok t := by
  cases call with
  | _connect sock =>
    rcases le_or_gt 0 sock with hsock | hsock
    · obtain ⟨t, sends, heq, -⟩ := D.connected s sock hok hsock
      exact ⟨t, by rw [heq]⟩
    · obtain ⟨t, heq⟩ := D.refused s sock hok hsock
      exact ⟨t, by rw [heq]⟩
  | _disconnect =>
    obtain ⟨t, heq, -⟩ := D.closed s hok
    exact ⟨t, by rw [heq]⟩

/-- Any law between the invariant and `SocketLaw` holds throughout exactly the alternating
    sequences. -/
theorem throughout_iff (D : Drives step destroy udp ok) {s : σ} (hok : ok s) (hoff : (udp s).inConnection_ = false)
    {L : List (UdpEv F) → σ → Prop} (hL : ∀ tr t, ok t ∧ Owns tr (udp t) → L tr t)
    (hlaw : ∀ tr t, L tr t → SocketLaw tr (udp t)) (calls : List SocketCall) :
    Throughout step L s calls ↔ Alternates false calls := by
  have hs : ok s ∧ Owns ([] : List (UdpEv F)) (udp s) := ⟨hok, trivial, by rw [hoff]; rfl⟩
  rw [← hoff, ← along_alternates D calls s hok]
  refine runs_law_iff step hL (fun tr s call t h hc ht => drives_turn D h.1 h.2 hc ht)
    (fun tr s call t h _ hl => drives_turn_of_law D h.1 h.2 (hlaw _ _ hl)) (fun tr s call e h he => ?_) hs calls
  obtain ⟨t, ht⟩ := drives_returns D h.1 call
  rw [ht] at he; cases he

/-- The law holds for a sequence of calls and the destruction after it exactly when the
    connects get a socket and take turns with the disconnects. -/
theorem ownership_iff (D : Drives step destroy udp ok) {s : σ} (hok : ok s) (hoff : (udp s).inConnection_ = false)
    (calls : List SocketCall) : Ownership step destroy udp s calls ↔ Alternates false calls := by
  have hlaw := throughout_iff D hok hoff (L := fun tr t => SocketLaw tr (udp t)) (fun _ _ h => h.2.law)
    (fun _ _ h => h) calls
  have howns := throughout_iff D hok hoff (fun _ _ h => h) (fun _ _ h => h.2.law) calls
  refine ⟨fun h => hlaw.mp h.1, fun h => ⟨hlaw.mpr h, fun t ht => ?_⟩⟩
  obtain ⟨hokt, hend⟩ := howns.mpr h calls (List.prefix_refl calls) t ht
  exact drives_released D hokt hend

end

/-- The law for a client called directly and for one called through `FfhCtrl`, from the
    constructor on. -/
theorem sockets_owned_iff [Ring F] (calls : List SocketCall) :
    (∀ (ip : String) (port sockfd : Int),
      Ownership (F := F) UdpClient.call UdpClient.destroy (fun c => c) (.make ip port sockfd) calls ↔
        Alternates false calls) ∧
    ∀ (index : Nat) (ip : String) (port sockfd : Int) (handCmd : udp_hand_cmd F),
      Ownership FfhCtrl.call FfhCtrl.destroy FfhCtrl.udp_ (.make index ip port sockfd handCmd) calls ↔
        Alternates false calls :=
  ⟨fun _ _ _ => ownership_iff udpClient_drives trivial rfl calls,
    fun _ _ _ _ _ => ownership_iff ffhCtrl_drives rfl rfl calls⟩

/-- A second `_connect` leaves the first descriptor open for good. -/
theorem connected_twice_leaks :
    ¬ Ownership (F := ℚ) UdpClient.call UdpClient.destroy (fun c => c) (.make "192.168.137.39" 2333 0)
      [._connect 3, ._connect 4] := by
  rintro ⟨hlaw, -⟩
  have := (hlaw [._connect 3, ._connect 4] (List.prefix_refl _) _ rfl).allowed.2.1.one
  exact absurd this (by decide)

end LeapSyncFfh
