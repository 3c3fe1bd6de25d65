/-
  LeapSyncFfh.Ffh.UdpClient — `udpClient.cpp`.

  The outputs are the system calls. `fds` lists the descriptors this client got from
  `socket()` and has not closed; what `socket()` returns is an argument. The return value
  of `sendto` is left out: no caller reads it.

  The address of a datagram is not the pair of the members `ip_` and `port_`: `htons` cuts
  the port to sixteen bits, and `inet_addr` makes 255.255.255.255 of a text that is no
  numbers with points.
-/

import LeapSyncFfh.Common.Strto
import LeapSyncFfh.Ffh.HandTypes
import LeapSyncFfh.Lib.Emit

namespace LeapSyncFfh

open Emit

variable {F : Type}

/-! ## The address -/

/-- The argument is an `int`; the `uint16_t` as the number it stands for. -/
def htons (port : Int) : Nat := (port % 65536).toNat

/-- `strtoul` to base 0 on digits: the value and the rest. -/
def strtoul (cs : List Char) : Nat × List Char :=
  match cs with
  | '0' :: x :: rest =>
    let (base, cs) := if x.toLower = 'x' then (16, rest) else (8, x :: rest)
    let (v, count, left) := digits base 0 0 cs
    (v, if count = 0 then x :: rest else left)
  | cs =>
    let (v, _, left) := digits 10 0 0 cs
    (v, left)

/-- An address of `k` bytes: a number for each with points between, and the last one for all
    the bytes that are left. White space ends it. -/
def inetBytes : Nat → List Char → Option Nat
  | 0, _ => none
  | k + 1, cs =>
    if !cs.head?.any Char.isDigit then none
    else
      match strtoul cs with
      | (v, '.' :: rest) => if v < 256 then (inetBytes k rest).map (v * 256 ^ k + ·) else none
      | (v, c :: _) => if (c.toNat = 32 ∨ 9 ≤ c.toNat ∧ c.toNat ≤ 13) ∧ v < 256 ^ (k + 1) then some v else none
      | (v, []) => if v < 256 ^ (k + 1) then some v else none

/-- The address as a number, `INADDR_NONE` where `cp` is none. -/
def inet_addr (cp : String) : Nat := (inetBytes 4 cp.toList).getD 0xffffffff

structure sockaddr_in where
  sin_port : Nat
  sin_addr : Nat
  deriving DecidableEq, Repr

/-- "Filling server information". -/
def sockaddr_in.make (ip : String) (port : Int) : sockaddr_in := { sin_port := htons port, sin_addr := inet_addr ip }

example : inet_addr "10.0.0.1" = 0x0a000001 ∧ inet_addr "localhost" = 0xffffffff ∧ htons 75622 = 10086 := by decide +kernel

/-! ## The client -/

inductive UdpEv (F : Type) where
  | socket (fd : Int)
  | sendto (fd : Int) (server_addr : Option sockaddr_in) (data : udp_hand_cmd F)
  | close (fd : Int)

/-- The command a call sends. -/
def UdpEv.command : UdpEv F → Option (udp_hand_cmd F)
  | .sendto _ _ data => some data
  | _ => none

structure UdpClient where
  server_addr : Option sockaddr_in := none
  sockfd_ : Int
  ip_ : String
  port_ : Int
  inConnection_ : Bool := false
  fds : List Int := []

namespace UdpClient

/-- The constructor; `sockfd_` is left as it was. -/
def make (ip : String) (port : Int) (sockfd : Int) : UdpClient := { sockfd_ := sockfd, ip_ := ip, port_ := port }

def _disconnect (c : UdpClient) : Emit (UdpEv F) Fault (UdpClient × Int) := do
  emit (.close c.sockfd_)
  pure ({ c with inConnection_ := false, fds := c.fds.erase c.sockfd_ }, 0)

def _connect (c : UdpClient) (sock : Int) : Emit (UdpEv F) Fault (UdpClient × Int) := do
  emit (.socket sock)
  if sock < 0 then do
    emit (.close sock)
    pure ({ c with sockfd_ := sock }, -1)
  else
    pure ({ c with sockfd_ := sock, fds := sock :: c.fds, server_addr := some (.make c.ip_ c.port_), inConnection_ := true }, 0)

def sendCmd (c : UdpClient) (data : udp_hand_cmd F) : Emit (UdpEv F) Fault Unit :=
  emit (.sendto c.sockfd_ c.server_addr data)

/-- `~UdpClient`. -/
def destroy (c : UdpClient) : Emit (UdpEv F) Fault Unit :=
  if c.inConnection_ then do
    let _ ← c._disconnect
    pure ()
  else pure ()

end UdpClient

end LeapSyncFfh
