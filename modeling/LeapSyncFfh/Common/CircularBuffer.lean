/-
  LeapSyncFfh.Common.CircularBuffer — `arCircularBuffer.h`.

  `Holds dflt n vs b`: `b` has size `n` and has taken in the values `vs`, oldest first.
  The last `n` of them are in their slots, and a slot not yet written holds the value
  `setSize` put there: a ring whose cursor counts the adds (`holds_iff`). It is true after
  `setSize` (`holds_setSize`), `add` keeps it and never faults on a sized buffer
  (`holds_add`), and it says what `back` reads: the slot the next `add` will overwrite, so
  the value added `n` adds ago (`holds_back`).
-/

import LeapSyncFfh.Common.Faults
import LeapSyncFfh.Lib.Cells
import LeapSyncFfh.Lib.Ring

namespace LeapSyncFfh

open Cells

structure CircularBuffer (T : Type) where
  m_buffer : List T := []
  m_size : Nat := 0
  m_tail : Nat := 0
  m_head : Nat := 0

namespace CircularBuffer

variable {T : Type}

/-- `clear` and `resize`: every slot is value-initialised (`dflt`); the cursors stay. -/
def setSize (dflt : T) (b : CircularBuffer T) (size : Nat) : CircularBuffer T :=
  { b with m_buffer := List.replicate size dflt, m_size := size }

def updateHeadTail (b : CircularBuffer T) : Except Fault (CircularBuffer T) :=
  if b.m_size = 0 then .error .divisionByZero
  else
    let m_tail := (b.m_tail + 1) % b.m_size
    .ok { b with m_tail := m_tail, m_head := (m_tail + b.m_size - 1) % b.m_size }

def add (b : CircularBuffer T) (value : T) : Except Fault (CircularBuffer T) := do
  let m_buffer ← store (.outOfBounds .m_buffer) b.m_buffer b.m_tail value
  updateHeadTail { b with m_buffer := m_buffer }

def back (b : CircularBuffer T) : Except Fault T :=
  subscript (.outOfBounds .m_buffer) b.m_buffer b.m_tail

/-- `CircularBuffer(size_t size)`; `CircularBuffer()` is the one of size 0. -/
def make (dflt : T) (size : Nat) : CircularBuffer T := { m_buffer := List.replicate size dflt, m_size := size }

def getBuffer (b : CircularBuffer T) : List T := b.m_buffer

def front (b : CircularBuffer T) : Except Fault T :=
  subscript (.outOfBounds .m_buffer) b.m_buffer b.m_head

def empty (b : CircularBuffer T) : Bool := b.m_tail = b.m_head

def popFront (b : CircularBuffer T) : Except Fault (CircularBuffer T) :=
  if !b.empty then
    if b.m_size = 0 then .error .divisionByZero
    else .ok { b with m_head := (b.m_head + 1) % b.m_size }
  else .ok b

def full (b : CircularBuffer T) : Bool :=
  if 0 < b.m_size then (b.m_tail + 1) % b.m_size = b.m_head else false

/-- With both cursors below `m_size` the subtractions do not wrap. -/
def size (b : CircularBuffer T) : Nat :=
  if b.m_head ≤ b.m_tail then b.m_tail - b.m_head else b.m_size - (b.m_head - b.m_tail)

/-! ## What a buffer holds after a history of adds -/

structure Holds (dflt : T) (n : Nat) (vs : List T) (b : CircularBuffer T) : Prop where
  size : b.m_size = n
  length : b.m_buffer.length = n
  tail : b.m_tail = vs.length % n
  recent : ∀ i, i < vs.length → vs.length ≤ i + n → b.m_buffer[i % n]? = vs[i]?
  fresh : ∀ j, vs.length ≤ j → j < n → b.m_buffer[j]? = some dflt

theorem holds_setSize (dflt : T) (n : Nat) {b : CircularBuffer T} (ht : b.m_tail = 0) :
    Holds dflt n [] (b.setSize dflt n) where
  size := rfl
  length := List.length_replicate
  tail := by simpa [setSize] using ht
  recent := fun i hi _ => by simp at hi
  fresh := fun j _ hj => by simp [setSize, hj]

/-- It is a ring whose cursor counts the adds. -/
theorem holds_iff {dflt : T} {n : Nat} (hn : 0 < n) {vs : List T} {b : CircularBuffer T} :
    Holds dflt n vs b ↔ b.m_size = n ∧ b.m_tail = vs.length % n ∧ Ring.Latest dflt n vs b.m_tail b.m_buffer := by
  constructor
  · intro h
    refine ⟨h.size, h.tail, h.length, by rw [h.tail]; exact Nat.mod_lt _ hn, fun k hk => ?_⟩
    rw [h.tail]
    by_cases hlt : k < vs.length
    · rw [Ring.slot_written hk hlt, Ring.recent_eq hlt]
      exact h.recent _ (by omega) (by omega)
    · rw [Ring.slot_fresh hk (by omega), Ring.recent_of_le (by omega)]
      exact h.fresh _ (by omega) (by omega)
  · rintro ⟨hs, ht, h⟩
    have hcell := h.cell
    rw [ht] at hcell
    refine ⟨hs, h.length, ht, fun i hi hc => ?_, fun j hj hjn => ?_⟩
    · have hi' := hcell (vs.length - 1 - i) (by omega)
      rwa [Ring.slot_written (by omega) (by omega), Ring.recent_eq (by omega),
        show vs.length - 1 - (vs.length - 1 - i) = i by omega] at hi'
    · have hj' := hcell (vs.length + n - 1 - j) (by omega)
      rwa [Ring.slot_fresh (by omega) (by omega), Ring.recent_of_le (by omega),
        show vs.length + n - 1 - (vs.length + n - 1 - j) = j by omega] at hj'

/-- The buffer after an `add` that does not fault. -/
def added (b : CircularBuffer T) (v : T) : CircularBuffer T :=
  { m_buffer := b.m_buffer.set b.m_tail v
    m_size := b.m_size
    m_tail := (b.m_tail + 1) % b.m_size
    m_head := ((b.m_tail + 1) % b.m_size + b.m_size - 1) % b.m_size }

theorem add_eq {b : CircularBuffer T} (ht : b.m_tail < b.m_buffer.length) (hs : b.m_size ≠ 0) (v : T) :
    b.add v = .ok (b.added v) := by
  simp only [add, store_lt v ht, updateHeadTail, bind, Except.bind, if_neg hs, added]

theorem holds_add {dflt : T} {n : Nat} (hn : 0 < n) {vs : List T} {b : CircularBuffer T} (h : Holds dflt n vs b)
    (v : T) : b.add v = .ok (b.added v) ∧ Holds dflt n (vs ++ [v]) (b.added v) := by
  obtain ⟨hs, ht, hring⟩ := (holds_iff hn).mp h
  have hlt : b.m_tail < b.m_buffer.length := by rw [hring.length]; exact hring.cursor
  refine ⟨add_eq hlt (by omega) v, (holds_iff hn).mpr ⟨hs, ?_, ?_⟩⟩
  · simp only [added, hs, ht, List.length_append, List.length_singleton, Nat.mod_add_mod]
  · simp only [added, hs]
    exact hring.write v

/-- The value added `n` adds ago, `dflt` when there were fewer. -/
def oldest (dflt : T) (n : Nat) (vs : List T) : T :=
  if n ≤ vs.length then vs[vs.length - n]?.getD dflt else dflt

theorem oldest_eq (dflt : T) {n : Nat} (hn : 0 < n) (vs : List T) : oldest dflt n vs = Ring.recent dflt vs (n - 1) := by
  unfold oldest
  split
  · have hlt : n - 1 < vs.length := by omega
    rw [show vs.length - n = vs.length - 1 - (n - 1) by omega, ← Ring.recent_eq hlt]
    rfl
  · exact (Ring.recent_of_le (by omega)).symm

theorem holds_back {dflt : T} {n : Nat} (hn : 0 < n) {vs : List T} {b : CircularBuffer T} (h : Holds dflt n vs b) :
    b.back = .ok (oldest dflt n vs) := by
  obtain ⟨-, -, hring⟩ := (holds_iff hn).mp h
  rw [oldest_eq dflt hn]
  exact subscript_ok.mpr hring.due

end CircularBuffer

end LeapSyncFfh
