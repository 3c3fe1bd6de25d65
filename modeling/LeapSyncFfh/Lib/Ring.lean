/-
  LeapSyncFfh.Lib.Ring — a ring of `n` cells written in turn, and the bounded queue.

  The cursor `tail` is the cell that is written next. `slot n tail k` is the cell written
  `k` writes before the last one: going back one write and moving the cursor on meet in
  the same cell (`slot_next`), and the cell about to be written is the one `n` writes old
  (`slot_last`).

  `Latest d n vs tail cells`: the cells after the writes `vs`, oldest first, on cells that
  all held `d`. `Latest.write` is the rule for a write; in a ring that was written all
  around, the cells from the cursor on are the last `n` values (`Latest.rotate`).

  `push cap` and `List.tail` are a queue of capacity `cap` that drops its oldest item when
  one is pushed on it full.
-/

import Mathlib.Data.List.Rotate

namespace Ring

variable {α : Type}

/-! ## The cells by age -/

def slot (n tail k : Nat) : Nat := (tail + n - 1 - k) % n

/-- The cursor after a write. -/
theorem next_eq {n tail : Nat} (ht : tail < n) : (tail + 1) % n = if tail + 1 = n then 0 else tail + 1 := by
  split
  · rename_i h
    rw [h, Nat.mod_self]
  · exact Nat.mod_eq_of_lt (by omega)

theorem slot_eq {n tail k : Nat} (ht : tail < n) (hk : k < n) :
    slot n tail k = if k < tail then tail - 1 - k else tail + n - 1 - k := by
  unfold slot
  split
  · rw [show tail + n - 1 - k = tail - 1 - k + n by omega, Nat.add_mod_right, Nat.mod_eq_of_lt (by omega)]
  · exact Nat.mod_eq_of_lt (by omega)

theorem slot_lt {n tail k : Nat} (ht : tail < n) : slot n tail k < n := Nat.mod_lt _ (by omega)

theorem slot_inj {n tail k l : Nat} (ht : tail < n) (hk : k < n) (hl : l < n) (h : slot n tail k = slot n tail l) :
    k = l := by
  rw [slot_eq ht hk, slot_eq ht hl] at h
  split at h <;> split at h <;> omega

/-- The last write is the cell that the cursor has left. -/
theorem slot_first {n tail : Nat} (ht : tail < n) : slot n ((tail + 1) % n) 0 = tail := by
  have hn : 0 < n := by omega
  rw [slot_eq (Nat.mod_lt _ hn) hn, next_eq ht]
  split <;> split <;> omega

theorem slot_next {n tail k : Nat} (ht : tail < n) (hk : k + 1 < n) :
    slot n ((tail + 1) % n) (k + 1) = slot n tail k := by
  rw [slot_eq (Nat.mod_lt _ (by omega)) hk, slot_eq ht (by omega), next_eq ht]
  split <;> split <;> split <;> omega

theorem slot_last {n tail : Nat} (ht : tail < n) : slot n tail (n - 1) = tail := by
  rw [slot_eq ht (by omega)]
  split <;> omega

/-- The cell of the last write is the one before the cursor. -/
theorem slot_zero {n tail : Nat} (ht : tail < n) : slot n tail 0 = if 0 < tail then tail - 1 else n - 1 := by
  rw [slot_eq ht (by omega)]
  split <;> omega

/-- With the cursor at the number of writes `c`: a write is in the cell of its own number. -/
theorem slot_written {n c k : Nat} (hk : k < n) (hc : k < c) : slot n (c % n) k = (c - 1 - k) % n := by
  have hdiv := Nat.div_add_mod c n
  have hsum : c % n + n - 1 - k + n * (c / n) = c - 1 - k + n := by omega
  rw [slot, ← Nat.add_mul_mod_self_left (c % n + n - 1 - k) n (c / n), hsum, Nat.add_mod_right]

/-- The cells that are not written yet. -/
theorem slot_fresh {n c k : Nat} (hk : k < n) (hc : c ≤ k) : slot n (c % n) k = c + n - 1 - k := by
  rw [slot, Nat.mod_eq_of_lt (by omega : c < n), Nat.mod_eq_of_lt (by omega)]

theorem next_slot_zero {n tail : Nat} (ht : tail < n) : (slot n tail 0 + 1) % n = tail := by
  rw [next_eq (slot_lt ht), slot_zero ht]
  split <;> split <;> omega

/-! ## The values in the cells -/

/-- The value written `k` writes before the last, `d` when there were not so many. -/
def recent (d : α) (vs : List α) (k : Nat) : α := vs.reverse[k]?.getD d

@[simp] theorem recent_snoc_zero (d : α) (vs : List α) (v : α) : recent d (vs ++ [v]) 0 = v := by simp [recent]

@[simp] theorem recent_snoc_succ (d : α) (vs : List α) (v : α) (k : Nat) :
    recent d (vs ++ [v]) (k + 1) = recent d vs k := by simp [recent]

theorem recent_eq {d : α} {vs : List α} {k : Nat} (hk : k < vs.length) : some (recent d vs k) = vs[vs.length - 1 - k]? := by
  rw [recent, List.getElem?_reverse hk, List.getElem?_eq_getElem (by omega)]
  rfl

theorem recent_of_le {d : α} {vs : List α} {k : Nat} (hk : vs.length ≤ k) : recent d vs k = d := by
  rw [recent, List.getElem?_eq_none (by rw [List.length_reverse]; exact hk)]
  rfl

structure Latest (d : α) (n : Nat) (vs : List α) (tail : Nat) (cells : List α) : Prop where
  length : cells.length = n
  cursor : tail < n
  cell : ∀ k < n, cells[slot n tail k]? = some (recent d vs k)

namespace Latest

variable {d : α} {n tail : Nat} {vs cells : List α}

theorem fresh (ht : tail < n) : Latest d n [] tail (List.replicate n d) where
  length := List.length_replicate
  cursor := ht
  cell := fun k _ => by
    rw [List.getElem?_replicate, if_pos (slot_lt ht)]
    rfl

theorem write (h : Latest d n vs tail cells) (v : α) :
    Latest d n (vs ++ [v]) ((tail + 1) % n) (cells.set tail v) where
  length := by rw [List.length_set, h.length]
  cursor := Nat.mod_lt _ (by have := h.cursor; omega)
  cell := fun k hk => by
    cases k with
    | zero =>
      rw [slot_first h.cursor, List.getElem?_set_self (by rw [h.length]; exact h.cursor), recent_snoc_zero]
    | succ k =>
      -- only the write `n` writes old is in the cell written now
      have hne : tail ≠ slot n tail k := by
        intro e
        have hlast := slot_inj h.cursor (by omega) (by omega) ((slot_last h.cursor).trans e)
        omega
      rw [slot_next h.cursor hk, List.getElem?_set_ne hne, h.cell k (by omega), recent_snoc_succ]

/-- What the next write will overwrite. -/
theorem due (h : Latest d n vs tail cells) : cells[tail]? = some (recent d vs (n - 1)) := by
  have hn := h.cursor
  have hcell := h.cell (n - 1) (by omega)
  rwa [slot_last hn] at hcell

theorem rotate (h : Latest d n vs tail cells) (hvs : n ≤ vs.length) :
    cells.rotate tail = vs.drop (vs.length - n) := by
  have hn := h.cursor
  apply List.ext_getElem
  · simp only [List.length_rotate, List.length_drop, h.length]
    omega
  · intro i hi hi'
    rw [List.length_rotate, h.length] at hi
    have hslot : slot n tail (n - 1 - i) = (i + tail) % n := by
      rw [slot, show tail + n - 1 - (n - 1 - i) = i + tail by omega]
    have hcell := h.cell (n - 1 - i) (by omega)
    rw [hslot, recent_eq (by omega), List.getElem?_eq_getElem (by rw [h.length]; exact Nat.mod_lt _ (by omega)),
      List.getElem?_eq_getElem (by omega), Option.some.injEq] at hcell
    rw [List.getElem_rotate, List.getElem_drop]
    simp only [h.length, hcell]
    congr 1
    omega

end Latest

/-! ## The bounded queue -/

def push (cap : Nat) (q : List α) (v : α) : List α := (q ++ [v]).drop (q.length + 1 - cap)

@[simp] theorem push_length (cap : Nat) (q : List α) (v : α) : (push cap q v).length = min cap (q.length + 1) := by
  simp only [push, List.length_drop, List.length_append, List.length_singleton]
  omega

theorem push_nil {cap : Nat} (hcap : 0 < cap) (v : α) : push cap [] v = [v] := by
  have hzero : 0 + 1 - cap = 0 := by omega
  simp [push, hzero]

/-- A queue for one item keeps the last. -/
theorem push_one (q : List α) (v : α) : push 1 q v = [v] := by simp [push]

end Ring
