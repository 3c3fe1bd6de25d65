/-
  LeapSyncFfh.Ffh.HandTypes — the hand command (`udp_hand_types.hpp`).

  A command is five fingers of four angles each, in any type of angles. `get` and `set`
  read and write one angle; a command is its twenty angles (`ext_get`).
-/

import LeapSyncFfh.Common.Literals
import LeapSyncFfh.Lib.Cells

namespace LeapSyncFfh

variable {A : Type}

structure udp_finger_cmd (A : Type) where
  angle : Fin 4 → A

structure udp_hand_cmd (A : Type) where
  finger : Fin 5 → udp_finger_cmd A

inductive FJIndex where
  | Distal
  | FbDir
  | LrDir
  | ThumbPalm
  deriving DecidableEq, Repr

def FJIndex.toFin : FJIndex → Fin 4
  | .Distal => 0
  | .FbDir => 1
  | .LrDir => 2
  | .ThumbPalm => 3

/-- The hands, in the order of `FFHEnumClass`. -/
def left_hand : Nat := 0

def handTotalNum : Nat := 2

def LIMIT_HCMD_LOWER [Ring A] : Fin 4 → A := ![0, 0, -15, -30]

def LIMIT_HCMD_UPPER [Ring A] : Fin 4 → A := ![90, 90, 15, 30]

namespace udp_hand_cmd

def get (c : udp_hand_cmd A) (i : Fin 5) (j : Fin 4) : A := (c.finger i).angle j

def set (c : udp_hand_cmd A) (i : Fin 5) (j : Fin 4) (a : A) : udp_hand_cmd A :=
  ⟨Function.update c.finger i ⟨Function.update (c.finger i).angle j a⟩⟩

/-- `memset(&cmd, 0, sizeof(udp_hand_cmd))`. -/
def zero [Zero A] : udp_hand_cmd A := ⟨fun _ => ⟨fun _ => 0⟩⟩

@[simp] theorem get_zero [Zero A] (i : Fin 5) (j : Fin 4) : (zero : udp_hand_cmd A).get i j = 0 := rfl

@[simp] theorem get_set_same (c : udp_hand_cmd A) (i : Fin 5) (j : Fin 4) (a : A) : (c.set i j a).get i j = a := by
  simp [get, set]

theorem get_set_other (c : udp_hand_cmd A) {i k : Fin 5} {j l : Fin 4} (a : A) (h : k ≠ i ∨ l ≠ j) :
    (c.set i j a).get k l = c.get k l := by
  by_cases hk : k = i
  · subst hk
    rcases h with h | h
    · exact absurd rfl h
    · simp [get, set, Function.update_of_ne h]
  · simp [get, set, Function.update_of_ne hk]

theorem get_set (c : udp_hand_cmd A) (i k : Fin 5) (j l : Fin 4) (a : A) :
    (c.set i j a).get k l = if k = i ∧ l = j then a else c.get k l := by
  split
  · rename_i h; obtain ⟨rfl, rfl⟩ := h; exact get_set_same c k l a
  · rename_i h; exact get_set_other c a (by by_contra hn; push Not at hn; exact h hn)

theorem ext_get {c d : udp_hand_cmd A} (h : ∀ i j, c.get i j = d.get i j) : c = d := by
  obtain ⟨c⟩ := c
  obtain ⟨d⟩ := d
  congr 1
  funext i
  have hi := h i
  simp only [get] at hi
  cases hc : c i with
  | mk a =>
    cases hd : d i with
    | mk b => rw [hc, hd] at hi; exact congrArg udp_finger_cmd.mk (funext hi)

/-- The cells of a command, as a store. -/
theorem cells_lawful : Cells.Lawful (fun (c : udp_hand_cmd A) (p : Fin 5 × Fin 4) => c.get p.1 p.2)
    (fun c p a => c.set p.1 p.2 a) where
  same := fun c p a => get_set_same c p.1 p.2 a
  other := fun c p q a h => get_set_other c a (by
    by_contra hn
    push Not at hn
    exact h (Prod.ext hn.1 hn.2))

end udp_hand_cmd

end LeapSyncFfh
