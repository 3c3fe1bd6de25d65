/-
  LeapSyncFfh.Lib.Told — what a listener was told last.

  A notice `(l, c)` tells the listener `l` something. A reading `p` picks the notices that
  speak about one thing and says what they tell of it; `told p d l out` is the last that `l`
  was told of it by the notices `out`, and `d` if nothing was.
-/

import Mathlib.Init

namespace LeapSyncFfh

variable {α β δ : Type} [DecidableEq α]

def told (p : β → Option δ) (d : δ) (l : α) (out : List (α × β)) : δ :=
  out.foldl (fun v w => if w.1 = l then (p w.2).getD v else v) d

variable (p : β → Option δ) (d : δ) (l : α)

@[simp] theorem told_nil : told p d l [] = d := rfl

@[simp] theorem told_append (out out' : List (α × β)) : told p d l (out ++ out') = told p (told p d l out) l out' :=
  List.foldl_append

@[simp] theorem told_cons (w : α × β) (out : List (α × β)) :
    told p d l (w :: out) = told p (if w.1 = l then (p w.2).getD d else d) l out := rfl

/-- A notice to each of `ls`. -/
@[simp] theorem told_map (ls : List α) (c : β) :
    told p d l (ls.map fun k => (k, c)) = if l ∈ ls then (p c).getD d else d := by
  induction ls generalizing d with
  | nil => simp
  | cons k ls ih =>
    rw [List.map_cons, told_cons, ih]
    by_cases hk : k = l
    · subst hk
      by_cases hmem : k ∈ ls <;> cases p c <;> simp [hmem]
    · simp [hk, Ne.symm hk]

end LeapSyncFfh
