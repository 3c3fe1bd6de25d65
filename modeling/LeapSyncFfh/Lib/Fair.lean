/-
  LeapSyncFfh.Lib.Fair — what every fair schedule brings about.

  A schedule is an infinite list of labels; `after` is the state it has reached after `n` of
  them, or the fault it ended with. `Recurs h` says that labels of the kind `h` come again
  and again. `Eventually` is what a schedule comes to, unless it ends with a fault first.

  `eventually_helped`: while `Q` does not hold, each state names a kind of label that helps
  (`help`). If such a step lowers the rank, no step raises it, and a step that leaves the
  rank leaves the helpful kind, then a schedule in which every helpful kind recurs comes
  to `Q`.
-/

import LeapSyncFfh.Lib.Emit

namespace Emit

variable {ω ε σ ι : Type} (step : σ → ι → Emit ω ε σ)

def after (sched : Nat → ι) (s : σ) : Nat → Except ε σ
  | 0 => .ok s
  | n + 1 => match after sched s n with
    | .ok t => (step t (sched n)).res
    | .error e => .error e

def Recurs (h : ι → Prop) (sched : Nat → ι) : Prop := ∀ n, ∃ m, n ≤ m ∧ h (sched m)

/-- From the `n`-th label on: a fault, or a state with `Q`. -/
def Eventually (sched : Nat → ι) (s : σ) (Q : σ → Prop) (n : Nat) : Prop :=
  ∃ m, n ≤ m ∧ ((∃ e, after step sched s m = .error e) ∨ ∃ t, after step sched s m = .ok t ∧ Q t)

variable {step} {sched : Nat → ι} {s : σ}

theorem Eventually.mono {Q R : σ → Prop} {n : Nat} (h : Eventually step sched s Q n) (hQR : ∀ t, Q t → R t) :
    Eventually step sched s R n := by
  obtain ⟨m, hm, he | ⟨t, ht, hQ⟩⟩ := h
  · exact ⟨m, hm, Or.inl he⟩
  · exact ⟨m, hm, Or.inr ⟨t, ht, hQR t hQ⟩⟩

theorem Eventually.earlier {Q : σ → Prop} {n k : Nat} (h : Eventually step sched s Q k) (hk : n ≤ k) :
    Eventually step sched s Q n := by
  obtain ⟨m, hm, h⟩ := h
  exact ⟨m, Nat.le_trans hk hm, h⟩

/-- One helpful step: until it comes, `P` stays. -/
theorem eventually_ensures {P Q : σ → Prop} {h : ι → Prop} (hfair : Recurs h sched)
    (hkeep : ∀ t i u, P t → (step t i).res = .ok u → P u ∨ Q u)
    (hhelp : ∀ t i u, P t → h i → (step t i).res = .ok u → Q u) {n : Nat} {t : σ} (ht : after step sched s n = .ok t)
    (hP : P t) : Eventually step sched s Q n := by
  obtain ⟨m, hnm, hm⟩ := hfair n
  obtain ⟨d, rfl⟩ := Nat.exists_eq_add_of_le hnm
  -- up to the helpful label the schedule has come to `Q`, or still stands at `P`
  have stays : ∀ k, Eventually step sched s Q n ∨ ∃ u, after step sched s (n + k) = .ok u ∧ P u := by
    intro k
    induction k with
    | zero => exact Or.inr ⟨t, ht, hP⟩
    | succ k ih =>
      rcases ih with h | ⟨u, hu, hPu⟩
      · exact Or.inl h
      have hnext : after step sched s (n + (k + 1)) = (step u (sched (n + k))).res := by
        rw [← Nat.add_assoc, after, hu]
      cases hv : (step u (sched (n + k))).res with
      | error e => exact Or.inl ⟨n + (k + 1), by omega, Or.inl ⟨e, hnext.trans hv⟩⟩
      | ok v =>
        rcases hkeep u _ v hPu hv with hPv | hQv
        · exact Or.inr ⟨v, hnext.trans hv, hPv⟩
        · exact Or.inl ⟨n + (k + 1), by omega, Or.inr ⟨v, hnext.trans hv, hQv⟩⟩
  rcases stays d with h | ⟨u, hu, hPu⟩
  · exact h
  · have hnext : after step sched s (n + d + 1) = (step u (sched (n + d))).res := by rw [after, hu]
    cases hv : (step u (sched (n + d))).res with
    | error e => exact ⟨n + d + 1, by omega, Or.inl ⟨e, hnext.trans hv⟩⟩
    | ok v => exact ⟨n + d + 1, by omega, Or.inr ⟨v, hnext.trans hv, hhelp u _ v hPu hm hv⟩⟩

theorem eventually_helped {P Q : σ → Prop} (rank : σ → Nat) {κ : Type} (help : σ → κ) (kind : κ → ι → Prop)
    (hfair : ∀ t, P t → Recurs (kind (help t)) sched)
    (hkeep : ∀ t i u, P t → (step t i).res = .ok u → Q u ∨ P u ∧ (rank u < rank t ∨ rank u = rank t ∧ help u = help t))
    (hhelp : ∀ t i u, P t → kind (help t) i → (step t i).res = .ok u → Q u ∨ P u ∧ rank u < rank t) {n : Nat} {t : σ}
    (ht : after step sched s n = .ok t) (hP : P t) : Eventually step sched s Q n := by
  induction hr : rank t using Nat.strongRecOn generalizing n t with
  | ind r ih =>
    have hensures : Eventually step sched s (fun u => Q u ∨ P u ∧ rank u < r) n := by
      refine eventually_ensures (P := fun u => P u ∧ rank u = r ∧ help u = help t) (hfair t hP) ?_ ?_ ht ⟨hP, hr, rfl⟩
      · rintro u i v ⟨hPu, hru, hhu⟩ hv
        rcases hkeep u i v hPu hv with hQ | ⟨hPv, hlt | ⟨heq, hsame⟩⟩
        · exact Or.inr (Or.inl hQ)
        · exact Or.inr (Or.inr ⟨hPv, hru ▸ hlt⟩)
        · exact Or.inl ⟨hPv, heq.trans hru, hsame.trans hhu⟩
      · rintro u i v ⟨hPu, hru, hhu⟩ hi hv
        rcases hhelp u i v hPu (hhu ▸ hi) hv with hQ | ⟨hPv, hlt⟩
        · exact Or.inl hQ
        · exact Or.inr ⟨hPv, hru ▸ hlt⟩
    obtain ⟨m, hm, he | ⟨u, hu, hQ | ⟨hPu, hlt⟩⟩⟩ := hensures
    · exact ⟨m, hm, Or.inl he⟩
    · exact ⟨m, hm, Or.inr ⟨u, hu, hQ⟩⟩
    · exact (ih (rank u) hlt hu hPu rfl).earlier hm

end Emit
