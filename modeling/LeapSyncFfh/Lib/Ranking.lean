/-
  LeapSyncFfh.Lib.Ranking — runs that come to an end.

  `Ranked step c I rank credit`: from the invariant `I`, a step permitted by `c` lowers
  `rank` by one, but for the credit of its label. A label with credit is one that the
  environment adds, such as a spurious wake-up. `bound`: a permitted run is no longer than
  the rank it starts from and the credit of its labels. `settles`: without credit there is
  a permitted run that ends where nothing is permitted any more.

  A rank of a system of threads is a sum over them; `sum_set` is what one thread's step
  makes of it. `Reaches` is for schedules that are built piece by piece.
-/

import Mathlib
import LeapSyncFfh.Lib.Emit

namespace Emit

variable {ω ε σ ι : Type}

/-! ## Ranks -/

structure Ranked (step : σ → ι → Emit ω ε σ) (c : σ → ι → Prop) (I : σ → Prop) (rank : σ → Nat) (credit : ι → Nat) :
    Prop where
  keeps : ∀ s i t, I s → c s i → (step s i).res = .ok t → I t
  falls : ∀ s i t, I s → c s i → (step s i).res = .ok t → rank t + 1 ≤ rank s + credit i

variable {step : σ → ι → Emit ω ε σ} {c : σ → ι → Prop} {I : σ → Prop} {rank : σ → Nat} {credit : ι → Nat}

theorem Ranked.bound (h : Ranked step c I rank credit) {is : List ι} {s t : σ} (hs : I s) (hc : Along step c s is)
    (ht : (runs step s is).res = .ok t) : I t ∧ is.length + rank t ≤ rank s + (is.map credit).sum := by
  induction is generalizing s with
  | nil =>
    cases ht
    exact ⟨hs, by simp⟩
  | cons i is ih =>
    obtain ⟨u, hu, hrest, -⟩ := bind_ok_split ht
    obtain ⟨hi, hle⟩ := ih (h.keeps s i u hs hc.1 hu) (hc.2 u hu) hrest
    have hfall := h.falls s i u hs hc.1 hu
    refine ⟨hi, ?_⟩
    simp only [List.length_cons, List.map_cons, List.sum_cons]
    omega

/-- Permitted steps can be taken until none is left. -/
theorem Ranked.settles (h : Ranked step c I rank fun _ => 0) (hret : ∀ s i, c s i → ∃ t, (step s i).res = .ok t) {s : σ}
    (hs : I s) : ∃ is t, (runs step s is).res = .ok t ∧ Along step c s is ∧ I t ∧ ∀ i, ¬ c t i := by
  induction hn : rank s using Nat.strongRecOn generalizing s with
  | ind n ih =>
    by_cases hany : ∃ i, c s i
    · obtain ⟨i, hi⟩ := hany
      obtain ⟨u, hu⟩ := hret s i hi
      have hfall := h.falls s i u hs hi hu
      obtain ⟨is, t, ht, hc, hkept, hend⟩ := ih (rank u) (by omega) (h.keeps s i u hs hi hu) rfl
      refine ⟨i :: is, t, by rw [runs, bind_of_ok hu]; exact ht, ⟨hi, fun v hv => ?_⟩, hkept, hend⟩
      obtain rfl : u = v := Except.ok.inj (hu.symm.trans hv)
      exact hc
    · exact ⟨[], s, rfl, trivial, hs, fun i hi => hany ⟨i, hi⟩⟩

/-! ## States that a run reaches -/

def Reaches (step : σ → ι → Emit ω ε σ) (s t : σ) : Prop := ∃ is, (runs step s is).res = .ok t

theorem Reaches.refl (s : σ) : Reaches step s s := ⟨[], rfl⟩

theorem Reaches.head {i : ι} {s t u : σ} (hi : (step s i).res = .ok t) (h : Reaches step t u) : Reaches step s u := by
  obtain ⟨is, his⟩ := h
  exact ⟨i :: is, by rw [runs, bind_of_ok hi]; exact his⟩

theorem Reaches.trans {s t u : σ} (h : Reaches step s t) (h' : Reaches step t u) : Reaches step s u := by
  obtain ⟨is, his⟩ := h
  obtain ⟨js, hjs⟩ := h'
  exact ⟨is ++ js, by rw [runs_append, bind_of_ok his]; exact hjs⟩

/-! ## Sums over threads -/

/-- The sum of `f` over the threads, each with its phase. -/
def total {α β : Type} (f : α → β → Nat) (as : List α) (bs : List β) : Nat := (List.zipWith f as bs).sum

section Total

variable {α β : Type} {f : α → β → Nat} {as : List α} {bs : List β}

theorem sum_set {i : Nat} {a : α} {b : β} (ha : as[i]? = some a) (hb : bs[i]? = some b) (a' : α) (b' : β) :
    total f (as.set i a') (bs.set i b') + f a b = total f as bs + f a' b' := by
  induction as generalizing i bs with
  | nil => cases ha
  | cons x as ih =>
    cases bs with
    | nil => cases hb
    | cons y bs =>
      cases i with
      | zero =>
        obtain rfl : x = a := by simpa using ha
        obtain rfl : y = b := by simpa using hb
        simp only [total, List.set_cons_zero, List.zipWith_cons_cons, List.sum_cons]
        omega
      | succ i =>
        have := ih (i := i) (by simpa using ha) (by simpa using hb)
        simp only [total, List.set_cons_succ, List.zipWith_cons_cons, List.sum_cons] at this ⊢
        omega

/-- A term of a sum is at most the sum. -/
theorem le_total {i : Nat} {a : α} {b : β} (ha : as[i]? = some a) (hb : bs[i]? = some b) : f a b ≤ total f as bs := by
  induction as generalizing i bs with
  | nil => cases ha
  | cons x as ih =>
    cases bs with
    | nil => cases hb
    | cons y bs =>
      cases i with
      | zero =>
        obtain rfl : x = a := by simpa using ha
        obtain rfl : y = b := by simpa using hb
        simp [total]
      | succ i =>
        have := ih (i := i) (by simpa using ha) (by simpa using hb)
        simp only [total, List.zipWith_cons_cons, List.sum_cons] at this ⊢
        omega

theorem total_le {n : Nat} (h : ∀ a b, f a b ≤ n) : total f as bs ≤ n * as.length := by
  induction as generalizing bs with
  | nil => simp [total]
  | cons a as ih =>
    cases bs with
    | nil => simp [total]
    | cons b bs =>
      have hrest : total f as bs ≤ _ := ih
      have hhead := h a b
      simp only [total, List.zipWith_cons_cons, List.sum_cons, List.length_cons, Nat.mul_succ] at hrest ⊢
      omega

theorem total_le_countP {p : α → Bool} (h : ∀ a b, f a b ≤ if p a then 1 else 0) : total f as bs ≤ as.countP p := by
  induction as generalizing bs with
  | nil => simp [total]
  | cons a as ih =>
    cases bs with
    | nil => simp [total]
    | cons b bs =>
      have hrest : total f as bs ≤ _ := ih
      have hhead := h a b
      simp only [total, List.zipWith_cons_cons, List.sum_cons, List.countP_cons] at hrest ⊢
      omega

end Total

end Emit
