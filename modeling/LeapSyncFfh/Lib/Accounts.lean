/-
  LeapSyncFfh.Lib.Accounts — computations against an account that is kept of the outputs.

  `Accounts account ok g Q x`: begun with the account `g`, every output of `x` is allowed by
  the account of those before it, also where `x` ends in a fault, and a value it returns
  meets `Q` with the account then. The rules follow the constructors; a computation whose
  outputs move no account needs only a `Sat` (`accounts_idle`), and `accounts_runs` is the
  run rule. `heeds_at` reads off what is allowed at one place of a trace.
-/

import LeapSyncFfh.Lib.Emit

namespace Emit

variable {ω ε α β γ σ ι : Type} {account : γ → ω → γ} {ok : γ → ω → Prop}

/-- Each output is allowed by the account of those before it. -/
theorem heeds_at {g : γ} {tr tr' : List ω} {w : ω} (h : Heeds account ok g (tr ++ w :: tr')) :
    ok (tr.foldl account g) w := ((heeds_append account ok g tr (w :: tr')).mp h).2.1

variable (account ok) in
structure Accounts (g : γ) (Q : γ → α → Prop) (x : Emit ω ε α) : Prop where
  heeds : Heeds account ok g x.out
  returns : ∀ a, x.res = .ok a → Q (x.out.foldl account g) a

variable {g : γ} {Q : γ → α → Prop} {R : γ → β → Prop}

theorem accounts_pure {a : α} (h : Q g a) : Accounts account ok g Q (pure a : Emit ω ε α) where
  heeds := trivial
  returns b hb := by cases hb; exact h

theorem accounts_fail (e : ε) : Accounts account ok g Q (fail e : Emit ω ε α) := ⟨trivial, nofun⟩

theorem accounts_bind {x : Emit ω ε α} {k : α → Emit ω ε β} (hx : Accounts account ok g Q x)
    (hk : ∀ g' a, Q g' a → Accounts account ok g' R (k a)) : Accounts account ok g R (x >>= k) := by
  cases hres : x.res with
  | error e =>
    rw [bind_of_error hres]
    exact ⟨hx.heeds, nofun⟩
  | ok a =>
    obtain ⟨hheeds, hret⟩ := hk _ a (hx.returns a hres)
    rw [bind_of_ok hres]
    refine ⟨(heeds_append account ok g x.out _).mpr ⟨hx.heeds, hheeds⟩, fun b hb => ?_⟩
    rw [List.foldl_append]
    exact hret b hb

theorem accounts_mono {Q' : γ → α → Prop} {x : Emit ω ε α} (hx : Accounts account ok g Q x)
    (h : ∀ g' a, Q g' a → Q' g' a) : Accounts account ok g Q' x :=
  ⟨hx.heeds, fun a ha => h _ a (hx.returns a ha)⟩

/-- Outputs that move no account. -/
theorem accounts_idle {P : α → Prop} {x : Emit ω ε α} (h : Sat (fun w => account g w = g ∧ ok g w) P x) :
    Accounts account ok g (fun g' a => g' = g ∧ P a) x := by
  obtain ⟨hheeds, hfold⟩ := heeds_idle account ok h.1
  exact ⟨hheeds, fun a ha => ⟨hfold, h.2 a ha⟩⟩

theorem accounts_runs {step : σ → ι → Emit ω ε σ} {I : γ → σ → Prop}
    (hstep : ∀ g s i, I g s → Accounts account ok g I (step s i)) (is : List ι) {s : σ} (h : I g s) :
    Accounts account ok g I (runs step s is) := by
  obtain ⟨hheeds, hret⟩ := runs_heeds step account ok (fun g s i hs => ⟨(hstep g s i hs).heeds, (hstep g s i hs).returns⟩) is
    g s h
  exact ⟨hheeds, hret⟩

end Emit
