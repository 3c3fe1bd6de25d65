/-
  LeapSyncFfh.Lib.Follows — a computation that does what a plainer one does.

  `Follows g Q x y`: `x` emits what `y` emits and ends as it does; a value of `x` stands to
  that of `y` as `Q` says, and a fault of `y` is renamed by `g`. So `x` has no fault that
  `y` has not. The rules follow the constructors; `follows_runs` is the run rule, for a step
  relation between the states.
-/

import LeapSyncFfh.Lib.Emit

namespace Emit

variable {ω ε ε' α β γ δ σ τ ι : Type} {g : ε' → ε}

/-- The same computation, its fault renamed. -/
def mapError (g : ε' → ε) (x : Emit ω ε' α) : Emit ω ε α := ⟨x.out, x.res.mapError g⟩

structure Follows (g : ε' → ε) (Q : α → β → Prop) (x : Emit ω ε α) (y : Emit ω ε' β) : Prop where
  out : x.out = y.out
  fault : ∀ e, y.res = .error e → x.res = .error (g e)
  returns : ∀ b, y.res = .ok b → ∃ a, x.res = .ok a ∧ Q a b

section Rules

variable {Q : α → β → Prop} {R : γ → δ → Prop}

theorem follows_pure {a : α} {b : β} (h : Q a b) : Follows g Q (pure a : Emit ω ε α) (pure b) :=
  ⟨rfl, nofun, fun _ hb => ⟨a, rfl, by cases hb; exact h⟩⟩

theorem follows_emit (w : ω) : Follows g (fun _ _ => True) (emit w : Emit ω ε Unit) (emit w) :=
  ⟨rfl, nofun, fun _ _ => ⟨(), rfl, trivial⟩⟩

/-- Its own computation, renamed. -/
theorem follows_mapError (y : Emit ω ε' β) : Follows g (fun a b => a = b ∧ y.res = .ok b) (mapError g y) y where
  out := rfl
  fault e he := by rw [mapError, he]; rfl
  returns b hb := ⟨b, by rw [mapError, hb]; rfl, rfl, hb⟩

theorem follows_bind {x : Emit ω ε α} {y : Emit ω ε' β} {k : α → Emit ω ε γ} {l : β → Emit ω ε' δ}
    (hx : Follows g Q x y) (hk : ∀ a b, Q a b → Follows g R (k a) (l b)) : Follows g R (x >>= k) (y >>= l) := by
  cases hy : y.res with
  | error e =>
    rw [bind_of_error hy, bind_of_error (hx.fault e hy)]
    exact ⟨hx.out, fun _ he => (by cases he; rfl), nofun⟩
  | ok b =>
    obtain ⟨a, ha, hQ⟩ := hx.returns b hy
    rw [bind_of_ok hy, bind_of_ok ha]
    have h := hk a b hQ
    exact ⟨by rw [hx.out, h.out], h.fault, h.returns⟩

/-- And then what `x` alone does. -/
theorem follows_more {x : Emit ω ε α} {y : Emit ω ε' β} {k : α → Emit ω ε γ} {R : γ → β → Prop} (hx : Follows g Q x y)
    (hk : ∀ a b, Q a b → Follows g R (k a) (pure b : Emit ω ε' β)) : Follows g R (x >>= k) y := by
  conv => rhs; rw [← bind_pure y]
  exact follows_bind hx hk

theorem follows_then {y : Emit ω ε' β} {k : β → Emit ω ε γ} {R : γ → β → Prop}
    (hk : ∀ b, y.res = .ok b → Follows g R (k b) (pure b : Emit ω ε' β)) : Follows g R (mapError g y >>= k) y := by
  refine follows_more (follows_mapError y) ?_
  rintro a _ ⟨rfl, h⟩
  exact hk a h

end Rules

/-- A run of steps that follow is followed. -/
theorem follows_runs {step : σ → ι → Emit ω ε σ} {step' : τ → ι → Emit ω ε' τ} {Q : σ → τ → Prop}
    (hstep : ∀ s t i, Q s t → Follows g Q (step s i) (step' t i)) (is : List ι) {s : σ} {t : τ} (h : Q s t) :
    Follows g Q (runs step s is) (runs step' t is) := by
  induction is generalizing s t with
  | nil => exact follows_pure h
  | cons i is ih => exact follows_bind (hstep s t i h) fun _ _ h' => ih h'

theorem mapOut_bind {ω' : Type} (f : ω → ω') (x : Emit ω ε α) (k : α → Emit ω ε β) :
    mapOut f (x >>= k) = mapOut f x >>= fun a => mapOut f (k a) := by
  cases hx : x.res with
  | error e => rw [bind_of_error hx, bind_of_error (show (mapOut f x).res = .error e from hx)]; rfl
  | ok a =>
    rw [bind_of_ok hx, bind_of_ok (show (mapOut f x).res = .ok a from hx)]
    exact Emit.ext (List.map_append ..) rfl

/-- The outputs of the plainer run renamed. -/
theorem follows_mapOut_runs {ω' : Type} {f : ω' → ω} {step : σ → ι → Emit ω ε σ} {step' : τ → ι → Emit ω' ε' τ}
    {Q : σ → τ → Prop} (hstep : ∀ s t i, Q s t → Follows g Q (step s i) (mapOut f (step' t i))) (is : List ι) {s : σ}
    {t : τ} (h : Q s t) : Follows g Q (runs step s is) (mapOut f (runs step' t is)) := by
  induction is generalizing s t with
  | nil => exact follows_pure h
  | cons i is ih =>
    rw [runs, runs, mapOut_bind]
    exact follows_bind (hstep s t i h) fun _ _ h' => ih h'

/-- What it can end with. -/
theorem Follows.renamed {Q : α → β → Prop} {x : Emit ω ε α} {y : Emit ω ε' β} (h : Follows g Q x y) {e : ε}
    (he : x.res = .error e) : ∃ e', y.res = .error e' ∧ e = g e' := by
  cases hy : y.res with
  | error e' =>
    refine ⟨e', rfl, ?_⟩
    rw [h.fault e' hy] at he
    exact (Except.error.inj he).symm
  | ok b =>
    obtain ⟨a, ha, -⟩ := h.returns b hy
    rw [ha] at he
    cases he

/-- What it returned. -/
theorem Follows.returned {Q : α → β → Prop} {x : Emit ω ε α} {y : Emit ω ε' β} (h : Follows g Q x y) {a : α}
    (ha : x.res = .ok a) : ∃ b, y.res = .ok b ∧ Q a b := by
  cases hy : y.res with
  | error e =>
    rw [h.fault e hy] at ha
    cases ha
  | ok b =>
    obtain ⟨a', ha', hQ⟩ := h.returns b hy
    rw [ha] at ha'
    cases ha'
    exact ⟨b, rfl, hQ⟩

end Emit
