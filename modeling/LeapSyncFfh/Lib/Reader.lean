/-
  LeapSyncFfh.Lib.Reader — loops that read one word after another from an input that ends.

  A loop is its step from one read to the next, `read s word`; the word is `none` at the end
  of the input, and there it is again at every read that follows. `Turn` says whether the
  loop reads on or has returned, and `feed` is the loop over the words it is given.

  `Each P s ws`: every read of a word of `ws` that the loop comes to meets `P`.

  `Stops thrown run ws`: on the input `ws` the run returns or ends with a fault in `thrown`,
  after finitely many reads, and what it does at the end of the input emits nothing.
  `stops_cons` and `stops_nil` give it read by read for a loop, and a loop that can always
  read on at the end of the input never stops (`stuck`).
-/

import LeapSyncFfh.Lib.Emit
import Mathlib.Data.List.Basic

namespace Reader

inductive Turn (σ ρ : Type) where
  | reading (s : σ)
  | returned (r : ρ)

open Emit

variable {ω ε σ ρ τ : Type}

/-- What follows a turn: nothing once the loop has returned. -/
def andThen (f : σ → Emit ω ε (Turn σ ρ)) : Turn σ ρ → Emit ω ε (Turn σ ρ)
  | .reading s => f s
  | .returned r => pure (.returned r)

variable (read : σ → Option τ → Emit ω ε (Turn σ ρ))

def feed (s : σ) : List (Option τ) → Emit ω ε (Turn σ ρ)
  | [] => pure (.reading s)
  | w :: ws => read s w >>= andThen fun t => feed t ws

/-- Every read of a word that the loop comes to meets `P`. -/
def Each (P : σ → τ → Prop) (s : σ) : List τ → Prop
  | [] => True
  | w :: ws => P s w ∧ ∀ t, (read s (some w)).res = .ok (.reading t) → Each P t ws

/-- The words, and `n` more reads at the end of the input. -/
def input (ws : List τ) (n : Nat) : List (Option τ) := ws.map some ++ List.replicate n none

/-- The loop has come to an end. -/
def Over (thrown : ε → Prop) (x : Emit ω ε (Turn σ ρ)) : Prop :=
  (∃ r, x.res = .ok (.returned r)) ∨ ∃ e, x.res = .error e ∧ thrown e

structure Stops (thrown : ε → Prop) (run : List (Option τ) → Emit ω ε (Turn σ ρ)) (ws : List τ) : Prop where
  ended : ∃ n, Over thrown (run (input ws n))
  quiet : ∀ n, (run (input ws n)).out = (run (input ws 0)).out

/-- A fault of the read is thrown, and where the loop reads on `P` holds. -/
def After (thrown : ε → Prop) (P : σ → Prop) (x : Emit ω ε (Turn σ ρ)) : Prop :=
  (∀ e, x.res = .error e → thrown e) ∧ ∀ s, x.res = .ok (.reading s) → P s

/-! ## One read -/

section Feed

variable {read} {s : σ} {w : Option τ}

theorem feed_reading {t : σ} (h : (read s w).res = .ok (.reading t)) (ws : List (Option τ)) :
    feed read s (w :: ws) = ⟨(read s w).out ++ (feed read t ws).out, (feed read t ws).res⟩ := bind_of_ok h _

theorem feed_returned {r : ρ} (h : (read s w).res = .ok (.returned r)) (ws : List (Option τ)) :
    feed read s (w :: ws) = ⟨(read s w).out, .ok (.returned r)⟩ := by
  rw [feed, bind_of_ok h]
  simp [andThen]

theorem feed_error {e : ε} (h : (read s w).res = .error e) (ws : List (Option τ)) :
    feed read s (w :: ws) = ⟨(read s w).out, .error e⟩ := bind_of_error h _

end Feed

section Each

variable {read} {P : σ → τ → Prop} {s : σ} {w : τ}

theorem each_reading {t : σ} (h : (read s (some w)).res = .ok (.reading t)) (ws : List τ) :
    Each read P s (w :: ws) ↔ P s w ∧ Each read P t ws := by
  rw [Each]
  refine and_congr_right fun _ => ⟨fun hall => hall t h, fun hall u hu => ?_⟩
  rw [h] at hu
  cases hu
  exact hall

theorem each_over (h : ∀ t, (read s (some w)).res ≠ .ok (.reading t)) (ws : List τ) :
    Each read P s (w :: ws) ↔ P s w := by
  rw [Each]
  exact ⟨And.left, fun hp => ⟨hp, fun t ht => absurd ht (h t)⟩⟩

end Each

section After

variable {thrown : ε → Prop} {P : σ → Prop} {x : Emit ω ε (Turn σ ρ)}

theorem after_reading {s : σ} (h : x.res = .ok (.reading s)) : After thrown P x ↔ P s := by
  unfold After
  rw [h]
  simp

theorem after_returned {r : ρ} (h : x.res = .ok (.returned r)) : After thrown P x := by
  unfold After
  rw [h]
  simp

theorem after_error {e : ε} (h : x.res = .error e) : After thrown P x ↔ thrown e := by
  unfold After
  rw [h]
  simp

theorem after_exists {ι : Type} [Inhabited ι] {P : ι → σ → Prop} :
    (∃ i, After thrown (P i) x) ↔ After thrown (fun s => ∃ i, P i s) x := by
  cases h : x.res with
  | error e => simp only [after_error h, exists_const]
  | ok t =>
    cases t with
    | reading s => simp only [after_reading h]
    | returned r => exact iff_of_true ⟨default, after_returned h⟩ (after_returned h)

theorem after_and {Q : σ → Prop} :
    After thrown P x ∧ (∀ s, x.res = .ok (.reading s) → Q s) ↔ After thrown (fun s => P s ∧ Q s) x := by
  unfold After
  constructor
  · rintro ⟨⟨he, hp⟩, hq⟩
    exact ⟨he, fun s hs => ⟨hp s hs, hq s hs⟩⟩
  · rintro ⟨he, hs⟩
    exact ⟨⟨he, fun s h => (hs s h).1⟩, fun s h => (hs s h).2⟩

end After

/-! ## A read and those that follow it -/

section Cons

variable {thrown : ε → Prop} {read} {s : σ} {w : Option τ} {vs us : List (Option τ)}

theorem over_cons :
    Over thrown (feed read s (w :: vs)) ↔ After thrown (fun t => Over thrown (feed read t vs)) (read s w) := by
  unfold Over
  cases h : (read s w).res with
  | error e =>
    rw [feed_error h, after_error h]
    simp
  | ok t =>
    cases t with
    | reading t => rw [feed_reading h, after_reading h]
    | returned r =>
      rw [feed_returned h]
      exact iff_of_true (Or.inl ⟨r, rfl⟩) (after_returned h)

/-- What is emitted differs only after the read. -/
theorem out_cons : (feed read s (w :: vs)).out = (feed read s (w :: us)).out ↔
    ∀ t, (read s w).res = .ok (.reading t) → (feed read t vs).out = (feed read t us).out := by
  cases h : (read s w).res with
  | error e => simp [feed_error h]
  | ok t =>
    cases t with
    | reading t => simp [feed_reading h]
    | returned r => simp [feed_returned h]

theorem silent_cons : (feed read s (w :: vs)).out = [] ↔
    (read s w).out = [] ∧ ∀ t, (read s w).res = .ok (.reading t) → (feed read t vs).out = [] := by
  cases h : (read s w).res with
  | error e => simp [feed_error h]
  | ok t =>
    cases t with
    | reading t => simp [feed_reading h]
    | returned r => simp [feed_returned h]

end Cons

/-! ## The end of the input -/

variable {thrown : ε → Prop}

theorem stops_iff {run : List (Option τ) → Emit ω ε (Turn σ ρ)} {ws : List τ} : Stops thrown run ws ↔
    (∃ n, Over thrown (run (input ws n))) ∧ ∀ n, (run (input ws n)).out = (run (input ws 0)).out :=
  ⟨fun h => ⟨h.ended, h.quiet⟩, fun h => ⟨h.1, h.2⟩⟩

/-- The read of a word comes first. -/
theorem stops_cons {s : σ} {w : τ} {ws : List τ} :
    Stops thrown (feed read s) (w :: ws) ↔ After thrown (fun t => Stops thrown (feed read t) ws) (read s (some w)) := by
  have hinput : ∀ n, input (w :: ws) n = some w :: input ws n := fun _ => rfl
  simp only [stops_iff, hinput, over_cons, out_cons, after_exists]
  rw [← after_and]
  exact and_congr_right fun _ => ⟨fun h t ht n => h n t ht, fun h n t ht => h t ht n⟩

/-- At the end of the input the read must be silent. -/
theorem stops_nil {s : σ} :
    Stops thrown (feed read s) ([] : List τ) ↔
      (read s none).out = [] ∧ After thrown (fun t => Stops thrown (feed read t) ([] : List τ)) (read s none) := by
  have hover : (∃ n, Over thrown (feed read s (input ([] : List τ) n))) ↔
      ∃ n, Over thrown (feed read s (none :: input ([] : List τ) n)) := by
    constructor
    · rintro ⟨n, hn⟩
      cases n with
      | zero =>
        rcases hn with ⟨r, hr⟩ | ⟨e, he, -⟩
        · cases hr
        · cases he
      | succ n => exact ⟨n, hn⟩
    · rintro ⟨n, hn⟩
      exact ⟨n + 1, hn⟩
  have hquiet : (∀ n, (feed read s (input ([] : List τ) n)).out = (feed read s (input ([] : List τ) 0)).out) ↔
      ∀ n, (feed read s (none :: input ([] : List τ) n)).out = [] := by
    constructor
    · intro h n
      exact h (n + 1)
    · intro h n
      cases n with
      | zero => rfl
      | succ n => exact h n
  rw [stops_iff, hover, hquiet]
  simp only [over_cons, after_exists, silent_cons, stops_iff, ← after_and]
  constructor
  · rintro ⟨hafter, hsilent⟩
    exact ⟨(hsilent 0).1, hafter, fun t ht n => (hsilent n).2 t ht⟩
  · rintro ⟨hsilent, hafter, hrest⟩
    exact ⟨hafter, fun n => ⟨hsilent, fun t ht => hrest t ht n⟩⟩

/-- A loop that at the end of the input can always read on does not stop. -/
theorem stuck {I : σ → Prop} (hI : ∀ s, I s → ∃ t, (read s none).res = .ok (.reading t) ∧ I t) {s : σ} (hs : I s) :
    ¬ Stops thrown (feed read s) ([] : List τ) := by
  rintro ⟨⟨n, hover⟩, -⟩
  have hinput : ∀ n, input ([] : List τ) (n + 1) = none :: input ([] : List τ) n := fun _ => rfl
  induction n generalizing s with
  | zero =>
    rcases hover with ⟨r, hr⟩ | ⟨e, he, -⟩
    · cases hr
    · cases he
  | succ n ih =>
    obtain ⟨t, ht, hIt⟩ := hI s hs
    rw [hinput, feed_reading ht] at hover
    exact ih hIt hover

end Reader
