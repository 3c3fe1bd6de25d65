/-
  LeapSyncFfh.Lib.Cells — arrays with checked subscripts, and loops that write them.

  A subscript outside its array is a fault, named by the caller. `copyInto` is the loop
  `for i < n: dst[i] = src[i]`; it returns exactly when both arrays have `n` cells
  (`copyInto_ok`, `copyInto_error`). `resize` is `std::vector::resize`.

  `sweep` is a loop that rewrites each cell of a store in turn from its own content. On
  a list of distinct cells it is pointwise (`sweep_get`), and it faults exactly when one
  of the rewrites does (`sweep_error`).

  A loop whose steps never fault and keep to a plain step does as the plain loop
  (`foldlM_follows`).
-/

import Mathlib.Data.List.Nodup

namespace Cells

variable {α ε : Type}

/-! ## Arrays -/

def subscript (e : ε) (xs : List α) (i : Nat) : Except ε α :=
  match xs[i]? with
  | some x => .ok x
  | none => .error e

def store (e : ε) (xs : List α) (i : Nat) (x : α) : Except ε (List α) :=
  if i < xs.length then .ok (xs.set i x) else .error e

/-- `std::vector::resize`: cut, or extend with `d`. -/
def resize (d : α) (xs : List α) (n : Nat) : List α := xs.take n ++ List.replicate (n - xs.length) d

/-- `for i < n: dst[i] = src[i]`. -/
def copyInto (eSrc eDst : ε) (src : List α) : Nat → List α → Except ε (List α)
  | 0, dst => .ok dst
  | n + 1, dst => do
    let dst ← copyInto eSrc eDst src n dst
    let x ← subscript eSrc src n
    store eDst dst n x

theorem subscript_ok {e : ε} {xs : List α} {i : Nat} {x : α} : subscript e xs i = .ok x ↔ xs[i]? = some x := by
  unfold subscript
  split <;> simp_all

theorem subscript_lt {e : ε} {xs : List α} {i : Nat} (h : i < xs.length) : subscript e xs i = .ok xs[i] :=
  subscript_ok.mpr (List.getElem?_eq_getElem h)

theorem subscript_ge {e : ε} {xs : List α} {i : Nat} (h : xs.length ≤ i) : subscript e xs i = .error e := by
  unfold subscript; rw [List.getElem?_eq_none h]

theorem store_lt {e : ε} {xs : List α} {i : Nat} (x : α) (h : i < xs.length) : store e xs i x = .ok (xs.set i x) :=
  if_pos h

theorem store_ge {e : ε} {xs : List α} {i : Nat} (x : α) (h : xs.length ≤ i) : store e xs i x = .error e :=
  if_neg (by omega)

@[simp] theorem resize_length (d : α) (xs : List α) (n : Nat) : (resize d xs n).length = n := by
  simp only [resize, List.length_append, List.length_take, List.length_replicate]; omega

theorem resize_getElem? (d : α) (xs : List α) {n i : Nat} (h : i < n) : (resize d xs n)[i]? = some (xs[i]?.getD d) := by
  unfold resize
  by_cases hi : i < xs.length
  · rw [List.getElem?_append_left (by rw [List.length_take]; omega), List.getElem?_take_of_lt h,
      List.getElem?_eq_getElem hi]
    rfl
  · rw [List.getElem?_append_right (by rw [List.length_take]; omega), List.getElem?_eq_none (by omega : xs.length ≤ i),
      List.getElem?_replicate, if_pos (by rw [List.length_take]; omega)]
    rfl

theorem copyInto_ok {eSrc eDst : ε} {src : List α} {n : Nat} {dst : List α} (hs : n ≤ src.length) (hd : n ≤ dst.length) :
    copyInto eSrc eDst src n dst = .ok (src.take n ++ dst.drop n) := by
  induction n with
  | zero => simp [copyInto]
  | succ n ih =>
    have hx : subscript eSrc src n = .ok src[n] := subscript_lt (by omega)
    have hlt : n < (src.take n ++ dst.drop n).length := by
      simp only [List.length_append, List.length_take, List.length_drop]; omega
    simp only [copyInto, ih (by omega) (by omega), hx, store_lt _ hlt, bind, Except.bind]
    congr 1
    rw [List.set_append_right _ _ (by rw [List.length_take]; omega), List.length_take, Nat.min_eq_left (by omega),
      Nat.sub_self, List.drop_eq_getElem_cons (by omega : n < dst.length), List.set_cons_zero,
      List.take_succ_eq_append_getElem (by omega : n < src.length), List.append_assoc]
    rfl

theorem copyInto_error (eSrc eDst : ε) {src : List α} {n : Nat} {dst : List α}
    (h : src.length < n ∨ dst.length < n) : ∃ e, (e = eSrc ∨ e = eDst) ∧ copyInto eSrc eDst src n dst = .error e := by
  induction n with
  | zero => omega
  | succ n ih =>
    by_cases hlt : src.length < n ∨ dst.length < n
    · obtain ⟨e, hs, he⟩ := ih hlt
      exact ⟨e, hs, by simp only [copyInto, he, bind, Except.bind]⟩
    · simp only [copyInto, copyInto_ok (by omega : n ≤ src.length) (by omega : n ≤ dst.length), bind, Except.bind]
      by_cases hs : src.length ≤ n
      · exact ⟨eSrc, Or.inl rfl, by rw [subscript_ge hs]⟩
      · refine ⟨eDst, Or.inr rfl, ?_⟩
        rw [subscript_lt (by omega)]
        exact store_ge _ (by simp only [List.length_append, List.length_take, List.length_drop]; omega)

/-- The first `r` rows of a matrix are there, with at least `c` cells each. -/
theorem rows_iff {m : List (List α)} {r c : Nat} :
    (r ≤ m.length ∧ ∀ row ∈ m.take r, c ≤ row.length) ↔ ∀ i < r, ∃ row, m[i]? = some row ∧ c ≤ row.length := by
  constructor
  · rintro ⟨hlen, hrow⟩ i hi
    have hlt : i < m.length := by omega
    exact ⟨m[i], List.getElem?_eq_getElem hlt, hrow _ (List.mem_take_iff_getElem.mpr ⟨i, by omega, rfl⟩)⟩
  · intro h
    constructor
    · cases r with
      | zero => exact Nat.zero_le _
      | succ n =>
        obtain ⟨row, hr, -⟩ := h n (Nat.lt_succ_self n)
        exact (List.getElem?_eq_some_iff.mp hr).1
    · intro row hrow
      obtain ⟨k, hk, rfl⟩ := List.mem_take_iff_getElem.mp hrow
      obtain ⟨row', hr, hc⟩ := h k (by omega)
      rw [List.getElem?_eq_getElem (by omega)] at hr
      rwa [Option.some.inj hr]

/-! ## Rewriting the cells of a store in turn -/

variable {S ι β : Type} (get : S → ι → β) (set : S → ι → β → S)

structure Lawful : Prop where
  same : ∀ s i b, get (set s i b) i = b
  other : ∀ s i j b, j ≠ i → get (set s i b) j = get s j

def sweep (f : ι → β → Except ε β) : List ι → S → Except ε S
  | [], s => .ok s
  | i :: is, s => do
    let b ← f i (get s i)
    sweep f is (set s i b)

variable {get set}

theorem sweep_get [DecidableEq ι] (h : Lawful get set) {f : ι → β → Except ε β} {g : ι → β} :
    ∀ {is : List ι} {s : S}, is.Nodup → (∀ i ∈ is, f i (get s i) = .ok (g i)) →
      ∃ t, sweep get set f is s = .ok t ∧ ∀ j, get t j = if j ∈ is then g j else get s j := by
  intro is
  induction is with
  | nil => intro s _ _; exact ⟨s, rfl, fun j => by simp⟩
  | cons i is ih =>
    intro s hnd hf
    obtain ⟨hi, hnd⟩ := List.nodup_cons.mp hnd
    have hrest : ∀ j ∈ is, f j (get (set s i (g i)) j) = .ok (g j) := by
      intro j hj
      rw [h.other s i j _ (fun e => hi (e ▸ hj))]
      exact hf j (List.mem_cons_of_mem _ hj)
    obtain ⟨t, ht, hget⟩ := ih hnd hrest
    refine ⟨t, by simp only [sweep, hf i List.mem_cons_self, bind, Except.bind]; exact ht, fun j => ?_⟩
    rw [hget j]
    by_cases e : j = i
    · subst e; simp [hi, h.same]
    · simp [e, h.other s i j _ e]

theorem sweep_error (h : Lawful get set) {f : ι → β → Except ε β} :
    ∀ {is : List ι} {s : S}, is.Nodup → (∃ i ∈ is, ∃ e, f i (get s i) = .error e) →
      ∃ e, sweep get set f is s = .error e := by
  intro is
  induction is with
  | nil => intro s _ ⟨i, hi, _⟩; cases hi
  | cons i is ih =>
    intro s hnd ⟨k, hk, e, he⟩
    obtain ⟨hi, hnd⟩ := List.nodup_cons.mp hnd
    cases hb : f i (get s i) with
    | error e' => exact ⟨e', by simp only [sweep, hb, bind, Except.bind]⟩
    | ok b =>
      rcases List.mem_cons.mp hk with rfl | hk
      · rw [hb] at he; cases he
      · have hne : k ≠ i := fun e => hi (e ▸ hk)
        obtain ⟨e', he'⟩ := ih (s := set s i b) hnd ⟨k, hk, e, by rw [h.other s i k _ hne]; exact he⟩
        exact ⟨e', by simp only [sweep, hb, bind, Except.bind]; exact he'⟩

/-- A sweep faults as one of the rewrites does. -/
theorem sweep_fault {f : ι → β → Except ε β} {P : ε → Prop} (hf : ∀ i b e, f i b = .error e → P e) :
    ∀ {is : List ι} {s : S} {e : ε}, sweep get set f is s = .error e → P e := by
  intro is
  induction is with
  | nil => intro s e h; cases h
  | cons i is ih =>
    intro s e h
    cases hb : f i (get s i) with
    | error e' =>
      simp only [sweep, hb, bind, Except.bind] at h
      cases h
      exact hf i _ _ hb
    | ok b =>
      simp only [sweep, hb, bind, Except.bind] at h
      exact ih h

/-! ## A loop of checked steps -/

theorem foldlM_follows {A : Type} {f : S → ι → Except ε S} {g : A → ι → A} {R : A → S → Prop}
    (hstep : ∀ a s i, R a s → ∃ t, f s i = .ok t ∧ R (g a i) t) {a : A} {s : S} (h : R a s) (is : List ι) :
    ∃ t, is.foldlM f s = .ok t ∧ R (is.foldl g a) t := by
  induction is generalizing a s with
  | nil => exact ⟨s, rfl, h⟩
  | cons i is ih =>
    obtain ⟨t, ht, hr⟩ := hstep a s i h
    obtain ⟨u, hu, hr'⟩ := ih hr
    exact ⟨u, by rw [List.foldlM_cons, ht]; exact hu, hr'⟩

end Cells
