/-
  LeapSyncFfh.Task.PostProcess — `postProcessHandCmd` (lpV2SyncFfh.cpp), the one limiter
  on the tracked path.

  It clamps joints 0 to 2 of every finger into a pair of limit matrices, then makes the
  thumb give way to the index finger. It returns exactly when both matrices cover the
  fifteen cells it reads (`postProcess_returns_iff`).

  `Envelope`: every angle is inside `LIMIT_HCMD_LOWER`/`LIMIT_HCMD_UPPER` and the thumb is
  clear of the index finger. A post-processed command is in the envelope exactly when the
  joint the loop leaves out, `ThumbPalm`, was inside (`postProcess_envelope`), for limits
  that lie inside the envelope (`Bounded`).
-/

import LeapSyncFfh.Common.Faults
import LeapSyncFfh.Ffh.HandTypes

namespace LeapSyncFfh

open Cells

variable {F : Type} [LinearOrder F]

/-! ## The function -/

/-- `limits[i][j]`. -/
def limit (limits : List (List F)) (i : Fin 5) (j : Fin 4) : Except Fault F := do
  let row ← subscript (.outOfBounds .limits) limits i
  subscript (.outOfBounds .limits) row j

/-- The body of the loop, on one angle. -/
def clampAngle (lowerLimits upperLimits : List (List F)) (p : Fin 5 × Fin 4) (angle : F) : Except Fault F := do
  let lower ← limit lowerLimits p.1 p.2
  let angle := if angle < lower then lower else angle
  let upper ← limit upperLimits p.1 p.2
  .ok (if upper < angle then upper else angle)

/-- `for i < fingerNum_: for j < angleNum_`. -/
def clampedCells : List (Fin 5 × Fin 4) := (List.finRange 5).flatMap fun i => [(i, 0), (i, 1), (i, 2)]

section Numerals

variable [OfNat F 5] [OfNat F 20]

/-- The thumb gives way to the index finger. -/
def giveWay (cmd : udp_hand_cmd F) : udp_hand_cmd F :=
  if 20 < cmd.get 1 0 then
    let cmd := if 5 < cmd.get 0 0 then cmd.set 0 0 5 else cmd
    if 5 < cmd.get 0 1 then cmd.set 0 1 5 else cmd
  else cmd

def postProcessHandCmd (lowerLimits upperLimits : List (List F)) (handCmd : udp_hand_cmd F) :
    Except Fault (udp_hand_cmd F) := do
  let handCmd ← sweep (fun c p => c.get p.1 p.2) (fun c p a => c.set p.1 p.2 a)
    (clampAngle lowerLimits upperLimits) clampedCells handCmd
  .ok (giveWay handCmd)

end Numerals

/-! ## When it returns -/

/-- The matrix has the fifteen cells the loop reads. -/
def Covers (limits : List (List F)) : Prop := 5 ≤ limits.length ∧ ∀ row ∈ limits.take 5, 3 ≤ row.length

instance (limits : List (List F)) : Decidable (Covers limits) := inferInstanceAs (Decidable (_ ∧ _))

theorem clampedCells_nodup : clampedCells.Nodup := by decide

theorem mem_clampedCells (p : Fin 5 × Fin 4) : p ∈ clampedCells ↔ p.2 ≠ 3 := by
  revert p; decide

omit [LinearOrder F] in
theorem limit_ok_iff {limits : List (List F)} {i : Fin 5} {j : Fin 4} {a : F} :
    limit limits i j = .ok a ↔ ∃ row, limits[i.val]? = some row ∧ row[j.val]? = some a := by
  unfold limit
  cases hr : limits[i.val]? with
  | none =>
    rw [subscript_ge (List.getElem?_eq_none_iff.mp hr)]
    simp [bind, Except.bind]
  | some row =>
    rw [subscript_ok.mpr hr]
    simp [bind, Except.bind, subscript_ok]

omit [LinearOrder F] in
theorem covers_iff (limits : List (List F)) :
    Covers limits ↔ ∀ i (j : Fin 4), j ≠ 3 → ∃ a, limit limits i j = .ok a := by
  refine rows_iff.trans ⟨fun h i j hj => ?_, fun h i hi => ?_⟩
  · obtain ⟨row, hr, hlen⟩ := h i i.isLt
    have hlt : j.val < row.length := by
      have : j.val ≠ 3 := fun e => hj (Fin.ext e)
      omega
    exact ⟨_, limit_ok_iff.mpr ⟨row, hr, List.getElem?_eq_getElem hlt⟩⟩
  · obtain ⟨a, ha⟩ := h ⟨i, hi⟩ 2 (by decide)
    obtain ⟨row, hr, hc⟩ := limit_ok_iff.mp ha
    exact ⟨row, hr, (List.getElem?_eq_some_iff.mp hc).1⟩

/-- A clamped angle, for the limits `lower` and `upper`. -/
def clampTo (lower upper angle : F) : F :=
  let angle := if angle < lower then lower else angle
  if upper < angle then upper else angle

theorem clampTo_mem {l u : F} (h : l ≤ u) (a : F) : l ≤ clampTo l u a ∧ clampTo l u a ≤ u := by
  unfold clampTo
  by_cases h1 : a < l
  · simp only [h1, if_true]
    rw [if_neg (not_lt.mpr h)]
    exact ⟨le_refl l, h⟩
  · simp only [h1, if_false]
    by_cases h2 : u < a
    · rw [if_pos h2]; exact ⟨h, le_refl u⟩
    · rw [if_neg h2]; exact ⟨not_lt.mp h1, not_lt.mp h2⟩

theorem clampAngle_ok_iff {lo up : List (List F)} {p : Fin 5 × Fin 4} {a b : F} :
    clampAngle lo up p a = .ok b ↔ ∃ l u, limit lo p.1 p.2 = .ok l ∧ limit up p.1 p.2 = .ok u ∧ b = clampTo l u a := by
  unfold clampAngle
  cases limit lo p.1 p.2 with
  | error e => simp [bind, Except.bind]
  | ok l =>
    cases limit up p.1 p.2 with
    | error e => simp [bind, Except.bind]
    | ok u =>
      simp only [bind, Except.bind, Except.ok.injEq]
      exact ⟨fun h => ⟨l, u, rfl, rfl, h.symm⟩, fun ⟨_, _, hl, hu, hb⟩ => by subst hl hu; exact hb.symm⟩

section Numerals

variable [OfNat F 5] [OfNat F 20]

/-- What a returned call did: each joint but `ThumbPalm` is clamped, and then the thumb
    gives way. -/
theorem postProcess_spec {lo up : List (List F)} {cmd cmd' : udp_hand_cmd F}
    (h : postProcessHandCmd lo up cmd = .ok cmd') :
    ∃ c, cmd' = giveWay c ∧ (∀ i, c.get i 3 = cmd.get i 3) ∧
      ∀ i (j : Fin 4), j ≠ 3 → ∃ l u, limit lo i j = .ok l ∧ limit up i j = .ok u ∧
        c.get i j = clampTo l u (cmd.get i j) := by
  unfold postProcessHandCmd at h
  have hclamp : ∀ p ∈ clampedCells, ∃ b, clampAngle lo up p (cmd.get p.1 p.2) = .ok b := by
    by_contra hn
    push Not at hn
    obtain ⟨p, hp, hbad⟩ := hn
    obtain ⟨e, he⟩ := sweep_error (f := clampAngle lo up) (s := cmd) udp_hand_cmd.cells_lawful clampedCells_nodup
      ⟨p, hp, by
        cases hc : clampAngle lo up p (cmd.get p.1 p.2) with
        | ok b => exact absurd hc (hbad b)
        | error e => exact ⟨e, rfl⟩⟩
    rw [he] at h; cases h
  have : Nonempty F := ⟨5⟩
  choose! g hg using hclamp
  obtain ⟨c, hc, hget⟩ := sweep_get (f := clampAngle lo up) (s := cmd) udp_hand_cmd.cells_lawful clampedCells_nodup hg
  rw [hc] at h
  cases h
  refine ⟨c, rfl, fun i => ?_, fun i j hj => ?_⟩
  · have := hget (i, 3)
    rwa [if_neg (by rw [mem_clampedCells]; simp)] at this
  · have hmem : (i, j) ∈ clampedCells := (mem_clampedCells _).mpr hj
    obtain ⟨l, u, hl, hu, e⟩ := clampAngle_ok_iff.mp (hg (i, j) hmem)
    refine ⟨l, u, hl, hu, ?_⟩
    have := hget (i, j)
    rw [if_pos hmem] at this
    exact this.trans e

theorem postProcess_returns_iff (lo up : List (List F)) (cmd : udp_hand_cmd F) :
    (∃ cmd', postProcessHandCmd lo up cmd = .ok cmd') ↔ Covers lo ∧ Covers up := by
  constructor
  · rintro ⟨cmd', h⟩
    obtain ⟨c, -, -, hcell⟩ := postProcess_spec h
    refine ⟨(covers_iff lo).mpr fun i j hj => ?_, (covers_iff up).mpr fun i j hj => ?_⟩
    · obtain ⟨l, u, hl, -, -⟩ := hcell i j hj
      exact ⟨l, hl⟩
    · obtain ⟨l, u, -, hu, -⟩ := hcell i j hj
      exact ⟨u, hu⟩
  · rintro ⟨hlo, hup⟩
    have hclamp : ∀ p ∈ clampedCells, ∃ b, clampAngle lo up p (cmd.get p.1 p.2) = .ok b := by
      intro p hp
      obtain ⟨l, hl⟩ := (covers_iff lo).mp hlo p.1 p.2 ((mem_clampedCells p).mp hp)
      obtain ⟨u, hu⟩ := (covers_iff up).mp hup p.1 p.2 ((mem_clampedCells p).mp hp)
      exact ⟨_, clampAngle_ok_iff.mpr ⟨l, u, hl, hu, rfl⟩⟩
    have : Nonempty F := ⟨5⟩
    choose! g hg using hclamp
    obtain ⟨c, hc, -⟩ := sweep_get (f := clampAngle lo up) (s := cmd) udp_hand_cmd.cells_lawful clampedCells_nodup hg
    exact ⟨giveWay c, by simp only [postProcessHandCmd, hc, bind, Except.bind]⟩

/-- The thumb is out of the way of a bent index finger. -/
def Clear (cmd : udp_hand_cmd F) : Prop := ¬ (20 < cmd.get 1 0 ∧ (5 < cmd.get 0 0 ∨ 5 < cmd.get 0 1))

theorem giveWay_clear (c : udp_hand_cmd F) : Clear (giveWay c) := by
  unfold giveWay Clear
  by_cases h : 20 < c.get 1 0
  · rw [if_pos h]
    have cut : ∀ (d : udp_hand_cmd F) (j : Fin 4), ¬ 5 < (if 5 < d.get 0 j then d.set 0 j 5 else d).get 0 j := by
      intro d j
      split
      · rw [udp_hand_cmd.get_set_same]; exact lt_irrefl 5
      · assumption
    have keep : ∀ (d : udp_hand_cmd F), (if 5 < d.get 0 1 then d.set 0 1 5 else d).get 0 0 = d.get 0 0 := by
      intro d
      split
      · exact udp_hand_cmd.get_set_other _ _ (Or.inr (by decide))
      · rfl
    rintro ⟨-, h0 | h1⟩
    · exact cut c 0 (by simpa only [keep] using h0)
    · exact cut _ 1 h1
  · rw [if_neg h]
    exact fun hc => h hc.1

/-- An angle after the thumb has given way is what it was, or 5 on a thumb joint. -/
theorem giveWay_get (c : udp_hand_cmd F) (i : Fin 5) (j : Fin 4) :
    (giveWay c).get i j = c.get i j ∨ (j ≠ 3 ∧ (j = 0 ∨ j = 1) ∧ (giveWay c).get i j = 5) := by
  have cut : ∀ (d : udp_hand_cmd F) (l : Fin 4), (if 5 < d.get 0 l then d.set 0 l 5 else d).get i j = d.get i j ∨
      (j = l ∧ (if 5 < d.get 0 l then d.set 0 l 5 else d).get i j = 5) := by
    intro d l
    split
    · by_cases h : i = 0 ∧ j = l
      · obtain ⟨rfl, rfl⟩ := h
        exact Or.inr ⟨rfl, udp_hand_cmd.get_set_same _ _ _ _⟩
      · left; rw [udp_hand_cmd.get_set, if_neg h]
    · exact Or.inl rfl
  unfold giveWay
  split
  · rcases cut (if 5 < c.get 0 0 then c.set 0 0 5 else c) 1 with h | ⟨rfl, h⟩
    · rcases cut c 0 with h' | ⟨rfl, h'⟩
      · exact Or.inl (h.trans h')
      · exact Or.inr ⟨by decide, Or.inl rfl, h.trans h'⟩
    · exact Or.inr ⟨by decide, Or.inr rfl, h⟩
  · exact Or.inl rfl

/-- The palm angles go through as they are. -/
theorem postProcess_palm {lo up : List (List F)} {cmd cmd' : udp_hand_cmd F}
    (h : postProcessHandCmd lo up cmd = .ok cmd') (i : Fin 5) : cmd'.get i 3 = cmd.get i 3 := by
  obtain ⟨c, rfl, hpalm, -⟩ := postProcess_spec h
  rcases giveWay_get c i 3 with e | ⟨hn, -⟩
  · exact e.trans (hpalm i)
  · exact absurd rfl hn

end Numerals

/-! ## The envelope -/

variable [Ring F]

/-- An angle of joint `j` inside the hand's own limits. -/
def Inside (j : Fin 4) (a : F) : Prop := LIMIT_HCMD_LOWER j ≤ a ∧ a ≤ LIMIT_HCMD_UPPER j

structure Envelope (cmd : udp_hand_cmd F) : Prop where
  inside : ∀ i j, Inside j (cmd.get i j)
  clear : Clear cmd

/-- The cells of a pair of limit matrices that the loop reads: lower below upper, and both
    inside the hand's limits. -/
def Bounded (lo up : List (List F)) : Prop :=
  ∀ i (j : Fin 4) l u, j ≠ 3 → limit lo i j = .ok l → limit up i j = .ok u →
    LIMIT_HCMD_LOWER j ≤ l ∧ l ≤ u ∧ u ≤ LIMIT_HCMD_UPPER j

variable [IsStrictOrderedRing F]

theorem zero_clear : Clear (.zero : udp_hand_cmd F) := by
  rintro ⟨h, -⟩
  have h20 : (20 : F) < 0 := h
  exact absurd h20 (by norm_num)

theorem inside_zero (j : Fin 4) : Inside j (0 : F) := by
  unfold Inside LIMIT_HCMD_LOWER LIMIT_HCMD_UPPER
  fin_cases j <;> simp

theorem inside_five {j : Fin 4} (h : j = 0 ∨ j = 1) : Inside j (5 : F) := by
  unfold Inside LIMIT_HCMD_LOWER LIMIT_HCMD_UPPER
  rcases h with rfl | rfl <;> simp <;> norm_num

theorem zero_envelope : Envelope (.zero : udp_hand_cmd F) := ⟨fun _ j => inside_zero j, zero_clear⟩

/-- With limits inside the envelope, all that a post-processed command can leave it by is
    the joint that the loop does not reach. -/
theorem postProcess_envelope {lo up : List (List F)} (hb : Bounded lo up) {cmd cmd' : udp_hand_cmd F}
    (h : postProcessHandCmd lo up cmd = .ok cmd') : Envelope cmd' ↔ ∀ i, Inside 3 (cmd.get i 3) := by
  have palm := postProcess_palm h
  obtain ⟨c, rfl, -, hcell⟩ := postProcess_spec h
  refine ⟨fun he i => palm i ▸ he.inside i 3, fun hin => ⟨fun i j => ?_, giveWay_clear c⟩⟩
  by_cases hj : j = 3
  · subst hj; rw [palm]; exact hin i
  · rcases giveWay_get c i j with e | ⟨-, h01, e⟩
    · obtain ⟨l, u, hl, hu, hcl⟩ := hcell i j hj
      obtain ⟨hll, hlu, huu⟩ := hb i j l u hj hl hu
      obtain ⟨h1, h2⟩ := clampTo_mem hlu (cmd.get i j)
      rw [e, hcl]
      exact ⟨hll.trans h1, h2.trans huu⟩
    · rw [e]; exact inside_five h01

end LeapSyncFfh
