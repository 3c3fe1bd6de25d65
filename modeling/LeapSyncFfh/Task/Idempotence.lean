/-
  LeapSyncFfh.Task.Idempotence — what `postProcessHandCmd` returns, angle by angle, and
  that doing it again changes nothing.

  The two passes pull in opposite directions where a thumb limit is on the far side of 5
  from the cut. `clamp_clamp` and `cut_clamp_cut` are the facts about the order that make
  them settle after one round, for limits in either order; `postProcess_law` is the result
  for all twenty angles.
-/

import LeapSyncFfh.Task.PostProcess

namespace LeapSyncFfh

open Cells

variable {F : Type} [LinearOrder F]

/-! ## Clamping and cutting in a linear order -/

theorem clampTo_eq (l u a : F) : clampTo l u a = min (max a l) u := by
  have hcut : ∀ b : F, (if u < b then u else b) = min b u := by
    intro b
    split
    · rename_i h
      exact (min_eq_right h.le).symm
    · rename_i h
      exact (min_eq_left (not_lt.mp h)).symm
  by_cases h : a < l
  · simp only [clampTo, if_pos h, max_eq_right h.le, hcut]
  · simp only [clampTo, if_neg h, max_eq_left (not_lt.mp h), hcut]

theorem clamp_clamp (l u a : F) : min (max (min (max a l) u) l) u = min (max a l) u := by
  rcases le_total l u with h | h
  · rw [max_eq_left (le_min (le_max_right a l) h), min_assoc, min_self]
  · have hu : min (max a l) u = u := min_eq_right (h.trans (le_max_right a l))
    rw [hu]
    exact min_eq_right (le_max_left u l)

/-- Cutting a clamped angle at `c` can leave it below `l`; clamping lifts it to `l` at most,
    and then `l` is what the cut leaves. -/
theorem cut_clamp_cut (l u c a : F) :
    min (min (max (min (min (max a l) u) c) l) u) c = min (min (max a l) u) c := by
  apply le_antisymm
  · refine le_min (le_min ?_ ?_) (min_le_right _ c)
    · refine (min_le_left _ c).trans ((min_le_left _ u).trans (max_le ?_ (le_max_right a l)))
      exact (min_le_left _ c).trans (min_le_left _ u)
    · exact (min_le_left _ c).trans (min_le_right _ u)
  · refine le_min (le_min (le_max_left _ l) ?_) (min_le_right _ c)
    exact (min_le_left _ c).trans (min_le_right _ u)

/-! ## The result -/

/-- `b` is `a` clamped into the limits of its joint. -/
def Clamped (lo up : List (List F)) (i : Fin 5) (j : Fin 4) (a b : F) : Prop :=
  ∃ l u, limit lo i j = .ok l ∧ limit up i j = .ok u ∧ b = min (max a l) u

/-- The limits are what they are. -/
theorem Clamped.eq {lo up : List (List F)} {i : Fin 5} {j : Fin 4} {a b l u : F} (h : Clamped lo up i j a b)
    (hl : limit lo i j = .ok l) (hu : limit up i j = .ok u) : b = min (max a l) u := by
  obtain ⟨l', u', hl', hu', rfl⟩ := h
  rw [hl] at hl'
  rw [hu] at hu'
  cases hl'
  cases hu'
  rfl

variable [OfNat F 5] [OfNat F 20]

/-- `cmd'` is `cmd` clamped, its thumb cut at 5 where the clamped index finger is bent past
    20; `c` is the command in between. -/
structure PostProcessed (lo up : List (List F)) (cmd c cmd' : udp_hand_cmd F) : Prop where
  clamped : ∀ i (j : Fin 4), j ≠ 3 → Clamped lo up i j (cmd.get i j) (c.get i j)
  yields : ∀ i (j : Fin 4), j ≠ 3 → cmd'.get i j =
    if 20 < c.get 1 0 ∧ i = 0 ∧ (j = 0 ∨ j = 1) then min (c.get i j) 5 else c.get i j
  palm : ∀ i, cmd'.get i 3 = cmd.get i 3

omit [OfNat F 20] in
theorem cut_get (c : udp_hand_cmd F) (k : Fin 4) (i : Fin 5) (j : Fin 4) :
    (if 5 < c.get 0 k then c.set 0 k 5 else c).get i j = if i = 0 ∧ j = k then min (c.get i j) 5 else c.get i j := by
  by_cases hp : i = 0 ∧ j = k
  · rw [if_pos hp]
    obtain ⟨rfl, rfl⟩ := hp
    by_cases h : 5 < c.get 0 j
    · rw [if_pos h, udp_hand_cmd.get_set_same, min_eq_right h.le]
    · rw [if_neg h, min_eq_left (not_lt.mp h)]
  · rw [if_neg hp]
    split
    · rw [udp_hand_cmd.get_set, if_neg hp]
    · rfl

theorem giveWay_get_eq (c : udp_hand_cmd F) (i : Fin 5) (j : Fin 4) :
    (giveWay c).get i j = if 20 < c.get 1 0 ∧ i = 0 ∧ (j = 0 ∨ j = 1) then min (c.get i j) 5 else c.get i j := by
  by_cases h : 20 < c.get 1 0
  · -- the second cut is taken from what the first leaves
    let d := if 5 < c.get 0 0 then c.set 0 0 5 else c
    have hd : ∀ i j, d.get i j = if i = 0 ∧ j = 0 then min (c.get i j) 5 else c.get i j := cut_get c 0
    have hg : giveWay c = if 5 < d.get 0 1 then d.set 0 1 5 else d := if_pos h
    rw [hg, cut_get d 1 i j, hd]
    by_cases h0 : i = 0 ∧ j = 0
    · obtain ⟨rfl, rfl⟩ := h0
      simp [h]
    by_cases h1 : i = 0 ∧ j = 1
    · obtain ⟨rfl, rfl⟩ := h1
      simp [h]
    · have hneither : ¬ (20 < c.get 1 0 ∧ i = 0 ∧ (j = 0 ∨ j = 1)) := by
        rintro ⟨-, hi, hj | hj⟩
        · exact h0 ⟨hi, hj⟩
        · exact h1 ⟨hi, hj⟩
      rw [if_neg h1, if_neg h0, if_neg hneither]
  · rw [giveWay, if_neg h, if_neg fun hand => h hand.1]

theorem postProcessed {lo up : List (List F)} {cmd cmd' : udp_hand_cmd F} (h : postProcessHandCmd lo up cmd = .ok cmd') :
    ∃ c, PostProcessed lo up cmd c cmd' := by
  have hpalm := postProcess_palm h
  obtain ⟨c, rfl, -, hcell⟩ := postProcess_spec h
  refine ⟨c, fun i j hj => ?_, fun i j _ => giveWay_get_eq c i j, hpalm⟩
  obtain ⟨l, u, hl, hu, e⟩ := hcell i j hj
  exact ⟨l, u, hl, hu, e.trans (clampTo_eq l u _)⟩

/-- A second round finds the command as the first left it. -/
theorem PostProcessed.again {lo up : List (List F)} {cmd c cmd' d cmd'' : udp_hand_cmd F}
    (h : PostProcessed lo up cmd c cmd') (k : PostProcessed lo up cmd' d cmd'') : cmd'' = cmd' := by
  have hindex : d.get 1 0 = c.get 1 0 := by
    obtain ⟨l, u, hl, hu, e⟩ := h.clamped 1 0 (by decide)
    have hkeep : cmd'.get 1 0 = c.get 1 0 := by rw [h.yields 1 0 (by decide), if_neg (by simp)]
    rw [(k.clamped 1 0 (by decide)).eq hl hu, hkeep, e, clamp_clamp]
  apply udp_hand_cmd.ext_get
  intro i j
  by_cases hj : j = 3
  · subst hj
    exact k.palm i
  obtain ⟨l, u, hl, hu, e⟩ := h.clamped i j hj
  have hd := (k.clamped i j hj).eq hl hu
  have h1 := h.yields i j hj
  have h2 := k.yields i j hj
  rw [hindex] at h2
  by_cases hy : 20 < c.get 1 0 ∧ i = 0 ∧ (j = 0 ∨ j = 1)
  · rw [if_pos hy] at h1 h2
    rw [h2, hd, h1, e, cut_clamp_cut]
  · rw [if_neg hy] at h1 h2
    rw [h2, hd, h1, e, clamp_clamp]

/-- Lower limits below the upper ones, and below 5 on the thumb. -/
structure Settled (lo up : List (List F)) : Prop where
  ordered : ∀ i (j : Fin 4) l u, j ≠ 3 → limit lo i j = .ok l → limit up i j = .ok u → l ≤ u
  thumb : ∀ (j : Fin 4) l, j = 0 ∨ j = 1 → limit lo 0 j = .ok l → l ≤ 5

/-- All fifteen joints inside their limits. -/
def InLimits (lo up : List (List F)) (cmd : udp_hand_cmd F) : Prop :=
  ∀ i (j : Fin 4) l u, j ≠ 3 → limit lo i j = .ok l → limit up i j = .ok u → l ≤ cmd.get i j ∧ cmd.get i j ≤ u

theorem PostProcessed.inLimits {lo up : List (List F)} {cmd c cmd' : udp_hand_cmd F} (h : PostProcessed lo up cmd c cmd')
    (hs : Settled lo up) : InLimits lo up cmd' := by
  intro i j l u hj hl hu
  have hc := (h.clamped i j hj).eq hl hu
  have hle := hs.ordered i j l u hj hl hu
  have hlow : l ≤ c.get i j := by rw [hc]; exact le_min (le_max_right _ l) hle
  have hup : c.get i j ≤ u := by rw [hc]; exact min_le_right _ u
  rw [h.yields i j hj]
  split
  · rename_i hy
    obtain ⟨-, rfl, hj01⟩ := hy
    exact ⟨le_min hlow (hs.thumb j l hj01 hl), (min_le_left _ 5).trans hup⟩
  · exact ⟨hlow, hup⟩

/-- The law of the post-processing: what is returned, that it is returned again, and that
    with limits in order every joint is inside them and the thumb gives way. -/
theorem postProcess_law (lo up : List (List F)) (hlo : Covers lo) (hup : Covers up) (cmd : udp_hand_cmd F) :
    ∃ c cmd', postProcessHandCmd lo up cmd = .ok cmd' ∧ postProcessHandCmd lo up cmd' = .ok cmd' ∧
      PostProcessed lo up cmd c cmd' ∧
      (Settled lo up → InLimits lo up cmd' ∧ (20 < cmd'.get 1 0 → cmd'.get 0 0 ≤ 5 ∧ cmd'.get 0 1 ≤ 5)) := by
  obtain ⟨cmd', h⟩ := (postProcess_returns_iff lo up cmd).mpr ⟨hlo, hup⟩
  obtain ⟨cmd'', k⟩ := (postProcess_returns_iff lo up cmd').mpr ⟨hlo, hup⟩
  obtain ⟨c, hpost⟩ := postProcessed h
  obtain ⟨d, kpost⟩ := postProcessed k
  refine ⟨c, cmd', h, ?_, hpost, fun hs => ⟨hpost.inLimits hs, fun hbent => ?_⟩⟩
  · rw [k, hpost.again kpost]
  · have hc : 20 < c.get 1 0 := by
      rw [hpost.yields 1 0 (by decide), if_neg (by simp)] at hbent
      exact hbent
    rw [hpost.yields 0 0 (by decide), hpost.yields 0 1 (by decide), if_pos (by simp [hc]), if_pos (by simp [hc])]
    exact ⟨min_le_right _ 5, min_le_right _ 5⟩

theorem postProcess_law_inverted :
    ∃ c cmd', postProcessHandCmd (List.replicate 5 [(30 : ℤ), 30, 30]) (List.replicate 5 [25, 25, 10]) .zero = .ok cmd' ∧
      PostProcessed (List.replicate 5 [(30 : ℤ), 30, 30]) (List.replicate 5 [25, 25, 10]) .zero c cmd' := by
  obtain ⟨c, cmd', h, -, hpost, -⟩ :=
    postProcess_law (List.replicate 5 [(30 : ℤ), 30, 30]) (List.replicate 5 [25, 25, 10]) (by decide) (by decide) .zero
  exact ⟨c, cmd', h, hpost⟩

end LeapSyncFfh
