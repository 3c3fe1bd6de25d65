/-
  LeapSyncFfh.Leap.Frames — what handling a history of tracking events does.

  `onFrame` adds the event to the ring, reads `back()` and copies as many hands as that
  slot's event had. `back()` is not the event just added: it is the slot the next add
  will overwrite, so the event delivered `frameCount_ - 1` events earlier, or an empty
  one (`behind`). Two consequences, over every history since `initialize()`:
  - `tracking_in_bounds_iff`: no access leaves its array exactly when every event has at
    most the two hands `setFrame` allocates and, unless it has none, no fewer hands than
    the one `behind` it.
  - `hands_fresh_iff`: the stored hands are the event's exactly when the hands from
    `behind` up were already in place.

  The step lemma is `tracking_step`; `Ready` is what every handled history keeps.
-/

import LeapSyncFfh.Leap.Wrapper
import Mathlib.Data.List.Induction
import Mathlib.Data.Rat.Defs
import Mathlib.Tactic.NormNum

namespace LeapSyncFfh

open Cells Emit CircularBuffer

namespace LeapMotionV2WrapperImpl

variable {F : Type} [Zero F]

/-- A `lastFrame` that is there has its two-hand allocation. -/
def TwoHands (s : LeapMotionV2WrapperImpl F) : Prop := ∀ l, s.lastFrame = some l → l.pHands.length = 2

/-- No event has been added to the ring yet. -/
structure Unframed (s : LeapMotionV2WrapperImpl F) : Prop where
  tail : s.frameBuffer_.m_tail = 0
  lastFrame : TwoHands s

omit [Zero F] in
theorem make_unframed (addr handle : Nat) : Unframed (make addr handle : LeapMotionV2WrapperImpl F) :=
  ⟨rfl, fun _ h => by cases h⟩

/-- The object once the events `fs`, oldest first, have been handled since `initialize`. -/
structure Ready (cbs : CallBacks) (fs : List (LEAP_TRACKING_EVENT F)) (s : LeapMotionV2WrapperImpl F) : Prop where
  bound : cbs [.ptr true .LEAP_TRACKING_EVENT] "onFrame" = some ⟨s.addr, .onFrame⟩
  ring : Holds .zero frameCount_ fs s.frameBuffer_
  lastFrame : TwoHands s

theorem initialize_ready {w : Registered F} (h : Unframed w.1) : Ready (initializeImpl w).2 [] (initializeImpl w).1 where
  bound := rfl
  ring := holds_setSize .zero frameCount_ h.tail
  lastFrame := h.lastFrame

/-- The hand count of the event `frameCount_ - 1` events before the next one. -/
def behind (fs : List (LEAP_TRACKING_EVENT F)) : Nat :=
  if frameCount_ - 1 ≤ fs.length then (fs[fs.length - (frameCount_ - 1)]?.map (·.nHands)).getD 0 else 0

theorem oldest_behind (fs : List (LEAP_TRACKING_EVENT F)) (f : LEAP_TRACKING_EVENT F) :
    (oldest .zero frameCount_ (fs ++ [f])).nHands = behind fs := by
  unfold oldest behind
  have hn : frameCount_ = 60 := rfl
  have hlen : (fs ++ [f]).length = fs.length + 1 := by simp
  by_cases h : frameCount_ - 1 ≤ fs.length
  · have hlt : fs.length - (frameCount_ - 1) < fs.length := by omega
    have e : (fs ++ [f]).length - frameCount_ = fs.length - (frameCount_ - 1) := by omega
    rw [if_pos (by omega), if_pos h, e, List.getElem?_append_left hlt, List.getElem?_eq_getElem hlt]
    rfl
  · rw [if_neg (by omega), if_neg h]; rfl

/-- The accesses that handling `f` makes after the history `fs` are all inside. -/
def Fits (fs : List (LEAP_TRACKING_EVENT F)) (f : LEAP_TRACKING_EVENT F) : Prop :=
  f.nHands ≤ 2 ∧ (f.nHands = 0 ∨ behind fs ≤ f.nHands)

/-- What `onFrame` leaves in `hands_`. -/
def handsAfter (fs : List (LEAP_TRACKING_EVENT F)) (old : List (LEAP_HAND F)) (f : LEAP_TRACKING_EVENT F) :
    List (LEAP_HAND F) :=
  if f.nHands = 0 then [] else f.pHands.take (behind fs) ++ (resize .zero old f.nHands).drop (behind fs)

theorem resize_self {α : Type} (d : α) (xs : List α) : resize d xs xs.length = xs := by simp [resize]

theorem TwoHands.capacity {s : LeapMotionV2WrapperImpl F} (h : TwoHands s) :
    (s.lastFrame.getD allocFrame).pHands.length = 2 := by
  cases hl : s.lastFrame with
  | none => rfl
  | some l => exact h l hl

/-- The object with `l` as its copy of the last frame. -/
def framed (s : LeapMotionV2WrapperImpl F) (l : LastFrame F) : LeapMotionV2WrapperImpl F := { s with lastFrame := some l }

/-- `setFrame` copies at most the two hands it allocated; a third is written past them. -/
theorem setFrame_spec {s : LeapMotionV2WrapperImpl F} (h : TwoHands s) (f : LEAP_TRACKING_EVENT F) :
    (f.nHands ≤ 2 → ∃ l, l.pHands.length = 2 ∧ s.setFrame f = .ok (s.framed l)) ∧
    (¬ f.nHands ≤ 2 → s.setFrame f = .error (.outOfBounds .lastFramePHands)) := by
  constructor
  · intro hf
    refine ⟨_, ?_, by simp only [setFrame, deepCopyTrackingEvent, h.capacity, hf, if_true, bind, Except.bind]; rfl⟩
    simp only [List.length_append, List.length_map, List.length_drop, h.capacity, f.sized]; omega
  · intro hf
    simp only [setFrame, deepCopyTrackingEvent, h.capacity, hf, if_false, bind, Except.bind]

/-- `onFrame` after a history: it returns exactly when the hand count `behind` fits, and
    then it has added the event and rewritten the first `behind` hands. -/
theorem onFrame_spec {fs : List (LEAP_TRACKING_EVENT F)} {self : LeapMotionV2WrapperImpl F}
    (hr : Holds .zero frameCount_ fs self.frameBuffer_) (f : LEAP_TRACKING_EVENT F) :
    (f.nHands = 0 ∨ behind fs ≤ f.nHands →
      self.onFrame f = .ok { self with
        frameBuffer_ := self.frameBuffer_.added f, hands_ := handsAfter fs self.hands_ f }) ∧
    (¬ (f.nHands = 0 ∨ behind fs ≤ f.nHands) →
      ∃ e, (e = .outOfBounds .framePHands ∨ e = .outOfBounds .hands) ∧ self.onFrame f = .error e) := by
  obtain ⟨hadd, hring⟩ := holds_add (by decide : 0 < frameCount_) hr f
  have hback := holds_back (by decide : 0 < frameCount_) hring
  have hres : (if self.hands_.length ≠ f.nHands then resize .zero self.hands_ f.nHands else self.hands_) =
      resize .zero self.hands_ f.nHands := by
    split
    · rfl
    · rename_i e; rw [← not_not.mp e, resize_self]
  simp only [onFrame, hadd, hback, hres, oldest_behind, bind, Except.bind]
  by_cases h0 : f.nHands = 0
  · simp [h0, handsAfter]
  simp only [h0, if_false, false_or]
  refine ⟨fun hle => ?_, fun hgt => ?_⟩
  · rw [copyInto_ok (by rw [f.sized]; exact hle) (by rw [resize_length]; exact hle)]
    simp only [handsAfter, h0, if_false]
  · have hlt : f.pHands.length < behind fs := by rw [f.sized]; omega
    obtain ⟨e, hs, he⟩ := copyInto_error _ _ (Or.inl hlt)
    exact ⟨e, hs, by rw [he]⟩

/-- A tracking event that `setFrame` can copy goes to `onFrame`. -/
theorem tracking_onFrame {cbs : CallBacks} {fs : List (LEAP_TRACKING_EVENT F)} {self : LeapMotionV2WrapperImpl F}
    (h : Ready cbs fs self) {f : LEAP_TRACKING_EVENT F} (h2 : f.nHands ≤ 2) :
    ∃ l, l.pHands.length = 2 ∧ (self.handleTrackingEvent cbs f).res = (self.framed l).onFrame f := by
  obtain ⟨l, hl, hset⟩ := (setFrame_spec h.lastFrame f).1 h2
  refine ⟨l, hl, ?_⟩
  simp only [handleTrackingEvent, hset, lift_ok_bind, handleCallback, h.bound]
  rw [bind_of_ok (emit_res _), if_pos (show self.addr = (self.framed l).addr from rfl)]
  rfl

/-- What handling an event that fits leaves. -/
theorem tracking_fits {cbs : CallBacks} {fs : List (LEAP_TRACKING_EVENT F)} {self : LeapMotionV2WrapperImpl F}
    (h : Ready cbs fs self) {f : LEAP_TRACKING_EVENT F} (hf : Fits fs f) :
    ∃ l, (self.handleTrackingEvent cbs f).res = .ok { self with
      lastFrame := some l, frameBuffer_ := self.frameBuffer_.added f, hands_ := handsAfter fs self.hands_ f } := by
  obtain ⟨l, -, hres⟩ := tracking_onFrame h hf.1
  have hring : Holds .zero frameCount_ fs (self.framed l).frameBuffer_ := h.ring
  exact ⟨l, hres.trans ((onFrame_spec hring f).1 hf.2)⟩

/-- One tracking event: it is handled exactly when it fits the history, and then `hands_`
    is `handsAfter` and the history is one longer. -/
theorem tracking_step {cbs : CallBacks} {fs : List (LEAP_TRACKING_EVENT F)} {self : LeapMotionV2WrapperImpl F}
    (h : Ready cbs fs self) (f : LEAP_TRACKING_EVENT F) :
    (Fits fs f → ∃ t, (self.handleTrackingEvent cbs f).res = .ok t) ∧
    ∀ t, (self.handleTrackingEvent cbs f).res = .ok t →
      Fits fs f ∧ t.hands_ = handsAfter fs self.hands_ f ∧ Ready cbs (fs ++ [f]) t := by
  refine ⟨fun hfit => (tracking_fits h hfit).imp' _ fun _ hl => hl, fun t ht => ?_⟩
  by_cases h2 : f.nHands ≤ 2
  · obtain ⟨l, hl, hres⟩ := tracking_onFrame h h2
    have hring : Holds .zero frameCount_ fs (self.framed l).frameBuffer_ := h.ring
    obtain ⟨hok, herr⟩ := onFrame_spec hring f
    rw [hres] at ht
    by_cases hb : f.nHands = 0 ∨ behind fs ≤ f.nHands
    · rw [hok hb] at ht
      cases ht
      refine ⟨⟨h2, hb⟩, rfl, h.bound, (holds_add (by decide) h.ring f).2, fun l' hl' => ?_⟩
      cases hl'; exact hl
    · obtain ⟨e, -, he⟩ := herr hb
      rw [he] at ht; cases ht
  · simp only [handleTrackingEvent, (setFrame_spec h.lastFrame f).2 h2, lift_error_bind, fail_res] at ht
    cases ht

/-- The object after the events `fs`. -/
def framesRun (w : Registered F) (fs : List (LEAP_TRACKING_EVENT F)) :
    Emit (LeapEv F) Fault (LeapMotionV2WrapperImpl F) :=
  runs (fun self f => self.handleTrackingEvent w.2 f) w.1 fs

theorem frames_ready {w : Registered F} (h : Ready w.2 [] w.1) :
    ∀ {fs : List (LEAP_TRACKING_EVENT F)} {t : LeapMotionV2WrapperImpl F},
      (framesRun w fs).res = .ok t → Ready w.2 fs t := by
  intro fs t ht
  exact runs_trace (fun (s : LeapMotionV2WrapperImpl F) f => s.handleTrackingEvent w.2 f)
    (J := fun fs _ s => Ready w.2 fs s) (fun fs _ s f t hs hst => ((tracking_step hs f).2 t hst).2.2) h ht

/-- A history is handled to its end exactly when each event fits the ones before it. -/
theorem frames_ok_iff {w : Registered F} (h : Ready w.2 [] w.1) (fs : List (LEAP_TRACKING_EVENT F)) :
    (∃ t, (framesRun w fs).res = .ok t) ↔ ∀ gs f hs, fs = gs ++ f :: hs → Fits gs f := by
  induction fs using List.reverseRecOn with
  | nil => exact ⟨fun _ gs f hs e => by simp at e, fun _ => ⟨w.1, rfl⟩⟩
  | append_singleton fs f ih =>
    have hrun : ∀ t, (framesRun w (fs ++ [f])).res = .ok t ↔
        ∃ s, (framesRun w fs).res = .ok s ∧ (s.handleTrackingEvent w.2 f).res = .ok t := fun t => by
      unfold framesRun; rw [runs_snoc, bind_res_ok]
    constructor
    · rintro ⟨t, ht⟩ gs g hs e
      obtain ⟨s, hs', hst⟩ := (hrun t).mp ht
      rcases List.eq_nil_or_concat hs with rfl | ⟨hs, x, rfl⟩
      · obtain ⟨rfl, hfg⟩ := List.append_inj' e rfl
        obtain rfl : f = g := by simpa using hfg
        exact ((tracking_step (frames_ready h hs') f).2 t hst).1
      · rw [List.concat_eq_append, ← List.cons_append, ← List.append_assoc] at e
        obtain ⟨rfl, -⟩ := List.append_inj' e rfl
        exact ih.mp ⟨s, hs'⟩ gs g hs rfl
    · intro hfit
      obtain ⟨s, hs⟩ := ih.mpr fun gs g hs e => hfit gs g (hs ++ [f]) (by rw [e]; simp)
      obtain ⟨t, ht⟩ := (tracking_step (frames_ready h hs) f).1 (hfit fs f [] rfl)
      exact ⟨t, (hrun t).mpr ⟨s, hs, ht⟩⟩

/-! ## Bounds -/

/-- Every access of a whole history is in bounds exactly when every event has at most two
    hands and, unless it has none, at least as many as the event `behind` it. -/
theorem tracking_in_bounds_iff {w : Registered F} (h : Unframed w.1) (fs : List (LEAP_TRACKING_EVENT F)) :
    (∃ t, (framesRun (initializeImpl w) fs).res = .ok t) ↔
      ∀ gs f hs, fs = gs ++ f :: hs → f.nHands ≤ 2 ∧ (f.nHands = 0 ∨ behind gs ≤ f.nHands) :=
  frames_ok_iff (initialize_ready h) fs

/-- A left hand held flat: palm down, every bone along the palm. -/
def flatHand : LEAP_HAND ℚ :=
  ⟨.eLeapHandType_Left, 1, ⟨⟨0, -1, 0⟩, ⟨0, 0, -1⟩⟩, fun _ => ⟨fun _ => ⟨⟨0, 0, 0⟩, ⟨0, 0, -1⟩⟩⟩⟩

def eventOf (hands : List (LEAP_HAND ℚ)) : LEAP_TRACKING_EVENT ℚ := ⟨⟨1, 0⟩, 1, hands.length, hands, 90, rfl⟩

/-- The first object of the process, initialised. -/
def started : Registered ℚ := initializeImpl (make 0 0, fun _ _ => none)

theorem tracking_in_bounds_one_hand :
    (∃ t, (framesRun started [eventOf [flatHand]]).res = .ok t) ↔
      ∀ gs f hs, [eventOf [flatHand]] = gs ++ f :: hs → f.nHands ≤ 2 ∧ (f.nHands = 0 ∨ behind gs ≤ f.nHands) :=
  tracking_in_bounds_iff (make_unframed 0 0) _

/-- 59 frames with two hands, then one hand leaves the view: the loop still runs to two. -/
theorem a_hand_leaving_is_out_of_bounds :
    ¬ ∃ t, (framesRun started (List.replicate 59 (eventOf [flatHand, flatHand]) ++ [eventOf [flatHand]])).res = .ok t := by
  intro h
  have hready : Ready started.2 [] started.1 := initialize_ready (make_unframed 0 0)
  obtain ⟨-, hfit⟩ := (frames_ok_iff hready _).mp h _ _ [] rfl
  have hb : behind (List.replicate 59 (eventOf [flatHand, flatHand])) = 2 := rfl
  rcases hfit with h0 | h1
  · cases h0
  · rw [hb] at h1; exact absurd h1 (by decide)

/-! ## Freshness -/

/-- A handled event's hands are all stored exactly when those from `behind` up were there
    already. -/
theorem hands_fresh_iff {w : Registered F} (h : Unframed w.1) {fs : List (LEAP_TRACKING_EVENT F)}
    {f : LEAP_TRACKING_EVENT F} {s t : LeapMotionV2WrapperImpl F}
    (hs : (framesRun (initializeImpl w) fs).res = .ok s)
    (ht : (s.handleTrackingEvent (initializeImpl w).2 f).res = .ok t) :
    (t.hands.length = f.nHands ∧ ∀ i < f.nHands, t.hands[i]? = f.pHands[i]?) ↔
      ∀ i, behind fs ≤ i → i < f.nHands → some (s.hands_[i]?.getD .zero) = f.pHands[i]? := by
  obtain ⟨hfit, hh, -⟩ := (tracking_step (frames_ready (initialize_ready h) hs) f).2 t ht
  have hhands : t.hands = handsAfter fs s.hands_ f := hh
  rw [hhands]
  by_cases h0 : f.nHands = 0
  · simp [handsAfter, h0]
  have hb : behind fs ≤ f.nHands := hfit.2.resolve_left h0
  have htake : (f.pHands.take (behind fs)).length = behind fs := by rw [List.length_take, f.sized]; omega
  have hcopied : ∀ i, i < behind fs → (handsAfter fs s.hands_ f)[i]? = f.pHands[i]? := by
    intro i hi
    simp only [handsAfter, h0, if_false]
    rw [List.getElem?_append_left (by omega), List.getElem?_take_of_lt hi]
  have hkept : ∀ i, behind fs ≤ i → i < f.nHands → (handsAfter fs s.hands_ f)[i]? = some (s.hands_[i]?.getD .zero) := by
    intro i hi hlt
    simp only [handsAfter, h0, if_false]
    rw [List.getElem?_append_right (by omega), htake, List.getElem?_drop, Nat.add_sub_cancel' hi,
      resize_getElem? _ _ hlt]
  constructor
  · rintro ⟨-, heq⟩ i hi hlt
    rw [← hkept i hi hlt]; exact heq i hlt
  · intro heq
    refine ⟨?_, fun i hlt => ?_⟩
    · simp only [handsAfter, h0, if_false, List.length_append, htake, List.length_drop, resize_length]; omega
    · by_cases hi : i < behind fs
      · exact hcopied i hi
      · rw [hkept i (by omega) hlt]; exact heq i (by omega) hlt

/-- The sixtieth event finds the first one's hand behind it, and stores its own. -/
theorem hands_fresh_sixtieth_event :
    ∃ s t, (framesRun started (List.replicate 59 (eventOf [flatHand]))).res = .ok s ∧
      (s.handleTrackingEvent started.2 (eventOf [flatHand])).res = .ok t ∧ behind (List.replicate 59 (eventOf [flatHand])) = 1 ∧
      t.hands.length = 1 ∧ ∀ i < 1, t.hands[i]? = [flatHand][i]? := by
  have hrun : ∃ s, (framesRun started (List.replicate 59 (eventOf [flatHand]))).res = .ok s := ⟨_, rfl⟩
  obtain ⟨s, hs⟩ := hrun
  have hbehind : behind (List.replicate 59 (eventOf [flatHand])) = 1 := rfl
  obtain ⟨t, ht⟩ := (tracking_step (frames_ready (initialize_ready (make_unframed 0 0)) hs) (eventOf [flatHand])).1
    ⟨by decide, Or.inr (by rw [hbehind]; decide)⟩
  refine ⟨s, t, hs, ht, hbehind,
    (hands_fresh_iff (f := eventOf [flatHand]) (make_unframed 0 0) hs ht).mpr fun i hle hlt => ?_⟩
  -- its hands are those behind it, so that nothing is left of `hands_`
  rw [hbehind] at hle
  exact absurd hlt (Nat.not_lt.mpr hle)

/-- The first event's hand is not stored: `back()` reads an empty slot, and `hands_` keeps
    the default-constructed hand `resize` made. -/
theorem first_hand_is_lost :
    ∃ t, (framesRun started [eventOf [flatHand]]).res = .ok t ∧
      ¬ (t.hands.length = 1 ∧ ∀ i < 1, t.hands[i]? = [flatHand][i]?) := by
  refine ⟨_, rfl, fun ⟨_, h⟩ => ?_⟩
  have h0 : some LEAP_HAND.zero = some flatHand := h 0 (by decide)
  have hc := congrArg LEAP_HAND.confidence (Option.some.inj h0)
  norm_num [LEAP_HAND.zero, flatHand] at hc

end LeapMotionV2WrapperImpl

end LeapSyncFfh
