/-
  LeapSyncFfh.Common.Resizing — `BlockingBoundedQueue` when `setSize` is called while it is
  in use.

  `setSize` writes `maxSize_` and does nothing else: it takes no lock, it does not look at
  the queue, and it wakes nobody. It is a step of its own (`ResizeAct.setSize`), between any
  two sections of `put`, `take` and the timed `take`.

  `put` waits while the size is not below `maxSize_`, `full` asks whether they are equal.
  The two agree while the queue is within its bound (`full_iff_put_waits`), which the
  sections keep. `Orderly` is that, and that no putter waits un-notified while there is room
  for it. It holds of all states reached exactly when no `setSize` goes below what is queued,
  and none makes more room, while a putter waits, than putters were notified
  (`orderly_iff`).
-/

import LeapSyncFfh.Common.ArQueue

namespace LeapSyncFfh

open Emit

namespace BlockingBoundedQueue

variable {T : Type}

def setSize (q : BlockingBoundedQueue T) (maxSize : Nat) : BlockingBoundedQueue T := { q with maxSize_ := maxSize }

/-- Any number of threads around one queue. -/
abbrev Threads (T : Type) := Monitor.St (BlockingBoundedQueue T) (Op T) (QueueRet T)

inductive ResizeAct (T : Type) where
  | act (a : Monitor.Act (Op T))
  | setSize (maxSize : Nat)

def resizeStep (s : Threads T) : ResizeAct T → Emit (Op T × QueueRet T) Empty (Threads T)
  | .act a => monitor.step s a
  | .setSize maxSize => pure { s with shared := s.shared.setSize maxSize }

/-! ## The law -/

/-- A putter waits and was not notified. -/
def PutterWaits (s : Threads T) : Prop := ∃ p ∈ s.threads, monitor.waitsFor .m_notFullCv_ p = true

/-- The putters that were notified and have not tried again. -/
def notifiedPutters (s : Threads T) : Nat := s.threads.countP (monitor.notifiedFor .m_notFullCv_)

structure Orderly (s : Threads T) : Prop where
  bound : s.shared.queue_.length ≤ s.shared.maxSize_
  full : ∀ x, body .full s.shared = some (s.shared, .bool true, none) ↔ body (.put x) s.shared = none
  notified : PutterWaits s → s.shared.maxSize_ - s.shared.queue_.length ≤ notifiedPutters s

/-- A `setSize` with room for what is queued, and for no putter that is left waiting. -/
def Fits (s : Threads T) : ResizeAct T → Prop
  | .act _ => True
  | .setSize maxSize => s.shared.queue_.length ≤ maxSize ∧
      (PutterWaits s → maxSize - s.shared.queue_.length ≤ notifiedPutters s)

/-- Within the bound, `full` tells whether `put` waits. -/
theorem full_iff_put_waits {q : BlockingBoundedQueue T} (h : q.queue_.length ≤ q.maxSize_) (x : T) :
    body .full q = some (q, .bool true, none) ↔ body (.put x) q = none := by
  have hput : body (.put x) q = none ↔ ¬ q.queue_.length < q.maxSize_ := by
    simp only [body]
    split
    · rename_i hlt
      exact iff_of_false (fun he => by cases he) fun hn => hn hlt
    · rename_i hn
      exact iff_of_true rfl hn
  rw [hput]
  simp only [body, Option.some.injEq, Prod.mk.injEq, QueueRet.bool.injEq, decide_eq_true_eq, true_and, and_true]
  omega

theorem orderly_of {s : Threads T} (hbound : s.shared.queue_.length ≤ s.shared.maxSize_)
    (hcov : monitor.Covered available .m_notFullCv_ s) : Orderly s :=
  ⟨hbound, full_iff_put_waits hbound, hcov⟩

/-- A section keeps the bound, and loses no wake-up. -/
theorem act_orderly {s t : Threads T} {a : Monitor.Act (Op T)} (hs : Orderly s) (h : (monitor.step s a).res = .ok t) :
    Orderly t := by
  have hrun : (runs monitor.step s [a]).val = t := by
    have hres : (runs monitor.step s [a]).res = .ok t := bind_res_ok.mpr ⟨t, h, rfl⟩
    exact Except.ok.inj ((res_val _).symm.trans hres)
  obtain ⟨hmax, hle⟩ := bounded hs.bound [a]
  rw [hrun] at hmax hle
  exact orderly_of (by rw [hmax]; exact hle) (monitor.step_covered counted .m_notFullCv_ hs.notified h)

theorem setSize_orderly {s : Threads T} (maxSize : Nat) :
    Orderly { s with shared := s.shared.setSize maxSize } ↔ Fits s (.setSize maxSize) :=
  ⟨fun h => ⟨h.bound, h.notified⟩, fun h => orderly_of h.1 h.2⟩

/-- For any bound at the start, any threads and any schedule. -/
theorem orderly_iff (maxSize n : Nat) (acts : List (ResizeAct T)) :
    Throughout resizeStep (fun _ s => Orderly s) (.start { maxSize_ := maxSize } n) acts ↔
      Along resizeStep Fits (.start { maxSize_ := maxSize } n) acts := by
  refine runs_law_iff resizeStep (I := fun _ s => Orderly s) (fun _ _ h => h) (fun _ s a t hs hc h => ?_)
    (fun _ s a t _ h ht => ?_) (fun _ _ _ e _ _ => e.elim)
    (orderly_of (Nat.zero_le _) (monitor.start_covered available .m_notFullCv_ _ n)) acts
  · cases a with
    | act a => exact act_orderly hs h
    | setSize m =>
      cases h
      exact (setSize_orderly m).mpr hc
  · cases a with
    | act a => trivial
    | setSize m =>
      cases h
      exact (setSize_orderly m).mp ht

/-- Two items are queued and the bound is set to one: `full` is false and `put` waits. -/
theorem a_smaller_bound_is_exceeded : ¬ ∀ (maxSize n : Nat) (acts : List (ResizeAct Nat)),
    Throughout resizeStep (fun _ s => Orderly s) (.start { maxSize_ := maxSize } n) acts := by
  intro h
  have hlaw := h 2 1 [.act (.call 0 (.put 7)), .act (.enter 0 0), .act (.ret 0), .act (.call 0 (.put 8)),
    .act (.enter 0 0), .setSize 1] _ List.prefix_rfl _ rfl
  exact absurd hlaw.bound (by decide)

end BlockingBoundedQueue

end LeapSyncFfh
