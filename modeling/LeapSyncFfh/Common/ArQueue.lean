/-
  LeapSyncFfh.Common.ArQueue — the blocking queues of `arQueue.h`, as monitors.

  Each method body between taking and releasing `mtx_` is one section. `put` of the
  bounded queue waits on `m_notFullCv_`, `take` and the timed `take` (`takeFor`) wait on
  `m_notEmptyCv_`; each notifies one thread of the other variable. `DynamicQueue::put`
  never waits and its takers notify nobody. `maxSize_` is read inside the sections and set
  once, before the threads start.

  `queues_correct`, for any number of threads, any calls and any schedule: what was removed
  and then what is queued is what was pushed, in order; the bounded queue keeps its bound;
  and no wake-up is lost on either variable.
-/

import LeapSyncFfh.Lib.Monitor

namespace LeapSyncFfh

open Emit

variable {T : Type}

inductive QueueCv where
  | m_notEmptyCv_
  | m_notFullCv_
  deriving DecidableEq, Repr

/-- What a method of a queue returns. -/
inductive QueueRet (T : Type) where
  | done
  | value (x : T)
  /-- The timed `take` returned `false`. -/
  | failed
  | bool (b : Bool)
  | size (n : Nat)

def QueueRet.value? : QueueRet T → Option T
  | .value x => some x
  | _ => none

/-! ## First in, first out -/

section Fifo

variable {σ Op Cv : Type} [DecidableEq Cv]

/-- The values that the operations so far took out. -/
def removed (tr : List (Op × QueueRet T)) : List T := tr.filterMap fun d => d.2.value?

/-- The values that the operations so far put in. -/
def pushed (puts : Op → Option T) (tr : List (Op × QueueRet T)) : List T := tr.filterMap fun d => puts d.1

/-- A section takes its result from the front and adds what it puts at the back. -/
structure Fifo (M : Monitor σ Op (QueueRet T) Cv) (items : σ → List T) (puts : Op → Option T) : Prop where
  section_ : ∀ op s t r n, M.body op s = some (t, r, n) → r.value?.toList ++ items t = items s ++ (puts op).toList
  late : ∀ op r, M.timeout op = some r → r.value? = none ∧ puts op = none

theorem fifo_order {M : Monitor σ Op (QueueRet T) Cv} {items : σ → List T} {puts : Op → Option T}
    (hf : Fifo M items puts) {s : Monitor.St σ Op (QueueRet T)} (hs : items s.shared = [])
    (acts : List (Monitor.Act Op)) :
    removed (runs M.step s acts).out ++ items (runs M.step s acts).val.shared = pushed puts (runs M.step s acts).out := by
  have split : ∀ (tr : List (Op × QueueRet T)) (op : Op) (r : QueueRet T),
      removed (tr ++ [(op, r)]) = removed tr ++ r.value?.toList ∧
        pushed puts (tr ++ [(op, r)]) = pushed puts tr ++ (puts op).toList := by
    intro tr op r
    simp only [removed, pushed, List.filterMap_append, List.filterMap_cons, List.filterMap_nil]
    constructor
    · cases r.value? <;> rfl
    · cases puts op <;> rfl
  refine M.shared_inv (J := fun tr s => removed tr ++ items s = pushed puts tr) ?_ ?_ (by simpa [removed, pushed]) acts
  · intro tr s op t r n hj hb
    rw [(split tr op r).1, (split tr op r).2, List.append_assoc, hf.section_ op s t r n hb, ← List.append_assoc, hj]
  · intro tr s op r hj _ hr
    obtain ⟨hvalue, hputs⟩ := hf.late op r hr
    rw [(split tr op r).1, (split tr op r).2, hvalue, hputs]
    simpa using hj

end Fifo

/-! ## `BlockingBoundedQueue` -/

structure BlockingBoundedQueue (T : Type) where
  queue_ : List T := []
  maxSize_ : Nat

namespace BlockingBoundedQueue

inductive Op (T : Type) where
  | put (x : T)
  | take
  | takeFor (timeout : Int)
  | empty
  | size
  | full

def pop (q : BlockingBoundedQueue T) : Option (BlockingBoundedQueue T × QueueRet T × Option QueueCv) :=
  match q.queue_ with
  | [] => none
  | front :: rest => some ({ q with queue_ := rest }, .value front, some .m_notFullCv_)

def body : Op T → BlockingBoundedQueue T → Option (BlockingBoundedQueue T × QueueRet T × Option QueueCv)
  | .put x, q =>
    if q.queue_.length < q.maxSize_ then
      some ({ q with queue_ := q.queue_ ++ [x] }, .done, some .m_notEmptyCv_)
    else none
  | .take, q => q.pop
  | .takeFor _, q => q.pop
  | .empty, q => some (q, .bool q.queue_.isEmpty, none)
  | .size, q => some (q, .size q.queue_.length, none)
  | .full, q => some (q, .bool (q.queue_.length = q.maxSize_), none)

def waitsOn : Op T → Option QueueCv
  | .put _ => some .m_notFullCv_
  | .take => some .m_notEmptyCv_
  | .takeFor _ => some .m_notEmptyCv_
  | _ => none

def timeout : Op T → Option (QueueRet T)
  | .takeFor _ => some .failed
  | _ => none

def monitor : Monitor (BlockingBoundedQueue T) (Op T) (QueueRet T) QueueCv := ⟨body, waitsOn, timeout⟩

def puts : Op T → Option T
  | .put x => some x
  | _ => none

/-- The items that takers, and the slots that putters can have. -/
def available : QueueCv → BlockingBoundedQueue T → Nat
  | .m_notEmptyCv_, q => q.queue_.length
  | .m_notFullCv_, q => q.maxSize_ - q.queue_.length

/-! What the sections do -/

theorem pop_none {q : BlockingBoundedQueue T} (h : q.pop = none) : q.queue_.length = 0 := by
  unfold pop at h
  split at h
  · rename_i hq; rw [hq]; rfl
  · cases h

theorem pop_cases {q t : BlockingBoundedQueue T} {r : QueueRet T} {n : Option QueueCv} (h : q.pop = some (t, r, n)) :
    ∃ front, q.queue_ = front :: t.queue_ ∧ r = .value front ∧ n = some .m_notFullCv_ ∧ t.maxSize_ = q.maxSize_ := by
  unfold pop at h
  split at h
  · cases h
  · rename_i front rest hq
    cases h
    exact ⟨front, hq, rfl, rfl, rfl⟩

/-- A section pushes at the back, pops at the front, or only reads. -/
theorem body_cases {op : Op T} {q t : BlockingBoundedQueue T} {r : QueueRet T} {n : Option QueueCv}
    (h : body op q = some (t, r, n)) :
    (∃ x, op = .put x ∧ q.queue_.length < q.maxSize_ ∧ t = { q with queue_ := q.queue_ ++ [x] } ∧ r = .done ∧
      n = some .m_notEmptyCv_) ∨
    (waitsOn op = some .m_notEmptyCv_ ∧ puts op = none ∧
      ∃ front, q.queue_ = front :: t.queue_ ∧ r = .value front ∧ n = some .m_notFullCv_ ∧ t.maxSize_ = q.maxSize_) ∨
    (waitsOn op = none ∧ puts op = none ∧ t = q ∧ r.value? = none ∧ n = none) := by
  cases op with
  | put x =>
    simp only [body] at h
    split at h
    · cases h; exact Or.inl ⟨x, rfl, ‹_›, rfl, rfl, rfl⟩
    · cases h
  | take => exact Or.inr (Or.inl ⟨rfl, rfl, pop_cases h⟩)
  | takeFor timeout => exact Or.inr (Or.inl ⟨rfl, rfl, pop_cases h⟩)
  | _ => cases h; exact Or.inr (Or.inr ⟨rfl, rfl, rfl, rfl, rfl⟩)

theorem fifo : Fifo (monitor (T := T)) (·.queue_) puts where
  section_ op q t r n h := by
    rcases body_cases h with ⟨x, rfl, -, rfl, rfl, -⟩ | ⟨-, hp, front, hq, rfl, -, -⟩ | ⟨-, hp, rfl, hr, -⟩
    · rfl
    · simp [hp, hq, QueueRet.value?]
    · simp [hp, hr]
  late op r h := by
    cases op with
    | takeFor timeout => cases h; exact ⟨rfl, rfl⟩
    | _ => cases h

theorem counted : (monitor (T := T)).Counted available where
  blocked op q c h hw := by
    cases op with
    | put x =>
      cases hw
      simp only [monitor, body] at h
      split at h
      · cases h
      · simp only [available]; omega
    | take => cases hw; exact pop_none h
    | takeFor timeout => cases hw; exact pop_none h
    | _ => cases hw
  takes op q t r n c h hw := by
    rcases body_cases h with ⟨x, rfl, hlt, rfl, -, -⟩ | ⟨hop, -, front, hq, -, -, -⟩ | ⟨hop, -⟩
    · cases hw
      simp only [available, List.length_append, List.length_singleton]
      omega
    · obtain rfl := Option.some.inj (hop.symm.trans hw)
      simp [available, hq]
    · cases hop.symm.trans hw
  adds op q t r n c h := by
    rcases body_cases h with ⟨x, rfl, hlt, rfl, -, rfl⟩ | ⟨-, -, front, hq, -, rfl, hmax⟩ | ⟨-, -, rfl, -, -⟩
    · cases c <;> simp [available]; omega
    · cases c <;> simp [available, hq, hmax]; omega
    · exact Nat.le_add_right _ _

theorem bounded {s : Monitor.St (BlockingBoundedQueue T) (Op T) (QueueRet T)}
    (hs : s.shared.queue_.length ≤ s.shared.maxSize_) (acts : List (Monitor.Act (Op T))) :
    (runs monitor.step s acts).val.shared.maxSize_ = s.shared.maxSize_ ∧
      (runs monitor.step s acts).val.shared.queue_.length ≤ s.shared.maxSize_ := by
  refine monitor.shared_inv (J := fun _ q => q.maxSize_ = s.shared.maxSize_ ∧ q.queue_.length ≤ s.shared.maxSize_)
    (fun _ q op t r n ⟨hmax, hle⟩ h => ?_) (fun _ _ _ _ hj _ _ => hj) ⟨rfl, hs⟩ acts
  rcases body_cases h with ⟨x, -, hlt, rfl, -, -⟩ | ⟨-, -, front, hq, -, -, hmax'⟩ | ⟨-, -, rfl, -, -⟩
  · refine ⟨hmax, ?_⟩
    simp only [List.length_append, List.length_singleton]
    omega
  · rw [hq, List.length_cons] at hle
    exact ⟨hmax'.trans hmax, by omega⟩
  · exact ⟨hmax, hle⟩

end BlockingBoundedQueue

/-! ## `DynamicQueue` -/

structure DynamicQueue (T : Type) where
  queue_ : List T := []

namespace DynamicQueue

inductive Op (T : Type) where
  | put (x : T)
  | take
  | takeFor (timeout : Int)

def pop (q : DynamicQueue T) : Option (DynamicQueue T × QueueRet T × Option QueueCv) :=
  match q.queue_ with
  | [] => none
  | front :: rest => some (⟨rest⟩, .value front, none)

def body : Op T → DynamicQueue T → Option (DynamicQueue T × QueueRet T × Option QueueCv)
  | .put x, q => some (⟨q.queue_ ++ [x]⟩, .done, some .m_notEmptyCv_)
  | .take, q => q.pop
  | .takeFor _, q => q.pop

def waitsOn : Op T → Option QueueCv
  | .put _ => none
  | _ => some .m_notEmptyCv_

def timeout : Op T → Option (QueueRet T)
  | .takeFor _ => some .failed
  | _ => none

def monitor : Monitor (DynamicQueue T) (Op T) (QueueRet T) QueueCv := ⟨body, waitsOn, timeout⟩

def puts : Op T → Option T
  | .put x => some x
  | _ => none

/-- The items that takers can have; nobody waits on the other variable. -/
def available : QueueCv → DynamicQueue T → Nat
  | .m_notEmptyCv_, q => q.queue_.length
  | .m_notFullCv_, _ => 0

theorem pop_none {q : DynamicQueue T} (h : q.pop = none) : q.queue_.length = 0 := by
  unfold pop at h
  split at h
  · rename_i hq; rw [hq]; rfl
  · cases h

theorem pop_cases {q t : DynamicQueue T} {r : QueueRet T} {n : Option QueueCv} (h : q.pop = some (t, r, n)) :
    ∃ front, q.queue_ = front :: t.queue_ ∧ r = .value front ∧ n = none := by
  unfold pop at h
  split at h
  · cases h
  · rename_i front rest hq
    cases h
    exact ⟨front, hq, rfl, rfl⟩

theorem body_cases {op : Op T} {q t : DynamicQueue T} {r : QueueRet T} {n : Option QueueCv}
    (h : body op q = some (t, r, n)) :
    (∃ x, op = .put x ∧ t.queue_ = q.queue_ ++ [x] ∧ r = .done ∧ n = some .m_notEmptyCv_) ∨
    (waitsOn op = some .m_notEmptyCv_ ∧ puts op = none ∧ ∃ front, q.queue_ = front :: t.queue_ ∧ r = .value front ∧ n = none) := by
  cases op with
  | put x => cases h; exact Or.inl ⟨x, rfl, rfl, rfl, rfl⟩
  | take => exact Or.inr ⟨rfl, rfl, pop_cases h⟩
  | takeFor timeout => exact Or.inr ⟨rfl, rfl, pop_cases h⟩

theorem fifo : Fifo (monitor (T := T)) (·.queue_) puts where
  section_ op q t r n h := by
    rcases body_cases h with ⟨x, rfl, ht, rfl, -⟩ | ⟨-, hp, front, hq, rfl, -⟩
    · simp [ht, puts, QueueRet.value?]
    · simp [hp, hq, QueueRet.value?]
  late op r h := by
    cases op with
    | takeFor timeout => cases h; exact ⟨rfl, rfl⟩
    | _ => cases h

theorem counted : (monitor (T := T)).Counted available where
  blocked op q c h hw := by
    cases op with
    | put x => cases hw
    | take => cases hw; exact pop_none h
    | takeFor timeout => cases hw; exact pop_none h
  takes op q t r n c h hw := by
    rcases body_cases h with ⟨x, rfl, -⟩ | ⟨hop, -, front, hq, -, -⟩
    · cases hw
    · obtain rfl := Option.some.inj (hop.symm.trans hw)
      simp [available, hq]
  adds op q t r n c h := by
    rcases body_cases h with ⟨x, -, ht, -, rfl⟩ | ⟨-, -, front, hq, -, rfl⟩
    · cases c <;> simp [available, ht]
    · cases c <;> simp [available, hq]

end DynamicQueue

/-! ## The two queues under any threads and any schedule -/

theorem queues_correct (n : Nat) :
    (∀ (maxSize : Nat) (acts : List (Monitor.Act (BlockingBoundedQueue.Op T))),
      let run := runs BlockingBoundedQueue.monitor.step (.start { maxSize_ := maxSize } n) acts
      removed run.out ++ run.val.shared.queue_ = pushed BlockingBoundedQueue.puts run.out ∧
        run.val.shared.maxSize_ = maxSize ∧ run.val.shared.queue_.length ≤ maxSize ∧
        ∀ c, BlockingBoundedQueue.monitor.Covered BlockingBoundedQueue.available c run.val) ∧
    ∀ acts : List (Monitor.Act (DynamicQueue.Op T)),
      let run := runs DynamicQueue.monitor.step (.start {} n) acts
      removed run.out ++ run.val.shared.queue_ = pushed DynamicQueue.puts run.out ∧
        ∀ c, DynamicQueue.monitor.Covered DynamicQueue.available c run.val := by
  refine ⟨fun maxSize acts => ⟨fifo_order BlockingBoundedQueue.fifo rfl acts, ?_, ?_, fun c => ?_⟩,
    fun acts => ⟨fifo_order DynamicQueue.fifo rfl acts, fun c => ?_⟩⟩
  · exact (BlockingBoundedQueue.bounded (Nat.zero_le _) acts).1
  · exact (BlockingBoundedQueue.bounded (Nat.zero_le _) acts).2
  · exact Monitor.no_lost_wakeup _ BlockingBoundedQueue.counted c (Monitor.start_covered _ _ c _ n) acts
  · exact Monitor.no_lost_wakeup _ DynamicQueue.counted c (Monitor.start_covered _ _ c _ n) acts

end LeapSyncFfh
