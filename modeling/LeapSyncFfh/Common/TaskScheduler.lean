/-
  LeapSyncFfh.Common.TaskScheduler — `taskScheduler.h`: producers and consumers that share
  one `TaskRunnable`, over any interleaving of their steps.

  Thread `i` stands somewhere in its `run()` (`Thread`) and, while it is inside a method of
  `blque_`, somewhere in that method (phase `i` of the monitor). A read or a write of
  `running_`, a critical section of the queue, a predicate and a callback are each one step.
  What `stopPred_` answers and what `createResource_` makes are part of the label. `stop` is
  a call from outside. The outputs are the queue operations that ended and the objects that
  consumers were given.

  `step_does` lists what a step can be, and the rest is proved by its cases: `pair_step` says
  what a step does to each thread and its phase, `queue_step` what it does to the queue.
-/

import LeapSyncFfh.Common.ArQueue

namespace LeapSyncFfh

open Emit

namespace TaskScheduler

variable {T : Type}

abbrev Op := BlockingBoundedQueue.Op
abbrev Phase (T : Type) := Monitor.Phase (Op T) (QueueRet T)

/-! ## The threads -/

/-- Where a producer stands in `run()`. -/
inductive ProducerPc (T : Type) where
  /-- `isRunning()`. -/
  | check
  | full
  | stopPred
  | stop
  | create
  | put (obj : T)
  | ended

/-- Where a consumer stands in `run()`. -/
inductive ConsumerPc (T : Type) where
  | check
  | empty
  | take
  | use (obj : T)
  | ended

inductive Thread (T : Type) where
  | Producer (pc : ProducerPc T)
  | TrigProducer (pc : ProducerPc T)
  | Consumer (waitTime_ : Int) (pc : ConsumerPc T)

namespace Thread

/-- The queue method the thread is in. -/
def op : Thread T → Option (Op T)
  | Producer .full => some .full
  | Producer (.put obj) => some (.put obj)
  | TrigProducer .full => some .full
  | TrigProducer (.put obj) => some (.put obj)
  | Consumer _ .empty => some .empty
  | Consumer waitTime_ .take => some (.takeFor waitTime_)
  | _ => none

/-- The thread once the method it is in has returned `r`. -/
def resume : Thread T → QueueRet T → Thread T
  | Producer .full, .bool b => Producer (if b then .ended else .stopPred)
  | Producer (.put _), _ => Producer .check
  | TrigProducer .full, .bool b => TrigProducer (if b then .ended else .create)
  | TrigProducer (.put _), _ => TrigProducer .stopPred
  | Consumer w .empty, .bool b => Consumer w (if b then .ended else .take)
  | Consumer w .take, .value obj => Consumer w (.use obj)
  | Consumer w .take, .failed => Consumer w .check
  -- no method returns anything else
  | th, _ => th

/-- A step of `run()` that touches nothing but the thread, and reads `running_`. -/
def next (running_ stopPred : Bool) : Thread T → Option (Thread T)
  | Producer .check => some (Producer (if running_ then .full else .ended))
  | Producer .stopPred => some (Producer (if stopPred then .stop else .create))
  | TrigProducer .check => some (TrigProducer (if running_ then .full else .ended))
  | TrigProducer .stopPred => some (TrigProducer (if stopPred then .stop else .ended))
  | Consumer w .check => some (Consumer w (if running_ then .take else .empty))
  | _ => none

/-- The thread after it has called `stop()`. -/
def stopping : Thread T → Option (Thread T)
  | Producer .stop => some (Producer .ended)
  | TrigProducer .stop => some (TrigProducer .ended)
  | _ => none

def created (obj : T) : Thread T → Option (Thread T)
  | Producer .create => some (Producer (.put obj))
  | TrigProducer .create => some (TrigProducer (.put obj))
  | _ => none

/-- The object the thread is about to use, and the thread after that. -/
def using_ : Thread T → Option (T × Thread T)
  | Consumer w (.use obj) => some (obj, Consumer w .check)
  | _ => none

def ended : Thread T → Bool
  | Producer .ended => true
  | TrigProducer .ended => true
  | Consumer _ .ended => true
  | _ => false

end Thread

/-- A thread before its `run()`. -/
inductive Role where
  | Producer
  | TrigProducer
  | Consumer (waitTime_ : Int)

def Role.start : Role → Thread T
  | .Producer => .Producer .check
  | .TrigProducer => .TrigProducer .check
  | .Consumer w => .Consumer w .check

/-! ## The steps -/

structure St (T : Type) where
  running_ : Bool
  blque_ : Monitor.St (BlockingBoundedQueue T) (Op T) (QueueRet T)
  threads : List (Thread T)

inductive Ev (T : Type) where
  /-- Thread `i` ended a queue method. -/
  | queue (i : Nat) (op : Op T) (r : QueueRet T)
  /-- Thread `i` called `useResource_`. -/
  | used (i : Nat) (obj : T)

inductive Act (T : Type) where
  | run (i : Nat) (stopPred : Bool)
  | create (i : Nat) (obj : T)
  | call (i : Nat)
  | enter (i wake : Nat)
  | timeout (i : Nat)
  | spurious (i : Nat)
  | ret (i : Nat)
  | stop

/-- `maxSize` is what `initialize` set; `running_` is as it was, or as `start()` left it. -/
def start (running_ : Bool) (maxSize : Nat) (roles : List Role) : St T :=
  ⟨running_, .start { maxSize_ := maxSize } roles.length, roles.map Role.start⟩

def onQueue (s : St T) (i : Nat) (a : Monitor.Act (Op T)) : Emit (Ev T) Empty (St T) := do
  let blque_ ← (BlockingBoundedQueue.monitor.step s.blque_ a).mapOut fun d => .queue i d.1 d.2
  pure { s with blque_ := blque_ }

/-- A label that does not apply changes nothing. -/
def step (s : St T) : Act T → Emit (Ev T) Empty (St T)
  | .run i stopPred =>
    match s.threads[i]? with
    | none => pure s
    | some th =>
      match th.next s.running_ stopPred with
      | some th' => pure { s with threads := s.threads.set i th' }
      | none =>
      match th.stopping with
      | some th' => pure { s with running_ := false, threads := s.threads.set i th' }
      | none =>
      match th.using_ with
      | some (obj, th') => do
        emit (.used i obj)
        pure { s with threads := s.threads.set i th' }
      | none => pure s
  | .create i obj =>
    match (s.threads[i]?).bind (Thread.created obj) with
    | some th => pure { s with threads := s.threads.set i th }
    | none => pure s
  | .call i =>
    match (s.threads[i]?).bind Thread.op with
    | some op => onQueue s i (.call i op)
    | none => pure s
  | .enter i wake => onQueue s i (.enter i wake)
  | .timeout i => onQueue s i (.timeout i)
  | .spurious i => onQueue s i (.spurious i)
  | .ret i =>
    match s.threads[i]?, s.blque_.threads[i]? with
    | some th, some (.returned _ r) => do
      let s ← onQueue s i (.ret i)
      pure { s with threads := s.threads.set i (th.resume r) }
    | _, _ => pure s
  | .stop => pure { s with running_ := false }

theorem step_val {s t : St T} {a : Act T} (h : (step s a).res = .ok t) : t = (step s a).val :=
  Except.ok.inj (h.symm.trans (res_val _))

/-! ## What a step can be -/

def Ev.thread : Ev T → Nat
  | .queue i _ _ => i
  | .used i _ => i

/-- Thread `j` and its phase. -/
structure Pair (s : St T) (j : Nat) (th : Thread T) (p : Phase T) : Prop where
  thread : s.threads[j]? = some th
  phase : s.blque_.threads[j]? = some p

theorem onQueue_eq (s : St T) (i : Nat) (a : Monitor.Act (Op T)) :
    onQueue s i a = ⟨(BlockingBoundedQueue.monitor.step s.blque_ a).out.map fun d => .queue i d.1 d.2,
      .ok { s with blque_ := (BlockingBoundedQueue.monitor.step s.blque_ a).val }⟩ := by
  unfold onQueue
  rw [bind_of_ok (mapOut_res _ _ |>.trans (res_val _))]
  simp

theorem ret_eq {s : St T} {i : Nat} {th : Thread T} {op : Op T} {r : QueueRet T} (h : Pair s i th (.returned op r)) :
    step s (.ret i) = pure { s with
      blque_ := { s.blque_ with threads := s.blque_.threads.set i .idle }
      threads := s.threads.set i (th.resume r) } := by
  simp only [step, h.thread, h.phase, onQueue_eq, Monitor.step]
  rfl

theorem ret_none {s : St T} {i : Nat} (h : ¬ ∃ th op r, Pair s i th (.returned op r)) : step s (.ret i) = pure s := by
  simp only [step]
  split
  · rename_i th op r hi hp
    exact absurd ⟨th, op, r, hi, hp⟩ h
  · rfl

/-- A step of `run()` outside the queue: the outputs, the flag after it and the thread. -/
inductive Goes (s : St T) (i : Nat) (th : Thread T) : List (Ev T) → Bool → Thread T → Prop
  | next (stopPred : Bool) (th' : Thread T) : th.next s.running_ stopPred = some th' → Goes s i th [] s.running_ th'
  | stopping (th' : Thread T) : th.stopping = some th' → Goes s i th [] false th'
  | created (obj : T) (th' : Thread T) : th.created obj = some th' → Goes s i th [] s.running_ th'
  | used (obj : T) (th' : Thread T) : th.using_ = some (obj, th') → Goes s i th [.used i obj] s.running_ th'

/-- Everything a step can be. -/
inductive Does (s : St T) : Emit (Ev T) Empty (St T) → Prop
  | nothing : Does s (pure s)
  | goes (i : Nat) (th th' : Thread T) (out : List (Ev T)) (running_ : Bool) : s.threads[i]? = some th →
      Goes s i th out running_ th' →
      Does s ⟨out, .ok { s with running_ := running_, threads := s.threads.set i th' }⟩
  | queue (i : Nat) (b : Monitor.Act (Op T)) : b.thread = i → (∀ k, b ≠ .ret k) →
      (∀ k op, b = .call k op → (s.threads[k]?).bind Thread.op = some op) → Does s (onQueue s i b)
  | ret (i : Nat) (th : Thread T) (op : Op T) (r : QueueRet T) : Pair s i th (.returned op r) →
      Does s (pure { s with
        blque_ := { s.blque_ with threads := s.blque_.threads.set i .idle }
        threads := s.threads.set i (th.resume r) })
  | stop : Does s (pure { s with running_ := false })

theorem step_does (s : St T) (a : Act T) : Does s (step s a) := by
  cases a with
  | run i stopPred =>
    simp only [step]
    split
    · exact .nothing
    rename_i th hi
    split
    · rename_i th' h
      exact .goes i th th' [] s.running_ hi (.next stopPred th' h)
    split
    · rename_i th' h
      exact .goes i th th' [] false hi (.stopping th' h)
    split
    · rename_i obj th' h
      exact .goes i th th' [.used i obj] s.running_ hi (.used obj th' h)
    · exact .nothing
  | create i obj =>
    simp only [step]
    split
    · rename_i th' h
      obtain ⟨th, hi, h⟩ := Option.bind_eq_some_iff.mp h
      exact .goes i th th' [] s.running_ hi (.created obj th' h)
    · exact .nothing
  | call i =>
    simp only [step]
    split
    · rename_i op h
      refine .queue i _ rfl nofun ?_
      intro k op' e
      cases e
      exact h
    · exact .nothing
  | enter i wake => exact .queue i _ rfl nofun nofun
  | timeout i => exact .queue i _ rfl nofun nofun
  | spurious i => exact .queue i _ rfl nofun nofun
  | ret i =>
    by_cases hr : ∃ th op r, Pair s i th (.returned op r)
    · obtain ⟨th, op, r, hi⟩ := hr
      rw [ret_eq hi]
      exact .ret i th op r hi
    · rw [ret_none hr]
      exact .nothing
  | stop => exact .stop

theorem Goes.thread {s : St T} {i : Nat} {th th' : Thread T} {out : List (Ev T)} {running_ : Bool}
    (h : Goes s i th out running_ th') : ∀ e ∈ out, e.thread = i := by
  intro e he
  cases h with
  | used obj _ h => rw [List.mem_singleton.mp he]; rfl
  | _ => exact (List.not_mem_nil he).elim

/-! ## What a step does to one thread -/

/-- What a step from `s` to `t` makes of thread `j`, and its outputs. -/
inductive Move (s t : St T) (j : Nat) : List (Ev T) → Thread T → Phase T → Thread T → Phase T → Prop
  | same (th : Thread T) (p : Phase T) : Move s t j [] th p th p
  | next (stopPred : Bool) (th th' : Thread T) (p : Phase T) : th.next s.running_ stopPred = some th' →
      Move s t j [] th p th' p
  | stopping (th th' : Thread T) (p : Phase T) : th.stopping = some th' → t.running_ = false → Move s t j [] th p th' p
  | created (obj : T) (th th' : Thread T) (p : Phase T) : th.created obj = some th' → Move s t j [] th p th' p
  | used (obj : T) (th th' : Thread T) (p : Phase T) : th.using_ = some (obj, th') →
      Move s t j [.used j obj] th p th' p
  | called (th : Thread T) (op : Op T) : th.op = some op → Move s t j [] th .idle th (.ready op false)
  | woken (th : Thread T) (p q : Phase T) : Monitor.Woken p q → Move s t j [] th p th q
  | notified (th : Thread T) (op : Op T) : Move s t j [] th (.waiting op) th (.notified op false)
  | waits (th : Thread T) (p : Phase T) (op : Op T) (late : Bool) : p.entering = some (op, late) →
      Move s t j [] th p th (.waiting op)
  | done (th : Thread T) (p : Phase T) (op : Op T) (late : Bool) (r : QueueRet T) (n : Option QueueCv) :
      p.entering = some (op, late) → BlockingBoundedQueue.body op s.blque_.shared = some (t.blque_.shared, r, n) →
      Move s t j [.queue j op r] th p th (.returned op r)
  | gaveUp (th : Thread T) (p : Phase T) (op : Op T) (r : QueueRet T) : p.entering = some (op, true) →
      BlockingBoundedQueue.body op s.blque_.shared = none → BlockingBoundedQueue.timeout op = some r →
      Move s t j [.queue j op r] th p th (.returned op r)
  | ret (th : Thread T) (op : Op T) (r : QueueRet T) : Move s t j [] th (.returned op r) (th.resume r) .idle

/-- What `step` makes of thread `j`, with the outputs that are its. -/
def Moves (s t : St T) (out : List (Ev T)) (j : Nat) (th : Thread T) (p : Phase T) : Prop :=
  ∃ th' p', Pair t j th' p' ∧ Move s t j (out.filter fun e => e.thread = j) th p th' p'

theorem filter_tagged (i j : Nat) (out : List (Op T × QueueRet T)) :
    (out.map fun d => Ev.queue i d.1 d.2).filter (fun e => e.thread = j) =
      (if i = j then out else []).map fun d => .queue j d.1 d.2 := by
  by_cases hij : i = j
  · subst hij
    rw [if_pos rfl, List.filter_eq_self]
    intro e he
    obtain ⟨d, -, rfl⟩ := List.mem_map.mp he
    exact decide_eq_true rfl
  · rw [if_neg hij, List.map_nil, List.filter_eq_nil_iff]
    intro e he
    obtain ⟨d, -, rfl⟩ := List.mem_map.mp he
    exact fun h => hij (of_decide_eq_true h)

/-- Thread `i` went on in its `run()`; the queue is as it was. -/
theorem set_moves {s t : St T} {i : Nat} {th₀ th₁ : Thread T} {o : List (Ev T)} (hi : s.threads[i]? = some th₀)
    (ht : t.threads = s.threads.set i th₁) (hq : t.blque_ = s.blque_) (hout : ∀ e ∈ o, e.thread = i)
    (hm : ∀ p, Move s t i o th₀ p th₁ p) {j : Nat} {th : Thread T} {p : Phase T} (hp : Pair s j th p) :
    Moves s t o j th p := by
  by_cases hij : i = j
  · subst hij
    obtain rfl := Option.some.inj (hi.symm.trans hp.thread)
    refine ⟨th₁, p, ⟨by rw [ht, Monitor.set_get hi, if_pos rfl], by rw [hq, hp.phase]⟩, ?_⟩
    rw [List.filter_eq_self.mpr fun e he => by simpa using hout e he]
    exact hm p
  · refine ⟨th, p, ⟨by rw [ht, Monitor.set_get hi, if_neg hij, hp.thread], by rw [hq, hp.phase]⟩, ?_⟩
    rw [List.filter_eq_nil_iff.mpr fun e he => by simpa [hout e he] using hij]
    exact .same th p

/-- A step inside a queue method, or into one. -/
theorem queue_moves {s : St T} {i : Nat} {a : Monitor.Act (Op T)} (ha : a.thread = i) (hret : ∀ k, a ≠ .ret k)
    (hcall : ∀ k op, a = .call k op → (s.threads[k]?).bind Thread.op = some op) {j : Nat} {th : Thread T} {p : Phase T}
    (hp : Pair s j th p) : Moves s (onQueue s i a).val (onQueue s i a).out j th p := by
  obtain ⟨q, hq, hm⟩ := (BlockingBoundedQueue.monitor.phase_step s.blque_ a).2 j p hp.phase
  rw [onQueue_eq]
  refine ⟨th, q, ⟨hp.thread, hq⟩, ?_⟩
  rw [filter_tagged, ← ha]
  generalize (if a.thread = j then (BlockingBoundedQueue.monitor.step s.blque_ a).out else []) = out at hm
  cases hm with
  | same => exact .same th p
  | notified _ op => exact .notified th op
  | called op =>
    refine .called th op ?_
    have := hcall j op rfl
    rwa [hp.thread] at this
  | woken _ _ _ _ hw => exact .woken th p q hw
  | done wake _ op late r n he hb => exact .done th p op late r n he hb
  | gaveUp wake _ op r he hb hr => exact .gaveUp th p op r he hb hr
  | waits wake _ op late he hb => exact .waits th p op late he
  | left op r => exact absurd rfl (hret j)

theorem Goes.move {s : St T} {i : Nat} {th th' : Thread T} {out : List (Ev T)} {running_ : Bool}
    (h : Goes s i th out running_ th') (p : Phase T) :
    Move s { s with running_ := running_, threads := s.threads.set i th' } i out th p th' p := by
  cases h with
  | next stopPred _ h => exact .next stopPred th th' p h
  | stopping _ h => exact .stopping th th' p h rfl
  | created obj _ h => exact .created obj th th' p h
  | used obj _ h => exact .used obj th th' p h

theorem pair_step {s : St T} {a : Act T} {j : Nat} {th : Thread T} {p : Phase T} (hp : Pair s j th p) :
    Moves s (step s a).val (step s a).out j th p := by
  have hd := step_does s a
  generalize step s a = x at hd
  cases hd with
  | nothing => exact ⟨th, p, hp, .same th p⟩
  | goes i th₀ th₁ out running_ hi h =>
    exact set_moves (t := { s with running_ := running_, threads := s.threads.set i th₁ }) hi rfl rfl h.thread h.move hp
  | queue i b hb hret hcall => exact queue_moves hb hret hcall hp
  | ret i th₀ op r hi =>
    by_cases hij : i = j
    · subst hij
      obtain rfl := Option.some.inj (hi.thread.symm.trans hp.thread)
      obtain rfl := Option.some.inj (hi.phase.symm.trans hp.phase)
      refine ⟨th₀.resume r, .idle, ⟨?_, ?_⟩, .ret th₀ op r⟩
      · exact (Monitor.set_get hi.thread i).trans (if_pos rfl)
      · exact (Monitor.set_get hi.phase i).trans (if_pos rfl)
    · refine ⟨th, p, ⟨?_, ?_⟩, .same th p⟩
      · exact (Monitor.set_get hi.thread j).trans ((if_neg hij).trans hp.thread)
      · exact (Monitor.set_get hi.phase j).trans ((if_neg hij).trans hp.phase)
  | stop => exact ⟨th, p, ⟨hp.thread, hp.phase⟩, .same th p⟩

/-! ## What a step does to the queue and the flag -/

/-- Nobody starts the task again. -/
theorem running_step {s : St T} {a : Act T} (h : (step s a).val.running_ = true) : s.running_ = true := by
  have hd := step_does s a
  generalize step s a = x at hd h
  cases hd with
  | goes i th th' out running_ hi hg =>
    cases hg with
    | stopping => cases h
    | _ => exact h
  | queue i b => rw [onQueue_eq] at h; exact h
  | stop => cases h
  | _ => exact h

/-- What a queue operation put in. -/
def putBy : Ev T → Option T
  | .queue _ op _ => BlockingBoundedQueue.puts op
  | _ => none

/-- What a queue operation took out, and the thread that has it. -/
def takenBy : Ev T → Option (Nat × T)
  | .queue i _ r => r.value?.map fun x => (i, x)
  | _ => none

def usedBy : Ev T → Option (Nat × T)
  | .used i obj => some (i, obj)
  | _ => none

/-- A section of thread `i` ended with the outputs `out`, and made the queue what it is in `t`. -/
structure Section (s t : St T) (out : List (Ev T)) (i : Nat) (op : Op T) (r : QueueRet T) : Prop where
  out : out = [.queue i op r]
  phase : ∃ p late, s.blque_.threads[i]? = some p ∧ p.entering = some (op, late)
  body : ∃ n, BlockingBoundedQueue.body op s.blque_.shared = some (t.blque_.shared, r, n)

theorem onQueue_section (s : St T) {i : Nat} {a : Monitor.Act (Op T)} (ha : a.thread = i) :
    ((onQueue s i a).val.blque_.shared = s.blque_.shared ∧
      ∀ e ∈ (onQueue s i a).out, putBy e = none ∧ takenBy e = none) ∨
    ∃ op r, Section s (onQueue s i a).val (onQueue s i a).out i op r := by
  rw [onQueue_eq]
  have ho := BlockingBoundedQueue.monitor.step_outcome s.blque_ a
  generalize BlockingBoundedQueue.monitor.step s.blque_ a = x at ho
  cases ho with
  | done k wake p op late t r n hp he hb => cases ha; exact Or.inr ⟨op, r, rfl, ⟨p, late, hp, he⟩, n, hb⟩
  | gaveUp k wake p op r hp he hb hr =>
    refine Or.inl ⟨rfl, fun e h => ?_⟩
    rw [List.mem_singleton.mp h]
    cases op with
    | takeFor => cases hr; exact ⟨rfl, rfl⟩
    | _ => cases hr
  | _ => exact Or.inl ⟨rfl, fun e h => (List.not_mem_nil h).elim⟩

/-- A step runs one section of the queue, or leaves it as it was. -/
theorem queue_step (s : St T) (a : Act T) :
    ((step s a).val.blque_.shared = s.blque_.shared ∧ ∀ e ∈ (step s a).out, putBy e = none ∧ takenBy e = none) ∨
    ∃ i op r, Section s (step s a).val (step s a).out i op r := by
  have hd := step_does s a
  generalize step s a = x at hd
  cases hd with
  | goes i th th' out running_ hi h =>
    refine Or.inl ⟨rfl, ?_⟩
    intro e he
    cases h with
    | used obj _ h =>
      rw [List.mem_singleton.mp he]
      exact ⟨rfl, rfl⟩
    | _ => exact (List.not_mem_nil he).elim
  | queue i b hb => exact (onQueue_section s hb).imp_right fun ⟨op, r, h⟩ => ⟨i, op, r, h⟩
  | _ => exact Or.inl ⟨rfl, fun e he => (List.not_mem_nil he).elim⟩

theorem step_lengths (s : St T) (a : Act T) : (step s a).val.threads.length = s.threads.length ∧
    (step s a).val.blque_.threads.length = s.blque_.threads.length := by
  have hd := step_does s a
  generalize step s a = x at hd
  cases hd with
  | goes i th th' => exact ⟨List.length_set, rfl⟩
  | queue i b =>
    rw [onQueue_eq]
    exact ⟨rfl, (BlockingBoundedQueue.monitor.phase_step s.blque_ b).1⟩
  | ret i th => exact ⟨List.length_set, List.length_set⟩
  | _ => exact ⟨rfl, rfl⟩

/-! ## Threads and phases belong together -/

/-- A thread inside a queue method is in the one its place in `run()` says. -/
def Matches (th : Thread T) : Phase T → Prop
  | .idle => True
  | .ready op _ => th.op = some op
  | .waiting op => th.op = some op
  | .notified op _ => th.op = some op
  | .returned op r => th.op = some op ∧ (r.value? ≠ none → BlockingBoundedQueue.waitsOn op = some .m_notEmptyCv_)

structure Good (s : St T) : Prop where
  sized : s.blque_.threads.length = s.threads.length
  matched : ∀ j th p, Pair s j th p → Matches th p

theorem matches_idle {th : Thread T} {p : Phase T} (h : Matches th p) (hop : th.op = none) : p = .idle := by
  cases p with
  | idle => rfl
  | returned => cases hop.symm.trans h.1
  | _ => cases hop.symm.trans h

theorem matches_entering {th : Thread T} {p : Phase T} {op : Op T} {late : Bool} (h : Matches th p)
    (he : p.entering = some (op, late)) : th.op = some op := by
  cases p with
  | ready => cases he; exact h
  | notified => cases he; exact h
  | _ => cases he

theorem next_op {th th' : Thread T} {running_ stopPred : Bool} (h : th.next running_ stopPred = some th') :
    th.op = none := by
  unfold Thread.next at h
  split at h <;> first | rfl | cases h

theorem stopping_op {th th' : Thread T} (h : th.stopping = some th') : th.op = none := by
  unfold Thread.stopping at h
  split at h <;> first | rfl | cases h

theorem created_op {th th' : Thread T} {obj : T} (h : th.created obj = some th') : th.op = none := by
  unfold Thread.created at h
  split at h <;> first | rfl | cases h

theorem using_op {th th' : Thread T} {obj : T} (h : th.using_ = some (obj, th')) : th.op = none := by
  unfold Thread.using_ at h
  split at h <;> first | rfl | cases h

theorem move_matches {s t : St T} {j : Nat} {out : List (Ev T)} {th th' : Thread T} {p p' : Phase T}
    (h : Move s t j out th p th' p') (hm : Matches th p) : Matches th' p' := by
  have idle : ∀ {th th' : Thread T} {p : Phase T}, Matches th p → th.op = none → Matches th' p := by
    intro th th' p hm hop
    rw [matches_idle hm hop]; trivial
  cases h with
  | same => exact hm
  | next stopPred _ _ _ h => exact idle hm (next_op h)
  | stopping _ _ _ h => exact idle hm (stopping_op h)
  | created obj _ _ _ h => exact idle hm (created_op h)
  | used obj _ _ _ h => exact idle hm (using_op h)
  | called _ op h => exact h
  | woken _ _ _ h => cases h <;> exact hm
  | notified => exact hm
  | waits _ _ op late he => exact matches_entering hm he
  | done _ _ op late r n he hb =>
    refine ⟨matches_entering hm he, fun hr => ?_⟩
    rcases BlockingBoundedQueue.body_cases hb with ⟨x, -, -, -, rfl, -⟩ | ⟨hw, -⟩ | ⟨-, -, -, hn, -⟩
    · exact absurd rfl hr
    · exact hw
    · exact absurd hn hr
  | gaveUp _ _ op r he hb hr =>
    refine ⟨matches_entering hm he, fun hv => ?_⟩
    cases op with
    | takeFor => cases hr; exact absurd rfl hv
    | _ => cases hr
  | ret => trivial

/-- Where thread `j` of the state after a step came from. -/
theorem pair_back {s : St T} (hs : Good s) (a : Act T) {j : Nat} {th' : Thread T} {p' : Phase T}
    (h : Pair (step s a).val j th' p') :
    ∃ th p, Pair s j th p ∧ Move s (step s a).val j ((step s a).out.filter fun e => e.thread = j) th p th' p' := by
  obtain ⟨hlt, -⟩ := List.getElem?_eq_some_iff.mp h.thread
  rw [(step_lengths s a).1] at hlt
  have hp : Pair s j _ _ := ⟨List.getElem?_eq_getElem hlt, List.getElem?_eq_getElem (hs.sized ▸ hlt)⟩
  obtain ⟨th'', p'', hpair, hm⟩ := pair_step (a := a) hp
  obtain rfl := Option.some.inj (hpair.thread.symm.trans h.thread)
  obtain rfl := Option.some.inj (hpair.phase.symm.trans h.phase)
  exact ⟨_, _, hp, hm⟩

theorem good_step {s : St T} (hs : Good s) (a : Act T) : Good (step s a).val := by
  refine ⟨by rw [(step_lengths s a).1, (step_lengths s a).2, hs.sized], fun j th' p' h => ?_⟩
  obtain ⟨th, p, hp, hm⟩ := pair_back hs a h
  exact move_matches hm (hs.matched j th p hp)

theorem start_good (running_ : Bool) (maxSize : Nat) (roles : List Role) :
    Good (start running_ maxSize roles : St T) := by
  refine ⟨by simp [start, Monitor.St.start], fun j th p h => ?_⟩
  have := List.mem_of_getElem? h.phase
  rw [List.eq_of_mem_replicate this]; trivial

end TaskScheduler

end LeapSyncFfh
