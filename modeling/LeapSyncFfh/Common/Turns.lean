/-
  LeapSyncFfh.Common.Turns — everything a step of the scheduler can make of a state.

  `Turn` lists the steps with the queue's part in full (`step_turn`): a thread goes on in
  its `run()`, a method leaves the queue as it is (`Inside`) or changes it and notifies one
  waiter, or `stop()` is called. From it come the facts of every reachable state that a
  count of the steps to come needs (`Live`): which methods wait, what they return, who the
  threads are and what the queue holds.
-/

import LeapSyncFfh.Common.Shutdown

namespace LeapSyncFfh

open Emit

namespace TaskScheduler

variable {T : Type}

/-! ## The turns of a thread -/

/-- A turn of thread `th` inside a queue method that leaves the queue as it is. -/
inductive Inside (q : BlockingBoundedQueue T) (th : Thread T) (i : Nat) : Act T → Phase T → Phase T → Prop
  | called (op : Op T) : th.op = some op → Inside q th i (.call i) .idle (.ready op false)
  | late (op : Op T) : Inside q th i (.timeout i) (.waiting op) (.ready op true)
  | notifiedLate (op : Op T) (late : Bool) : Inside q th i (.timeout i) (.notified op late) (.notified op true)
  | spurious (op : Op T) : Inside q th i (.spurious i) (.waiting op) (.ready op false)
  | read (wake : Nat) (p : Phase T) (op : Op T) (late : Bool) (r : QueueRet T) : p.entering = some (op, late) →
      BlockingBoundedQueue.body op q = some (q, r, none) → Inside q th i (.enter i wake) p (.returned op r)
  | gaveUp (wake : Nat) (p : Phase T) (op : Op T) (r : QueueRet T) : p.entering = some (op, true) →
      BlockingBoundedQueue.body op q = none → BlockingBoundedQueue.timeout op = some r →
      Inside q th i (.enter i wake) p (.returned op r)
  | waits (wake : Nat) (p : Phase T) (op : Op T) (late : Bool) : p.entering = some (op, late) →
      BlockingBoundedQueue.body op q = none → (late = true → BlockingBoundedQueue.timeout op = none) →
      Inside q th i (.enter i wake) p (.waiting op)

/-- Thread `i` goes on at `th'`, its method at `p'`. -/
def St.turn (s : St T) (i : Nat) (th' : Thread T) (p' : Phase T) : St T :=
  { s with threads := s.threads.set i th', blque_ := { s.blque_ with threads := s.blque_.threads.set i p' } }

/-- Everything a step can make of a state, with the queue's part in full. -/
inductive Turn (s : St T) (a : Act T) : St T → Prop
  | nothing : Turn s a s
  | goes (i : Nat) (th th' : Thread T) (p : Phase T) (out : List (Ev T)) (running_ : Bool) : Pair s i th p →
      Goes s i th out running_ th' → Turn s a { s.turn i th' p with running_ := running_ }
  | inside (i : Nat) (th : Thread T) (p p' : Phase T) : Pair s i th p → Inside s.blque_.shared th i a p p' →
      Turn s a (s.turn i th p')
  | moved (i wake : Nat) (th : Thread T) (p : Phase T) (op : Op T) (late : Bool) (t : BlockingBoundedQueue T)
      (r : QueueRet T) (n : QueueCv) : Pair s i th p → p.entering = some (op, late) →
      BlockingBoundedQueue.body op s.blque_.shared = some (t, r, some n) →
      Turn s a { s with blque_ :=
        ⟨t, BlockingBoundedQueue.monitor.notifyOne n wake (s.blque_.threads.set i (.returned op r))⟩ }
  | ret (i : Nat) (th : Thread T) (op : Op T) (r : QueueRet T) : Pair s i th (.returned op r) →
      Turn s a (s.turn i (th.resume r) .idle)
  | stop : Turn s a { s with running_ := false }

theorem set_same {α : Type} {l : List α} {i : Nat} {x : α} (h : l[i]? = some x) : l.set i x = l := by
  obtain ⟨hi, rfl⟩ := List.getElem?_eq_some_iff.mp h
  exact List.set_getElem_self hi

theorem set_at {α : Type} {l : List α} {i : Nat} {x : α} (h : l[i]? = some x) (y : α) : (l.set i y)[i]? = some y :=
  (Monitor.set_get h i).trans (if_pos rfl)

theorem turn_thread {s : St T} {i : Nat} {th : Thread T} {p : Phase T} (h : Pair s i th p) (p' : Phase T) :
    s.turn i th p' = { s with blque_ := { s.blque_ with threads := s.blque_.threads.set i p' } } := by
  simp only [St.turn, set_same h.thread]

theorem turn_phase {s : St T} {i : Nat} {th : Thread T} {p : Phase T} (h : Pair s i th p) (th' : Thread T) :
    s.turn i th' p = { s with threads := s.threads.set i th' } := by
  simp only [St.turn, set_same h.phase]

theorem pair_of_phase {s : St T} (hs : Good s) {i : Nat} {p : Phase T} (h : s.blque_.threads[i]? = some p) :
    ∃ th, Pair s i th p := by
  obtain ⟨hlt, -⟩ := List.getElem?_eq_some_iff.mp h
  exact ⟨_, List.getElem?_eq_getElem (hs.sized ▸ hlt), h⟩

theorem pair_of_thread {s : St T} (hs : Good s) {i : Nat} {th : Thread T} (h : s.threads[i]? = some th) :
    ∃ p, Pair s i th p := by
  obtain ⟨hlt, -⟩ := List.getElem?_eq_some_iff.mp h
  exact ⟨_, h, List.getElem?_eq_getElem (hs.sized ▸ hlt)⟩

/-- A section either moves an object and notifies one thread, or reads. -/
theorem section_turn {s : St T} {i wake : Nat} {th : Thread T} {p : Phase T} {op : Op T} {late : Bool}
    (hp : Pair s i th p) (he : p.entering = some (op, late)) :
    Turn s (.enter i wake)
      { s with blque_ := (BlockingBoundedQueue.monitor.section_ s.blque_ i wake op late).val } := by
  have inside : ∀ {p'}, Inside s.blque_.shared th i (.enter i wake) p p' → Turn s (.enter i wake)
      { s with blque_ := { s.blque_ with threads := s.blque_.threads.set i p' } } := by
    intro p' h
    rw [← turn_thread hp]
    exact .inside i th p p' hp h
  unfold Monitor.section_
  cases hb : BlockingBoundedQueue.monitor.body op s.blque_.shared with
  | some b =>
    obtain ⟨t, r, n⟩ := b
    cases n with
    | some n => exact .moved i wake th p op late t r n hp he hb
    | none =>
      have hread : t = s.blque_.shared := by
        rcases BlockingBoundedQueue.body_cases hb with ⟨x, -, -, -, -, hn⟩ | ⟨-, -, front, -, -, hn, -⟩ | ⟨-, -, ht, -⟩
        · cases hn
        · cases hn
        · exact ht
      subst hread
      exact inside (.read wake p op late r he hb)
  | none =>
    cases ht : BlockingBoundedQueue.monitor.timeout op with
    | none => exact inside (.waits wake p op late he hb fun _ => ht)
    | some r =>
      cases late with
      | true => exact inside (.gaveUp wake p op r he hb ht)
      | false => exact inside (.waits wake p op false he hb nofun)

/-- What a label asks of the monitor. -/
inductive Asks (s : St T) : Act T → Monitor.Act (Op T) → Prop
  | call (i : Nat) (op : Op T) : (s.threads[i]?).bind Thread.op = some op → Asks s (.call i) (.call i op)
  | enter (i wake : Nat) : Asks s (.enter i wake) (.enter i wake)
  | timeout (i : Nat) : Asks s (.timeout i) (.timeout i)
  | spurious (i : Nat) : Asks s (.spurious i) (.spurious i)

/-- A step of the monitor, by the label. -/
theorem queue_turn {s : St T} (hs : Good s) {a : Act T} {b : Monitor.Act (Op T)} (hb : Asks s a b) :
    Turn s a (onQueue s b.thread b).val := by
  rw [onQueue_eq]
  have inside : ∀ {p p'}, s.blque_.threads[b.thread]? = some p →
      (∀ th, Pair s b.thread th p → Inside s.blque_.shared th b.thread a p p') →
      Turn s a { s with blque_ := { s.blque_ with threads := s.blque_.threads.set b.thread p' } } := by
    intro p p' hp h
    obtain ⟨th, hpair⟩ := pair_of_phase hs hp
    rw [← turn_thread hpair]
    exact .inside _ th p p' hpair (h th hpair)
  cases hb with
  | call i op hop =>
    simp only [Monitor.step]
    split
    · rename_i hp
      refine inside hp fun th hpair => .called op ?_
      have hi : s.threads[i]? = some th := hpair.thread
      rwa [hi] at hop
    · exact .nothing
  | enter i wake =>
    simp only [Monitor.step]
    split
    · rename_i op late h
      obtain ⟨p, hp, he⟩ := Option.bind_eq_some_iff.mp h
      obtain ⟨th, hpair⟩ := pair_of_phase hs hp
      exact section_turn hpair he
    · exact .nothing
  | timeout i =>
    simp only [Monitor.step]
    split
    · rename_i op h
      exact inside h fun th _ => .late op
    · rename_i op late h
      exact inside h fun th _ => .notifiedLate op late
    · exact .nothing
  | spurious i =>
    simp only [Monitor.step]
    split
    · rename_i op h
      exact inside h fun th _ => .spurious op
    · exact .nothing

theorem step_turn {s : St T} (hs : Good s) (a : Act T) : Turn s a (step s a).val := by
  have goes : ∀ {i th th' out running_}, s.threads[i]? = some th → Goes s i th out running_ th' →
      Turn s a { s with running_ := running_, threads := s.threads.set i th' } := by
    intro i th th' out running_ hi hg
    obtain ⟨p, hp⟩ := pair_of_thread hs hi
    have h := Turn.goes (a := a) i th th' p out running_ hp hg
    rwa [turn_phase hp] at h
  cases a with
  | run i stopPred =>
    simp only [step]
    split
    · exact .nothing
    rename_i th hi
    split
    · rename_i th' h
      exact goes hi (.next stopPred th' h)
    split
    · rename_i th' h
      exact goes hi (.stopping th' h)
    split
    · rename_i obj th' h
      exact goes hi (.used obj th' h)
    · exact .nothing
  | create i obj =>
    simp only [step]
    split
    · rename_i th' h
      obtain ⟨th, hi, h⟩ := Option.bind_eq_some_iff.mp h
      exact goes hi (.created obj th' h)
    · exact .nothing
  | call i =>
    simp only [step]
    split
    · rename_i op h
      exact queue_turn hs (.call i op h)
    · exact .nothing
  | enter i wake => exact queue_turn hs (.enter i wake)
  | timeout i => exact queue_turn hs (.timeout i)
  | spurious i => exact queue_turn hs (.spurious i)
  | ret i =>
    by_cases hr : ∃ th op r, Pair s i th (.returned op r)
    · obtain ⟨th, op, r, hi⟩ := hr
      rw [ret_eq hi]
      exact .ret i th op r hi
    · rw [ret_none hr]
      exact .nothing
  | stop => exact .stop

/-! ## What else holds of every reachable state -/

/-- What a method can return. -/
def answers : Op T → QueueRet T → Bool
  | .put _, .done => true
  | .take, .value _ => true
  | .takeFor _, .value _ => true
  | .takeFor _, .failed => true
  | .empty, .bool _ => true
  | .size, .size _ => true
  | .full, .bool _ => true
  | _, _ => false

/-- Only `put` and `take` wait, and a method returns what it can return. -/
def Sound : Phase T → Prop
  | .waiting op => BlockingBoundedQueue.waitsOn op ≠ none
  | .notified op _ => BlockingBoundedQueue.waitsOn op ≠ none
  | .returned op r => answers op r = true
  | _ => True

theorem body_answers {op : Op T} {q t : BlockingBoundedQueue T} {r : QueueRet T} {n : Option QueueCv}
    (h : BlockingBoundedQueue.body op q = some (t, r, n)) : answers op r = true := by
  rcases BlockingBoundedQueue.body_cases h with ⟨x, rfl, -, -, rfl, -⟩ | ⟨hw, -, front, -, rfl, -⟩ | ⟨hw, -, -, -, -⟩
  · rfl
  · cases op <;> first | rfl | cases hw
  · cases op with
    | empty => cases h; rfl
    | size => cases h; rfl
    | full => cases h; rfl
    | _ => cases hw

theorem body_waits {op : Op T} {q : BlockingBoundedQueue T} (h : BlockingBoundedQueue.body op q = none) :
    BlockingBoundedQueue.waitsOn op ≠ none := by
  cases op with
  | put => nofun
  | take => nofun
  | takeFor => nofun
  | _ => cases h

theorem inside_sound {q : BlockingBoundedQueue T} {th : Thread T} {i : Nat} {a : Act T} {p p' : Phase T}
    (h : Inside q th i a p p') (hp : Sound p) : Sound p' := by
  cases h with
  | called => trivial
  | late => trivial
  | notifiedLate => exact hp
  | spurious => trivial
  | read wake _ op late r he hb => exact body_answers hb
  | gaveUp wake _ op r he hb hr =>
    cases op with
    | takeFor => cases hr; rfl
    | _ => cases hr
  | waits wake _ op late he hb hl => exact body_waits hb

theorem turn_sound {s t : St T} {a : Act T} (h : Turn s a t) (hs : ∀ p ∈ s.blque_.threads, Sound p) :
    ∀ p ∈ t.blque_.threads, Sound p := by
  have set : ∀ {i p p'}, s.blque_.threads[i]? = some p → Sound p' → ∀ q ∈ s.blque_.threads.set i p', Sound q := by
    intro i p p' hi hp' q hq
    rcases List.mem_or_eq_of_mem_set hq with hq | rfl
    · exact hs q hq
    · exact hp'
  cases h with
  | nothing => exact hs
  | goes i th th' p out running_ hp hg => exact set hp.phase (hs p (List.mem_of_getElem? hp.phase))
  | inside i th p p' hp hin => exact set hp.phase (inside_sound hin (hs p (List.mem_of_getElem? hp.phase)))
  | ret i th op r hp => exact set hp.phase trivial
  | stop => exact hs
  | moved i wake th p op late t r n hp he hb =>
    have hset := set hp.phase (show Sound (.returned op r) from body_answers hb)
    rcases BlockingBoundedQueue.monitor.notifyOne_cases n wake (s.blque_.threads.set i (.returned op r)) with
      ⟨-, heq⟩ | ⟨j, op', hj, -, heq⟩
    · simp only [heq]
      exact hset
    · simp only [heq]
      intro q hq
      rcases List.mem_or_eq_of_mem_set hq with hq | rfl
      · exact hset q hq
      · exact (hset _ (List.mem_of_getElem? hj) : Sound (.waiting op'))

def Thread.role : Thread T → Role
  | Producer _ => .Producer
  | TrigProducer _ => .TrigProducer
  | Consumer w _ => .Consumer w

def Role.produces : Role → Bool
  | .Consumer _ => false
  | _ => true

/-- The consumer has read `running_` as false. -/
def Thread.leaving : Thread T → Bool
  | Consumer _ .empty => true
  | Consumer _ .ended => true
  | _ => false

theorem resume_role (th : Thread T) (r : QueueRet T) : (th.resume r).role = th.role := by
  cases th with
  | Producer pc => cases pc <;> cases r <;> rfl
  | TrigProducer pc => cases pc <;> cases r <;> rfl
  | Consumer w pc => cases pc <;> cases r <;> rfl

theorem goes_role {s : St T} {i : Nat} {th th' : Thread T} {out : List (Ev T)} {running_ : Bool}
    (h : Goes s i th out running_ th') : th'.role = th.role := by
  cases h with
  | next stopPred _ h =>
    unfold Thread.next at h
    split at h <;> first | cases h; rfl | cases h
  | stopping _ h =>
    unfold Thread.stopping at h
    split at h <;> first | cases h; rfl | cases h
  | created obj _ h =>
    unfold Thread.created at h
    split at h <;> first | cases h; rfl | cases h
  | used obj _ h =>
    unfold Thread.using_ at h
    split at h <;> first | cases h; rfl | cases h

theorem goes_leaving {s : St T} {i : Nat} {th th' : Thread T} {out : List (Ev T)} {running_ : Bool}
    (h : Goes s i th out running_ th') (hl : th'.leaving = true) : running_ = false := by
  cases h with
  | next stopPred _ h =>
    unfold Thread.next at h
    split at h
    · cases h; cases hl
    · cases h; cases hl
    · cases h; cases hl
    · cases h; cases hl
    · cases h
      cases hr : s.running_ with
      | false => rfl
      | true => rw [hr] at hl; cases hl
    · cases h
  | stopping _ h => rfl
  | created obj _ h =>
    unfold Thread.created at h
    split at h <;> first | cases h; cases hl | cases h
  | used obj _ h =>
    unfold Thread.using_ at h
    split at h <;> first | cases h; cases hl | cases h

theorem resume_leaving {th : Thread T} {r : QueueRet T} (hl : (th.resume r).leaving = true) : th.leaving = true := by
  cases th with
  | Producer pc => cases pc <;> cases r <;> cases hl
  | TrigProducer pc => cases pc <;> cases r <;> cases hl
  | Consumer w pc =>
    cases pc with
    | empty => rfl
    | ended => rfl
    | take => cases r <;> cases hl
    | _ => cases r <;> cases hl

theorem turn_roles {s t : St T} {a : Act T} (h : Turn s a t) : t.threads.map Thread.role = s.threads.map Thread.role := by
  have set : ∀ {i th th'}, s.threads[i]? = some th → th'.role = th.role →
      (s.threads.set i th').map Thread.role = s.threads.map Thread.role := by
    intro i th th' hi he
    rw [List.map_set, he]
    exact set_same (by rw [List.getElem?_map, hi]; rfl)
  cases h with
  | goes i th th' p out running_ hp hg => exact set hp.thread (goes_role hg)
  | inside i th p p' hp => exact set hp.thread rfl
  | ret i th op r hp => exact set hp.thread (resume_role th r)
  | _ => rfl

theorem turn_leaving {s t : St T} {a : Act T} (h : Turn s a t)
    (hs : ∀ th ∈ s.threads, th.leaving = true → s.running_ = false) (ht : t.running_ = true → s.running_ = true) :
    ∀ th ∈ t.threads, th.leaving = true → t.running_ = false := by
  have keep : ∀ th ∈ s.threads, th.leaving = true → t.running_ = false := by
    intro th hth hl
    cases hr : t.running_ with
    | false => rfl
    | true => exact absurd (ht hr) (by rw [hs th hth hl]; nofun)
  cases h with
  | goes i th th' p out running_ hp hg =>
    intro th₁ hth₁ hl
    rcases List.mem_or_eq_of_mem_set hth₁ with hth₁ | rfl
    · exact keep th₁ hth₁ hl
    · exact goes_leaving hg hl
  | inside i th p p' hp =>
    intro th₁ hth₁ hl
    rcases List.mem_or_eq_of_mem_set hth₁ with hth₁ | rfl
    · exact keep th₁ hth₁ hl
    · exact keep _ (List.mem_of_getElem? hp.thread) hl
  | ret i th op r hp =>
    intro th₁ hth₁ hl
    rcases List.mem_or_eq_of_mem_set hth₁ with hth₁ | rfl
    · exact keep th₁ hth₁ hl
    · exact keep th (List.mem_of_getElem? hp.thread) (resume_leaving hl)
  | nothing => exact keep
  | moved => exact keep
  | stop => exact keep

/-- The queue keeps its bound and loses no wake-up, whatever the threads of the task do. -/
structure QueueKept (maxSize : Nat) (q : Monitor.St (BlockingBoundedQueue T) (Op T) (QueueRet T)) : Prop where
  maxSize_ : q.shared.maxSize_ = maxSize
  bounded : q.shared.queue_.length ≤ maxSize
  covered : ∀ c, BlockingBoundedQueue.monitor.Covered BlockingBoundedQueue.available c q

theorem monitor_kept {maxSize : Nat} {q : Monitor.St (BlockingBoundedQueue T) (Op T) (QueueRet T)} (h : QueueKept maxSize q)
    (b : Monitor.Act (Op T)) : QueueKept maxSize (BlockingBoundedQueue.monitor.step q b).val := by
  have hone : BlockingBoundedQueue.monitor.step q b = runs BlockingBoundedQueue.monitor.step q [b] := by simp [runs]
  refine ⟨?_, ?_, fun c => BlockingBoundedQueue.monitor.step_covered BlockingBoundedQueue.counted c (h.covered c) (res_val _)⟩
  · rw [hone, (BlockingBoundedQueue.bounded (h.maxSize_ ▸ h.bounded) [b]).1, h.maxSize_]
  · rw [hone, ← h.maxSize_]
    exact (BlockingBoundedQueue.bounded (h.maxSize_ ▸ h.bounded) [b]).2

theorem queue_kept {maxSize : Nat} {s : St T} (h : QueueKept maxSize s.blque_) (a : Act T) :
    QueueKept maxSize (step s a).val.blque_ := by
  have hd := step_does s a
  generalize step s a = x at hd
  cases hd with
  | queue i b => rw [onQueue_eq]; exact monitor_kept h b
  | ret i th op r hp =>
    have hleft : BlockingBoundedQueue.monitor.step s.blque_ (.ret i) =
        pure { s.blque_ with threads := s.blque_.threads.set i .idle } := by simp only [Monitor.step, hp.phase]
    have hk := monitor_kept h (.ret i)
    rw [hleft] at hk
    exact hk
  | _ => exact h

/-- What holds of every state that a task of the threads `roles` reaches. -/
structure Live (maxSize : Nat) (roles : List Role) (s : St T) : Prop where
  good : Good s
  sound : ∀ p ∈ s.blque_.threads, Sound p
  left : ∀ th ∈ s.threads, th.leaving = true → s.running_ = false
  roles : s.threads.map Thread.role = roles
  queue : QueueKept maxSize s.blque_

theorem live_step {maxSize : Nat} {roles : List Role} {s : St T} (h : Live maxSize roles s) (a : Act T) :
    Live maxSize roles (step s a).val :=
  have ht := step_turn h.good a
  ⟨good_step h.good a, turn_sound ht h.sound, turn_leaving ht h.left running_step, (turn_roles ht).trans h.roles,
    queue_kept h.queue a⟩

theorem start_live (running_ : Bool) (maxSize : Nat) (roles : List Role) :
    Live maxSize roles (start running_ maxSize roles : St T) := by
  refine ⟨start_good running_ maxSize roles, fun p hp => ?_, fun th hth hl => ?_, ?_, rfl, Nat.zero_le _, fun c => ?_⟩
  · rw [List.eq_of_mem_replicate hp]
    trivial
  · obtain ⟨role, -, rfl⟩ := List.mem_map.mp hth
    cases role <;> cases hl
  · rw [start, List.map_map]
    conv => rhs; rw [← List.map_id roles]
    exact List.map_congr_left fun role _ => by cases role <;> rfl
  · exact Monitor.start_covered _ _ c _ _

end TaskScheduler

end LeapSyncFfh
