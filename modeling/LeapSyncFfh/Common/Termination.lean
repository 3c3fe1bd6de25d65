/-
  LeapSyncFfh.Common.Termination — a stopped task comes to an end.

  Once `running_` is false a producer puts at most the one object it is about to put
  (`pending`), and a consumer goes through its loop until it finds the queue empty. A step
  either brings an object nearer to its end (`tokens`: a put turns a pending object into a
  queued one, a take removes one), or leaves the objects as they are and brings one thread
  nearer to the end of its `run()` (`weight`). A pending object counts twice, as it is put
  and taken. So a stopped task takes only so many steps (`stopped_ranked`); a spurious
  wake-up adds two.

  It may still hang: a producer that waits for room waits for ever when every consumer has
  left. The last consumer leaves an empty queue, so the objects to come fit if there are no
  more producers than the queue has room for (`Room`), and then some thread can always
  go on (`room_moves`).
-/

import LeapSyncFfh.Common.Turns
import LeapSyncFfh.Lib.Ranking

namespace LeapSyncFfh

open Emit

namespace TaskScheduler

variable {T : Type}

/-! ## The rank of a stopped task -/

/-- The producer has seen `running_` true and has not put its object. -/
def Thread.mayPut : Thread T → Bool
  | Producer .full => true
  | Producer .stopPred => true
  | Producer .create => true
  | Producer (.put _) => true
  | TrigProducer .full => true
  | TrigProducer .create => true
  | TrigProducer (.put _) => true
  | _ => false

/-- The objects that the thread puts yet, at most. -/
def pending (th : Thread T) : Phase T → Nat
  | .returned (.put _) _ => 0
  | _ => if th.mayPut then 1 else 0

def pendings (s : St T) : Nat := total pending s.threads s.blque_.threads

/-- The objects queued and to come. -/
def load (s : St T) : Nat := s.blque_.shared.queue_.length + pendings s

/-- The puts and takes to come. -/
def tokens (s : St T) : Nat := s.blque_.shared.queue_.length + 2 * pendings s

/-- How far the thread is from the end of its method. -/
def inside : Phase T → Nat
  | .idle => 6
  | .ready op late => if late && (BlockingBoundedQueue.timeout op).isSome then 3 else 5
  | .notified op late => if late && (BlockingBoundedQueue.timeout op).isSome then 3 else 5
  | .waiting _ => 4
  | .returned _ _ => 1

/-- How far the thread is from the end of `run()` while the queue stays as it is; `e`: empty.
    A consumer takes from a queue that is not empty, and finds an empty one empty. -/
def ahead (e : Bool) : Thread T → Phase T → Nat
  | .Producer .check, _ => 1
  | .Producer .full, _ => 5
  | .Producer .stopPred, _ => 4
  | .Producer .create, _ => 3
  | .Producer (.put _), _ => 2
  | .Producer .stop, _ => 1
  | .TrigProducer .check, _ => 1
  | .TrigProducer .full, _ => 5
  | .TrigProducer .create, _ => 4
  | .TrigProducer (.put _), _ => 3
  | .TrigProducer .stopPred, _ => 2
  | .TrigProducer .stop, _ => 1
  | .Consumer _ .empty, .returned _ (.bool false) => if e then 5 else 2
  | .Consumer _ .empty, _ => if e then 1 else 2
  | .Consumer _ .check, _ => if e then 2 else 3
  | .Consumer _ (.use _), _ => if e then 3 else 4
  | .Consumer _ .take, .returned _ _ => if e then 4 else 5
  | .Consumer _ .take, _ => if e then 4 else 1
  | _, _ => 0

def weight (e : Bool) (th : Thread T) (p : Phase T) : Nat := 6 * ahead e th p + inside p

def rank (s : St T) : Nat :=
  tokens s * (36 * s.threads.length + 1) + total (weight s.blque_.shared.queue_.isEmpty) s.threads s.blque_.threads

/-- A step of the task itself: only a timed wait passes its time. -/
def Natural (s : St T) : Act T → Prop
  | .timeout i => ∀ op late, s.blque_.threads[i]? = some (.waiting op) ∨ s.blque_.threads[i]? = some (.notified op late) →
      (BlockingBoundedQueue.timeout op).isSome = true
  | _ => True

/-- A spurious wake-up is a step, and takes the thread one back. -/
def credit : Act T → Nat
  | .spurious _ => 2
  | _ => 0

/-- A step that changes something. -/
def Effective (s : St T) (a : Act T) : Prop := Natural s a ∧ (step s a).val ≠ s

theorem weight_le (e : Bool) (th : Thread T) (p : Phase T) : weight e th p ≤ 36 := by
  have hin : inside p ≤ 6 := by
    cases p <;> simp only [inside] <;> first | omega | split <;> omega
  have hah : ahead e th p ≤ 5 := by
    unfold ahead
    split <;> first | omega | split <;> omega
  unfold weight
  omega

theorem pending_eq (th : Thread T) {p : Phase T} (hp : ∀ op r, p ≠ .returned op r) :
    pending th p = if th.mayPut then 1 else 0 := by
  cases p with
  | returned op r => exact absurd rfl (hp op r)
  | _ => rfl

theorem ahead_eq {e : Bool} {th : Thread T} {p q : Phase T} (hp : ∀ op r, p ≠ .returned op r)
    (hq : ∀ op r, q ≠ .returned op r) : ahead e th p = ahead e th q := by
  cases th with
  | Producer pc => cases pc <;> rfl
  | TrigProducer pc => cases pc <;> rfl
  | Consumer w pc =>
    cases p with
    | returned op r => exact absurd rfl (hp op r)
    | _ =>
      cases q with
      | returned op r => exact absurd rfl (hq op r)
      | _ => cases pc <;> rfl

theorem entering_inside {p : Phase T} {op : Op T} {late : Bool} (h : p.entering = some (op, late)) :
    inside p = if late && (BlockingBoundedQueue.timeout op).isSome then 3 else 5 := by
  cases p with
  | ready => cases h; rfl
  | notified => cases h; rfl
  | _ => cases h

/-! ## What a turn does to the rank -/

/-- `run()` outside the queue. -/
theorem goes_ahead {s : St T} (hoff : s.running_ = false) {i : Nat} {th th' : Thread T} {out : List (Ev T)}
    {running_ : Bool} (e : Bool) (h : Goes s i th out running_ th') :
    running_ = false ∧ pending th' .idle ≤ pending th .idle ∧ ahead e th' .idle < ahead e th .idle := by
  cases h with
  | next stopPred _ h =>
    refine ⟨hoff, ?_⟩
    rw [hoff] at h
    unfold Thread.next at h
    split at h
    · cases h; exact ⟨Nat.zero_le _, by simp [ahead]⟩
    · cases h; cases stopPred <;> exact ⟨by simp [pending, Thread.mayPut], by simp [ahead]⟩
    · cases h; exact ⟨Nat.zero_le _, by simp [ahead]⟩
    · cases h; cases stopPred <;> exact ⟨Nat.zero_le _, by simp [ahead]⟩
    · cases h; cases e <;> exact ⟨Nat.zero_le _, by simp [ahead]⟩
    · cases h
  | stopping _ h =>
    refine ⟨rfl, ?_⟩
    unfold Thread.stopping at h
    split at h
    · cases h; exact ⟨Nat.zero_le _, by simp [ahead]⟩
    · cases h; exact ⟨Nat.zero_le _, by simp [ahead]⟩
    · cases h
  | created obj _ h =>
    refine ⟨hoff, ?_⟩
    unfold Thread.created at h
    split at h
    · cases h; exact ⟨Nat.le_refl _, by simp [ahead]⟩
    · cases h; exact ⟨Nat.le_refl _, by simp [ahead]⟩
    · cases h
  | used obj _ h =>
    refine ⟨hoff, ?_⟩
    unfold Thread.using_ at h
    split at h
    · cases h; cases e <;> exact ⟨Nat.le_refl _, by simp [ahead]⟩
    · cases h

theorem goes_op {s : St T} {i : Nat} {th th' : Thread T} {out : List (Ev T)} {running_ : Bool}
    (h : Goes s i th out running_ th') : th.op = none := by
  cases h with
  | next stopPred _ h => exact next_op h
  | stopping _ h => exact stopping_op h
  | created obj _ h => exact created_op h
  | used obj _ h => exact using_op h

/-- A method that returns. -/
theorem resume_ahead {th : Thread T} {op : Op T} {r : QueueRet T} (e : Bool) (hm : Matches th (.returned op r))
    (hr : answers op r = true) : pending (th.resume r) .idle ≤ pending th (.returned op r) ∧
      ahead e (th.resume r) .idle < ahead e th (.returned op r) := by
  obtain ⟨hop, -⟩ := hm
  unfold Thread.op at hop
  split at hop <;> cases hop
  · cases r with
    | bool b => cases b <;> exact ⟨by simp [pending, Thread.resume, Thread.mayPut], by simp [ahead, Thread.resume]⟩
    | _ => cases hr
  · cases r with
    | done => exact ⟨Nat.le_refl _, by simp [ahead, Thread.resume]⟩
    | _ => cases hr
  · cases r with
    | bool b => cases b <;> exact ⟨by simp [pending, Thread.resume, Thread.mayPut], by simp [ahead, Thread.resume]⟩
    | _ => cases hr
  · cases r with
    | done => exact ⟨Nat.le_refl _, by simp [ahead, Thread.resume]⟩
    | _ => cases hr
  · cases r with
    | bool b => cases b <;> cases e <;> exact ⟨Nat.le_refl _, by simp [ahead, Thread.resume]⟩
    | _ => cases hr
  · cases r with
    | value x => cases e <;> exact ⟨Nat.le_refl _, by simp [ahead, Thread.resume]⟩
    | failed => cases e <;> exact ⟨Nat.le_refl _, by simp [ahead, Thread.resume]⟩
    | _ => cases hr

/-- A method that returns without moving an object leaves the thread as far as it was. -/
theorem unmoved_ahead {q : BlockingBoundedQueue T} {th : Thread T} {op : Op T} {r : QueueRet T} (hop : th.op = some op)
    (h : BlockingBoundedQueue.body op q = some (q, r, none) ∨
      BlockingBoundedQueue.body op q = none ∧ BlockingBoundedQueue.timeout op = some r) :
    pending th (.returned op r) = pending th .idle ∧
      ahead q.queue_.isEmpty th (.returned op r) = ahead q.queue_.isEmpty th .idle := by
  have put : ∀ x, op ≠ .put x := by
    rintro x rfl
    rcases h with h | ⟨-, h⟩
    · simp only [BlockingBoundedQueue.body] at h
      split at h
      · simp at h
      · cases h
    · cases h
  unfold Thread.op at hop
  split at hop <;> cases hop
  · exact ⟨rfl, rfl⟩
  · exact absurd rfl (put _)
  · exact ⟨rfl, rfl⟩
  · exact absurd rfl (put _)
  · refine ⟨rfl, ?_⟩
    rcases h with h | ⟨-, h⟩
    · cases h
      cases q.queue_.isEmpty <;> rfl
    · cases h
  · refine ⟨rfl, ?_⟩
    rcases h with h | ⟨h, -⟩
    · obtain ⟨front, -, -, hn, -⟩ := BlockingBoundedQueue.pop_cases h
      cases hn
    · rw [List.isEmpty_iff.mpr (List.eq_nil_of_length_eq_zero (BlockingBoundedQueue.pop_none h))]
      rfl

theorem entering_far {p : Phase T} {op : Op T} {late : Bool} (h : p.entering = some (op, late)) : 3 ≤ inside p := by
  rw [entering_inside h]
  split <;> omega

theorem inside_pending {q : BlockingBoundedQueue T} {th : Thread T} {i : Nat} {a : Act T} {p p' : Phase T}
    (hm : Matches th p) (h : Inside q th i a p p') : pending th p' = pending th p := by
  cases h with
  | called => rfl
  | late => rfl
  | notifiedLate => rfl
  | spurious => rfl
  | read wake _ op late r he hb =>
    exact (unmoved_ahead (matches_entering hm he) (Or.inl hb)).1.trans (pending_eq _ (entering_not_returned he)).symm
  | gaveUp wake _ op r he hb hr =>
    exact (unmoved_ahead (matches_entering hm he) (Or.inr ⟨hb, hr⟩)).1.trans (pending_eq _ (entering_not_returned he)).symm
  | waits wake _ op late he hb hl => exact (pending_eq _ (entering_not_returned he)).symm

/-- A turn inside a method, unless nothing changes. -/
theorem inside_lighter {s : St T} {i : Nat} {th : Thread T} {a : Act T} {p p' : Phase T}
    (hp : Pair s i th p) (hm : Matches th p) (hn : Natural s a) (h : Inside s.blque_.shared th i a p p') :
    p' = p ∨ weight s.blque_.shared.queue_.isEmpty th p' + 1 ≤ weight s.blque_.shared.queue_.isEmpty th p + credit a := by
  have nearer : ∀ {p p' : Phase T} {k : Nat}, (∀ op r, p ≠ .returned op r) → (∀ op r, p' ≠ .returned op r) →
      inside p' + 1 ≤ inside p + k → weight s.blque_.shared.queue_.isEmpty th p' + 1 ≤
        weight s.blque_.shared.queue_.isEmpty th p + k := by
    intro p p' k hp hp' h
    unfold weight
    rw [ahead_eq hp' hp]
    omega
  have unmoved : ∀ {op late r}, p.entering = some (op, late) →
      (BlockingBoundedQueue.body op s.blque_.shared = some (s.blque_.shared, r, none) ∨
        BlockingBoundedQueue.body op s.blque_.shared = none ∧ BlockingBoundedQueue.timeout op = some r) →
      weight s.blque_.shared.queue_.isEmpty th (.returned op r) + 1 ≤ weight s.blque_.shared.queue_.isEmpty th p := by
    intro op late r he h
    have hah := (unmoved_ahead (matches_entering hm he) h).2
    have hfar := entering_far he
    rw [ahead_eq (p := .idle) (q := p) nofun (entering_not_returned he)] at hah
    have hone : inside (.returned op r : Phase T) = 1 := rfl
    unfold weight
    omega
  cases h with
  | called op hop => exact Or.inr (nearer nofun nofun (Nat.le_refl 6))
  | late op =>
    have ht := hn op false (Or.inl hp.phase)
    exact Or.inr (nearer nofun nofun (by simp [inside, ht]))
  | notifiedLate op late =>
    have ht := hn op late (Or.inr hp.phase)
    cases late with
    | true => exact Or.inl rfl
    | false => exact Or.inr (nearer nofun nofun (by simp [inside, ht, credit]))
  | spurious op => exact Or.inr (nearer nofun nofun (Nat.le_refl 6))
  | read wake _ op late r he hb => exact Or.inr (unmoved he (Or.inl hb))
  | gaveUp wake _ op r he hb hr => exact Or.inr (unmoved he (Or.inr ⟨hb, hr⟩))
  | waits wake _ op late he hb hl =>
    have hin := entering_inside he
    refine Or.inr (nearer (entering_not_returned he) nofun ?_)
    rw [hin]
    cases late with
    | true => simp [inside, hl rfl, credit]
    | false => simp [inside, credit]

/-- Who is notified has as many objects to put as before. -/
theorem notify_pendings {s : St T} (hs : Good s) {n : QueueCv} {wake i : Nat} {th : Thread T} {p p' : Phase T}
    (hp : Pair s i th p) : total pending s.threads (BlockingBoundedQueue.monitor.notifyOne n wake (s.blque_.threads.set i p')) +
      pending th p = pendings s + pending th p' := by
  have hset := sum_set (f := pending) hp.thread hp.phase th p'
  rw [set_same hp.thread] at hset
  rcases BlockingBoundedQueue.monitor.notifyOne_cases n wake (s.blque_.threads.set i p') with ⟨-, heq⟩ | ⟨j, op, hj, -, heq⟩
  · rw [heq]
    exact hset
  · obtain ⟨hlt, -⟩ := List.getElem?_eq_some_iff.mp hj
    rw [List.length_set, hs.sized] at hlt
    have hnote := sum_set (f := pending) (List.getElem?_eq_getElem hlt) hj s.threads[j] (.notified op false)
    rw [set_same (List.getElem?_eq_getElem hlt)] at hnote
    rw [heq]
    unfold pendings
    have : pending s.threads[j] (.notified op false) = pending s.threads[j] (.waiting op) := rfl
    omega

/-- A put or a take. -/
theorem moved_tokens {s : St T} (hs : Good s) (wake : Nat) {i : Nat} {th : Thread T} {p : Phase T} {op : Op T} {late : Bool}
    {t : BlockingBoundedQueue T} {r : QueueRet T} {n : QueueCv} (hp : Pair s i th p) (he : p.entering = some (op, late))
    (hb : BlockingBoundedQueue.body op s.blque_.shared = some (t, r, some n)) :
    let u : St T := { s with blque_ :=
      ⟨t, BlockingBoundedQueue.monitor.notifyOne n wake (s.blque_.threads.set i (.returned op r))⟩ }
    tokens u < tokens s ∧ load u ≤ load s := by
  intro u
  have hop := matches_entering (hs.matched i th p hp) he
  have hnote : pendings u + pending th p = pendings s + pending th (.returned op r) := notify_pendings hs hp
  have hpend := pending_eq th (entering_not_returned he)
  rcases BlockingBoundedQueue.body_cases hb with ⟨x, rfl, -, rfl, -, -⟩ | ⟨hw, -, front, hq, -⟩ | ⟨-, -, -, -, hn⟩
  · have hmay : th.mayPut = true := by
      unfold Thread.op at hop
      split at hop <;> cases hop <;> rfl
    rw [hmay, if_pos rfl] at hpend
    have hzero : pending th (.returned (.put x) r) = 0 := rfl
    have hlen : u.blque_.shared.queue_.length = s.blque_.shared.queue_.length + 1 := List.length_append
    exact ⟨by unfold tokens; omega, by unfold load; omega⟩
  · have hsame : pending th (.returned op r) = pending th p := by
      rw [hpend]
      unfold Thread.op at hop
      split at hop <;> cases hop <;> first | rfl | cases hw
    have hlen : s.blque_.shared.queue_.length = t.queue_.length + 1 := by rw [hq]; rfl
    have hlen' : u.blque_.shared.queue_.length = t.queue_.length := rfl
    exact ⟨by unfold tokens; omega, by unfold load; omega⟩
  · cases hn

/-- The rank of a state whose objects are no nearer to their end is that of its threads. -/
theorem rank_turn {s : St T} {i : Nat} {th th' : Thread T} {p p' : Phase T} {k : Nat} (hp : Pair s i th p)
    (hpend : pending th' p' ≤ pending th p)
    (hw : weight s.blque_.shared.queue_.isEmpty th' p' + 1 ≤ weight s.blque_.shared.queue_.isEmpty th p + k) :
    rank (s.turn i th' p') + 1 ≤ rank s + k := by
  have hpends := sum_set (f := pending) hp.thread hp.phase th' p'
  have hweights := sum_set (f := weight s.blque_.shared.queue_.isEmpty) hp.thread hp.phase th' p'
  have htok : tokens (s.turn i th' p') ≤ tokens s := by
    simp only [tokens, pendings, St.turn]
    omega
  have hmul := Nat.mul_le_mul_right (36 * s.threads.length + 1) htok
  have hlen : (s.turn i th' p').threads.length = s.threads.length := List.length_set
  unfold rank
  rw [hlen]
  simp only [St.turn] at hmul ⊢
  omega

theorem rank_tokens {s t : St T} (hlen : t.threads.length = s.threads.length) (h : tokens t < tokens s) :
    rank t + 1 ≤ rank s := by
  have hle : total (weight t.blque_.shared.queue_.isEmpty) t.threads t.blque_.threads ≤ 36 * t.threads.length :=
    total_le (weight_le t.blque_.shared.queue_.isEmpty)
  have hmul := Nat.mul_le_mul_right (36 * s.threads.length + 1) h
  rw [Nat.succ_mul] at hmul
  unfold rank
  rw [hlen] at hle ⊢
  omega

/-- A step of a stopped task that changes something lowers its rank. -/
theorem stopped_step {maxSize : Nat} {roles : List Role} {s : St T} (h : Live maxSize roles s) (hoff : s.running_ = false)
    {a : Act T} (ha : Effective s a) : rank (step s a).val + 1 ≤ rank s + credit a := by
  obtain ⟨hnat, hne⟩ := ha
  have ht := step_turn h.good a
  generalize (step s a).val = t at ht hne
  cases ht with
  | nothing => exact absurd rfl hne
  | goes i th th' p out running_ hp hg =>
    obtain rfl : p = .idle := matches_idle (h.good.matched i th p hp) (goes_op hg)
    obtain ⟨-, hpend, hah⟩ := goes_ahead hoff s.blque_.shared.queue_.isEmpty hg
    exact rank_turn hp hpend (by unfold weight; omega)
  | inside i th p p' hp hin =>
    rcases inside_lighter hp (h.good.matched i th p hp) hnat hin with rfl | hw
    · exact absurd ((turn_thread hp p').trans (by rw [set_same hp.phase])) hne
    · exact rank_turn hp (Nat.le_of_eq (inside_pending (h.good.matched i th p hp) hin)) hw
  | moved i wake th p op late t r n hp he hb =>
    exact Nat.le_add_right_of_le (rank_tokens rfl (moved_tokens h.good wake hp he hb).1)
  | ret i th op r hp =>
    obtain ⟨hpend, hah⟩ := resume_ahead s.blque_.shared.queue_.isEmpty (h.good.matched i th _ hp)
      (h.sound _ (List.mem_of_getElem? hp.phase))
    refine rank_turn hp hpend ?_
    have hone : inside (.returned op r : Phase T) = 1 := rfl
    have hsix : inside (.idle : Phase T) = 6 := rfl
    unfold weight
    omega
  | stop =>
    refine absurd ?_ hne
    rw [← hoff]

def Off (maxSize : Nat) (roles : List Role) (s : St T) : Prop := Live maxSize roles s ∧ s.running_ = false

theorem off_step {maxSize : Nat} {roles : List Role} {s : St T} (h : Off maxSize roles s) (a : Act T) :
    Off maxSize roles (step s a).val := by
  refine ⟨live_step h.1 a, ?_⟩
  cases hr : (step s a).val.running_ with
  | false => rfl
  | true => exact absurd (running_step hr) (by rw [h.2]; exact Bool.false_ne_true)

theorem stopped_ranked (maxSize : Nat) (roles : List Role) :
    Ranked (step (T := T)) Effective (Off maxSize roles) rank credit where
  keeps _ a _ h _ ht := step_val ht ▸ off_step h a
  falls _ _ _ h ha ht := step_val ht ▸ stopped_step h.1 h.2 ha

/-! ## Room for the objects to come -/

def producers (roles : List Role) : Nat := roles.countP Role.produces

theorem pendings_le {maxSize : Nat} {roles : List Role} {s : St T} (h : Live maxSize roles s) :
    pendings s ≤ producers roles := by
  have hle : pendings s ≤ s.threads.countP fun th => th.role.produces := by
    refine total_le_countP fun th p => ?_
    have hmay : pending th p ≤ if th.mayPut then 1 else 0 := by
      unfold pending
      split
      · exact Nat.zero_le _
      · exact Nat.le_refl _
    cases th with
    | Producer pc => exact Nat.le_trans hmay (by cases pc <;> simp [Thread.mayPut, Thread.role, Role.produces])
    | TrigProducer pc => exact Nat.le_trans hmay (by cases pc <;> simp [Thread.mayPut, Thread.role, Role.produces])
    | Consumer w pc => exact Nat.le_trans hmay (by cases pc <;> simp [Thread.mayPut, Thread.role, Role.produces])
  rw [producers, ← h.roles, List.countP_map]
  exact hle

theorem turn_load {s : St T} {i : Nat} {th th' : Thread T} {p p' : Phase T} (hp : Pair s i th p)
    (hpend : pending th' p' ≤ pending th p) : load (s.turn i th' p') ≤ load s := by
  have hpends := sum_set (f := pending) hp.thread hp.phase th' p'
  simp only [load, pendings, St.turn]
  omega

/-- Nothing is added to the objects of a stopped task. -/
theorem stopped_load {maxSize : Nat} {roles : List Role} {s : St T} (h : Off maxSize roles s) (a : Act T) :
    load (step s a).val ≤ load s := by
  obtain ⟨h, hoff⟩ := h
  have ht := step_turn h.good a
  generalize (step s a).val = t at ht
  cases ht with
  | nothing => exact Nat.le_refl _
  | goes i th th' p out running_ hp hg =>
    obtain rfl : p = .idle := matches_idle (h.good.matched i th p hp) (goes_op hg)
    exact turn_load hp (goes_ahead hoff true hg).2.1
  | inside i th p p' hp hin => exact turn_load hp (Nat.le_of_eq (inside_pending (h.good.matched i th p hp) hin))
  | moved i wake th p op late t r n hp he hb => exact (moved_tokens h.good wake hp he hb).2
  | ret i th op r hp =>
    exact turn_load hp (resume_ahead true (h.good.matched i th _ hp) (h.sound _ (List.mem_of_getElem? hp.phase))).1
  | stop => exact Nat.le_refl _

/-- Every consumer has left only once the task is stopped. -/
theorem gone_stopped {maxSize : Nat} {roles : List Role} {s : St T} (h : Live maxSize roles s) {w : Int}
    (hw : Role.Consumer w ∈ roles) (hgone : ¬ Stays s) : s.running_ = false := by
  rw [← h.roles] at hw
  obtain ⟨th, hth, hrole⟩ := List.mem_map.mp hw
  obtain ⟨j, hj⟩ := List.getElem?_of_mem hth
  obtain ⟨p, hp⟩ := pair_of_thread h.good hj
  refine h.left th hth ?_
  by_contra hl
  refine hgone ⟨j, th, p, hp, ?_, ?_⟩
  · cases th with
    | Consumer w' pc => cases pc <;> first | rfl | exact absurd rfl hl
    | _ => cases hrole
  · rintro rfl
    have hop := (h.good.matched j th _ hp).1
    unfold Thread.op at hop
    split at hop <;> cases hop
    exact hl rfl

/-- Once every consumer has left, the objects queued and to come are at most one for each
    producer. -/
def Room (roles : List Role) (s : St T) : Prop := ¬ Stays s → load s ≤ producers roles

theorem room_step {maxSize : Nat} {roles : List Role} {s : St T} (h : Live maxSize roles s) {w : Int}
    (hw : Role.Consumer w ∈ roles) (hr : Room roles s) (a : Act T) : Room roles (step s a).val := by
  intro hgone
  by_cases hs : Stays s
  · -- the last consumer leaves an empty queue
    have hempty := (stays_step h.good a hs).resolve_left hgone
    have hpend := pendings_le (live_step h a)
    rw [load, hempty]
    simpa using hpend
  · exact Nat.le_trans (stopped_load ⟨h, gone_stopped h hw hs⟩ a) (hr hs)

theorem start_room {running_ : Bool} {maxSize : Nat} {roles : List Role} :
    Room roles (start running_ maxSize roles : St T) := by
  intro _
  have hpend := pendings_le (start_live (T := T) running_ maxSize roles)
  simpa [load, start, Monitor.St.start] using hpend

/-! ## Some thread can go on -/

/-- A step that the task can take by itself. -/
def CanMove (s : St T) : Prop := ∃ a, Effective s a ∧ credit a = 0

/-- The labels that move a thread, or the method it is in. -/
theorem can_of_thread {s : St T} {a : Act T} {j : Nat} {th th' : Thread T} (ha : Natural s a) (hc : credit a = 0)
    (hj : s.threads[j]? = some th) (hne : th' ≠ th) (ht : (step s a).val.threads = s.threads.set j th') : CanMove s := by
  refine ⟨a, ⟨ha, fun heq => hne ?_⟩, hc⟩
  have hget := set_at hj th'
  rw [← ht, heq, hj] at hget
  exact (Option.some.inj hget).symm

theorem can_of_phase {s : St T} {a : Act T} {j : Nat} {p : Phase T} (ha : Natural s a) (hc : credit a = 0)
    (hj : s.blque_.threads[j]? = some p) (p' : Phase T) (hne : p' ≠ p) (ht : (step s a).val.blque_.threads[j]? = some p') :
    CanMove s := by
  refine ⟨a, ⟨ha, fun heq => hne ?_⟩, hc⟩
  rw [heq, hj] at ht
  exact (Option.some.inj ht).symm

theorem next_ne {th th' : Thread T} {running_ stopPred : Bool} (h : th.next running_ stopPred = some th') : th' ≠ th := by
  unfold Thread.next at h
  split at h
  · cases h; cases running_ <;> exact nofun
  · cases h; cases stopPred <;> exact nofun
  · cases h; cases running_ <;> exact nofun
  · cases h; cases stopPred <;> exact nofun
  · cases h; cases running_ <;> exact nofun
  · cases h

/-- Outside the queue a thread can go on until it has ended. -/
theorem outside_moves [Inhabited T] {s : St T} {j : Nat} {th : Thread T} (hj : s.threads[j]? = some th)
    (hop : th.op = none) (hend : th.ended = false) : CanMove s := by
  have run : ∀ {th'}, th.next s.running_ false = some th' → CanMove s := by
    intro th' h
    refine can_of_thread (a := .run j false) trivial rfl hj (next_ne h) ?_
    simp only [step, hj, h]
    rfl
  have stopping : ∀ {th'}, th.next s.running_ false = none → th.stopping = some th' → th' ≠ th → CanMove s := by
    intro th' hn h hne
    refine can_of_thread (a := .run j false) trivial rfl hj hne ?_
    simp only [step, hj, hn, h]
    rfl
  have using_ : ∀ {obj th'}, th.next s.running_ false = none → th.stopping = none → th.using_ = some (obj, th') →
      th' ≠ th → CanMove s := by
    intro obj th' hn hs h hne
    refine can_of_thread (a := .run j false) trivial rfl hj hne ?_
    simp only [step, hj, hn, hs, h]
    rfl
  have create : ∀ {th'}, th.created default = some th' → th' ≠ th → CanMove s := by
    intro th' h hne
    refine can_of_thread (a := .create j default) trivial rfl hj hne ?_
    simp only [step, hj, Option.bind_some, h]
    rfl
  cases th with
  | Producer pc =>
    cases pc with
    | check => exact run rfl
    | stopPred => exact run rfl
    | stop => exact stopping rfl rfl (fun e => by cases e)
    | create => exact create rfl (fun e => by cases e)
    | ended => cases hend
    | _ => cases hop
  | TrigProducer pc =>
    cases pc with
    | check => exact run rfl
    | stopPred => exact run rfl
    | stop => exact stopping rfl rfl (fun e => by cases e)
    | create => exact create rfl (fun e => by cases e)
    | ended => cases hend
    | _ => cases hop
  | Consumer w pc =>
    cases pc with
    | check => exact run rfl
    | use obj => exact using_ rfl rfl rfl (fun e => by cases e)
    | ended => cases hend
    | _ => cases hop

/-- A section makes its thread wait, or return. -/
theorem section_phase {q : Monitor.St (BlockingBoundedQueue T) (Op T) (QueueRet T)} {i : Nat} {p : Phase T} (wake : Nat)
    (op : Op T) (late : Bool) (hp : q.threads[i]? = some p) :
    (BlockingBoundedQueue.monitor.section_ q i wake op late).val.threads[i]? = some (.waiting op) ∨
      ∃ r, (BlockingBoundedQueue.monitor.section_ q i wake op late).val.threads[i]? = some (.returned op r) := by
  unfold Monitor.section_
  split
  · rename_i t r n hb
    rcases BlockingBoundedQueue.monitor.notify_get n wake (set_at hp (.returned op r)) with h | ⟨op', h, -⟩
    · exact Or.inr ⟨r, h⟩
    · cases h
  · split
    · rename_i r hr
      exact Or.inr ⟨r, set_at hp _⟩
    · exact Or.inl (set_at hp _)

/-- A thread that has not ended can go on, unless it waits for room. -/
theorem thread_moves [Inhabited T] {maxSize : Nat} {roles : List Role} {s : St T} (h : Live maxSize roles s) {j : Nat}
    {th : Thread T} {p : Phase T} (hp : Pair s j th p) (hend : th.ended = false) (hput : ∀ x, p ≠ .waiting (.put x)) :
    CanMove s := by
  have hm := h.good.matched j th p hp
  have hsound := h.sound p (List.mem_of_getElem? hp.phase)
  have enter : ∀ {op late}, p.entering = some (op, late) → CanMove s := by
    intro op late he
    have hstep : (step s (.enter j 0)).val.blque_ =
        (BlockingBoundedQueue.monitor.section_ s.blque_ j 0 op late).val := by
      show (onQueue s j (.enter j 0)).val.blque_ = _
      rw [onQueue_eq]
      simp only [Monitor.step, hp.phase, Option.bind_some, he]
      rfl
    rcases section_phase 0 op late hp.phase with ht | ⟨r, ht⟩
    · refine can_of_phase (a := .enter j 0) trivial rfl hp.phase (.waiting op) ?_ (by rw [hstep]; exact ht)
      rintro rfl
      cases he
    · refine can_of_phase (a := .enter j 0) trivial rfl hp.phase (.returned op r) ?_ (by rw [hstep]; exact ht)
      rintro rfl
      cases he
  cases p with
  | idle =>
    cases hop : th.op with
    | none => exact outside_moves hp.thread hop hend
    | some op =>
      refine can_of_phase (a := .call j) trivial rfl hp.phase (.ready op false) (fun e => by cases e) ?_
      simp only [step, hp.thread, Option.bind_some, hop, onQueue_eq, Monitor.step, hp.phase]
      exact set_at hp.phase _
  | ready op late => exact enter rfl
  | notified op late => exact enter rfl
  | waiting op =>
    have hop : th.op = some op := hm
    obtain ⟨w, rfl⟩ : ∃ w, op = .takeFor w := by
      unfold Thread.op at hop
      split at hop <;> cases hop
      · exact absurd rfl hsound
      · exact absurd rfl (hput _)
      · exact absurd rfl hsound
      · exact absurd rfl (hput _)
      · exact absurd rfl hsound
      · exact ⟨_, rfl⟩
    refine can_of_phase (a := .timeout j) ?_ rfl hp.phase (.ready (.takeFor w) true) (fun e => by cases e) ?_
    · intro op late hj
      rw [hp.phase] at hj
      rcases hj with hj | hj <;> cases hj
      rfl
    · simp only [step, onQueue_eq, Monitor.step, hp.phase]
      exact set_at hp.phase _
  | returned op r =>
    refine can_of_phase (a := .ret j) trivial rfl hp.phase .idle (fun e => by cases e) ?_
    rw [ret_eq hp]
    exact set_at hp.phase _

theorem ended_of_op {th : Thread T} {op : Op T} (h : th.op = some op) : th.ended = false := by
  unfold Thread.op at h
  split at h <;> first | rfl | cases h

/-- While the objects to come fit into the queue, a stopped task goes on until all threads
    have ended. -/
theorem room_moves [Inhabited T] {maxSize : Nat} {roles : List Role} {s : St T} (h : Live maxSize roles s)
    (hr : Room roles s) (hfit : producers roles ≤ maxSize) (hnot : ¬ AllEnded s) : CanMove s := by
  obtain ⟨th, hth, hend⟩ : ∃ th ∈ s.threads, th.ended = false := by
    simpa only [AllEnded, not_forall, Bool.not_eq_true, exists_prop] using hnot
  obtain ⟨j, hj⟩ := List.getElem?_of_mem hth
  obtain ⟨p, hp⟩ := pair_of_thread h.good hj
  by_cases hput : ∃ x, p = .waiting (.put x)
  swap
  · exact thread_moves h hp hend fun x hx => hput ⟨x, hx⟩
  obtain ⟨x, rfl⟩ := hput
  have hop : th.op = some (.put x) := h.good.matched j th _ hp
  by_cases hs : Stays s
  · -- a consumer that stays
    obtain ⟨k, th', p', hk, hloops, -⟩ := hs
    cases th' with
    | Consumer w pc =>
      refine thread_moves h hk ?_ ?_
      · cases pc <;> first | rfl | cases hloops
      · rintro y rfl
        have hop' : (Thread.Consumer w pc).op = some (.put y) := h.good.matched k _ _ hk
        cases pc <;> cases hop'
    | _ => cases hloops
  · -- there is room for the object, so a producer has been notified of it
    have hone : 1 ≤ pendings s := by
      refine Nat.le_trans (Nat.le_of_eq ?_) (le_total hp.thread hp.phase)
      unfold Thread.op at hop
      split at hop <;> cases hop <;> rfl
    have hload := hr hs
    have havail : 1 ≤ BlockingBoundedQueue.available .m_notFullCv_ s.blque_.shared := by
      show 1 ≤ s.blque_.shared.maxSize_ - s.blque_.shared.queue_.length
      rw [h.queue.maxSize_]
      unfold load at hload
      omega
    have hcov := h.queue.covered .m_notFullCv_ ⟨_, List.mem_of_getElem? hp.phase, rfl⟩
    obtain ⟨p', hp', hnote⟩ := List.countP_pos_iff.mp (Nat.lt_of_lt_of_le havail hcov)
    obtain ⟨k, hk⟩ := List.getElem?_of_mem hp'
    obtain ⟨th', hpair⟩ := pair_of_phase h.good hk
    cases p' with
    | notified op late => exact thread_moves h hpair (ended_of_op (h.good.matched k th' _ hpair)) nofun
    | _ => cases hnote

theorem ended_goes {s : St T} {i : Nat} {th th' : Thread T} {out : List (Ev T)} {running_ : Bool}
    (hend : th.ended = true) : ¬ Goes s i th out running_ th' := by
  intro hgoes
  unfold Thread.ended at hend
  -- an ended thread has no step of any kind
  split at hend <;> contradiction

/-- Once its threads have all ended, nothing moves a stopped task. -/
theorem ended_stuck {s : St T} (hs : Good s) (hoff : s.running_ = false) (hend : AllEnded s) : ¬ CanMove s := by
  have hop : ∀ {j : Nat} {th : Thread T}, s.threads[j]? = some th → th.op = none := by
    intro j th hth
    by_contra hne
    obtain ⟨op, hop⟩ := Option.ne_none_iff_exists'.mp hne
    exact absurd (hend th (List.mem_of_getElem? hth)) (by rw [ended_of_op hop]; nofun)
  have hidle : ∀ {j : Nat} {p : Phase T}, s.blque_.threads[j]? = some p → p = .idle := by
    intro j p hp
    obtain ⟨th, hpair⟩ := pair_of_phase hs hp
    exact matches_idle (hs.matched j th p hpair) (hop hpair.thread)
  rintro ⟨a, ⟨-, hmoves⟩, -⟩
  apply hmoves
  have hdoes := step_does s a
  generalize step s a = x at hdoes
  cases hdoes with
  | nothing => rfl
  | goes i th th' out running_ hth hgoes => exact absurd hgoes (ended_goes (hend th (List.mem_of_getElem? hth)))
  | queue i b _ _ hcall =>
    rw [onQueue_eq]
    have hmon := BlockingBoundedQueue.monitor.step_outcome s.blque_ b
    generalize BlockingBoundedQueue.monitor.step s.blque_ b = x at hmon
    cases hmon with
    | same => rfl
    | called k op _ =>
      obtain ⟨th, hth, h⟩ := Option.bind_eq_some_iff.mp (hcall k op rfl)
      rw [hop hth] at h
      cases h
    | woken _ k p q _ hp hw => rw [hidle hp] at hw; cases hw
    | done k wake p op late u r n hp he _ => rw [hidle hp] at he; cases he
    | gaveUp k wake p op r hp he _ _ => rw [hidle hp] at he; cases he
    | waits k wake p op late hp he _ => rw [hidle hp] at he; cases he
    | left k op r hp => cases hidle hp
  | ret i th op r hpair => cases hidle hpair.phase
  | stop =>
    show { s with running_ := false } = s
    rw [← hoff]

/-- What a started task of the threads `roles` reaches. -/
theorem run_live (running_ : Bool) (maxSize : Nat) (roles : List Role) (acts : List (Act T)) :
    Live maxSize roles (runs step (start running_ maxSize roles) acts).val :=
  runs_inv step (fun _ a _ h ht => step_val ht ▸ live_step h a) (start_live running_ maxSize roles) (res_val _)

theorem run_room {running_ : Bool} {maxSize : Nat} {roles : List Role} {w : Int} (hw : Role.Consumer w ∈ roles)
    (acts : List (Act T)) : Room roles (runs step (start running_ maxSize roles) acts).val :=
  (runs_inv step (I := fun s => Live maxSize roles s ∧ Room roles s)
    (fun _ a _ h ht => step_val ht ▸ ⟨live_step h.1 a, room_step h.1 hw h.2 a⟩)
    ⟨start_live running_ maxSize roles, start_room⟩ (res_val _)).2

theorem rank_le {maxSize : Nat} {roles : List Role} {s : St T} (h : Live maxSize roles s) :
    rank s ≤ (maxSize + 2 * producers roles) * (36 * roles.length + 1) + 36 * roles.length := by
  have hlen : s.threads.length = roles.length := by rw [← h.roles, List.length_map]
  have hpend := pendings_le h
  have htok : tokens s ≤ maxSize + 2 * producers roles := by
    have := h.queue.bounded
    unfold tokens
    omega
  have hmul := Nat.mul_le_mul_right (36 * s.threads.length + 1) htok
  have htotal : total (weight s.blque_.shared.queue_.isEmpty) s.threads s.blque_.threads ≤ 36 * s.threads.length :=
    total_le (weight_le s.blque_.shared.queue_.isEmpty)
  unfold rank
  rw [hlen] at hmul htotal ⊢
  omega

/-- A stopped task takes only so many steps, and two more for each spurious wake-up. If it has
    a consumer and the queue has room for an object of each producer, then where it can go no
    further every thread has returned from `run()`. -/
theorem stopped_task_ends [Inhabited T] (running_ : Bool) (maxSize : Nat) (roles : List Role) (acts rest : List (Act T))
    (hstop : (runs step (start running_ maxSize roles) acts).val.running_ = false)
    (hrest : Along step Effective (runs step (start running_ maxSize roles) acts).val rest) :
    rest.length ≤ (maxSize + 2 * producers roles) * (36 * roles.length + 1) + 36 * roles.length + (rest.map credit).sum ∧
      ((∃ w, .Consumer w ∈ roles) → producers roles ≤ maxSize →
        ¬ CanMove (runs step (start running_ maxSize roles) (acts ++ rest)).val →
        AllEnded (runs step (start running_ maxSize roles) (acts ++ rest)).val) := by
  refine ⟨?_, fun ⟨w, hw⟩ hfit hstuck => ?_⟩
  · have hlive := run_live running_ maxSize roles acts
    have hbound := ((stopped_ranked maxSize roles).bound ⟨hlive, hstop⟩ hrest (res_val _)).2
    have hrank := rank_le hlive
    omega
  · by_contra hnot
    exact hstuck (room_moves (run_live running_ maxSize roles _) (run_room hw _) hfit hnot)

theorem along_effective {s : St T} {a : Act T} {as : List (Act T)} (hnat : Natural s a)
    (hrank : rank (step s a).val ≠ rank s) (has : Along step Effective (step s a).val as) :
    Along step Effective s (a :: as) :=
  ⟨⟨hnat, fun h => hrank (by rw [h])⟩, fun t ht => step_val ht ▸ has⟩

/-- A producer and a consumer: `stopPred_` stops the task while the consumer is using the one
    object, and four steps later both have returned. -/
theorem stopped_task_ends_pair :
    (oneObject.drop 20).length ≤ (2 + 2 * producers [.Producer, .Consumer 1000]) * (36 * 2 + 1) + 36 * 2 +
        ((oneObject.drop 20).map credit).sum ∧
      ¬ CanMove (runs step pair (oneObject.take 20 ++ oneObject.drop 20)).val ∧
      AllEnded (runs step pair (oneObject.take 20 ++ oneObject.drop 20)).val := by
  have hrest : Along step Effective (runs step pair (oneObject.take 20)).val (oneObject.drop 20) :=
    along_effective trivial (by decide) (along_effective trivial (by decide) (along_effective trivial (by decide)
      (along_effective trivial (by decide) trivial)))
  have hends := stopped_task_ends true 2 [.Producer, .Consumer 1000] (oneObject.take 20) (oneObject.drop 20) rfl hrest
  have hstuck : ¬ CanMove (runs step pair (oneObject.take 20 ++ oneObject.drop 20)).val :=
    ended_stuck (run_live true 2 [.Producer, .Consumer 1000] _).good rfl one_object_ended
  exact ⟨hends.1, hstuck, hends.2 ⟨1000, by simp⟩ (by decide) hstuck⟩
end TaskScheduler

end LeapSyncFfh
