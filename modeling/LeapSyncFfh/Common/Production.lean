/-
  LeapSyncFfh.Common.Production — when `Producer::run` returns.

  The loop of a producer goes on while the task is running and the queue is not full. It
  calls `stop()` only when `stopPred_` holds; a queue found full ends the loop as a stopped
  task does, although `put` would have waited for room. `ProductionLaw`: a producer has
  returned only if the task is stopped, and a running task with a producer has one that has
  not returned.

  `SeesFull`: the step is the `full()` of a producer that finds the queue full while the
  task is running. In a run without such a step the law holds throughout; and where one is
  reachable, that producer returns next and the law is broken (`production_iff`).
-/

import LeapSyncFfh.Common.TaskScheduler

namespace LeapSyncFfh

open Emit

namespace TaskScheduler

variable {T : Type}

/-! ## The law -/

structure ProductionLaw (s : St T) : Prop where
  stopped : ∀ j : Nat, s.threads[j]? = some (Thread.Producer .ended) → s.running_ = false
  /-- Consumers of a running task that has producers do not wait for nobody. -/
  fed : s.running_ = true → ∀ (j : Nat) (pc : ProducerPc T), s.threads[j]? = some (Thread.Producer pc) →
    ∃ (k : Nat) (pc' : ProducerPc T), s.threads[k]? = some (Thread.Producer pc') ∧ (Thread.Producer pc').ended = false

/-- A producer's `full()` runs while the task is running and the queue is full. -/
structure SeesFull (s : St T) (a : Act T) (i : Nat) : Prop where
  called : ∃ r, .queue i .full r ∈ (step s a).out
  producer : s.threads[i]? = some (Thread.Producer .full)
  running : s.running_ = true
  full : s.blque_.shared.queue_.length = s.blque_.shared.maxSize_

def NotFull (s : St T) (a : Act T) : Prop := ∀ i, ¬ SeesFull s a i

/-! ## Without such a step -/

/-- A producer that has ended, or is about to because of `full()`, is of a stopped task. -/
def Stopped (running_ : Bool) (th : Thread T) (p : Phase T) : Prop :=
  (th = .Producer .ended → running_ = false) ∧
    (th = .Producer .full → p = .returned .full (.bool true) → running_ = false)

structure Producing (s : St T) : Prop where
  good : Good s
  stopped : ∀ j th p, Pair s j th p → Stopped s.running_ th p

theorem Producing.law {s : St T} (h : Producing s) : ProductionLaw s := by
  have stopped : ∀ j : Nat, s.threads[j]? = some (Thread.Producer .ended) → s.running_ = false := by
    intro j hj
    obtain ⟨hlt, -⟩ := List.getElem?_eq_some_iff.mp hj
    exact (h.stopped j _ _ ⟨hj, List.getElem?_eq_getElem (h.good.sized ▸ hlt)⟩).1 rfl
  refine ⟨stopped, fun hrun j pc hj => ⟨j, pc, hj, ?_⟩⟩
  cases pc with
  | ended => rw [stopped j hj] at hrun; cases hrun
  | _ => rfl

theorem next_stopped {th th' : Thread T} {running_ stopPred : Bool} (h : th.next running_ stopPred = some th')
    (he : th' = .Producer .ended) : running_ = false := by
  subst he
  cases th with
  | Producer pc =>
    cases pc with
    | check => cases running_ <;> first | rfl | cases h
    | stopPred => cases stopPred <;> cases h
    | _ => cases h
  | TrigProducer pc => cases pc <;> cases h
  | Consumer w pc => cases pc <;> cases h

/-- Returning from a method ends a producer only if `full()` said so. -/
theorem resume_stopped {th : Thread T} {op : Op T} {r : QueueRet T} (h : Matches th (.returned op r))
    (he : th.resume r = .Producer .ended) : th = .Producer .full ∧ op = .full ∧ r = .bool true := by
  cases th with
  | Producer pc =>
    cases pc with
    | full =>
      cases h.1
      cases r with
      | bool b => cases b with
        | true => exact ⟨rfl, rfl, rfl⟩
        | false => cases he
      | _ => cases he
    | put obj => cases r <;> cases he
    | _ => cases h.1
  | TrigProducer pc => cases pc <;> cases r <;> cases he
  | Consumer w pc => cases pc <;> cases r <;> cases he

theorem move_stopped {s t : St T} {j : Nat} {out : List (Ev T)} {th th' : Thread T} {p p' : Phase T}
    (h : Move s t j out th p th' p') (hm : Matches th p) (hs : Stopped s.running_ th p)
    (hrun : t.running_ = true → s.running_ = true)
    (hfull : ∀ r, .queue j .full r ∈ out → th = .Producer .full → s.running_ = true →
      s.blque_.shared.queue_.length ≠ s.blque_.shared.maxSize_) : Stopped t.running_ th' p' := by
  have off : s.running_ = false → t.running_ = false := by
    intro hoff
    cases ht : t.running_ with
    | false => rfl
    | true => rw [hrun ht] at hoff; cases hoff
  -- a thread that is in no method has not returned from one
  have free : th.op = none → p ≠ .returned .full (.bool true) := by
    intro hop hp
    rw [matches_idle hm hop] at hp; cases hp
  cases h with
  | same => exact ⟨fun h => off (hs.1 h), fun h h' => off (hs.2 h h')⟩
  | next stopPred _ _ _ h =>
    exact ⟨fun he => off (next_stopped h he), fun _ hp => absurd hp (free (next_op h))⟩
  | stopping _ _ _ h ht => exact ⟨fun _ => ht, fun _ _ => ht⟩
  | created obj _ _ _ h =>
    refine ⟨fun he => ?_, fun _ hp => absurd hp (free (created_op h))⟩
    subst he
    unfold Thread.created at h
    split at h <;> cases h
  | used obj _ _ _ h =>
    refine ⟨fun he => ?_, fun _ hp => absurd hp (free (using_op h))⟩
    subst he
    unfold Thread.using_ at h
    split at h <;> cases h
  | called => exact ⟨fun h => off (hs.1 h), fun _ hp => by cases hp⟩
  | woken _ _ _ h => cases h <;> exact ⟨fun h => off (hs.1 h), fun _ hp => by cases hp⟩
  | notified => exact ⟨fun h => off (hs.1 h), fun _ hp => by cases hp⟩
  | waits => exact ⟨fun h => off (hs.1 h), fun _ hp => by cases hp⟩
  | gaveUp _ _ op r he hb hr =>
    refine ⟨fun h => off (hs.1 h), fun _ hp => ?_⟩
    cases hp
    cases hr
  | done _ _ op late r n he hb =>
    refine ⟨fun h => off (hs.1 h), fun hth hp => ?_⟩
    cases hp
    simp only [BlockingBoundedQueue.body, Option.some.injEq, Prod.mk.injEq, QueueRet.bool.injEq,
      decide_eq_true_eq] at hb
    cases hrun' : s.running_ with
    | false => exact off hrun'
    | true => exact absurd hb.2.1 (hfull _ (List.mem_singleton_self _) hth hrun')
  | ret _ op r =>
    refine ⟨fun he => ?_, fun _ hp => by cases hp⟩
    obtain ⟨hth, rfl, rfl⟩ := resume_stopped hm he
    exact off (hs.2 hth rfl)

theorem producing_step {s : St T} (h : Producing s) {a : Act T} (ha : NotFull s a) : Producing (step s a).val := by
  refine ⟨good_step h.good a, fun j th' p' hp' => ?_⟩
  obtain ⟨th, p, hp, hm⟩ := pair_back h.good a hp'
  refine move_stopped hm (h.good.matched j th p hp) (h.stopped j th p hp) running_step fun r hr hth hrun hlen => ?_
  exact ha j ⟨⟨r, (List.mem_filter.mp hr).1⟩, by rw [hp.thread, hth], hrun, hlen⟩

theorem start_producing (maxSize : Nat) (roles : List Role) : Producing (start true maxSize roles : St T) := by
  refine ⟨start_good true maxSize roles, fun j th p hp => ?_⟩
  obtain ⟨role, -, rfl⟩ := List.mem_map.mp (List.mem_of_getElem? hp.thread)
  refine ⟨fun h => ?_, fun h => ?_⟩ <;> cases role <;> cases h

/-! ## After such a step -/

/-- A step with a queue operation in it leaves the flag alone. -/
theorem queue_running {s : St T} {a : Act T} {i : Nat} {op : Op T} {r : QueueRet T}
    (h : .queue i op r ∈ (step s a).out) : (step s a).val.running_ = s.running_ := by
  have hd := step_does s a
  generalize step s a = x at hd h
  cases hd with
  | goes k th th' out running_ hk hg =>
    cases hg with
    | stopping => cases h
    | _ => rfl
  | queue k b => rw [onQueue_eq]; rfl
  | stop => cases h
  | _ => rfl

/-- The producer that found the queue full returns next, and the task is still running. -/
theorem sees_full_ends {s : St T} (hs : Good s) {a : Act T} {i : Nat} (h : SeesFull s a i) :
    ¬ ProductionLaw (step (step s a).val (.ret i)).val := by
  obtain ⟨⟨r, hr⟩, hth, hrun, hlen⟩ := h
  obtain ⟨hlt, -⟩ := List.getElem?_eq_some_iff.mp hth
  obtain ⟨p, hph⟩ : ∃ p, s.blque_.threads[i]? = some p := ⟨_, List.getElem?_eq_getElem (hs.sized ▸ hlt)⟩
  have hp : Pair s i (Thread.Producer .full) p := ⟨hth, hph⟩
  obtain ⟨th', p', hp', hm⟩ := pair_step (a := a) hp
  have hmem : .queue i .full r ∈ (step s a).out.filter fun e => e.thread = i :=
    List.mem_filter.mpr ⟨hr, decide_eq_true rfl⟩
  -- the only move with this output is the section of `full()`
  have hend : th' = .Producer .full ∧ p' = .returned .full (.bool true) := by
    generalize (step s a).out.filter (fun e => e.thread = i) = out at hm hmem
    cases hm with
    | done _ _ op late r' n he hb =>
      cases List.mem_singleton.mp hmem
      simp only [BlockingBoundedQueue.body, Option.some.injEq, Prod.mk.injEq] at hb
      rw [← hb.2.1, decide_eq_true hlen]
      exact ⟨rfl, rfl⟩
    | gaveUp _ _ op r' he hb ht =>
      cases List.mem_singleton.mp hmem
      cases ht
    | used obj => cases List.mem_singleton.mp hmem
    | _ => cases hmem
  obtain ⟨rfl, rfl⟩ := hend
  intro hlaw
  rw [ret_eq hp'] at hlaw
  have hoff := hlaw.stopped i ((Monitor.set_get hp'.thread i).trans (if_pos rfl))
  rw [show (step s a).val.running_ = s.running_ from queue_running hr, hrun] at hoff
  cases hoff

/-! ## Over all schedules -/

theorem not_full_producing {s t : St T} (hs : Producing s) {acts : List (Act T)} (h : Along step NotFull s acts)
    (ht : (runs step s acts).res = .ok t) : Producing t :=
  (runs_sat step (c := NotFull) (p := fun _ => True) (I := Producing)
    (fun _ _ hi ha => ⟨fun _ _ => trivial, fun _ hu => step_val hu ▸ producing_step hi ha⟩) acts s hs h).2 t ht

/-- A started task keeps the law in every run in which no producer's `full()` sees the queue
    full while the task is running; and it keeps it in all runs exactly if there is no run
    in which one does. -/
theorem production_iff (maxSize : Nat) (roles : List Role) :
    (∀ acts : List (Act T), Along step NotFull (start true maxSize roles) acts →
      Throughout step (fun _ s => ProductionLaw s) (start true maxSize roles) acts) ∧
    ((∀ acts : List (Act T), Throughout step (fun _ s => ProductionLaw s) (start true maxSize roles) acts) ↔
      ∀ acts : List (Act T), Along step NotFull (start true maxSize roles) acts) := by
  have keeps : ∀ acts : List (Act T), Along step NotFull (start true maxSize roles) acts →
      Throughout step (fun _ s => ProductionLaw s) (start true maxSize roles) acts := fun acts h js hjs t ht =>
    (not_full_producing (start_producing maxSize roles) ( along_prefix step hjs h) ht).law
  refine ⟨keeps, fun h acts => ?_, fun h acts => keeps acts (h acts)⟩
  refine Classical.byContradiction fun hnot => ?_
  -- the first step of the run that sees the queue full, and then the return of that producer
  obtain ⟨js, a, ks, t, -, ht, halong, hbad⟩ := not_along step acts _ hnot
  have hprod := not_full_producing (start_producing maxSize roles) halong ht
  obtain ⟨i, hsees⟩ := Classical.not_forall.mp hbad
  refine sees_full_ends hprod.good (Classical.not_not.mp hsees) (h (js ++ [a, .ret i]) _ (List.prefix_refl _) _ ?_)
  rw [runs_append, bind_of_ok ht]
  simp only [runs]
  rw [bind_of_ok (res_val _), bind_of_ok (res_val _)]
  rfl

/-- With room for one object and no consumer ready, the producer puts its first object,
    finds the queue full and returns; the task is still running. -/
theorem a_full_queue_ends_production :
    ¬ Throughout step (fun _ s => ProductionLaw s) (start true 1 [.Producer, .Consumer 1000] : St Nat)
      [.run 0 false, .call 0, .enter 0 0, .ret 0, .run 0 false, .create 0 7, .call 0, .enter 0 0, .ret 0,
       .run 0 false, .call 0, .enter 0 0, .ret 0] := by
  intro h
  have := (h _ (List.prefix_refl _) _ rfl).stopped 0 rfl
  cases this

end TaskScheduler

end LeapSyncFfh
