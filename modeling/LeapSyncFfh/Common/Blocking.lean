/-
  LeapSyncFfh.Common.Blocking — the producer that `stop()` leaves behind.

  When every consumer has left and the queue is full, a producer in `put` waits for a
  notification that nobody is left to make (`Stranded`). With more producers than the queue
  has room for there is a schedule that comes to this: they all create an object while the
  queue is empty, the task is stopped, the consumers find the queue empty and leave, and the
  objects are put one by one. Otherwise the task can always be brought to its end
  (`stop_ends`), so these are the tasks that can hang (`blocked_iff`).
-/

import LeapSyncFfh.Common.Termination

namespace LeapSyncFfh

open Emit

namespace TaskScheduler

variable {T : Type}

/-! ## Without that room -/

/-- Thread `i` is in `put`, or about to call it. -/
def InPut (i : Nat) (s : St T) : Prop := ∃ th x, s.threads[i]? = some th ∧ th.op = some (.put x)

/-- Whatever happens, thread `i` stays in `put`. -/
def Blocked (s : St T) (i : Nat) : Prop := ∀ rest, InPut i (runs step s rest).val

/-- Every consumer has left, the queue is full, and thread `i` is to put an object. -/
structure Stranded (maxSize : Nat) (roles : List Role) (i : Nat) (s : St T) : Prop where
  live : Live maxSize roles s
  gone : ¬ Stays s
  full : maxSize ≤ s.blque_.shared.queue_.length
  put : ∃ th p x, Pair s i th p ∧ th.op = some (.put x) ∧ ∀ op r, p ≠ .returned op r

theorem full_put {q : BlockingBoundedQueue T} (hfull : q.maxSize_ ≤ q.queue_.length) (x : T) :
    BlockingBoundedQueue.body (.put x) q = none := if_neg (by omega)

theorem stranded_step {maxSize : Nat} {roles : List Role} {i : Nat} {s : St T} (h : Stranded maxSize roles i s) (a : Act T) :
    Stranded maxSize roles i (step s a).val := by
  obtain ⟨hlive, hgone, hfull, th, p, x, hp, hop, hret⟩ := h
  have hblocked : ∀ y, BlockingBoundedQueue.body (.put y) s.blque_.shared = none := full_put (hlive.queue.maxSize_ ▸ hfull)
  refine ⟨live_step hlive a, fun hs => hgone (stayed_step hlive.good a hs), ?_, ?_⟩
  · rcases queue_step s a with ⟨hq, -⟩ | ⟨k, op, r, hsec⟩
    · rw [hq]
      exact hfull
    · obtain ⟨n, hb⟩ := hsec.body
      rcases section_cases hlive.good hsec with ⟨⟨e, he, hput⟩, -⟩ | ⟨-, -, hs⟩ | ⟨-, hq⟩
      · rw [hsec.out] at he
        rw [List.mem_singleton.mp he] at hput
        cases op with
        | put y => rw [hblocked y] at hb; cases hb
        | _ => exact absurd rfl hput
      · exact absurd hs hgone
      · rw [hq]
        exact hfull
  · obtain ⟨th', p', hp', hm⟩ := pair_step (a := a) hp
    have hmatch := hlive.good.matched i th p hp
    have entering : ∀ {op late}, p.entering = some (op, late) → op = .put x := fun he =>
      Option.some.inj ((matches_entering hmatch he).symm.trans hop)
    generalize (step s a).out.filter (fun e => e.thread = i) = out at hm
    cases hm with
    | same => exact ⟨th, p, x, hp', hop, hret⟩
    | next stopPred _ _ _ h => cases (next_op h).symm.trans hop
    | stopping _ _ _ h => cases (stopping_op h).symm.trans hop
    | created obj _ _ _ h => cases (created_op h).symm.trans hop
    | used obj _ _ _ h => cases (using_op h).symm.trans hop
    | called _ op h => exact ⟨th, _, x, hp', hop, nofun⟩
    | woken _ _ _ h => cases h <;> exact ⟨th, _, x, hp', hop, nofun⟩
    | notified _ op => exact ⟨th, _, x, hp', hop, nofun⟩
    | waits _ _ op late he => exact ⟨th, _, x, hp', hop, nofun⟩
    | done _ _ op late r n he hb =>
      obtain rfl := entering he
      rw [hblocked x] at hb
      cases hb
    | gaveUp _ _ op r he hb hr =>
      obtain rfl := entering he
      cases hr
    | ret _ op r => exact absurd rfl (hret op r)

theorem stranded_blocked {maxSize : Nat} {roles : List Role} {i : Nat} {s : St T} (h : Stranded maxSize roles i s) :
    Blocked s i := by
  intro rest
  obtain ⟨-, -, -, th, p, x, hp, hop, -⟩ :=
    runs_inv step (fun _ a _ h ht => step_val ht ▸ stranded_step h a) h (res_val (runs step s rest))
  exact ⟨th, x, hp.thread, hop⟩

/-! ## The schedule -/

/-- The threads `ts` stand outside the queue `q`. -/
def calm (running_ : Bool) (q : BlockingBoundedQueue T) (ts : List (Thread T)) : St T :=
  ⟨running_, ⟨q, List.replicate ts.length .idle⟩, ts⟩

variable {running_ : Bool} {q : BlockingBoundedQueue T} {pre post : List (Thread T)} {th th' : Thread T}

theorem middle_get (pre : List (Thread T)) (th : Thread T) (post : List (Thread T)) :
    (pre ++ th :: post)[pre.length]? = some th := by simp

theorem calm_set (th' : Thread T) : { calm running_ q (pre ++ th :: post) with
    threads := (pre ++ th :: post).set pre.length th' } = calm running_ q (pre ++ th' :: post) := by
  simp [calm]

theorem calm_next (stopPred : Bool) (h : th.next running_ stopPred = some th') :
    Reaches step (calm running_ q (pre ++ th :: post)) (calm running_ q (pre ++ th' :: post)) := by
  refine .head (i := .run pre.length stopPred) ?_ (.refl _)
  simp only [step, calm, middle_get, h]
  exact congrArg Except.ok (calm_set th')

theorem calm_create {obj : T} (h : th.created obj = some th') :
    Reaches step (calm running_ q (pre ++ th :: post)) (calm running_ q (pre ++ th' :: post)) := by
  refine .head (i := .create pre.length obj) ?_ (.refl _)
  simp only [step, calm, middle_get, Option.bind_some, h]
  exact congrArg Except.ok (calm_set th')

/-- Nobody waits, so nobody is notified. -/
theorem notify_nobody {ps : List (Phase T)} (h : ∀ op, .waiting op ∉ ps) (n : Option QueueCv) (wake : Nat) :
    BlockingBoundedQueue.monitor.notify n wake ps = ps := by
  cases n with
  | none => rfl
  | some c =>
    rcases BlockingBoundedQueue.monitor.notifyOne_cases c wake ps with ⟨-, heq⟩ | ⟨j, op, hj, -, -⟩
    · exact heq
    · exact absurd (List.mem_of_getElem? hj) (h op)

/-- A method called while nobody is in one. -/
theorem calm_call (th : Thread T) {op : Op T} {t : BlockingBoundedQueue T} {r : QueueRet T} {n : Option QueueCv} (hop : th.op = some op)
    (hb : BlockingBoundedQueue.body op q = some (t, r, n)) :
    Reaches step (calm running_ q (pre ++ th :: post)) (calm running_ t (pre ++ th.resume r :: post)) := by
  -- the thread in its method, the others outside the queue
  let at_ (q : BlockingBoundedQueue T) (p : Phase T) : St T :=
    ⟨running_, ⟨q, (List.replicate (pre ++ th :: post).length .idle).set pre.length p⟩, pre ++ th :: post⟩
  have hidle : (List.replicate (pre ++ th :: post).length (.idle : Phase T))[pre.length]? = some .idle := by simp
  have hphase : ∀ q p, (at_ q p).blque_.threads[pre.length]? = some p := fun q p => set_at hidle p
  have hquiet : ∀ op', .waiting op' ∉ (at_ t (.returned op r)).blque_.threads := by
    intro op' h
    rcases List.mem_or_eq_of_mem_set h with h | h
    · cases List.eq_of_mem_replicate h
    · cases h
  have hcall : (step (calm running_ q (pre ++ th :: post)) (.call pre.length)).res = .ok (at_ q (.ready op false)) := by
    simp only [step, calm, middle_get, Option.bind_some, hop, onQueue_eq, Monitor.step, hidle]
    rfl
  have henter : (step (at_ q (.ready op false)) (.enter pre.length 0)).res = .ok (at_ t (.returned op r)) := by
    have hsection : BlockingBoundedQueue.monitor.step (at_ q (.ready op false)).blque_ (.enter pre.length 0) =
        ⟨[(op, r)], .ok (at_ t (.returned op r)).blque_⟩ := by
      have hb' : BlockingBoundedQueue.monitor.body op (at_ q (.ready op false)).blque_.shared = some (t, r, n) := hb
      simp only [Monitor.step, hphase, Option.bind_some, Monitor.Phase.entering, Monitor.section_, hb']
      rw [show (at_ q (.ready op false)).blque_.threads.set pre.length (.returned op r) =
        (at_ t (.returned op r)).blque_.threads from List.set_set .., notify_nobody hquiet]
      rfl
    show (onQueue _ _ _).res = _
    rw [onQueue_eq, hsection]
    rfl
  have hret : (step (at_ t (.returned op r)) (.ret pre.length)).res = .ok (calm running_ t (pre ++ th.resume r :: post)) := by
    rw [ret_eq ⟨middle_get pre th post, hphase t (.returned op r)⟩]
    simp [at_, calm]
  exact .head hcall (.head henter (.head hret (.refl _)))

/-- A schedule for each thread in turn is one for all. -/
theorem calm_sweep {f g : Role → Thread T}
    (h : ∀ pre role post, Reaches step (calm running_ q (pre ++ f role :: post)) (calm running_ q (pre ++ g role :: post)))
    (pre : List (Thread T)) (roles : List Role) :
    Reaches step (calm running_ q (pre ++ roles.map f)) (calm running_ q (pre ++ roles.map g)) := by
  induction roles generalizing pre with
  | nil => exact .refl _
  | cons role roles ih =>
    have hrest := ih (pre ++ [g role])
    simp only [List.append_assoc, List.singleton_append] at hrest
    exact (h pre role (roles.map f)).trans hrest

/-- A producer that has passed its checks. -/
def armed : Role → Thread T
  | .Producer => .Producer .create
  | .TrigProducer => .TrigProducer .create
  | .Consumer w => .Consumer w .check

/-- The producers as before, and the consumers have left. -/
def deserted : Role → Thread T
  | .Consumer w => .Consumer w .ended
  | role => armed role

theorem start_armed {maxSize : Nat} (hmax : 1 ≤ maxSize) (roles : List Role) :
    Reaches step (start true maxSize roles : St T) (calm true { maxSize_ := maxSize } (roles.map armed)) := by
  have hstart : (start true maxSize roles : St T) = calm true { maxSize_ := maxSize } ([] ++ roles.map Role.start) := by
    simp [start, calm, Monitor.St.start]
  rw [hstart]
  refine calm_sweep (fun pre role post => ?_) [] roles
  have hfull : BlockingBoundedQueue.body .full ({ maxSize_ := maxSize } : BlockingBoundedQueue T) =
      some ({ maxSize_ := maxSize }, .bool false, none) := by
    simp only [BlockingBoundedQueue.body, List.length_nil, Option.some.injEq, Prod.mk.injEq, QueueRet.bool.injEq,
      decide_eq_false_iff_not, true_and, and_true]
    omega
  cases role with
  | Producer =>
    exact ((calm_next false rfl).trans (calm_call (.Producer .full) rfl hfull)).trans
      (calm_next false rfl)
  | TrigProducer => exact (calm_next false rfl).trans (calm_call (.TrigProducer .full) rfl hfull)
  | Consumer w => exact .refl _

theorem armed_deserted {maxSize : Nat} (roles : List Role) :
    Reaches step (calm true { maxSize_ := maxSize } (roles.map armed) : St T)
      (calm false { maxSize_ := maxSize } (roles.map deserted)) := by
  refine .head (i := .stop) (t := calm false { maxSize_ := maxSize } ([] ++ roles.map armed)) rfl ?_
  refine calm_sweep (fun pre role post => ?_) [] roles
  cases role with
  | Consumer w => exact (calm_next false rfl).trans (calm_call (.Consumer w .empty) rfl rfl)
  | _ => exact .refl _

theorem calm_gone {ts : List (Thread T)} (hts : ∀ th ∈ ts, th.loops = false) : ¬ Stays (calm running_ q ts) := by
  rintro ⟨j, th, p, hp, hstay⟩
  exact absurd hstay.loops (by rw [hts th (List.mem_of_getElem? hp.thread)]; exact Bool.false_ne_true)

/-- The producers put their objects in turn; the first that finds the queue full is left. -/
theorem deserted_stranded [Inhabited T] (pre : List (Thread T)) (roles : List Role) {q : BlockingBoundedQueue T}
    (hpre : ∀ th ∈ pre, th.loops = false) (hle : q.queue_.length ≤ q.maxSize_)
    (hmore : q.maxSize_ < q.queue_.length + producers roles) :
    ∃ i t, Reaches step (calm false q (pre ++ roles.map deserted)) t ∧ ¬ Stays t ∧
      t.blque_.shared.maxSize_ = q.maxSize_ ∧ q.maxSize_ ≤ t.blque_.shared.queue_.length ∧
      ∃ th x, Pair t i th .idle ∧ th.op = some (.put x) := by
  induction roles generalizing pre q with
  | nil => simp [producers] at hmore; omega
  | cons role roles ih =>
    have cons : ∀ {th : Thread T}, th.loops = false → ∀ th' ∈ pre ++ [th], th'.loops = false := by
      intro th hth th' h
      rcases List.mem_append.mp h with h | h
      · exact hpre th' h
      · rw [List.mem_singleton.mp h]
        exact hth
    -- a producer at `create`: it puts its object, or is left with it
    have produce : ∀ {th th' : Thread T}, th.created default = some th' → th'.op = some (.put default) →
        th'.loops = false → (th'.resume .done).loops = false → q.maxSize_ < q.queue_.length + (producers roles + 1) →
        ∃ i t, Reaches step (calm false q (pre ++ th :: roles.map deserted)) t ∧ ¬ Stays t ∧
          t.blque_.shared.maxSize_ = q.maxSize_ ∧ q.maxSize_ ≤ t.blque_.shared.queue_.length ∧
          ∃ th x, Pair t i th .idle ∧ th.op = some (.put x) := by
      intro th th' hc hop hl hl' hmore
      by_cases hfull : q.queue_.length < q.maxSize_
      · have hput : Reaches step (calm false q (pre ++ th' :: roles.map deserted))
            (calm false { q with queue_ := q.queue_ ++ [default] } (pre ++ th'.resume .done :: roles.map deserted)) :=
          calm_call th' hop (if_pos hfull)
        obtain ⟨i, t, ht, hrest⟩ := ih (pre ++ [th'.resume .done])
          (q := { q with queue_ := q.queue_ ++ [default] }) (cons hl') (by simp; omega) (by simp; omega)
        simp only [List.append_assoc, List.singleton_append] at ht
        exact ⟨i, t, ((calm_create hc).trans hput).trans ht, hrest⟩
      · refine ⟨pre.length, _, calm_create hc, calm_gone ?_, rfl, by show _ ≤ q.queue_.length; omega, th', default, ⟨?_, ?_⟩, hop⟩
        · intro th₁ h
          rcases List.mem_append.mp h with h | h
          · exact hpre th₁ h
          · rcases List.mem_cons.mp h with rfl | h
            · exact hl
            · obtain ⟨role', -, rfl⟩ := List.mem_map.mp h
              cases role' <;> rfl
        · exact middle_get pre th' _
        · simp [calm]
    cases role with
    | Producer => exact produce rfl rfl rfl rfl (by rwa [producers, List.countP_cons_of_pos rfl] at hmore)
    | TrigProducer => exact produce rfl rfl rfl rfl (by rwa [producers, List.countP_cons_of_pos rfl] at hmore)
    | Consumer w =>
      obtain ⟨i, t, ht, hrest⟩ := ih (pre ++ [.Consumer w .ended]) (q := q) (cons rfl) hle
        (by simpa [producers, Role.produces] using hmore)
      simp only [List.append_assoc, List.singleton_append] at ht
      exact ⟨i, t, ht, hrest⟩

/-- With that room, a task that is stopped can be brought to its end from any state. -/
theorem stop_ends [Inhabited T] (running_ : Bool) {maxSize : Nat} {roles : List Role} {w : Int}
    (hw : Role.Consumer w ∈ roles) (hfit : producers roles ≤ maxSize) (acts : List (Act T)) :
    ∃ rest, AllEnded (runs step (start running_ maxSize roles) (acts ++ rest)).val := by
  have hranked : Ranked (step (T := T)) (fun s a => Effective s a ∧ credit a = 0)
      (fun s => Off maxSize roles s ∧ Room roles s) rank fun _ => 0 :=
    ⟨fun _ a _ h _ ht => step_val ht ▸ ⟨off_step h.1 a, room_step h.1.1 hw h.2 a⟩, fun _ _ _ h ha ht =>
      ha.2 ▸ step_val ht ▸ stopped_step h.1.1 h.1.2 ha.1⟩
  have hlive := run_live (T := T) running_ maxSize roles acts
  have hoff : Off maxSize roles (step (runs step (start running_ maxSize roles : St T) acts).val .stop).val :=
    ⟨live_step hlive .stop, rfl⟩
  obtain ⟨rest, t, ht, -, hkept, hstuck⟩ := hranked.settles (fun _ _ _ => ⟨_, res_val _⟩)
    ⟨hoff, room_step hlive hw (run_room hw acts) .stop⟩
  refine ⟨.stop :: rest, ?_⟩
  have hrun : (runs step (start running_ maxSize roles : St T) (acts ++ .stop :: rest)).res = .ok t := by
    rw [runs_append, bind_of_ok (res_val _), runs, bind_of_ok (res_val _)]
    exact ht
  rw [← Except.ok.inj (hrun.symm.trans (res_val _))]
  by_contra hnot
  obtain ⟨a, ha⟩ := room_moves hkept.1.1 hkept.2 hfit hnot
  exact hstuck a ha

/-- A started task with a consumer can be left with a producer that never returns from `put`
    exactly if it has more producers than its queue has room. -/
theorem blocked_iff [Inhabited T] {maxSize : Nat} (hmax : 1 ≤ maxSize) {roles : List Role} {w : Int}
    (hw : Role.Consumer w ∈ roles) :
    (∃ (acts : List (Act T)) (i : Nat), Blocked (runs step (start true maxSize roles) acts).val i) ↔
      maxSize < producers roles := by
  constructor
  · rintro ⟨acts, i, hblocked⟩
    by_contra hfit
    obtain ⟨rest, hend⟩ := stop_ends (T := T) true hw (Nat.not_lt.mp hfit) acts
    obtain ⟨th, x, hth, hop⟩ := hblocked rest
    have hrun : (runs step (runs step (start true maxSize roles : St T) acts).val rest).val =
        (runs step (start true maxSize roles) (acts ++ rest)).val := by
      refine Except.ok.inj (Eq.trans (res_val _).symm (Eq.trans ?_ (res_val _)))
      rw [runs_append, bind_of_ok (res_val (runs step (start true maxSize roles : St T) acts))]
    rw [hrun] at hth
    have := hend th (List.mem_of_getElem? hth)
    rw [ended_of_op hop] at this
    cases this
  · intro hmore
    obtain ⟨i, t, ht, hgone, -, hfull, th, x, hp, hop⟩ := deserted_stranded (T := T) [] roles
      (q := { maxSize_ := maxSize }) nofun (Nat.zero_le _) (by simpa using hmore)
    obtain ⟨acts, hacts⟩ := ((start_armed hmax roles).trans (armed_deserted roles)).trans ht
    obtain rfl := Except.ok.inj (hacts.symm.trans (res_val _))
    exact ⟨acts, i, stranded_blocked ⟨run_live true maxSize roles acts, hgone, hfull, th, .idle, x, hp, hop, nofun⟩⟩

/-- Two producers that have found the queue of one not full: one of them can stay in `put`. -/
theorem two_producers_one_slot :
    ∃ (acts : List (Act Nat)) (i : Nat),
      Blocked (runs step (start true 1 [.Producer, .Producer, .Consumer 1000]) acts).val i :=
  (blocked_iff (Nat.le_refl 1) (w := 1000) (by simp)).mpr (by decide)

end TaskScheduler

end LeapSyncFfh
