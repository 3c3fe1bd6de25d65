/-
  LeapSyncFfh.Common.Shutdown — what becomes of the objects when all threads have returned
  from `run()`.

  Each thread has what it took and has not used (`held`), so what was taken is what was used
  once no thread holds anything; and what was taken, then what is queued, is what was put
  (`fifo`). So an object is lost exactly when it stays in the queue.

  A consumer leaves its loop when it reads `running_` as false and then finds the queue
  empty. A producer that has passed its own check puts its object all the same. `Attended`:
  no object is put once every consumer has found the queue empty for the last time or has
  ended. A queued object has a consumer that will look again as long as that is so
  (`kept_step`), and none for ever after it was not (`lost_step`).
-/

import LeapSyncFfh.Common.TaskScheduler
import Mathlib.Data.List.Perm.Basic
import Mathlib.Data.List.Count

namespace LeapSyncFfh

open Emit

namespace TaskScheduler

variable {T : Type}

/-! ## From the queue to its users -/

/-- What thread `j` has taken and not yet used. -/
def held (j : Nat) (th : Thread T) (p : Phase T) : List (Nat × T) :=
  ((match p with
    | .returned _ r => r.value?
    | _ => th.using_.map Prod.fst).map fun x => (j, x)).toList

theorem held_using (j : Nat) (th : Thread T) {p : Phase T} (hp : ∀ op r, p ≠ .returned op r) :
    held j th p = ((th.using_.map Prod.fst).map fun x => (j, x)).toList := by
  unfold held
  split
  · exact absurd rfl (hp _ _)
  · rfl

theorem held_in (j : Nat) {th : Thread T} {op : Op T} (h : th.op = some op) {p : Phase T}
    (hp : ∀ op r, p ≠ .returned op r) : held j th p = [] := by
  rw [held_using j th hp]
  cases hu : th.using_ with
  | none => rfl
  | some u => cases h.symm.trans (using_op (show th.using_ = some (u.1, u.2) from hu))

theorem entering_not_returned {p : Phase T} {op : Op T} {late : Bool} (h : p.entering = some (op, late)) :
    ∀ op r, p ≠ .returned op r := by
  rintro op r rfl
  cases h

theorem next_using {th th' : Thread T} {running_ stopPred : Bool} (h : th.next running_ stopPred = some th') :
    th.using_ = none ∧ th'.using_ = none := by
  unfold Thread.next at h
  split at h
  · cases h; cases running_ <;> exact ⟨rfl, rfl⟩
  · cases h; cases stopPred <;> exact ⟨rfl, rfl⟩
  · cases h; cases running_ <;> exact ⟨rfl, rfl⟩
  · cases h; cases stopPred <;> exact ⟨rfl, rfl⟩
  · cases h; cases running_ <;> exact ⟨rfl, rfl⟩
  · cases h

theorem stopping_using {th th' : Thread T} (h : th.stopping = some th') : th.using_ = none ∧ th'.using_ = none := by
  unfold Thread.stopping at h
  split at h <;> first | cases h; exact ⟨rfl, rfl⟩ | cases h

theorem created_using {th th' : Thread T} {obj : T} (h : th.created obj = some th') :
    th.using_ = none ∧ th'.using_ = none := by
  unfold Thread.created at h
  split at h <;> first | cases h; exact ⟨rfl, rfl⟩ | cases h

/-- What a consumer took is what it is about to use. -/
theorem resume_using {th : Thread T} {op : Op T} {r : QueueRet T} (h : Matches th (.returned op r)) :
    (th.resume r).using_.map Prod.fst = r.value? := by
  obtain ⟨hop, hv⟩ := h
  have none_taken : BlockingBoundedQueue.waitsOn op ≠ some .m_notEmptyCv_ → r.value? = none := by
    intro hw
    by_contra hne
    exact hw (hv hne)
  cases th with
  | Producer pc =>
    cases pc with
    | full => cases hop; rw [none_taken nofun]; cases r with | bool b => cases b <;> rfl | _ => rfl
    | put obj => cases hop; rw [none_taken nofun]; cases r <;> rfl
    | _ => cases hop
  | TrigProducer pc =>
    cases pc with
    | full => cases hop; rw [none_taken nofun]; cases r with | bool b => cases b <;> rfl | _ => rfl
    | put obj => cases hop; rw [none_taken nofun]; cases r <;> rfl
    | _ => cases hop
  | Consumer w pc =>
    cases pc with
    | empty => cases hop; rw [none_taken nofun]; cases r with | bool b => cases b <;> rfl | _ => rfl
    | take => cases r <;> rfl
    | _ => cases hop

/-- What a thread had and took is what it used and has. -/
theorem move_carries {s t : St T} {j : Nat} {out : List (Ev T)} {th th' : Thread T} {p p' : Phase T}
    (h : Move s t j out th p th' p') (hm : Matches th p) :
    held j th p ++ out.filterMap takenBy = out.filterMap usedBy ++ held j th' p' := by
  have idle : th.op = none → ∀ op r, p ≠ .returned op r := by
    intro hop op r hp
    have := matches_idle hm hop
    rw [this] at hp; cases hp
  have free : th.op = none → th.using_ = none ∧ th'.using_ = none → held j th p = held j th' p := by
    intro hop hu
    rw [held_using j th (idle hop), held_using j th' (idle hop), hu.1, hu.2]
  cases h with
  | same => simp
  | next stopPred _ _ _ h => simpa using free (next_op h) (next_using h)
  | stopping _ _ _ h => simpa using free (stopping_op h) (stopping_using h)
  | created obj _ _ _ h => simpa using free (created_op h) (created_using h)
  | used obj _ _ _ h =>
    rw [held_using j th (idle (using_op h)), held_using j th' (idle (using_op h)), h]
    unfold Thread.using_ at h
    split at h
    · cases h; rfl
    · cases h
  | called _ op h =>
    rw [held_in j (p := .idle) h fun _ _ => nofun, held_in j (p := .ready op false) h fun _ _ => nofun]; rfl
  | woken _ _ _ h => cases h <;> simp [held]
  | notified => simp [held]
  | waits _ _ op late he =>
    have hop := matches_entering hm he
    rw [held_in j hop (entering_not_returned he), held_in j (p := .waiting op) hop fun _ _ => nofun]; rfl
  | done _ _ op late r n he hb =>
    rw [held_in j (matches_entering hm he) (entering_not_returned he)]
    cases hr : r.value? <;> simp [held, takenBy, usedBy, hr]
  | gaveUp _ _ op r he hb hr =>
    rw [held_in j (matches_entering hm he) (entering_not_returned he)]
    cases hv : r.value? <;> simp [held, takenBy, usedBy, hv]
  | ret _ op r =>
    rw [held_using j (th.resume r) (p := .idle) fun _ _ => nofun, resume_using hm]
    simp [held]

theorem onQueue_thread {s : St T} (hs : Good s) {i : Nat} {a : Monitor.Act (Op T)} (ha : a.thread = i) :
    ∀ e ∈ (onQueue s i a).out, e.thread < s.threads.length := by
  intro e he
  rw [onQueue_eq] at he
  obtain ⟨d, hd, rfl⟩ := List.mem_map.mp he
  have := BlockingBoundedQueue.monitor.ended_thread s.blque_ a (List.ne_nil_of_mem hd)
  rw [ha, hs.sized] at this
  exact this

theorem out_thread {s : St T} (hs : Good s) (a : Act T) : ∀ e ∈ (step s a).out, e.thread < s.threads.length := by
  have hd := step_does s a
  generalize step s a = x at hd
  cases hd with
  | goes i th th' out running_ hi h =>
    intro e he
    rw [h.thread e he]
    exact (List.getElem?_eq_some_iff.mp hi).1
  | queue i b hb => exact onQueue_thread hs hb
  | _ => exact fun e he => (List.not_mem_nil he).elim

/-- The objects so far: those taken out, then those queued, are those put in; and what each
    thread took is what it used and what it has. -/
structure Flow (tr : List (Ev T)) (s : St T) : Prop where
  good : Good s
  fifo : (tr.filterMap takenBy).map Prod.snd ++ s.blque_.shared.queue_ = tr.filterMap putBy
  carried : ∀ j th p, Pair s j th p → (tr.filter fun e => e.thread = j).filterMap takenBy =
    (tr.filter fun e => e.thread = j).filterMap usedBy ++ held j th p
  threads : ∀ e ∈ tr, e.thread < s.threads.length

theorem flow_step {tr : List (Ev T)} {s : St T} (h : Flow tr s) (a : Act T) :
    Flow (tr ++ (step s a).out) (step s a).val := by
  refine ⟨good_step h.good a, ?_, fun j th' p' hp' => ?_, fun e he => ?_⟩
  · rw [List.filterMap_append, List.filterMap_append, List.map_append, ← h.fifo]
    rcases queue_step s a with ⟨hq, hout⟩ | ⟨i, op, r, hout, -, n, hb⟩
    · rw [List.filterMap_eq_nil_iff.mpr fun e he => (hout e he).1, List.filterMap_eq_nil_iff.mpr fun e he => (hout e he).2,
        hq]
      simp
    · have htaken : ([Ev.queue i op r].filterMap takenBy).map Prod.snd = r.value?.toList := by
        cases hr : r.value? <;> simp [takenBy, hr]
      have hput : [Ev.queue i op r].filterMap putBy = (BlockingBoundedQueue.puts op).toList := by
        cases hp : BlockingBoundedQueue.puts op <;> simp [putBy, hp]
      rw [hout, htaken, hput, List.append_assoc, List.append_assoc, BlockingBoundedQueue.fifo.section_ op _ _ r n hb]
  · obtain ⟨th, p, hp, hm⟩ := pair_back h.good a hp'
    have hc := move_carries hm (h.good.matched j th p hp)
    rw [List.filter_append, List.filterMap_append, List.filterMap_append, h.carried j th p hp, List.append_assoc, hc,
      List.append_assoc]
  · rw [(step_lengths s a).1]
    rcases List.mem_append.mp he with he | he
    · exact h.threads e he
    · exact out_thread h.good a e he

theorem start_flow (running_ : Bool) (maxSize : Nat) (roles : List Role) :
    Flow [] (start running_ maxSize roles : St T) := by
  refine ⟨start_good running_ maxSize roles, rfl, fun j th p hp => ?_, fun e he => (List.not_mem_nil he).elim⟩
  have hth := List.mem_of_getElem? hp.thread
  obtain ⟨role, -, rfl⟩ := List.mem_map.mp hth
  rw [List.eq_of_mem_replicate (List.mem_of_getElem? hp.phase), held_using j _ (p := .idle) fun _ _ => nofun]
  cases role <;> rfl

/-- Equal lists for each thread make a permutation of the whole. -/
theorem perm_of_threads {α : Type} {f g : Ev T → Option (Nat × α)} {tr : List (Ev T)}
    (hf : ∀ e j x, f e = some (j, x) → e.thread = j) (hg : ∀ e j x, g e = some (j, x) → e.thread = j)
    (h : ∀ j, (tr.filter fun e => e.thread = j).filterMap f = (tr.filter fun e => e.thread = j).filterMap g) :
    (tr.filterMap f).Perm (tr.filterMap g) := by
  classical
  have count : ∀ {k : Ev T → Option (Nat × α)}, (∀ e j x, k e = some (j, x) → e.thread = j) → ∀ (j : Nat) (x : α)
      (l : List (Ev T)), ((l.filter fun e => e.thread = j).filterMap k).count (j, x) = (l.filterMap k).count (j, x) := by
    intro k hk j x l
    induction l with
    | nil => rfl
    | cons e l ih =>
      by_cases he : e.thread = j
      · rw [List.filter_cons_of_pos (by simpa using he)]
        cases hke : k e with
        | none => rw [List.filterMap_cons_none hke, List.filterMap_cons_none hke, ih]
        | some v => rw [List.filterMap_cons_some hke, List.filterMap_cons_some hke, List.count_cons, List.count_cons, ih]
      · rw [List.filter_cons_of_neg (by simpa using he), ih]
        cases hke : k e with
        | none => rw [List.filterMap_cons_none hke]
        | some v =>
          have hne : v ≠ (j, x) := fun hv => he (hk e j x (by rw [hke, hv]))
          rw [List.filterMap_cons_some hke, List.count_cons_of_ne hne]
  rw [List.perm_iff_count]
  rintro ⟨j, x⟩
  rw [← count hf j x tr, ← count hg j x tr, h j]

/-! ## The consumers that will look again -/

/-- A consumer that has not ended. -/
def Thread.loops : Thread T → Bool
  | .Consumer _ .ended => false
  | .Consumer _ _ => true
  | _ => false

/-- The consumer has not found the queue empty for the last time. -/
structure Staying (th : Thread T) (p : Phase T) : Prop where
  loops : th.loops = true
  looks : p ≠ .returned .empty (.bool true)

def Stays (s : St T) : Prop := ∃ j th p, Pair s j th p ∧ Staying th p

/-- A put only while some consumer will look again. -/
def Attended (s : St T) (a : Act T) : Prop := (∃ e ∈ (step s a).out, putBy e ≠ none) → Stays s

theorem next_loops {th th' : Thread T} {running_ stopPred : Bool} (h : th.next running_ stopPred = some th') :
    th'.loops = th.loops := by
  unfold Thread.next at h
  split at h
  · cases h; rfl
  · cases h; rfl
  · cases h; rfl
  · cases h; rfl
  · cases h; cases running_ <;> rfl
  · cases h

theorem stopping_loops {th th' : Thread T} (h : th.stopping = some th') : th'.loops = th.loops := by
  unfold Thread.stopping at h
  split at h <;> first | cases h; rfl | cases h

theorem created_loops {th th' : Thread T} {obj : T} (h : th.created obj = some th') : th'.loops = th.loops := by
  unfold Thread.created at h
  split at h <;> first | cases h; rfl | cases h

theorem using_loops {th th' : Thread T} {obj : T} (h : th.using_ = some (obj, th')) : th'.loops = th.loops := by
  unfold Thread.using_ at h
  split at h <;> first | cases h; rfl | cases h

/-- A method that returns lets a consumer go on, unless it said that the queue is empty. -/
theorem resume_loops {th : Thread T} {op : Op T} {r : QueueRet T} (h : Matches th (.returned op r)) :
    (th.resume r).loops = true ↔ Staying th (.returned op r) := by
  cases th with
  | Consumer w pc =>
    cases pc with
    | empty =>
      cases h.1
      cases r with
      | bool b =>
        cases b with
        | false => exact ⟨fun _ => ⟨rfl, nofun⟩, fun _ => rfl⟩
        | true => exact ⟨fun h => (by cases h), fun h => absurd rfl h.looks⟩
      | _ => exact ⟨fun _ => ⟨rfl, nofun⟩, fun _ => rfl⟩
    | take =>
      cases h.1
      exact ⟨fun _ => ⟨rfl, nofun⟩, fun _ => by cases r <;> rfl⟩
    | _ => cases h.1
  | Producer pc =>
    refine ⟨fun hl => ?_, fun hs => by cases hs.loops⟩
    cases pc <;> cases r <;> cases hl
  | TrigProducer pc =>
    refine ⟨fun hl => ?_, fun hs => by cases hs.loops⟩
    cases pc <;> cases r <;> cases hl

/-- A consumer stops looking only by finding the queue empty. -/
theorem move_stays {s t : St T} {j : Nat} {out : List (Ev T)} {th th' : Thread T} {p p' : Phase T}
    (h : Move s t j out th p th' p') (hm : Matches th p) (hs : Staying th p) :
    Staying th' p' ∨ t.blque_.shared.queue_ = [] := by
  cases h with
  | same => exact Or.inl hs
  | next stopPred _ _ _ h => exact Or.inl ⟨(next_loops h).trans hs.loops, hs.looks⟩
  | stopping _ _ _ h => exact Or.inl ⟨(stopping_loops h).trans hs.loops, hs.looks⟩
  | created obj _ _ _ h => exact Or.inl ⟨(created_loops h).trans hs.loops, hs.looks⟩
  | used obj _ _ _ h => exact Or.inl ⟨(using_loops h).trans hs.loops, hs.looks⟩
  | called => exact Or.inl ⟨hs.loops, fun e => by cases e⟩
  | woken _ _ _ h => cases h <;> exact Or.inl ⟨hs.loops, fun e => by cases e⟩
  | notified => exact Or.inl ⟨hs.loops, fun e => by cases e⟩
  | waits => exact Or.inl ⟨hs.loops, fun e => by cases e⟩
  | done _ _ op late r n he hb =>
    by_cases hempty : op = .empty ∧ r = .bool true
    · obtain ⟨rfl, rfl⟩ := hempty
      simp only [BlockingBoundedQueue.body, Option.some.injEq, Prod.mk.injEq, QueueRet.bool.injEq,
        List.isEmpty_iff] at hb
      exact Or.inr (hb.1 ▸ hb.2.1)
    · exact Or.inl ⟨hs.loops, fun h => hempty (by cases h; exact ⟨rfl, rfl⟩)⟩
  | gaveUp _ _ op r he hb hr =>
    refine Or.inl ⟨hs.loops, ?_⟩
    rintro h
    cases h
    cases hr
  | ret _ op r => exact Or.inl ⟨(resume_loops hm).mpr hs, fun e => by cases e⟩

/-- Nor does one that has stopped looking start again. -/
theorem move_stayed {s t : St T} {j : Nat} {out : List (Ev T)} {th th' : Thread T} {p p' : Phase T}
    (h : Move s t j out th p th' p') (hm : Matches th p) (hs : Staying th' p') : Staying th p := by
  cases h with
  | same => exact hs
  | next stopPred _ _ _ h => exact ⟨(next_loops h).symm.trans hs.loops, hs.looks⟩
  | stopping _ _ _ h => exact ⟨(stopping_loops h).symm.trans hs.loops, hs.looks⟩
  | created obj _ _ _ h => exact ⟨(created_loops h).symm.trans hs.loops, hs.looks⟩
  | used obj _ _ _ h => exact ⟨(using_loops h).symm.trans hs.loops, hs.looks⟩
  | called => exact ⟨hs.loops, fun e => by cases e⟩
  | woken _ _ _ h => cases h <;> exact ⟨hs.loops, fun e => by cases e⟩
  | notified => exact ⟨hs.loops, fun e => by cases e⟩
  | waits _ _ op late he => exact ⟨hs.loops, entering_not_returned he _ _⟩
  | done _ _ op late r n he hb => exact ⟨hs.loops, entering_not_returned he _ _⟩
  | gaveUp _ _ op r he hb hr => exact ⟨hs.loops, entering_not_returned he _ _⟩
  | ret _ op r => exact (resume_loops hm).mp hs.loops

theorem stays_step {s : St T} (hs : Good s) (a : Act T) (h : Stays s) :
    Stays (step s a).val ∨ (step s a).val.blque_.shared.queue_ = [] := by
  obtain ⟨j, th, p, hp, hstay⟩ := h
  obtain ⟨th', p', hp', hm⟩ := pair_step (a := a) hp
  exact (move_stays hm (hs.matched j th p hp) hstay).imp_left fun h => ⟨j, th', p', hp', h⟩

theorem stayed_step {s : St T} (hs : Good s) (a : Act T) (h : Stays (step s a).val) : Stays s := by
  obtain ⟨j, th', p', hp', hstay⟩ := h
  obtain ⟨th, p, hp, hm⟩ := pair_back hs a hp'
  exact ⟨j, th, p, hp, move_stayed hm (hs.matched j th p hp) hstay⟩

/-- A section puts an object in, takes one out for a consumer that stays, or leaves the
    queue as it was. -/
theorem section_cases {s t : St T} (hs : Good s) {out : List (Ev T)} {i : Nat} {op : Op T} {r : QueueRet T}
    (h : Section s t out i op r) :
    ((∃ e ∈ out, putBy e ≠ none) ∧ t.blque_.shared.queue_ ≠ []) ∨
    ((∀ e ∈ out, putBy e = none) ∧ s.blque_.shared.queue_ ≠ [] ∧ Stays s) ∨
    ((∀ e ∈ out, putBy e = none) ∧ t.blque_.shared.queue_ = s.blque_.shared.queue_) := by
  obtain ⟨rfl, ⟨p, late, hp, he⟩, n, hb⟩ := h
  have noput : BlockingBoundedQueue.puts op = none → ∀ e ∈ [Ev.queue i op r], putBy e = none := by
    intro hop e he
    rw [List.mem_singleton.mp he]; exact hop
  rcases BlockingBoundedQueue.body_cases hb with ⟨x, rfl, -, ht, -, -⟩ | ⟨hw, hput, front, hq, -⟩ | ⟨-, hput, ht, -, -⟩
  · refine Or.inl ⟨⟨_, List.mem_singleton_self _, nofun⟩, ?_⟩
    rw [ht]; simp
  · refine Or.inr (Or.inl ⟨noput hput, by rw [hq]; exact List.cons_ne_nil _ _, ?_⟩)
    obtain ⟨hlt, -⟩ := List.getElem?_eq_some_iff.mp hp
    obtain ⟨th, hth⟩ : ∃ th, s.threads[i]? = some th := ⟨_, List.getElem?_eq_getElem (hs.sized ▸ hlt)⟩
    have hpair : Pair s i th p := ⟨hth, hp⟩
    have hop := matches_entering (hs.matched i th p hpair) he
    refine ⟨i, th, p, hpair, ?_, entering_not_returned he _ _⟩
    -- of the methods a thread can be in, only the timed `take` waits for an item
    unfold Thread.op at hop
    split at hop <;> cases hop <;> first | rfl | cases hw
  · exact Or.inr (Or.inr ⟨noput hput, by rw [ht]⟩)

/-! ## Nothing is lost, or something is for good -/

def Kept (s : St T) : Prop := Good s ∧ (s.blque_.shared.queue_ ≠ [] → Stays s)

def Lost (s : St T) : Prop := Good s ∧ s.blque_.shared.queue_ ≠ [] ∧ ¬ Stays s

theorem kept_step {s : St T} (h : Kept s) {a : Act T} (ha : Attended s a) : Kept (step s a).val := by
  obtain ⟨hs, hkept⟩ := h
  refine ⟨good_step hs a, fun hne => ?_⟩
  have hstays : Stays s := by
    rcases queue_step s a with ⟨hq, -⟩ | ⟨i, op, r, hsec⟩
    · exact hkept (hq ▸ hne)
    · rcases section_cases hs hsec with ⟨hput, -⟩ | ⟨-, -, hstays⟩ | ⟨-, hq⟩
      · exact ha hput
      · exact hstays
      · exact hkept (hq ▸ hne)
  exact (stays_step hs a hstays).resolve_right hne

theorem kept_break {s : St T} (h : Kept s) {a : Act T} (ha : ¬ Attended s a) : Lost (step s a).val := by
  obtain ⟨hs, -⟩ := h
  rw [Attended, Classical.not_imp] at ha
  obtain ⟨⟨e, he, hput⟩, hgone⟩ := ha
  refine ⟨good_step hs a, ?_, fun hstays => hgone (stayed_step hs a hstays)⟩
  rcases queue_step s a with ⟨-, hout⟩ | ⟨i, op, r, hsec⟩
  · exact absurd (hout e he).1 hput
  · rcases section_cases hs hsec with ⟨-, hne⟩ | ⟨hno, -⟩ | ⟨hno, -⟩
    · exact hne
    · exact absurd (hno e he) hput
    · exact absurd (hno e he) hput

theorem lost_step {s : St T} (h : Lost s) (a : Act T) : Lost (step s a).val := by
  obtain ⟨hs, hne, hgone⟩ := h
  refine ⟨good_step hs a, ?_, fun hstays => hgone (stayed_step hs a hstays)⟩
  rcases queue_step s a with ⟨hq, -⟩ | ⟨i, op, r, hsec⟩
  · exact hq ▸ hne
  · rcases section_cases hs hsec with ⟨-, hne'⟩ | ⟨-, -, hstays⟩ | ⟨-, hq⟩
    · exact hne'
    · exact absurd hstays hgone
    · exact hq ▸ hne

def AllEnded (s : St T) : Prop := ∀ th ∈ s.threads, th.ended = true

/-- The queue is empty, and the objects used are, one for one, those put in. -/
structure Delivered (tr : List (Ev T)) (s : St T) : Prop where
  empty : s.blque_.shared.queue_ = []
  used : ((tr.filterMap usedBy).map Prod.snd).Perm (tr.filterMap putBy)

theorem ended_gone {s : St T} (h : AllEnded s) : ¬ Stays s := by
  rintro ⟨j, th, p, hp, hstay⟩
  have hend := h th (List.mem_of_getElem? hp.thread)
  have hloops := hstay.loops
  cases th with
  | Consumer w pc =>
    cases pc with
    | ended => cases hloops
    | _ => cases hend
  | _ => cases hloops

theorem ended_holds_nothing {s : St T} (hs : Good s) (h : AllEnded s) {j : Nat} {th : Thread T} {p : Phase T}
    (hp : Pair s j th p) : held j th p = [] := by
  have hend := h th (List.mem_of_getElem? hp.thread)
  have hfree : th.op = none ∧ th.using_ = none := by
    unfold Thread.ended at hend
    split at hend <;> first | exact ⟨rfl, rfl⟩ | cases hend
  rw [matches_idle (hs.matched j th p hp) hfree.1, held_using j th (p := .idle) fun _ _ => nofun, hfree.2]
  rfl

/-- Once all threads have returned, what was used is what was taken. -/
theorem ended_used {tr : List (Ev T)} {s : St T} (hf : Flow tr s) (h : AllEnded s) :
    (tr.filterMap takenBy).Perm (tr.filterMap usedBy) := by
  refine perm_of_threads ?_ ?_ fun j => ?_
  · intro e j x he
    cases e with
    | queue i op r =>
      obtain ⟨y, -, hy⟩ := Option.map_eq_some_iff.mp he
      cases hy; rfl
    | used => cases he
  · intro e j x he
    cases e with
    | queue => cases he
    | used i obj => cases he; rfl
  · by_cases hj : j < s.threads.length
    · have hp : Pair s j _ _ := ⟨List.getElem?_eq_getElem hj, List.getElem?_eq_getElem (hf.good.sized ▸ hj)⟩
      rw [hf.carried j _ _ hp, ended_holds_nothing hf.good h hp, List.append_nil]
    · have hnone : tr.filter (fun e => e.thread = j) = [] := by
        refine List.filter_eq_nil_iff.mpr fun e he => ?_
        have := hf.threads e he
        simp only [decide_eq_true_eq]
        omega
      rw [hnone]; rfl

theorem delivered_iff {tr : List (Ev T)} {s : St T} (hf : Flow tr s) (h : AllEnded s) :
    Delivered tr s ↔ s.blque_.shared.queue_ = [] := by
  refine ⟨fun hd => hd.empty, fun hq => ⟨hq, ?_⟩⟩
  have hfifo := hf.fifo
  rw [hq, List.append_nil] at hfifo
  rw [← hfifo]
  exact (ended_used hf h).symm.map Prod.snd

/-- When all threads have returned, no object is lost exactly if none was put once every
    consumer had found the queue empty for the last time. -/
theorem no_item_lost_iff (running_ : Bool) (maxSize : Nat) (roles : List Role) (acts : List (Act T))
    (hend : AllEnded (runs step (start running_ maxSize roles) acts).val) :
    Delivered (runs step (start running_ maxSize roles) acts).out (runs step (start running_ maxSize roles) acts).val ↔
      Along step Attended (start running_ maxSize roles) acts := by
  have hres := res_val (runs step (start running_ maxSize roles : St T) acts)
  have hflow : Flow _ _ := runs_trace step (J := fun _ tr s => Flow tr s)
    (fun _ tr s a t hf h => step_val h ▸ flow_step hf a) (start_flow running_ maxSize roles) hres
  rw [delivered_iff hflow hend]
  have hstart : Kept (start running_ maxSize roles : St T) := ⟨start_good running_ maxSize roles, fun h => absurd rfl h⟩
  rcases runs_either step (c := Attended) (I := Kept) (J := Lost) (fun s a t h ha ht => step_val ht ▸ kept_step h ha)
    (fun s a t h ha ht => step_val ht ▸ kept_break h ha) (fun s a t h ht => step_val ht ▸ lost_step h a) acts _ _ hstart hres
    with ⟨halong, hkept⟩ | ⟨hnot, hlost⟩
  · refine ⟨fun _ => halong, fun _ => ?_⟩
    by_contra hne
    exact ended_gone hend (hkept.2 hne)
  · exact ⟨fun hq => absurd hq hlost.2.1, fun h => absurd h hnot⟩

/-- A producer and a consumer of a started task with room for two objects. -/
def pair : St Nat := start true 2 [.Producer, .Consumer 1000]

/-- One object is put and used; then `stopPred_` stops the task. -/
def oneObject : List (Act Nat) :=
  [.run 0 false, .call 0, .enter 0 0, .ret 0, .run 0 false, .create 0 7, .run 1 false, .call 0, .enter 0 0, .ret 0,
   .call 1, .enter 1 0, .ret 1, .run 1 false, .run 0 false, .call 0, .enter 0 0, .ret 0, .run 0 true, .run 0 false,
   .run 1 false, .call 1, .enter 1 0, .ret 1]

theorem one_object_ended : AllEnded (runs step pair oneObject).val := by
  unfold AllEnded
  decide

theorem no_item_lost_one :
    Delivered (runs step pair oneObject).out (runs step pair oneObject).val ↔ Along step Attended pair oneObject :=
  no_item_lost_iff true 2 [.Producer, .Consumer 1000] oneObject one_object_ended

/-- The producer has passed its check when the task is stopped; the consumer finds the
    queue empty and ends, and then the object is put. -/
def lateObject : List (Act Nat) :=
  [.run 0 false, .call 0, .enter 0 0, .ret 0, .run 0 false, .stop, .run 1 false, .call 1, .enter 1 0, .ret 1,
   .create 0 7, .call 0, .enter 0 0, .ret 0, .run 0 false]

theorem a_late_object_is_lost :
    AllEnded (runs step pair lateObject).val ∧
      ¬ Delivered (runs step pair lateObject).out (runs step pair lateObject).val := by
  refine ⟨by unfold AllEnded; decide, fun h => ?_⟩
  have := congrArg List.length h.empty
  exact absurd this (by decide)

end TaskScheduler

end LeapSyncFfh
