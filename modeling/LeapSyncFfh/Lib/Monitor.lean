/-
  LeapSyncFfh.Lib.Monitor — a monitor: shared data behind one mutex, and condition
  variables that are signalled with `notify_one`.

  An operation is a critical section (`body`), taken as one step. While its predicate does
  not hold (`none`) the thread waits on a condition variable of the operation and releases
  the mutex. A section that runs may notify one variable. A timed operation gives up when
  its time has passed and the predicate still does not hold.

  Any number of threads call operations. `enter` is a thread getting the mutex, be it new,
  notified, timed out or woken spuriously: all of them test the predicate again, and a new
  thread may come before a notified one. Which waiter `notify_one` picks is part of the
  label. The outputs are the operations in the order in which their sections ended.

  `shared_inv`: what every section keeps, holds of the shared data and the operations so
  far. `no_lost_wakeup`: when `avail` counts for each variable how many sections the data
  still admits (`Counted`), a thread waits only while at least so many have been notified
  and have not resumed.
-/

import LeapSyncFfh.Lib.Emit

open Emit

structure Monitor (σ Op R Cv : Type) where
  /-- The section: the new data, what it returns, the variable it notifies. -/
  body : Op → σ → Option (σ × R × Option Cv)
  waitsOn : Op → Option Cv
  /-- What a timed operation returns when it gives up. -/
  timeout : Op → Option R

namespace Monitor

variable {σ Op R Cv : Type} [DecidableEq Cv]

/-- Where a thread stands; `late` is set once its time has passed. -/
inductive Phase (Op R : Type) where
  | idle
  /-- Wants the mutex, and was not notified. -/
  | ready (op : Op) (late : Bool)
  | waiting (op : Op)
  /-- Notified, and has not got the mutex yet. -/
  | notified (op : Op) (late : Bool)
  | returned (op : Op) (r : R)

structure St (σ Op R : Type) where
  shared : σ
  threads : List (Phase Op R)

inductive Act (Op : Type) where
  | call (i : Nat) (op : Op)
  | enter (i wake : Nat)
  | timeout (i : Nat)
  | spurious (i : Nat)
  | ret (i : Nat)

/-- `n` threads, none of which has called anything. -/
def St.start (s : σ) (n : Nat) : St σ Op R := ⟨s, List.replicate n .idle⟩

/-- The operation of a thread that wants the mutex. -/
def Phase.entering : Phase Op R → Option (Op × Bool)
  | .ready op late => some (op, late)
  | .notified op late => some (op, late)
  | _ => none

variable (M : Monitor σ Op R Cv)

def waitsFor (c : Cv) : Phase Op R → Bool
  | .waiting op => M.waitsOn op = some c
  | _ => false

def notifiedFor (c : Cv) : Phase Op R → Bool
  | .notified op _ => M.waitsOn op = some c
  | _ => false

/-- `notify_one`: thread `wake` if it waits for `c`, else the first that does, if any. -/
def notifyOne (c : Cv) (wake : Nat) (threads : List (Phase Op R)) : List (Phase Op R) :=
  let chosen := if (threads[wake]?).any (M.waitsFor c) then some wake else threads.findIdx? (M.waitsFor c)
  match chosen with
  | some j =>
    match threads[j]? with
    | some (.waiting op) => threads.set j (.notified op false)
    | _ => threads
  | none => threads

def notify (n : Option Cv) (wake : Nat) (threads : List (Phase Op R)) : List (Phase Op R) :=
  match n with
  | some c => M.notifyOne c wake threads
  | none => threads

/-- Thread `i` has the mutex: it tests the predicate of `op`. -/
def section_ (s : St σ Op R) (i wake : Nat) (op : Op) (late : Bool) : Emit (Op × R) Empty (St σ Op R) :=
  match M.body op s.shared with
  | some (t, r, n) => do
    emit (op, r)
    pure ⟨t, M.notify n wake (s.threads.set i (.returned op r))⟩
  | none =>
    match M.timeout op, late with
    | some r, true => do
      emit (op, r)
      pure { s with threads := s.threads.set i (.returned op r) }
    | _, _ => pure { s with threads := s.threads.set i (.waiting op) }

/-- A label that does not apply changes nothing. -/
def step (s : St σ Op R) : Act Op → Emit (Op × R) Empty (St σ Op R)
  | .call i op =>
    match s.threads[i]? with
    | some .idle => pure { s with threads := s.threads.set i (.ready op false) }
    | _ => pure s
  | .enter i wake =>
    match (s.threads[i]?).bind Phase.entering with
    | some (op, late) => M.section_ s i wake op late
    | none => pure s
  | .timeout i =>
    match s.threads[i]? with
    | some (.waiting op) => pure { s with threads := s.threads.set i (.ready op true) }
    | some (.notified op _) => pure { s with threads := s.threads.set i (.notified op true) }
    | _ => pure s
  | .spurious i =>
    match s.threads[i]? with
    | some (.waiting op) => pure { s with threads := s.threads.set i (.ready op false) }
    | _ => pure s
  | .ret i =>
    match s.threads[i]? with
    | some (.returned _ _) => pure { s with threads := s.threads.set i .idle }
    | _ => pure s

/-! ## What a step can do -/

/-- A thread moved without the mutex: it did not begin to wait, and is notified as before. -/
structure Calm (p q : Phase Op R) : Prop where
  waits : ∀ c, M.waitsFor c q = true → M.waitsFor c p = true
  notified : ∀ c, M.notifiedFor c q = M.notifiedFor c p

/-- The thread was woken, or its time has passed: it wants the mutex for the same operation. -/
inductive Woken : Phase Op R → Phase Op R → Prop
  | waiting (op : Op) (late : Bool) : Woken (.waiting op) (.ready op late)
  | notified (op : Op) (late : Bool) : Woken (.notified op late) (.notified op true)

inductive Outcome (s : St σ Op R) : Act Op → Emit (Op × R) Empty (St σ Op R) → Prop
  | same (a : Act Op) : Outcome s a (pure s)
  | called (i : Nat) (op : Op) : s.threads[i]? = some .idle →
      Outcome s (.call i op) (pure { s with threads := s.threads.set i (.ready op false) })
  | woken (a : Act Op) (i : Nat) (p q : Phase Op R) : a = .timeout i ∨ a = .spurious i → s.threads[i]? = some p →
      Woken p q → Outcome s a (pure { s with threads := s.threads.set i q })
  | done (i wake : Nat) (p : Phase Op R) (op : Op) (late : Bool) (t : σ) (r : R) (n : Option Cv) :
      s.threads[i]? = some p → p.entering = some (op, late) → M.body op s.shared = some (t, r, n) →
      Outcome s (.enter i wake) ⟨[(op, r)], .ok ⟨t, M.notify n wake (s.threads.set i (.returned op r))⟩⟩
  | gaveUp (i wake : Nat) (p : Phase Op R) (op : Op) (r : R) : s.threads[i]? = some p →
      p.entering = some (op, true) → M.body op s.shared = none → M.timeout op = some r →
      Outcome s (.enter i wake) ⟨[(op, r)], .ok { s with threads := s.threads.set i (.returned op r) }⟩
  | waits (i wake : Nat) (p : Phase Op R) (op : Op) (late : Bool) : s.threads[i]? = some p →
      p.entering = some (op, late) → M.body op s.shared = none →
      Outcome s (.enter i wake) (pure { s with threads := s.threads.set i (.waiting op) })
  | left (i : Nat) (op : Op) (r : R) : s.threads[i]? = some (.returned op r) →
      Outcome s (.ret i) (pure { s with threads := s.threads.set i .idle })

theorem section_outcome {s : St σ Op R} {i : Nat} (wake : Nat) {p : Phase Op R} {op : Op} {late : Bool}
    (hp : s.threads[i]? = some p) (he : p.entering = some (op, late)) :
    M.Outcome s (.enter i wake) (M.section_ s i wake op late) := by
  unfold section_
  cases hb : M.body op s.shared with
  | some b =>
    obtain ⟨t, r, n⟩ := b
    exact .done i wake p op late t r n hp he hb
  | none =>
    cases hr : M.timeout op with
    | none => exact .waits i wake p op late hp he hb
    | some r =>
      cases late with
      | true => exact .gaveUp i wake p op r hp he hb hr
      | false => exact .waits i wake p op false hp he hb

theorem step_outcome (s : St σ Op R) (a : Act Op) : M.Outcome s a (M.step s a) := by
  cases a with
  | call i op =>
    simp only [step]
    split
    · rename_i h; exact .called i op h
    · exact .same _
  | enter i wake =>
    simp only [step]
    split
    · rename_i op late h
      obtain ⟨p, hp, he⟩ := Option.bind_eq_some_iff.mp h
      exact M.section_outcome wake hp he
    · exact .same _
  | timeout i =>
    simp only [step]
    split
    · rename_i op h; exact .woken _ i _ _ (Or.inl rfl) h (.waiting op true)
    · rename_i op late h; exact .woken _ i _ _ (Or.inl rfl) h (.notified op late)
    · exact .same _
  | spurious i =>
    simp only [step]
    split
    · rename_i op h; exact .woken _ i _ _ (Or.inr rfl) h (.waiting op false)
    · exact .same _
  | ret i =>
    simp only [step]
    split
    · rename_i op r h; exact .left i op r h
    · exact .same _

theorem calm_called (op : Op) : M.Calm .idle (.ready op false) := ⟨fun _ h => (by cases h), fun _ => rfl⟩

theorem calm_woken {p q : Phase Op R} (h : Woken p q) : M.Calm p q := by
  cases h <;> exact ⟨fun _ h => (by cases h), fun _ => rfl⟩

theorem calm_left (op : Op) (r : R) : M.Calm (.returned op r) .idle := ⟨fun _ h => (by cases h), fun _ => rfl⟩

/-- The rule for the shared data and the operations that have ended. -/
theorem shared_inv {J : List (Op × R) → σ → Prop}
    (hdone : ∀ tr s op t r n, J tr s → M.body op s = some (t, r, n) → J (tr ++ [(op, r)]) t)
    (hlate : ∀ tr s op r, J tr s → M.body op s = none → M.timeout op = some r → J (tr ++ [(op, r)]) s)
    {s : St σ Op R} (hs : J [] s.shared) (acts : List (Act Op)) :
    J (runs M.step s acts).out (runs M.step s acts).val.shared := by
  refine runs_trace M.step (J := fun _ tr t => J tr t.shared) (fun _ tr s a t hj ht => ?_) hs (res_val _)
  have ho := M.step_outcome s a
  generalize M.step s a = x at ho ht
  cases ho with
  | same => cases ht; simpa using hj
  | called => cases ht; simpa using hj
  | woken => cases ht; simpa using hj
  | done i wake p op late u r n _ _ hb => cases ht; exact hdone tr _ op u r n hj hb
  | gaveUp i wake p op r _ _ hb hr => cases ht; exact hlate tr _ op r hj hb hr
  | waits => cases ht; simpa using hj
  | left => cases ht; simpa using hj

/-! ## What a step does to one thread -/

/-- The thread that a label is about. -/
def Act.thread : Act Op → Nat
  | .call i _ => i
  | .enter i _ => i
  | .timeout i => i
  | .spurious i => i
  | .ret i => i

/-- What the step labelled `a` makes of thread `j`, and the operation of its that it ends. -/
inductive Move (s t : St σ Op R) (j : Nat) : Act Op → List (Op × R) → Phase Op R → Phase Op R → Prop
  | same (a : Act Op) (p : Phase Op R) : Move s t j a [] p p
  | notified (a : Act Op) (op : Op) : Move s t j a [] (.waiting op) (.notified op false)
  | called (op : Op) : Move s t j (.call j op) [] .idle (.ready op false)
  | woken (a : Act Op) (p q : Phase Op R) : a = .timeout j ∨ a = .spurious j → Woken p q → Move s t j a [] p q
  | done (wake : Nat) (p : Phase Op R) (op : Op) (late : Bool) (r : R) (n : Option Cv) :
      p.entering = some (op, late) → M.body op s.shared = some (t.shared, r, n) →
      Move s t j (.enter j wake) [(op, r)] p (.returned op r)
  | gaveUp (wake : Nat) (p : Phase Op R) (op : Op) (r : R) : p.entering = some (op, true) →
      M.body op s.shared = none → M.timeout op = some r → Move s t j (.enter j wake) [(op, r)] p (.returned op r)
  | waits (wake : Nat) (p : Phase Op R) (op : Op) (late : Bool) : p.entering = some (op, late) →
      M.body op s.shared = none → Move s t j (.enter j wake) [] p (.waiting op)
  | left (op : Op) (r : R) : Move s t j (.ret j) [] (.returned op r) .idle

theorem set_get {α : Type} {l : List α} {i : Nat} {x y : α} (h : l[i]? = some x) (j : Nat) :
    (l.set i y)[j]? = if i = j then some y else l[j]? := by
  obtain ⟨hi, -⟩ := List.getElem?_eq_some_iff.mp h
  rw [List.getElem?_set]
  by_cases hij : i = j
  · rw [if_pos hij, if_pos hi, if_pos hij]
  · rw [if_neg hij, if_neg hij]

theorem notifyOne_cases (c : Cv) (wake : Nat) (ts : List (Phase Op R)) :
    ((∀ p ∈ ts, M.waitsFor c p = false) ∧ M.notifyOne c wake ts = ts) ∨
    ∃ j op, ts[j]? = some (.waiting op) ∧ M.waitsOn op = some c ∧ M.notifyOne c wake ts = ts.set j (.notified op false) := by
  -- the chosen thread waits for `c`
  have found : ∀ (j : Nat) (p : Phase Op R), ts[j]? = some p → M.waitsFor c p = true →
      ∃ op, p = .waiting op ∧ M.waitsOn op = some c := by
    intro j p _ hw
    cases p with
    | waiting op => exact ⟨op, rfl, of_decide_eq_true hw⟩
    | _ => cases hw
  unfold notifyOne
  by_cases hwake : (ts[wake]?).any (M.waitsFor c) = true
  · obtain ⟨p, hp, hw⟩ := (Option.any_eq_true _ _).mp hwake
    obtain ⟨op, rfl, hop⟩ := found wake p hp hw
    simp only [if_pos hwake]
    exact Or.inr ⟨wake, op, hp, hop, by simp only [hp]⟩
  · simp only [if_neg hwake]
    cases hf : ts.findIdx? (M.waitsFor c) with
    | none => exact Or.inl ⟨by simpa using List.findIdx?_eq_none_iff.mp hf, rfl⟩
    | some j =>
      obtain ⟨hj, hw, -⟩ := List.findIdx?_eq_some_iff_getElem.mp hf
      have hp := List.getElem?_eq_getElem hj
      obtain ⟨op, he, hop⟩ := found j _ hp hw
      rw [he] at hp
      exact Or.inr ⟨j, op, hp, hop, by simp only [hp]⟩

theorem notify_get (n : Option Cv) (wake : Nat) {ts : List (Phase Op R)} {j : Nat} {p : Phase Op R}
    (h : ts[j]? = some p) : (M.notify n wake ts)[j]? = some p ∨
      ∃ op, p = .waiting op ∧ (M.notify n wake ts)[j]? = some (.notified op false) := by
  cases n with
  | none => exact Or.inl h
  | some c =>
    rcases M.notifyOne_cases c wake ts with ⟨-, heq⟩ | ⟨k, op, hk, -, heq⟩
    · rw [notify, heq]; exact Or.inl h
    · rw [notify, heq, set_get hk]
      by_cases hkj : k = j
      · subst hkj
        obtain rfl := Option.some.inj (hk.symm.trans h)
        exact Or.inr ⟨op, rfl, if_pos rfl⟩
      · rw [if_neg hkj]; exact Or.inl h

theorem notify_length (n : Option Cv) (wake : Nat) (ts : List (Phase Op R)) :
    (M.notify n wake ts).length = ts.length := by
  cases n with
  | none => rfl
  | some c =>
    rcases M.notifyOne_cases c wake ts with ⟨-, heq⟩ | ⟨k, op, -, -, heq⟩
    · rw [notify, heq]
    · rw [notify, heq, List.length_set]

theorem phase_step (s : St σ Op R) (a : Act Op) :
    (M.step s a).val.threads.length = s.threads.length ∧ ∀ j p, s.threads[j]? = some p →
      ∃ q, (M.step s a).val.threads[j]? = some q ∧
        M.Move s (M.step s a).val j a (if a.thread = j then (M.step s a).out else []) p q := by
  have ho := M.step_outcome s a
  generalize M.step s a = x at ho
  -- thread `i` goes from `p` to `q`, the others stay
  have one : ∀ {a : Act Op} {i : Nat} {p q : Phase Op R} {u : St σ Op R}, a.thread = i → s.threads[i]? = some p →
      u.threads = s.threads.set i q → ∀ out, M.Move s u i a out p q → ∀ j p', s.threads[j]? = some p' →
        ∃ q', u.threads[j]? = some q' ∧ M.Move s u j a (if a.thread = j then out else []) p' q' := by
    intro a i p q u ha hp hu out hm j p' hp'
    rw [hu, set_get hp, ha]
    by_cases hij : i = j
    · subst hij
      obtain rfl := Option.some.inj (hp.symm.trans hp')
      rw [if_pos rfl, if_pos rfl]
      exact ⟨q, rfl, hm⟩
    · rw [if_neg hij, if_neg hij]
      exact ⟨p', hp', .same a p'⟩
  cases ho with
  | same => exact ⟨rfl, fun j p hp => ⟨p, hp, by rw [pure_out, ite_self]; exact .same a p⟩⟩
  | called i op hp => exact ⟨List.length_set, one (a := .call i op) rfl hp rfl [] (.called op)⟩
  | woken a i p q ha hp hq =>
    refine ⟨List.length_set, one ?_ hp rfl [] (.woken a p q ha hq)⟩
    rcases ha with rfl | rfl <;> rfl
  | gaveUp i wake p op r hp he hb hr =>
    exact ⟨List.length_set, one (a := .enter i wake) rfl hp rfl _ (.gaveUp wake p op r he hb hr)⟩
  | waits i wake p op late hp he hb =>
    exact ⟨List.length_set, one (a := .enter i wake) rfl hp rfl [] (.waits wake p op late he hb)⟩
  | left i op r hp => exact ⟨List.length_set, one (a := .ret i) rfl hp rfl [] (.left op r)⟩
  | done i wake p op late t r n hp he hb =>
    refine ⟨by simp [val, notify_length], fun j p' hp' => ?_⟩
    by_cases hij : i = j
    · subst hij
      obtain rfl := Option.some.inj (hp.symm.trans hp')
      rcases M.notify_get n wake (p := .returned op r) (by rw [set_get hp, if_pos rfl]) with h | ⟨_, h, -⟩
      · exact ⟨_, h, by rw [if_pos (show (Act.enter i wake : Act Op).thread = i from rfl)]; exact .done wake p op late r n he hb⟩
      · cases h
    · have hstay : (s.threads.set i (.returned op r))[j]? = some p' := by rw [set_get hp, if_neg hij, hp']
      have hnot : ¬ (Act.enter i wake : Act Op).thread = j := hij
      rcases M.notify_get n wake hstay with h | ⟨op', rfl, h⟩
      · exact ⟨_, h, by rw [if_neg hnot]; exact .same _ _⟩
      · exact ⟨_, h, by rw [if_neg hnot]; exact .notified _ _⟩

/-- Only a thread that is there ends an operation. -/
theorem ended_thread (s : St σ Op R) (a : Act Op) (h : (M.step s a).out ≠ []) : a.thread < s.threads.length := by
  have ho := M.step_outcome s a
  generalize M.step s a = x at ho h
  cases ho with
  | done i wake p op late t r n hp => exact (List.getElem?_eq_some_iff.mp hp).1
  | gaveUp i wake p op r hp => exact (List.getElem?_eq_some_iff.mp hp).1
  | _ => exact absurd rfl h

/-! ## No wake-up is lost -/

/-- `avail c` counts the sections waiting for `c` that the data admits: none when one is
    blocked, each takes one, and any section adds at most the one it notifies. -/
structure Counted (avail : Cv → σ → Nat) : Prop where
  blocked : ∀ op s c, M.body op s = none → M.waitsOn op = some c → avail c s = 0
  takes : ∀ op s t r n c, M.body op s = some (t, r, n) → M.waitsOn op = some c → avail c t + 1 ≤ avail c s
  adds : ∀ op s t r n c, M.body op s = some (t, r, n) → avail c t ≤ avail c s + if n = some c then 1 else 0

/-- While a thread waits for `c`, the notified ones cover what is available. -/
def Covered (avail : Cv → σ → Nat) (c : Cv) (s : St σ Op R) : Prop :=
  (∃ p ∈ s.threads, M.waitsFor c p = true) → avail c s.shared ≤ s.threads.countP (M.notifiedFor c)

theorem countP_set_add {α : Type} (p : α → Bool) {l : List α} {i : Nat} {x : α} (h : l[i]? = some x) (y : α) :
    (l.set i y).countP p + (if p x then 1 else 0) = l.countP p + if p y then 1 else 0 := by
  induction l generalizing i with
  | nil => cases h
  | cons z l ih =>
    cases i with
    | zero =>
      obtain rfl : z = x := by simpa using h
      simp only [List.set_cons_zero, List.countP_cons]
      omega
    | succ i =>
      have := ih (by simpa using h)
      simp only [List.set_cons_succ, List.countP_cons]
      omega

theorem waits_of_set {c : Cv} {ts : List (Phase Op R)} {i : Nat} {p q : Phase Op R} (hp : ts[i]? = some p)
    (hq : M.waitsFor c q = true → M.waitsFor c p = true) (h : ∃ x ∈ ts.set i q, M.waitsFor c x = true) :
    ∃ x ∈ ts, M.waitsFor c x = true := by
  obtain ⟨x, hx, hw⟩ := h
  rcases List.mem_or_eq_of_mem_set hx with hx | rfl
  · exact ⟨x, hx, hw⟩
  · exact ⟨p, List.mem_of_getElem? hp, hq hw⟩

/-- If a thread still waits for `c` after a notification, one for `c` found its thread. -/
theorem notify_counts {n : Option Cv} {wake : Nat} {ts : List (Phase Op R)} {c : Cv}
    (h : ∃ p ∈ M.notify n wake ts, M.waitsFor c p = true) :
    (∃ p ∈ ts, M.waitsFor c p = true) ∧
      ts.countP (M.notifiedFor c) + (if n = some c then 1 else 0) ≤ (M.notify n wake ts).countP (M.notifiedFor c) := by
  cases n with
  | none => exact ⟨h, Nat.le_refl _⟩
  | some d =>
    rcases M.notifyOne_cases d wake ts with ⟨hnone, heq⟩ | ⟨j, op, hj, hop, heq⟩
    · simp only [notify, heq] at h ⊢
      refine ⟨h, ?_⟩
      have hne : d ≠ c := by
        rintro rfl
        obtain ⟨p, hp, hw⟩ := h
        rw [hnone p hp] at hw; cases hw
      simp [hne]
    · simp only [notify, heq] at h ⊢
      refine ⟨M.waits_of_set hj (fun hw => by cases hw) h, ?_⟩
      have hcount := countP_set_add (M.notifiedFor c) hj (.notified op false)
      have hiff : M.notifiedFor c (.notified op false : Phase Op R) = decide (some d = some c) := by
        simp only [notifiedFor, hop]
      rw [hiff] at hcount
      simp only [notifiedFor, Bool.false_eq_true, if_false, decide_eq_true_eq] at hcount ⊢
      omega

/-- A thread that runs its section, or waits anew, was ready or notified. -/
theorem entering_notified {p : Phase Op R} {op : Op} {late : Bool} (h : p.entering = some (op, late)) {c : Cv}
    (hn : M.notifiedFor c p = true) : M.waitsOn op = some c := by
  cases p with
  | notified => cases h; exact of_decide_eq_true hn
  | _ => cases hn

theorem calm_covered {avail : Cv → σ → Nat} {c : Cv} {s : St σ Op R} (hs : M.Covered avail c s) {i : Nat}
    {p q : Phase Op R} (hp : s.threads[i]? = some p) (hcalm : M.Calm p q) :
    M.Covered avail c { s with threads := s.threads.set i q } := by
  intro hw
  have hle := hs (M.waits_of_set hp (hcalm.waits c) hw)
  have hcount := countP_set_add (M.notifiedFor c) hp q
  rw [hcalm.notified c] at hcount
  simp only at hle ⊢
  omega

theorem step_covered {avail : Cv → σ → Nat} (C : M.Counted avail) (c : Cv) {s t : St σ Op R} {a : Act Op}
    (hs : M.Covered avail c s) (h : (M.step s a).res = .ok t) : M.Covered avail c t := by
  have ho := M.step_outcome s a
  generalize M.step s a = x at ho h
  cases ho with
  | same => cases h; exact hs
  | called i op hp => cases h; exact M.calm_covered hs hp (M.calm_called op)
  | woken _ i p q _ hp hq => cases h; exact M.calm_covered hs hp (M.calm_woken hq)
  | left i op r hp => cases h; exact M.calm_covered hs hp (M.calm_left op r)
  | waits i wake p op late hp he hb =>
    cases h
    intro hw
    by_cases hc : M.waitsOn op = some c
    · have := C.blocked op s.shared c hb hc
      simp only at this ⊢
      omega
    · have hle := hs (M.waits_of_set (q := .waiting op) hp (fun h => absurd (of_decide_eq_true h) hc) hw)
      have hcount := countP_set_add (M.notifiedFor c) hp (.waiting op)
      have hno : ¬ M.notifiedFor c p = true := fun h => hc (M.entering_notified he h)
      rw [if_neg hno] at hcount
      simp only at hle ⊢
      omega
  | gaveUp i wake p op r hp he hb hr =>
    cases h
    intro hw
    have hle := hs (M.waits_of_set hp (fun h => by cases h) hw)
    have hcount := countP_set_add (M.notifiedFor c) hp (.returned op r)
    by_cases hn : M.notifiedFor c p = true
    · have := C.blocked op s.shared c hb (M.entering_notified he hn)
      simp only at this ⊢
      omega
    · rw [if_neg hn] at hcount
      simp only at hle ⊢
      omega
  | done i wake p op late u r n hp he hb =>
    cases h
    intro hw
    obtain ⟨hw, hnew⟩ := M.notify_counts hw
    have hle := hs (M.waits_of_set hp (fun h => by cases h) hw)
    have hcount := countP_set_add (M.notifiedFor c) hp (.returned op r)
    have hadds := C.adds op s.shared u r n c hb
    simp only at hle hnew ⊢
    by_cases hn : M.notifiedFor c p = true
    · -- the notified thread takes what it was notified of
      have htakes := C.takes op s.shared u r n c hb (M.entering_notified he hn)
      rw [if_pos hn] at hcount
      omega
    · rw [if_neg hn] at hcount
      omega

/-- No wake-up is lost, whatever the threads call and however they are scheduled. -/
theorem no_lost_wakeup {avail : Cv → σ → Nat} (C : M.Counted avail) (c : Cv) {s : St σ Op R}
    (hs : M.Covered avail c s) (acts : List (Act Op)) : M.Covered avail c (runs M.step s acts).val :=
  runs_inv M.step (fun _ _ _ hi h => M.step_covered C c hi h) hs (res_val _)

theorem start_covered (avail : Cv → σ → Nat) (c : Cv) (s : σ) (n : Nat) :
    M.Covered avail c (.start s n) := by
  rintro ⟨p, hp, hw⟩
  rw [List.eq_of_mem_replicate hp] at hw
  cases hw

end Monitor
