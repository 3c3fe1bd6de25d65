/-
  LeapSyncFfh.Official.ConfigValues — `getConfigValue` and `onConfigResponse` of the official
  wrapper (officialWrapper/LeapImplementationC++.h).

  A config value is asked for by any thread and answered by a message that the polling
  thread handles. The two meet in `m_configPromises`, under its mutex, by the id of the
  request: whichever comes first makes the promise. A caller makes its request, takes the
  future, waits for it with a timeout, and erases the entry; the service answers when it
  likes, and the answers are polled in order. A run is any interleaving of these steps, of
  any number of callers. Of LeapC it is assumed that a request gets an id of its own
  (`Fresh`), and that an answer is to a request and the only one to it (`Once`).

  All that belongs to one id is its `View`: the calls that have it, its entry and what that
  promise shares, and where the answer is. A step changes the view of one id, and
  `Consistent` says of each view what can be there: of an id that LeapC gave to a request
  `Single`, and of 0, which a call keeps whose request failed, `Failed`.

  Two calls whose requests failed share the promise of 0, and the second to take the future
  gets an exception. That is the only thing that can go wrong: a run throws exactly if two
  such calls overlap (`config_returns_iff`). What a call returns is the one answer to its own
  request, and the future it waits on is ready exactly when that answer has been polled
  (`config_correlated`).
-/

import Mathlib.Logic.Function.Basic
import Mathlib.Data.List.Count
import LeapSyncFfh.Lib.Emit

namespace LeapSyncFfh

open Emit

variable {V : Type}

/-- `std::future_errc`. -/
inductive FutureError where
  | future_already_retrieved
  | promise_already_satisfied
  deriving DecidableEq, Repr

/-- What a promise and its future share. -/
structure SharedState (V : Type) where
  value : Option V := none
  retrieved : Bool := false

/-- Where a call of `getConfigValue` stands. -/
inductive CallPc (V : Type) where
  | requested
  | waiting (future : Nat)
  | finishing (future : Nat) (ready : Bool)
  /-- `none` is `{}`. -/
  | returned (value : Option V)

/-- A call, with its local `id`. -/
structure ConfigCall (V : Type) where
  id : Nat
  pc : CallPc V

structure ConfigState (V : Type) where
  /-- The shared states by index; the first `made` of them exist. -/
  shared : Nat → SharedState V := fun _ => {}
  made : Nat := 0
  m_configPromises : Nat → Option Nat := fun _ => none
  calls : List (ConfigCall V) := []
  /-- The requests that the service has not answered. -/
  unanswered : List Nat := []
  /-- The answers that are not polled. -/
  responses : List (Nat × V) := []

inductive ConfigAct (V : Type) where
  /-- `LeapRequestConfigValue` gives an id, or fails. -/
  | request (answer : Option Nat)
  | get_future (call : Nat)
  | wait_for (call : Nat) (timeout : Bool)
  | erase (call : Nat)
  | respond (id : Nat) (value : V)
  | poll

namespace ConfigState

def setShared (s : ConfigState V) (k : Nat) (st : SharedState V) : ConfigState V :=
  { s with shared := Function.update s.shared k st }

/-- The call `n`, which is `c`, goes to `pc`. -/
def setPc (s : ConfigState V) (n : Nat) (c : ConfigCall V) (pc : CallPc V) : ConfigState V :=
  { s with calls := s.calls.set n { c with pc := pc } }

/-- `m_configPromises[id]`, with a new promise where there is none. -/
def promise (s : ConfigState V) (id : Nat) : ConfigState V × Nat :=
  match s.m_configPromises id with
  | some k => (s, k)
  | none =>
    ({ s with made := s.made + 1, m_configPromises := Function.update s.m_configPromises id (some s.made) }, s.made)

/-- `m_configPromises.erase(id)`. -/
def erasePromise (s : ConfigState V) (id : Nat) : ConfigState V :=
  { s with m_configPromises := Function.update s.m_configPromises id none }

/-- `uint32_t id = 0; LeapRequestConfigValue(m_connection, key, &id)`. -/
def request (s : ConfigState V) (answer : Option Nat) : ConfigState V :=
  { s with calls := s.calls ++ [⟨answer.getD 0, .requested⟩], unanswered := answer.toList ++ s.unanswered }

/-- `future = m_configPromises[id].get_future()`. -/
def get_future (s : ConfigState V) (n : Nat) : Except FutureError (ConfigState V) :=
  match s.calls[n]? with
  | some ⟨id, .requested⟩ =>
    let (t, k) := s.promise id
    if (t.shared k).retrieved then .error .future_already_retrieved
    else .ok ((t.setShared k { t.shared k with retrieved := true }).setPc n ⟨id, .requested⟩ (.waiting k))
  | _ => .ok s

/-- `future.wait_for(timeout)`: it is ready, times out, or goes on waiting. -/
def wait_for (s : ConfigState V) (n : Nat) (timeout : Bool) : ConfigState V :=
  match s.calls[n]? with
  | some ⟨id, .waiting f⟩ =>
    if (s.shared f).value.isSome then s.setPc n ⟨id, .waiting f⟩ (.finishing f true)
    else if timeout then s.setPc n ⟨id, .waiting f⟩ (.finishing f false)
    else s
  | _ => s

/-- `m_configPromises.erase(id)`, and `future.get()` if it was ready. -/
def erase (s : ConfigState V) (n : Nat) : ConfigState V :=
  match s.calls[n]? with
  | some ⟨id, .finishing f ready⟩ =>
    (s.erasePromise id).setPc n ⟨id, .finishing f ready⟩ (.returned (if ready then (s.shared f).value else none))
  | _ => s

/-- The service answers. -/
def respond (s : ConfigState V) (id : Nat) (value : V) : Emit (Nat × V) FutureError (ConfigState V) := do
  emit (id, value)
  pure { s with unanswered := s.unanswered.erase id, responses := s.responses ++ [(id, value)] }

/-- `m_configPromises[requestID].set_value(value)`. -/
def onConfigResponse (s : ConfigState V) (requestID : Nat) (value : V) : Except FutureError (ConfigState V) :=
  let (t, k) := s.promise requestID
  if (t.shared k).value.isSome then .error .promise_already_satisfied
  else .ok (t.setShared k { t.shared k with value := some value })

def poll (s : ConfigState V) : Except FutureError (ConfigState V) :=
  match s.responses with
  | [] => .ok s
  | (requestID, value) :: responses => { s with responses := responses }.onConfigResponse requestID value

/-- One step; the outputs are the answers of the service. -/
def step (s : ConfigState V) : ConfigAct V → Emit (Nat × V) FutureError (ConfigState V)
  | .request answer => pure (s.request answer)
  | .get_future n => lift (s.get_future n)
  | .wait_for n timeout => pure (s.wait_for n timeout)
  | .erase n => pure (s.erase n)
  | .respond id value => s.respond id value
  | .poll => lift s.poll

end ConfigState

/-- The future that a call has and has not given up. -/
def CallPc.holds : CallPc V → Option Nat
  | .waiting f => some f
  | .finishing f _ => some f
  | _ => none

/-- The call has found a value. -/
def CallPc.found : CallPc V → Bool
  | .finishing _ ready => ready
  | .returned value => value.isSome
  | _ => false

namespace ConfigState

/-- LeapC gives a request an id that no call had before, and never 0. -/
def Fresh (s : ConfigState V) : ConfigAct V → Prop
  | .request (some id) => id ≠ 0 ∧ ∀ c ∈ s.calls, c.id ≠ id
  | _ => True

/-- The service answers a request that it has not answered yet. -/
def Once (s : ConfigState V) : ConfigAct V → Prop
  | .respond id _ => id ∈ s.unanswered
  | _ => True

/-- A call whose request failed takes the future while no other such call has it. -/
def Apart (s : ConfigState V) : ConfigAct V → Prop
  | .get_future n => s.calls[n]? = some ⟨0, .requested⟩ → ∀ c ∈ s.calls, c.id = 0 → CallPc.holds c.pc = none
  | _ => True

/-! ## One id -/

/-- All that belongs to one id: its calls, its entry, and where its answer is. -/
structure View (V : Type) where
  pcs : List (CallPc V)
  entry : Option Nat
  slot : Option (SharedState V)
  unanswered : Nat
  queued : List V
  answered : List V

def view (ans : List (Nat × V)) (s : ConfigState V) (id : Nat) : View V where
  pcs := (s.calls.filter (·.id = id)).map (·.pc)
  entry := s.m_configPromises id
  slot := (s.m_configPromises id).map s.shared
  unanswered := s.unanswered.count id
  queued := (s.responses.filter (·.1 = id)).map (·.2)
  answered := (ans.filter (·.1 = id)).map (·.2)

/-- How far the answer to a request is. -/
inductive Answer (V : Type) where
  | asked
  | queued (value : V)
  | polled (value : V)

/-- The value that is in the promise by then. -/
def Answer.value : Answer V → Option V
  | .polled v => some v
  | _ => none

/-- The answer is in one place. -/
def Answer.At (a : Answer V) (w : View V) : Prop :=
  match a with
  | .asked => w.unanswered = 1 ∧ w.queued = [] ∧ w.answered = []
  | .queued v => w.unanswered = 0 ∧ w.queued = [v] ∧ w.answered = [v]
  | .polled v => w.unanswered = 0 ∧ w.queued = [] ∧ w.answered = [v]

/-- The one call of an id, the answer to its request, and what its entry leads to. -/
inductive Fits : CallPc V → Answer V → Option Nat → Option (SharedState V) → Prop
  | requested (a : Answer V) : a.value = none → Fits .requested a none none
  /-- The service was faster than the call. -/
  | early (k : Nat) (v : V) : Fits .requested (.polled v) (some k) (some ⟨some v, false⟩)
  | waiting (f : Nat) (a : Answer V) : Fits (.waiting f) a (some f) (some ⟨a.value, true⟩)
  | finishing (f : Nat) (a : Answer V) (ready : Bool) : (ready = true → a.value.isSome) →
      Fits (.finishing f ready) a (some f) (some ⟨a.value, true⟩)
  | returned (a : Answer V) (v : Option V) : v = none ∨ v = a.value → Fits (.returned v) a none none
  /-- The answer came after the timeout: nobody erases the entry any more. -/
  | late (k : Nat) (v : V) : Fits (.returned none) (.polled v) (some k) (some ⟨some v, false⟩)

/-- An id that LeapC has given to one call, or to none yet. -/
inductive Single (w : View V) : Prop
  | unused : w.pcs = [] → w.entry = none → w.slot = none → w.unanswered = 0 → w.queued = [] → w.answered = [] → Single w
  | call (pc : CallPc V) (a : Answer V) : w.pcs = [pc] → Fits pc a w.entry w.slot → a.At w → Single w

/-- The id of the calls whose request failed: nothing answers them, and the promise is there
    while one of them has its future. -/
structure Failed (w : View V) : Prop where
  unanswered : w.unanswered = 0
  queued : w.queued = []
  answered : w.answered = []
  pcs : ∀ pc ∈ w.pcs, CallPc.found pc = false
  held : w.pcs.filterMap CallPc.holds = w.entry.toList
  slot : w.slot = w.entry.map fun _ => ⟨none, true⟩

/-- The entries are of promises that exist, each of its own. -/
structure Wired (s : ConfigState V) : Prop where
  below : ∀ id k, s.m_configPromises id = some k → k < s.made
  apart : ∀ id id' k, s.m_configPromises id = some k → s.m_configPromises id' = some k → id = id'
  unmade : ∀ k, s.made ≤ k → s.shared k = {}

structure Consistent (ans : List (Nat × V)) (s : ConfigState V) : Prop where
  wired : Wired s
  single : ∀ id, id ≠ 0 → Single (view ans s id)
  failed : Failed (view ans s 0)

/-! ## What a step changes -/

section Views

variable (ans : List (Nat × V)) {s : ConfigState V}

/-- A step changes the view of one id. -/
theorem Consistent.of_view {ans ans' : List (Nat × V)} {t : ConfigState V} (h : Consistent ans s) (id : Nat)
    (hw : Wired t) (hsingle : id ≠ 0 → Single (view ans' t id)) (hfailed : id = 0 → Failed (view ans' t id))
    (hother : ∀ j, j ≠ id → view ans' t j = view ans s j) : Consistent ans' t where
  wired := hw
  single j hj := by
    by_cases e : j = id
    · subst e
      exact hsingle hj
    · rw [hother j e]
      exact h.single j hj
  failed := by
    by_cases e : id = 0
    · subst e
      exact hfailed rfl
    · rw [hother 0 fun e' => e e'.symm]
      exact h.failed

/-- A call that moves on. -/
theorem view_setPc {n : Nat} {c : ConfigCall V} (hc : s.calls[n]? = some c) (pc : CallPc V) :
    (∃ before after, (view ans s c.id).pcs = before ++ c.pc :: after ∧
      view ans (s.setPc n c pc) c.id = { view ans s c.id with pcs := before ++ pc :: after }) ∧
      ∀ j, j ≠ c.id → view ans (s.setPc n c pc) j = view ans s j := by
  obtain ⟨hn, hget⟩ := List.getElem?_eq_some_iff.mp hc
  obtain ⟨l₁, l₂, hl, hset⟩ : ∃ l₁ l₂, s.calls = l₁ ++ c :: l₂ ∧ s.calls.set n { c with pc := pc } =
      l₁ ++ { c with pc := pc } :: l₂ := by
    obtain ⟨l₁, l₂, hl, -, hset⟩ := List.exists_of_set hn
    rw [hget] at hl
    exact ⟨l₁, l₂, hl, hset⟩
  constructor
  · refine ⟨(l₁.filter (·.id = c.id)).map (·.pc), (l₂.filter (·.id = c.id)).map (·.pc), ?_, ?_⟩
    · simp [view, hl]
    · simp [view, setPc, hset]
  · intro j hj
    have hother : (s.calls.set n { c with pc := pc }).filter (·.id = j) = s.calls.filter (·.id = j) := by
      rw [hset, hl]
      simp [hj.symm]
    simp only [view, setPc, hother]

theorem promise_spec (hw : Wired s) (id : Nat) :
    ∃ k made, s.promise id =
        ({ s with made := made, m_configPromises := Function.update s.m_configPromises id (some k) }, k) ∧
      s.made ≤ made ∧ k < made ∧ (∀ f, s.m_configPromises id = some f → f = k) ∧
      (∀ j, s.m_configPromises j = some k → j = id) ∧ s.shared k = (view ans s id).slot.getD {} := by
  cases hk : s.m_configPromises id with
  | some k =>
    refine ⟨k, s.made, ?_, Nat.le_refl _, hw.below id k hk, fun f hf => (Option.some.inj hf).symm,
      fun j hj => hw.apart j id k hj hk, ?_⟩
    · rw [← hk, Function.update_eq_self]
      simp [promise, hk]
    · simp [view, hk]
  | none =>
    refine ⟨s.made, s.made + 1, ?_, Nat.le_succ _, Nat.lt_succ_self _, fun f hf => ?_, fun j hj => ?_, ?_⟩
    · simp [promise, hk]
    · cases hf
    · exact absurd (hw.below j _ hj) (Nat.lt_irrefl _)
    · simp [view, hk, hw.unmade s.made (Nat.le_refl _)]

/-- The promise of `id` is looked up, or made, and what it shares is changed. -/
theorem view_promise (hw : Wired s) (id : Nat) :
    ∃ k t, s.promise id = (t, k) ∧ t.calls = s.calls ∧ t.shared k = (view ans s id).slot.getD {} ∧
      (∀ f, (view ans s id).entry = some f → f = k) ∧
      ∀ st, Wired (t.setShared k st) ∧
        view ans (t.setShared k st) id = { view ans s id with entry := some k, slot := some st } ∧
        ∀ j, j ≠ id → view ans (t.setShared k st) j = view ans s j := by
  obtain ⟨k, made, hp, hmade, hk, hentry, hapart, hshared⟩ := promise_spec ans hw id
  refine ⟨k, _, hp, rfl, hshared, hentry, fun st => ⟨⟨fun j f hj => ?_, fun j j' f hj hj' => ?_, fun f hf => ?_⟩, ?_, ?_⟩⟩
  · simp only [setShared, Function.update_apply] at hj ⊢
    split at hj
    · cases hj
      exact hk
    · exact Nat.lt_of_lt_of_le (hw.below j f hj) hmade
  · simp only [setShared, Function.update_apply] at hj hj'
    split at hj <;> split at hj'
    · rename_i e e'
      rw [e, e']
    · rename_i e e'
      cases hj
      exact absurd (hapart j' hj') e'
    · rename_i e e'
      cases hj'
      exact absurd (hapart j hj) e
    · exact hw.apart j j' f hj hj'
  · have hne : f ≠ k := by
      rintro rfl
      exact absurd hk (Nat.not_lt.mpr hf)
    simp only [setShared, Function.update_of_ne hne]
    exact hw.unmade f (Nat.le_trans hmade hf)
  · simp [view, setShared]
  · intro j hj
    have hslot : (s.m_configPromises j).map (Function.update s.shared k st) = (s.m_configPromises j).map s.shared := by
      refine Option.map_congr fun f hf => Function.update_of_ne ?_ _ _
      rintro rfl
      exact hj (hapart j hf)
    simp only [view, setShared, Function.update_of_ne hj, hslot]

/-- An entry that is erased. -/
theorem view_erasePromise (hw : Wired s) (id : Nat) :
    Wired (s.erasePromise id) ∧ view ans (s.erasePromise id) id = { view ans s id with entry := none, slot := none } ∧
      ∀ j, j ≠ id → view ans (s.erasePromise id) j = view ans s j := by
  have hof : ∀ j f, (s.erasePromise id).m_configPromises j = some f → s.m_configPromises j = some f := by
    intro j f hj
    simp only [erasePromise, Function.update_apply] at hj
    split at hj
    · cases hj
    · exact hj
  refine ⟨⟨fun j f hj => hw.below j f (hof j f hj), fun j j' f hj hj' => hw.apart j j' f (hof j f hj) (hof j' f hj'),
    hw.unmade⟩, ?_, fun j hj => ?_⟩
  · simp [view, erasePromise]
  · simp [view, erasePromise, Function.update_of_ne hj]

end Views

/-! ## An id of one call -/

theorem singleton_split {α : Type} {x y : α} {before after : List α} (h : [x] = before ++ y :: after) :
    before = [] ∧ x = y ∧ after = [] := by
  cases before with
  | nil => exact ⟨rfl, (List.cons.inj h).1, (List.cons.inj h).2.symm⟩
  | cons b before => simp at h

section Single

variable {w : View V} {before after : List (CallPc V)}

/-- The one call, where it stands. -/
theorem Single.at {pc : CallPc V} (h : Single w) (hpcs : w.pcs = before ++ pc :: after) :
    before = [] ∧ after = [] ∧ ∃ a : Answer V, Fits pc a w.entry w.slot ∧ a.At w := by
  cases h with
  | unused hnone => simp [hnone] at hpcs
  | call pc' a hone hfits hat =>
    rw [hone] at hpcs
    obtain ⟨hb, rfl, ha⟩ := singleton_split hpcs
    exact ⟨hb, ha, a, hfits, hat⟩

theorem Single.get_future (h : Single w) (hpcs : w.pcs = before ++ .requested :: after) {k : Nat}
    (hk : ∀ f, w.entry = some f → f = k) :
    (w.slot.getD {}).retrieved = false ∧
      Single { w with
        pcs := before ++ .waiting k :: after, entry := some k, slot := some { w.slot.getD {} with retrieved := true } } := by
  obtain ⟨rfl, rfl, a, hfits, hat⟩ := h.at hpcs
  cases w
  cases hfits with
  | requested _ hnone =>
    have hwaits := Fits.waiting k a
    rw [hnone] at hwaits
    exact ⟨rfl, .call _ a rfl hwaits hat⟩
  | early f v =>
    obtain rfl := hk f rfl
    exact ⟨rfl, .call _ (.polled v) rfl (.waiting f (.polled v)) hat⟩

theorem Single.wait_for (h : Single w) {f : Nat} (hpcs : w.pcs = before ++ .waiting f :: after) {ready : Bool}
    (hready : ready = true → ∀ st, w.slot = some st → st.value.isSome) :
    Single { w with pcs := before ++ .finishing f ready :: after } := by
  obtain ⟨rfl, rfl, a, hfits, hat⟩ := h.at hpcs
  cases w
  cases hfits
  exact .call _ a rfl (.finishing f a ready fun hr => hready hr _ rfl) hat

theorem Single.erase (h : Single w) {f : Nat} {ready : Bool} (hpcs : w.pcs = before ++ .finishing f ready :: after)
    {st : SharedState V} (hst : w.slot = some st) :
    Single { w with
      pcs := before ++ .returned (if ready then st.value else none) :: after, entry := none, slot := none } := by
  obtain ⟨rfl, rfl, a, hfits, hat⟩ := h.at hpcs
  cases w
  cases hfits
  cases hst
  refine .call _ a rfl (.returned a _ ?_) hat
  cases ready with
  | false => exact Or.inl rfl
  | true => exact Or.inr rfl

theorem Single.respond (h : Single w) (hasked : 0 < w.unanswered) (v : V) :
    Single { w with
      unanswered := w.unanswered - 1, queued := w.queued ++ [v], answered := w.answered ++ [v] } := by
  cases h with
  | unused _ _ _ hnone => omega
  | call pc a hone hfits hat =>
    cases a with
    | asked =>
      obtain ⟨hu, hq, ha⟩ := hat
      refine .call pc (.queued v) hone ?_ ⟨by simp [hu], by simp [hq], by simp [ha]⟩
      -- the promise is as it was
      generalize w.entry = entry at hfits
      generalize w.slot = slot at hfits
      cases hfits with
      | requested => exact .requested _ rfl
      | waiting f => exact .waiting f (.queued v)
      | finishing f _ ready hr => exact .finishing f (.queued v) ready hr
      | returned _ r hr => exact .returned _ r hr
    | queued u => exact absurd hat.1 (by omega)
    | polled u => exact absurd hat.1 (by omega)

theorem Single.poll (h : Single w) {v : V} {queued : List V} (hq : w.queued = v :: queued) {k : Nat}
    (hk : ∀ f, w.entry = some f → f = k) :
    (w.slot.getD {}).value = none ∧
      Single { w with
        queued := queued, entry := some k, slot := some { w.slot.getD {} with value := some v } } := by
  cases h with
  | unused _ _ _ _ hnone => simp [hq] at hnone
  | call pc a hone hfits hat =>
    cases a with
    | asked => exact absurd (hq.symm.trans hat.2.1) (List.cons_ne_nil _ _)
    | polled u => exact absurd (hq.symm.trans hat.2.1) (List.cons_ne_nil _ _)
    | queued u =>
      obtain ⟨hu, hqu, ha⟩ := hat
      obtain ⟨rfl, rfl⟩ := List.cons.inj (hq.symm.trans hqu)
      cases w
      cases hfits with
      | requested => exact ⟨rfl, .call _ (.polled v) hone (.early k v) ⟨hu, rfl, ha⟩⟩
      | waiting f =>
        obtain rfl := hk f rfl
        exact ⟨rfl, .call _ (.polled v) hone (.waiting f (.polled v)) ⟨hu, rfl, ha⟩⟩
      | finishing f _ ready hr =>
        obtain rfl := hk f rfl
        exact ⟨rfl, .call _ (.polled v) hone (.finishing f (.polled v) ready fun _ => rfl) ⟨hu, rfl, ha⟩⟩
      | returned _ r hr =>
        obtain rfl : r = none := hr.elim id id
        exact ⟨rfl, .call _ (.polled v) hone (.late k v) ⟨hu, rfl, ha⟩⟩

end Single

/-! ## The id of the calls whose request failed -/

section Failed

variable {w : View V} {before after : List (CallPc V)}

theorem Failed.request (h : Failed w) : Failed { w with pcs := w.pcs ++ [.requested] } := by
  refine { h with pcs := fun pc hpc => ?_, held := ?_ }
  · rcases List.mem_append.mp hpc with hpc | hpc
    · exact h.pcs pc hpc
    · rw [List.mem_singleton.mp hpc]
      rfl
  · rw [List.filterMap_append, h.held]
    exact List.append_nil _

/-- The other calls stay as they are. -/
theorem Failed.other (h : Failed w) {pc pc' : CallPc V} (hpcs : w.pcs = before ++ pc :: after)
    (hpc : CallPc.found pc' = false) : ∀ p ∈ before ++ pc' :: after, CallPc.found p = false := by
  intro p hp
  rcases List.mem_append.mp hp with hp | hp
  · exact h.pcs p (hpcs ▸ List.mem_append_left _ hp)
  · rcases List.mem_cons.mp hp with rfl | hp
    · exact hpc
    · exact h.pcs p (hpcs ▸ List.mem_append_right _ (List.mem_cons_of_mem _ hp))

theorem Failed.get_future (h : Failed w) (hpcs : w.pcs = before ++ .requested :: after) (k : Nat) :
    ((w.slot.getD {}).retrieved = false ↔ ∀ pc ∈ w.pcs, CallPc.holds pc = none) ∧
      ((∀ pc ∈ w.pcs, CallPc.holds pc = none) → Failed { w with
        pcs := before ++ .waiting k :: after, entry := some k, slot := some { w.slot.getD {} with retrieved := true } }) := by
  rw [← List.filterMap_eq_nil_iff, h.held, h.slot]
  cases he : w.entry with
  | some f => exact ⟨by simp, fun hnil => by cases hnil⟩
  | none =>
    have hheld := h.held
    rw [hpcs, he, List.filterMap_append] at hheld
    obtain ⟨hb, ha⟩ := List.append_eq_nil_iff.mp hheld
    refine ⟨by simp, fun _ => { h with pcs := ?_, held := ?_, slot := rfl }⟩
    · exact h.other hpcs rfl
    · show (before ++ CallPc.waiting k :: after).filterMap CallPc.holds = [k]
      rw [List.filterMap_append, hb]
      exact congrArg (k :: ·) ha

/-- The future of such a call never gets ready. -/
theorem Failed.empty (h : Failed w) {st : SharedState V} (hst : w.slot = some st) : st.value = none := by
  rw [h.slot] at hst
  obtain ⟨_, _, rfl⟩ := Option.map_eq_some_iff.mp hst
  rfl

theorem Failed.wait_for (h : Failed w) {f : Nat} (hpcs : w.pcs = before ++ .waiting f :: after) :
    Failed { w with pcs := before ++ .finishing f false :: after } := by
  refine { h with pcs := h.other hpcs rfl, held := ?_ }
  have hheld := h.held
  rw [hpcs, List.filterMap_append] at hheld
  show (before ++ CallPc.finishing f false :: after).filterMap CallPc.holds = w.entry.toList
  rw [List.filterMap_append, ← hheld]
  rfl

theorem Failed.erase (h : Failed w) {f : Nat} {ready : Bool} (hpcs : w.pcs = before ++ .finishing f ready :: after) :
    ready = false ∧ Failed { w with pcs := before ++ .returned none :: after, entry := none, slot := none } := by
  have hready : ready = false := h.pcs (.finishing f ready) (by simp [hpcs])
  refine ⟨hready, { h with pcs := ?_, held := ?_, slot := rfl }⟩
  · exact h.other hpcs rfl
  · -- the call was the only one with the future
    have hheld := h.held
    rw [hpcs, List.filterMap_append] at hheld
    have hlen := congrArg List.length hheld
    have hone : w.entry.toList.length ≤ 1 := by cases w.entry <;> simp
    simp only [List.length_append, List.filterMap_cons, CallPc.holds, List.length_cons] at hlen
    show (before ++ CallPc.returned none :: after).filterMap CallPc.holds = []
    rw [List.filterMap_append]
    refine List.append_eq_nil_iff.mpr ⟨List.length_eq_zero_iff.mp (by omega), ?_⟩
    exact List.length_eq_zero_iff.mp (by simp only [List.filterMap_cons, CallPc.holds]; omega)

end Failed

/-! ## The steps -/

section Steps

variable {ans : List (Nat × V)} {s : ConfigState V}

theorem request_keeps (h : Consistent ans s) {answer : Option Nat} (hfresh : Fresh s (.request answer)) :
    Consistent ans (s.request answer) := by
  have hw : Wired (s.request answer) := ⟨h.wired.below, h.wired.apart, h.wired.unmade⟩
  cases answer with
  | none =>
    refine h.of_view 0 hw (fun e => absurd rfl e) (fun _ => ?_) fun j hj => ?_
    · have hview : view ans (s.request none) 0 = { view ans s 0 with pcs := (view ans s 0).pcs ++ [.requested] } := by
        simp [view, ConfigState.request]
      rw [hview]
      exact h.failed.request
    · simp [view, ConfigState.request, hj.symm]
  | some id =>
    obtain ⟨hne, hnew⟩ := hfresh
    refine h.of_view id hw (fun _ => ?_) (fun e => absurd e hne) fun j hj => ?_
    · have hnone : s.calls.filter (·.id = id) = [] := by simpa [List.filter_eq_nil_iff] using hnew
      cases h.single id hne with
      | unused _ hentry hslot hun hq ha =>
        refine .call .requested .asked ?_ ?_ ⟨?_, hq, ha⟩
        · simp [view, ConfigState.request, hnone]
        · show Fits _ _ (view ans s id).entry (view ans s id).slot
          rw [hentry, hslot]
          exact .requested _ rfl
        · have hcount : s.unanswered.count id = 0 := hun
          simp [view, ConfigState.request, hcount]
      | call pc a hone => simp [view, hnone] at hone
    · simp [view, ConfigState.request, hj.symm]

/-- The position of a call does not matter to the entries. -/
theorem Wired.setPc (h : Wired s) (n : Nat) (c : ConfigCall V) (pc : CallPc V) : Wired (s.setPc n c pc) :=
  ⟨h.below, h.apart, h.unmade⟩

/-- Whether a call may take the future depends on the calls of id 0 only. -/
theorem apart_iff (ans : List (Nat × V)) {n id : Nat} (hc : s.calls[n]? = some ⟨id, .requested⟩) :
    Apart s (.get_future n) ↔ (id = 0 → ∀ pc ∈ (view ans s 0).pcs, CallPc.holds pc = none) := by
  simp only [Apart, hc, Option.some.injEq, ConfigCall.mk.injEq, and_true, view]
  refine forall_congr' fun _ => ⟨fun h pc hpc => ?_, fun h c hc hid => ?_⟩
  · obtain ⟨c, hmem, rfl⟩ := List.mem_map.mp hpc
    obtain ⟨hmem, hid⟩ := List.mem_filter.mp hmem
    exact h c hmem (of_decide_eq_true hid)
  · exact h c.pc (List.mem_map.mpr ⟨c, List.mem_filter.mpr ⟨hc, decide_eq_true hid⟩, rfl⟩)

/-- A call moves on from `u`, which differs from `s` in the view of its id only. -/
theorem Consistent.moved {u : ConfigState V} (h : Consistent ans s) (hw : Wired u) {n : Nat} {c : ConfigCall V}
    (hc : u.calls[n]? = some c) (pc : CallPc V) (hother : ∀ j, j ≠ c.id → view ans u j = view ans s j)
    (hsingle : c.id ≠ 0 → ∀ before after, (view ans u c.id).pcs = before ++ c.pc :: after →
      Single { view ans u c.id with pcs := before ++ pc :: after })
    (hfailed : c.id = 0 → ∀ before after, (view ans u c.id).pcs = before ++ c.pc :: after →
      Failed { view ans u c.id with pcs := before ++ pc :: after }) : Consistent ans (u.setPc n c pc) := by
  obtain ⟨⟨before, after, hpcs, hmoved⟩, hstay⟩ := view_setPc ans hc pc
  refine h.of_view c.id (hw.setPc n c pc) (fun hne => ?_) (fun h0 => ?_) fun j hj => (hstay j hj).trans (hother j hj)
  · rw [hmoved]
    exact hsingle hne before after hpcs
  · rw [hmoved]
    exact hfailed h0 before after hpcs

theorem get_future_exact (h : Consistent ans s) (n : Nat) :
    Exact (· = .future_already_retrieved) (Apart s (.get_future n)) (Consistent ans)
      (lift (s.get_future n) : Emit (Nat × V) FutureError (ConfigState V)) := by
  cases hc : s.calls[n]? with
  | none => exact exact_of_ok (by simp [ConfigState.get_future, hc]) (by simp [Apart, hc]) h
  | some c =>
  obtain ⟨id, pc⟩ := c
  cases pc with
  | requested =>
    obtain ⟨k, t, hp, hcalls, hshared, hk, hset⟩ := view_promise ans h.wired id
    obtain ⟨hwired, hview, hother⟩ := hset { t.shared k with retrieved := true }
    rw [apart_iff ans hc]
    have hretrieved : (t.shared k).retrieved = false ↔ (id = 0 → ∀ pc ∈ (view ans s 0).pcs, CallPc.holds pc = none) := by
      rw [hshared]
      obtain ⟨before, after, hpcs, -⟩ := (view_setPc ans hc (.waiting k)).1
      by_cases hid : id = 0
      · subst hid
        exact (h.failed.get_future hpcs k).1.trans ⟨fun hnone _ => hnone, fun hnone => hnone rfl⟩
      · exact ⟨fun _ e => absurd e hid, fun _ => ((h.single id hid).get_future hpcs hk).1⟩
    have hkeep : (id = 0 → ∀ pc ∈ (view ans s 0).pcs, CallPc.holds pc = none) → Consistent ans
        ((t.setShared k { t.shared k with retrieved := true }).setPc n ⟨id, .requested⟩ (.waiting k)) := by
      intro hnone
      have hc' : (t.setShared k { t.shared k with retrieved := true }).calls[n]? = some ⟨id, .requested⟩ := by
        rw [← hc, ← hcalls]
        rfl
      rw [hshared] at hview
      refine h.moved hwired hc' (.waiting k) hother (fun hne before after => ?_) fun h0 before after => ?_
      · simp only [hshared, hview]
        exact fun hpcs => ((h.single id hne).get_future hpcs hk).2
      · obtain rfl : id = 0 := h0
        simp only [hshared, hview]
        exact fun hpcs => (h.failed.get_future hpcs k).2 (hnone rfl)
    cases hr : (t.shared k).retrieved with
    | true => exact exact_of_error (by simp [ConfigState.get_future, hc, hp, hr]) (by rw [← hretrieved, hr]; simp) rfl
    | false =>
      refine exact_of_ok ?_ (hretrieved.mp hr) (hkeep (hretrieved.mp hr))
      simp [ConfigState.get_future, hc, hp, hr]
  | waiting f => exact exact_of_ok (by simp [ConfigState.get_future, hc]) (by simp [Apart, hc]) h
  | finishing f ready => exact exact_of_ok (by simp [ConfigState.get_future, hc]) (by simp [Apart, hc]) h
  | returned v => exact exact_of_ok (by simp [ConfigState.get_future, hc]) (by simp [Apart, hc]) h

/-- What a call's future shares, seen from its id. -/
theorem slot_of_holds (h : Consistent ans s) {n : Nat} {c : ConfigCall V} (hc : s.calls[n]? = some c) {f : Nat}
    (hf : CallPc.holds c.pc = some f) : (view ans s c.id).slot = some (s.shared f) := by
  obtain ⟨before, after, hpcs, -⟩ := (view_setPc ans hc c.pc).1
  have hentry : (view ans s c.id).entry = some f := by
    by_cases hid : c.id = 0
    · have hmem : f ∈ (view ans s c.id).pcs.filterMap CallPc.holds :=
        List.mem_filterMap.mpr ⟨c.pc, by rw [hpcs]; simp, hf⟩
      rw [hid, h.failed.held] at hmem
      rw [hid]
      exact Option.mem_toList.mp hmem
    · obtain ⟨-, -, a, hfits, -⟩ := (h.single c.id hid).at hpcs
      generalize c.pc = pc at hf hfits
      generalize (view ans s c.id).entry = entry at hfits
      generalize (view ans s c.id).slot = slot at hfits
      cases hfits <;> cases hf <;> rfl
  show (view ans s c.id).entry.map s.shared = _
  rw [hentry]
  rfl

theorem wait_for_keeps (h : Consistent ans s) (n : Nat) (timeout : Bool) : Consistent ans (s.wait_for n timeout) := by
  unfold ConfigState.wait_for
  split
  · rename_i id f hc
    have hslot : (view ans s id).slot = some (s.shared f) := slot_of_holds h hc rfl
    have hmoves : ∀ ready : Bool, (ready = true → (s.shared f).value.isSome) →
        Consistent ans (s.setPc n ⟨id, .waiting f⟩ (.finishing f ready)) := by
      intro ready hready
      refine h.moved h.wired hc _ (fun _ _ => rfl) (fun hne before after hpcs => ?_) fun h0 before after hpcs => ?_
      · refine (h.single id hne).wait_for hpcs fun hr st hst => ?_
        obtain rfl := Option.some.inj (hslot.symm.trans hst)
        exact hready hr
      · obtain rfl : id = 0 := h0
        cases ready with
        | false => exact h.failed.wait_for hpcs
        | true =>
          have hsome := hready rfl
          rw [h.failed.empty hslot] at hsome
          cases hsome
    split
    · exact hmoves true fun _ => by assumption
    · split
      · exact hmoves false fun e => by cases e
      · exact h
  · exact h

theorem erase_keeps (h : Consistent ans s) (n : Nat) : Consistent ans (s.erase n) := by
  unfold ConfigState.erase
  split
  · rename_i id f ready hc
    have hslot : (view ans s id).slot = some (s.shared f) := slot_of_holds h hc rfl
    obtain ⟨hwired, hview, hother⟩ := view_erasePromise ans h.wired id
    refine h.moved hwired hc _ hother (fun hne before after => ?_) fun h0 before after => ?_
    · simp only [hview]
      exact fun hpcs => (h.single id hne).erase hpcs hslot
    · obtain rfl : id = 0 := h0
      simp only [hview]
      intro hpcs
      obtain ⟨rfl, hkept⟩ := h.failed.erase hpcs
      exact hkept
  · exact h

theorem respond_keeps (h : Consistent ans s) (id : Nat) (v : V) (hmem : id ∈ s.unanswered) :
    Exact (· = .future_already_retrieved) True (Consistent (ans ++ (s.respond id v).out)) (s.respond id v) := by
  have hpos : 0 < s.unanswered.count id := List.count_pos_iff.mpr hmem
  refine exact_of_ok rfl trivial ?_
  show Consistent (ans ++ [(id, v)])
    { s with unanswered := s.unanswered.erase id, responses := s.responses ++ [(id, v)] }
  refine h.of_view id ⟨h.wired.below, h.wired.apart, h.wired.unmade⟩ (fun hne => ?_) (fun h0 => ?_) fun j hj => ?_
  · have hkept := (h.single id hne).respond hpos v
    simpa [view] using hkept
  · subst h0
    have hnone : s.unanswered.count 0 = 0 := h.failed.unanswered
    omega
  · simp [view, hj.symm, List.count_erase_of_ne hj]

theorem poll_keeps (h : Consistent ans s) :
    Exact (· = .future_already_retrieved) True (Consistent ans)
      (lift s.poll : Emit (Nat × V) FutureError (ConfigState V)) := by
  unfold ConfigState.poll
  split
  · exact exact_of_ok rfl trivial h
  · rename_i id v responses hr
    have hresponses : Wired { s with responses := responses } := ⟨h.wired.below, h.wired.apart, h.wired.unmade⟩
    obtain ⟨k, t, hp, hcalls, hshared, hk, hset⟩ := view_promise ans hresponses id
    have hq : (view ans s id).queued = v :: (view ans { s with responses := responses } id).queued := by simp [view, hr]
    have hne : id ≠ 0 := by
      rintro rfl
      exact absurd (hq.symm.trans h.failed.queued) (List.cons_ne_nil _ _)
    obtain ⟨hnone, hkept⟩ := (h.single id hne).poll hq hk
    have hvalue : (t.shared k).value = none := by
      rw [hshared]
      exact hnone
    obtain ⟨hwired, hview, hother⟩ := hset { t.shared k with value := some v }
    refine exact_of_ok (a := t.setShared k { t.shared k with value := some v }) ?_ trivial ?_
    · simp [ConfigState.onConfigResponse, hp, hvalue]
    · refine h.of_view id hwired (fun _ => ?_) (fun h0 => absurd h0 hne) fun j hj => (hother j hj).trans ?_
      · rw [hview, hshared]
        exact hkept
      · simp [view, hr, hj.symm]

theorem step_exact (h : Consistent ans s) (a : ConfigAct V) (hfresh : Fresh s a) (honce : Once s a) :
    Exact (· = .future_already_retrieved) (Apart s a) (Consistent (ans ++ (s.step a).out)) (s.step a) := by
  cases a with
  | request answer => exact exact_of_ok rfl trivial (by simpa [step] using request_keeps h hfresh)
  | get_future n => simpa [step] using get_future_exact h n
  | wait_for n timeout => exact exact_of_ok rfl trivial (by simpa [step] using wait_for_keeps h n timeout)
  | erase n => exact exact_of_ok rfl trivial (by simpa [step] using erase_keeps h n)
  | respond id value => exact respond_keeps h id value honce
  | poll => simpa [step, Apart] using poll_keeps h

end Steps

/-! ## Whole runs -/

theorem init_consistent : Consistent [] ({} : ConfigState V) where
  wired := ⟨fun _ _ e => by (cases e), fun _ _ _ e => by (cases e), fun _ _ => rfl⟩
  single _ _ := .unused rfl rfl rfl rfl rfl rfl
  failed := ⟨rfl, rfl, rfl, fun _ e => (by cases e), rfl, rfl⟩

theorem runs_consistent {acts : List (ConfigAct V)} (hfresh : Along step Fresh {} acts)
    (honce : Along step Once {} acts) :
    Exact (· = .future_already_retrieved) (Along step Apart {} acts) (Consistent (runs step {} acts).out)
      (runs step {} acts) :=
  runs_exact step (I := Consistent) (fun _ _ a h hf => step_exact h a hf.1 hf.2) acts [] {} init_consistent
    (along_and step hfresh honce)

/-- Where LeapC gives every request an id of its own, and answers it once, an exception is
    thrown exactly if a call whose request failed takes its future while another such call
    has it. -/
theorem config_returns_iff {acts : List (ConfigAct V)} (hfresh : Along step Fresh {} acts)
    (honce : Along step Once {} acts) : (∃ t, (runs step {} acts).res = .ok t) ↔ Along step Apart {} acts := by
  have hexact := runs_consistent hfresh honce
  constructor
  · intro hret
    obtain ⟨t, ht⟩ := hret
    exact (hexact.2 t ht).1
  · intro hapart
    cases hres : (runs step {} acts).res with
    | ok t => exact ⟨t, rfl⟩
    | error e => exact absurd hapart (hexact.1 e hres).2

theorem config_returns_iff_failed :
    (runs step ({} : ConfigState Nat) [.request none, .request none, .get_future 0, .get_future 1]).res =
        .error .future_already_retrieved ∧
      ((∃ t, (runs step ({} : ConfigState Nat) [.request none, .request none, .get_future 0, .get_future 1]).res = .ok t) ↔
        Along step Apart ({} : ConfigState Nat) [.request none, .request none, .get_future 0, .get_future 1]) :=
  ⟨rfl, config_returns_iff ⟨trivial, fun _ _ => ⟨trivial, fun _ _ => ⟨trivial, fun _ _ => ⟨trivial, fun _ _ => trivial⟩⟩⟩⟩
    ⟨trivial, fun _ _ => ⟨trivial, fun _ _ => ⟨trivial, fun _ _ => ⟨trivial, fun _ _ => trivial⟩⟩⟩⟩⟩

/-- The items of an id. -/
theorem mem_of_id {l : List (Nat × V)} {id : Nat} {v : V} : v ∈ (l.filter (·.1 = id)).map (·.2) ↔ (id, v) ∈ l := by
  simp

theorem only_of_id {l : List (Nat × V)} {id : Nat} {v : V} (h : (l.filter (·.1 = id)).map (·.2) = [v]) :
    l.filter (·.1 = id) = [(id, v)] := by
  obtain ⟨p, hp, hv⟩ := List.map_eq_singleton_iff.mp h
  have hid := (List.mem_filter.mp (hp ▸ List.mem_singleton_self p)).2
  rw [hp, ← hv, ← of_decide_eq_true hid]

/-- What the one call of an id returned. -/
theorem Single.returned {w : View V} (h : Single w) {before after : List (CallPc V)} {v : V}
    (hpcs : w.pcs = before ++ .returned (some v) :: after) : w.answered = [v] := by
  obtain ⟨-, -, a, hfits, hat⟩ := h.at hpcs
  generalize w.entry = entry at hfits
  generalize w.slot = slot at hfits
  cases hfits with
  | returned _ _ hv =>
    cases a with
    | polled u =>
      obtain rfl : v = u := by simpa [Answer.value] using hv
      exact hat.2.2
    | _ => simp [Answer.value] at hv

/-- What it waits for. -/
theorem Single.waiting {w : View V} (h : Single w) {before after : List (CallPc V)} {f : Nat}
    (hpcs : w.pcs = before ++ .waiting f :: after) {st : SharedState V} (hst : w.slot = some st) (v : V) :
    st.value = some v ↔ v ∈ w.answered ∧ v ∉ w.queued := by
  obtain ⟨-, -, a, hfits, hat⟩ := h.at hpcs
  rw [hst] at hfits
  generalize w.entry = entry at hfits
  cases hfits
  cases a with
  | asked => simp [Answer.value, hat.2.2]
  | queued u => simp [Answer.value, hat.2.1, hat.2.2]
  | polled u => simp [Answer.value, hat.2.1, hat.2.2, eq_comm]

/-- Whatever the interleaving: what a call returned is the one answer that the service gave
    to its request, and a call that waits finds its future ready exactly when the answer to
    its request is given and polled. -/
theorem config_correlated {acts : List (ConfigAct V)} (hfresh : Along step Fresh {} acts)
    (honce : Along step Once {} acts) {t : ConfigState V} (ht : (runs step {} acts).res = .ok t) {c : ConfigCall V}
    (hc : c ∈ t.calls) :
    (∀ v, c.pc = .returned (some v) → (runs step {} acts).out.filter (·.1 = c.id) = [(c.id, v)]) ∧
      ∀ f, c.pc = .waiting f → ∀ v, (t.shared f).value = some v ↔
        (c.id, v) ∈ (runs step {} acts).out ∧ (c.id, v) ∉ t.responses := by
  have hcons := ((runs_consistent hfresh honce).2 t ht).2
  obtain ⟨n, hn⟩ := List.mem_iff_getElem?.mp hc
  obtain ⟨before, after, hpcs, -⟩ := (view_setPc (runs step {} acts).out hn c.pc).1
  have hmem : c.pc ∈ (view (runs step {} acts).out t c.id).pcs := by
    rw [hpcs]
    simp
  constructor
  · intro v hv
    rw [hv] at hpcs hmem
    by_cases hid : c.id = 0
    · rw [hid] at hmem
      exact absurd (hcons.failed.pcs _ hmem) (by simp [CallPc.found])
    · exact only_of_id ((hcons.single c.id hid).returned hpcs)
  · intro f hf v
    have hslot := slot_of_holds hcons hn (by rw [hf]; rfl)
    rw [hf] at hpcs
    rw [← mem_of_id, ← mem_of_id]
    by_cases hid : c.id = 0
    · rw [hid] at hslot ⊢
      rw [hcons.failed.empty hslot]
      show none = some v ↔ v ∈ (view (runs step {} acts).out t 0).answered ∧ _
      simp [hcons.failed.answered]
    · exact (hcons.single c.id hid).waiting hpcs hslot v

/-- The service answers before the call takes the future. -/
def earlyAnswer : List (ConfigAct Nat) := [.request (some 7), .respond 7 42, .poll, .get_future 0, .wait_for 0 true, .erase 0]

theorem earlyAnswer_fresh : Along step Fresh {} earlyAnswer :=
  ⟨⟨by decide, fun _ hc => by cases hc⟩, fun _ _ => ⟨trivial, fun _ _ => ⟨trivial, fun _ _ => ⟨trivial, fun _ _ =>
    ⟨trivial, fun _ _ => ⟨trivial, fun _ _ => trivial⟩⟩⟩⟩⟩⟩

theorem earlyAnswer_once : Along step Once {} earlyAnswer :=
  ⟨trivial, fun _ ht => ⟨by cases ht; exact List.mem_singleton_self 7, fun _ _ => ⟨trivial, fun _ _ => ⟨trivial, fun _ _ =>
    ⟨trivial, fun _ _ => ⟨trivial, fun _ _ => trivial⟩⟩⟩⟩⟩⟩

theorem config_correlated_early : ∃ t, (runs step {} earlyAnswer).res = .ok t ∧ ∃ c ∈ t.calls,
    c.pc = .returned (some 42) ∧ (runs step {} earlyAnswer).out.filter (·.1 = c.id) = [(c.id, 42)] :=
  ⟨_, rfl, _, List.mem_singleton_self _, rfl,
    (config_correlated earlyAnswer_fresh earlyAnswer_once rfl (List.mem_singleton_self _)).1 42 rfl⟩

end ConfigState

end LeapSyncFfh
