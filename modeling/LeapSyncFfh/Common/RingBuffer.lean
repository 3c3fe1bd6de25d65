/-
  LeapSyncFfh.Common.RingBuffer — `CircularBuffer` under any sequence of calls.

  The storage is right: the last `n` values are in their slots, whatever was popped in
  between (`keeps_last`). The cursors are computed here in `size_t` too, of `w` bits; while
  `2 n` fits they do not wrap (`wrapUse_eq`).

  The observers are not. `updateHeadTail` puts the head one behind the tail, so of what was
  added only the last item counts as stored: the buffer is a queue for one item
  (`single_observes`), and the queue of capacity `n - 1` that `size` and `full` are written
  for only as long as no two adds follow each other (`fifo_iff`). `back` reads the slot that
  the tail has moved on to (`back_newest_iff`). `setSize` leaves both cursors where they
  were (`resized_safely_iff`).
-/

import LeapSyncFfh.Common.CircularBuffer
import LeapSyncFfh.Lib.Emit
import LeapSyncFfh.Lib.Ring
import Mathlib.Algebra.Group.Nat.Defs

namespace LeapSyncFfh

open Cells Emit

namespace CircularBuffer

variable {T : Type}

/-! ## The calls -/

inductive Use (T : Type) where
  | add (value : T)
  | popFront

def Use.value? : Use T → Option T
  | .add value => some value
  | .popFront => none

/-- The values added, oldest first. -/
def adds (us : List (Use T)) : List T := us.filterMap Use.value?

def use (b : CircularBuffer T) : Use T → Except Fault (CircularBuffer T)
  | .add value => b.add value
  | .popFront => b.popFront

inductive Call (T : Type) where
  | setSize (size : Nat)
  | use (u : Use T)

/-- The outputs are the calls made. -/
def call (dflt : T) (b : CircularBuffer T) : Call T → Emit (Call T) Fault (CircularBuffer T)
  | .setSize size => do
    emit (.setSize size)
    pure (b.setSize dflt size)
  | .use u => do
    emit (.use u)
    lift (b.use u)

/-! ## The storage -/

/-- A buffer of `n` slots with the values `vs` written since it was sized. -/
structure Ringed (dflt : T) (n : Nat) (vs : List T) (b : CircularBuffer T) : Prop where
  size : b.m_size = n
  latest : Ring.Latest dflt n vs b.m_tail b.m_buffer
  head : b.m_head < n

section Ringed

variable {dflt : T} {n : Nat} {vs : List T} {b : CircularBuffer T}

theorem ringed_make (dflt : T) (hn : 1 ≤ n) : Ringed dflt n [] (make dflt n) := ⟨rfl, Ring.Latest.fresh hn, hn⟩

theorem ringed_setSize (h : Ringed dflt n vs b) : Ringed dflt n [] (b.setSize dflt n) :=
  ⟨rfl, Ring.Latest.fresh h.latest.cursor, h.head⟩

theorem ringed_add (h : Ringed dflt n vs b) (v : T) :
    b.add v = .ok (b.added v) ∧ Ringed dflt n (vs ++ [v]) (b.added v) := by
  have htail := h.latest.cursor
  have hlen := h.latest.length
  refine ⟨add_eq (by omega) (by rw [h.size]; omega) v, h.size, ?_, ?_⟩
  · simp only [added, h.size]
    exact h.latest.write v
  · simp only [added, h.size]
    exact Nat.mod_lt _ (by omega)

/-- The buffer after a `popFront`. -/
def popped (b : CircularBuffer T) : CircularBuffer T :=
  { b with m_head := if b.empty then b.m_head else (b.m_head + 1) % b.m_size }

theorem popFront_eq (hs : b.m_size ≠ 0) : b.popFront = .ok b.popped := by
  unfold popFront popped
  cases b.empty with
  | true => rfl
  | false => simp [hs]

theorem ringed_popFront (h : Ringed dflt n vs b) : b.popFront = .ok b.popped ∧ Ringed dflt n vs b.popped := by
  have htail := h.latest.cursor
  refine ⟨popFront_eq (by rw [h.size]; omega), h.size, h.latest, ?_⟩
  simp only [popped]
  split
  · exact h.head
  · rw [h.size]
    exact Nat.mod_lt _ (by omega)

theorem ringed_use (h : Ringed dflt n vs b) (u : Use T) : ∃ c, b.use u = .ok c ∧
    Ringed dflt n (vs ++ u.value?.toList) c ∧ c.m_tail = (b.m_tail + u.value?.toList.length) % n := by
  cases u with
  | add v =>
    obtain ⟨hadd, hc⟩ := ringed_add h v
    exact ⟨_, hadd, hc, by simp [added, h.size, Use.value?]⟩
  | popFront =>
    obtain ⟨hpop, hc⟩ := ringed_popFront h
    refine ⟨_, hpop, by simpa [Use.value?] using hc, ?_⟩
    simp [popped, Use.value?, Nat.mod_eq_of_lt h.latest.cursor]

theorem foldl_adds (us : List (Use T)) : us.foldl (fun vs u => vs ++ u.value?.toList) [] = adds us := by
  rw [List.foldl_append_eq_append, List.nil_append, adds, List.filterMap_eq_flatMap_toList, List.flatMap_def]

/-- From the fresh buffer the tail counts the adds. -/
theorem ringed_uses (dflt : T) (hn : 1 ≤ n) (us : List (Use T)) : ∃ b, us.foldlM use (make dflt n) = .ok b ∧
    Ringed dflt n (adds us) b ∧ b.m_tail = (adds us).length % n := by
  have hstep : ∀ (vs : List T) (b : CircularBuffer T) (u : Use T), Ringed dflt n vs b ∧ b.m_tail = vs.length % n →
      ∃ c, b.use u = .ok c ∧ Ringed dflt n (vs ++ u.value?.toList) c ∧ c.m_tail = (vs ++ u.value?.toList).length % n := by
    rintro vs b u ⟨h, htail⟩
    obtain ⟨c, hc, hring, htail'⟩ := ringed_use h u
    exact ⟨c, hc, hring, by rw [htail', htail, List.length_append, Nat.mod_add_mod]⟩
  rw [← foldl_adds us]
  exact foldlM_follows hstep ⟨ringed_make dflt hn, (Nat.zero_mod n).symm⟩ us

end Ringed

/-! ## `size_t` -/

/-- The cursors as sums in a `size_t` of `w` bits. -/
def wrapUpdateHeadTail (w : Nat) (b : CircularBuffer T) : Except Fault (CircularBuffer T) :=
  if b.m_size = 0 then .error .divisionByZero
  else
    let m_tail := (b.m_tail + 1) % 2 ^ w % b.m_size
    .ok { b with m_tail := m_tail, m_head := ((m_tail + b.m_size) % 2 ^ w + 2 ^ w - 1) % 2 ^ w % b.m_size }

def wrapAdd (w : Nat) (b : CircularBuffer T) (value : T) : Except Fault (CircularBuffer T) := do
  let m_buffer ← store (.outOfBounds .m_buffer) b.m_buffer b.m_tail value
  wrapUpdateHeadTail w { b with m_buffer := m_buffer }

def wrapPopFront (w : Nat) (b : CircularBuffer T) : Except Fault (CircularBuffer T) :=
  if !b.empty then
    if b.m_size = 0 then .error .divisionByZero
    else .ok { b with m_head := (b.m_head + 1) % 2 ^ w % b.m_size }
  else .ok b

def wrapUse (w : Nat) (b : CircularBuffer T) : Use T → Except Fault (CircularBuffer T)
  | .add value => b.wrapAdd w value
  | .popFront => b.wrapPopFront w

section Wrap

variable {dflt : T} {w n : Nat} {vs : List T} {b : CircularBuffer T}

theorem wrapUpdateHeadTail_eq (hw : 2 * n < 2 ^ w) (hs : b.m_size = n) (ht : b.m_tail < n) :
    b.wrapUpdateHeadTail w = b.updateHeadTail := by
  have hlt : (b.m_tail + 1) % n < n := Nat.mod_lt _ (by omega)
  have htail : (b.m_tail + 1) % 2 ^ w = b.m_tail + 1 := Nat.mod_eq_of_lt (by omega)
  have hsum : ((b.m_tail + 1) % n + n) % 2 ^ w = (b.m_tail + 1) % n + n := Nat.mod_eq_of_lt (by omega)
  have hhead : ((b.m_tail + 1) % n + n + 2 ^ w - 1) % 2 ^ w = (b.m_tail + 1) % n + n - 1 := by
    rw [show (b.m_tail + 1) % n + n + 2 ^ w - 1 = (b.m_tail + 1) % n + n - 1 + 2 ^ w by omega, Nat.add_mod_right]
    exact Nat.mod_eq_of_lt (by omega)
  simp only [wrapUpdateHeadTail, updateHeadTail, hs, htail, hsum, hhead]

/-- In a sized buffer no sum wraps. -/
theorem wrapUse_eq (hw : 2 * n < 2 ^ w) (h : Ringed dflt n vs b) (u : Use T) : b.wrapUse w u = b.use u := by
  have htail := h.latest.cursor
  have hhead := h.head
  cases u with
  | add v =>
    have hlt : b.m_tail < b.m_buffer.length := by rw [h.latest.length]; exact htail
    simp only [wrapUse, use, wrapAdd, add, store_lt v hlt, bind, Except.bind]
    exact wrapUpdateHeadTail_eq hw h.size htail
  | popFront =>
    have hsum : (b.m_head + 1) % 2 ^ w = b.m_head + 1 := Nat.mod_eq_of_lt (by omega)
    simp only [wrapUse, use, wrapPopFront, popFront, hsum]

theorem wrapUses_eq (hw : 2 * n < 2 ^ w) {us : List (Use T)} (h : Ringed dflt n vs b) :
    us.foldlM (wrapUse w) b = us.foldlM use b := by
  induction us generalizing vs b with
  | nil => rfl
  | cons u us ih =>
    obtain ⟨c, hc, hring, -⟩ := ringed_use h u
    rw [List.foldlM_cons, List.foldlM_cons, wrapUse_eq hw h, hc]
    exact ih hring

end Wrap

/-- After any adds and pops on a fresh buffer: the value of the `k + 1`-th last add is `k + 1`
    slots behind the tail, and the buffer written all around is a rotation of its values. -/
theorem keeps_last (dflt : T) (w n : Nat) (hn : 1 ≤ n) (hw : 2 * n < 2 ^ w) (us : List (Use T)) :
    ∃ b, us.foldlM (wrapUse w) (make dflt n) = .ok b ∧
      (∀ k, k < min (adds us).length n → b.m_buffer[(b.m_tail + n - 1 - k) % n]? = (adds us).reverse[k]?) ∧
      b.m_tail = (adds us).length % n ∧ b.m_tail < n ∧ b.m_head < n ∧
      (n ≤ (adds us).length → ((adds us).drop ((adds us).length - n)).IsRotated b.getBuffer) := by
  obtain ⟨b, hb, hring, htail⟩ := ringed_uses dflt hn us
  refine ⟨b, (wrapUses_eq hw (ringed_make dflt hn)).trans hb, fun k hk => ?_, htail, hring.latest.cursor, hring.head,
    fun hle => ?_⟩
  · rw [← Ring.slot, hring.latest.cell k (by omega), Ring.recent,
      List.getElem?_eq_getElem (by rw [List.length_reverse]; omega)]
    rfl
  · exact List.IsRotated.symm ⟨b.m_tail, hring.latest.rotate hle⟩

theorem keeps_last_four : ∃ b : CircularBuffer ℤ,
    [Use.add 1, .add 2, .popFront, .add 3, .add 4].foldlM (wrapUse 64) (make 0 3) = .ok b ∧
      [2, 3, 4].IsRotated b.getBuffer := by
  obtain ⟨b, hb, -, -, -, -, hrot⟩ := keeps_last (0 : ℤ) 64 3 (by decide) (by decide)
    [.add 1, .add 2, .popFront, .add 3, .add 4]
  exact ⟨b, hb, hrot (by decide)⟩

/-! ## `back` -/

/-- The values added since the buffer was last sized. -/
def settle (vs : List T) : Call T → List T
  | .setSize _ => []
  | .use u => vs ++ u.value?.toList

def since (cs : List (Call T)) : List T := cs.foldl settle []

/-- The buffer is sized before the first add. -/
def SizedFirst : List (Call T) → Prop
  | [] => False
  | .setSize _ :: _ => True
  | .use .popFront :: cs => SizedFirst cs
  | .use (.add _) :: _ => False

section Back

variable {dflt : T} {n : Nat} {vs : List T} {b : CircularBuffer T}

theorem ringed_call (h : Ringed dflt n vs b) {c : Call T} (hc : ∀ m, c = .setSize m → m = n) :
    ∃ d, (b.call dflt c).res = .ok d ∧ Ringed dflt n (settle vs c) d := by
  cases c with
  | setSize m =>
    obtain rfl := hc m rfl
    exact ⟨_, rfl, ringed_setSize h⟩
  | use u =>
    obtain ⟨d, hd, hring, -⟩ := ringed_use h u
    exact ⟨d, by rw [call, bind_of_ok (emit_res _)]; exact hd, hring⟩

theorem ringed_calls {cs : List (Call T)} (h : Ringed dflt n vs b) (hcs : ∀ m, .setSize m ∈ cs → m = n) :
    ∃ d, (runs (call dflt) b cs).res = .ok d ∧ Ringed dflt n (cs.foldl settle vs) d := by
  induction cs generalizing vs b with
  | nil => exact ⟨b, rfl, h⟩
  | cons c cs ih =>
    obtain ⟨d, hd, hring⟩ := ringed_call h (c := c) fun m hm => hcs m (hm ▸ List.mem_cons_self)
    obtain ⟨e, he, hring'⟩ := ih hring fun m hm => hcs m (List.mem_cons_of_mem _ hm)
    exact ⟨e, bind_res_ok.mpr ⟨d, hd, he⟩, hring'⟩

theorem ringed_back (h : Ringed dflt n vs b) : b.back = .ok (Ring.recent dflt vs (n - 1)) :=
  subscript_ok.mpr h.latest.due

/-- The calls after which `back` is to be `x`. -/
def ending (cs : List (Call T)) (x : T) (pops : Nat) : List (Call T) :=
  cs ++ .use (.add x) :: List.replicate pops (.use .popFront)

/-- `back` after such calls. -/
def Backs (dflt : T) (b : CircularBuffer T) (cs : List (Call T)) (x : T) (pops : Nat) : Prop :=
  ∃ c, (runs (call dflt) b (ending cs x pops)).res = .ok c ∧ c.back = .ok x

theorem settle_pops (vs : List T) (pops : Nat) : (List.replicate pops (Call.use .popFront)).foldl settle vs = vs := by
  induction pops with
  | zero => rfl
  | succ pops ih =>
    rw [List.replicate_succ, List.foldl_cons]
    simpa [settle, Use.value?] using ih

/-- It returns the value added `n - 1` adds before the last. -/
theorem backs_iff {cs : List (Call T)} (h : Ringed dflt n vs b) (hcs : ∀ m, .setSize m ∈ cs → m = n) (x : T) (pops : Nat) :
    Backs dflt b cs x pops ↔ Ring.recent dflt (cs.foldl settle vs ++ [x]) (n - 1) = x := by
  have hsizes : ∀ m, .setSize m ∈ ending cs x pops → m = n := by
    intro m hm
    rcases List.mem_append.mp hm with hm | hm
    · exact hcs m hm
    rcases List.mem_cons.mp hm with hm | hm
    · cases hm
    · cases List.eq_of_mem_replicate hm
  obtain ⟨d, hd, hring⟩ := ringed_calls h hsizes
  have hvs : (ending cs x pops).foldl settle vs = cs.foldl settle vs ++ [x] := by
    rw [ending, List.foldl_append, List.foldl_cons, settle_pops]
    rfl
  rw [hvs] at hring
  have hback := ringed_back hring
  constructor
  · rintro ⟨c, hc, hx⟩
    obtain rfl : d = c := Except.ok.inj (hd.symm.trans hc)
    exact Except.ok.inj (hback.symm.trans hx)
  · intro hx
    rw [hx] at hback
    exact ⟨d, hd, hback⟩

theorem ending_cons (c : Call T) (cs : List (Call T)) (x : T) (pops : Nat) :
    ending (c :: cs) x pops = c :: ending cs x pops := rfl

/-- An add that comes before the first size writes outside. -/
theorem add_unsized (dflt x : T) : (call dflt {} (.use (.add x))).res = .error (.outOfBounds .m_buffer) := rfl

theorem backs_unsized_iff (hn : 1 ≤ n) {cs : List (Call T)} (hcs : ∀ m, .setSize m ∈ cs → m = n) (x : T) (pops : Nat) :
    Backs dflt {} cs x pops ↔ SizedFirst cs ∧ Ring.recent dflt (since cs ++ [x]) (n - 1) = x := by
  have faults : ∀ (y : T) (ds : List (Call T)),
      ¬ ∃ c : CircularBuffer T, (runs (call dflt) {} (.use (.add y) :: ds)).res = .ok c ∧ c.back = .ok x := by
    rintro y ds ⟨c, hc, -⟩
    obtain ⟨d, hd, -⟩ := bind_res_ok.mp hc
    rw [add_unsized] at hd
    cases hd
  induction cs with
  | nil => exact iff_of_false (faults x _) fun h => h.1
  | cons c cs ih =>
    have hrest : ∀ m, .setSize m ∈ cs → m = n := fun m hm => hcs m (List.mem_cons_of_mem _ hm)
    cases c with
    | setSize m =>
      obtain rfl := hcs m List.mem_cons_self
      -- the sized buffer is the constructed one
      have hstep : ∀ ds, (runs (call dflt) {} (.setSize m :: ds)).res = (runs (call dflt) (make dflt m) ds).res := by
        intro ds
        rw [runs, bind_of_ok (a := make dflt m) rfl]
      unfold Backs
      rw [ending_cons, hstep]
      exact (backs_iff (ringed_make dflt hn) hrest x pops).trans (and_iff_right trivial).symm
    | use u =>
      cases u with
      | add y => exact iff_of_false (faults y _) fun h => h.1
      | popFront =>
        have hstep : ∀ ds, (runs (call dflt) {} (.use .popFront :: ds)).res = (runs (call dflt) {} ds).res := by
          intro ds
          rw [runs, bind_of_ok (a := {}) rfl]
        unfold Backs
        rw [ending_cons, hstep]
        exact ih hrest

end Back

/-- `back` after an add of `x` and any pops is `x` exactly when the value added `n - 1` adds
    before was `x` too, or, where there were not so many since the buffer was sized, the
    value that `resize` put into its slot. -/
theorem back_newest_iff (dflt : T) (n : Nat) (hn : 1 ≤ n) (cs : List (Call T)) (hcs : ∀ m, .setSize m ∈ cs → m = n)
    (x : T) (pops : Nat) :
    (Backs dflt (make dflt n) cs x pops ↔ Ring.recent dflt (since cs ++ [x]) (n - 1) = x) ∧
    (Backs dflt {} cs x pops ↔ SizedFirst cs ∧ Ring.recent dflt (since cs ++ [x]) (n - 1) = x) :=
  ⟨backs_iff (ringed_make dflt hn) hcs x pops, backs_unsized_iff hn hcs x pops⟩

theorem back_newest_equal : Backs (0 : ℤ) (make 0 2) [.setSize 2, .use (.add 5)] 5 1 :=
  (back_newest_iff (0 : ℤ) 2 (by decide) [.setSize 2, .use (.add 5)]
    (fun m hm => by simpa using hm) 5 1).1.mpr rfl

/-- One add on two slots: `back` is the slot next to it. -/
theorem back_is_a_fresh_slot : ¬ ∀ (n : Nat) (cs : List (Call ℤ)) (x : ℤ) (pops : Nat), 1 ≤ n →
    (∀ m, .setSize m ∈ cs → m = n) → Backs 0 (make 0 n) cs x pops := by
  intro h
  obtain ⟨c, hc, hx⟩ := h 2 [] 5 0 (by decide) fun m hm => by cases hm
  cases hc
  cases hx

/-! ## Resizing -/

/-- Both cursors are in the buffer, and no call reaches outside it. -/
structure Safe (b : CircularBuffer T) : Prop where
  tail : b.m_tail < b.m_buffer.length
  length : b.m_buffer.length = b.m_size
  head : b.m_head < b.m_size
  add : ∀ v, ∃ c, b.add v = .ok c
  back : ∃ x, b.back = .ok x
  front : ∃ x, b.front = .ok x

/-- An empty buffer through which only the values that `resize` made can be read. -/
structure Emptied (dflt : T) (b : CircularBuffer T) : Prop where
  empty : b.empty = true
  front : ∀ x, b.front = .ok x → x = dflt
  back : ∀ x, b.back = .ok x → x = dflt

/-- After the calls `tr`. -/
structure CallLaw (dflt : T) (tr : List (Call T)) (b : CircularBuffer T) : Prop where
  safe : Safe b
  emptied : ∀ size, tr.getLast? = some (.setSize size) → Emptied dflt b

/-- The buffer is sized while it is empty, and not below its tail. -/
def Careful (b : CircularBuffer T) : Call T → Prop
  | .setSize size => b.empty = true ∧ b.m_tail < size
  | .use _ => True

section Resizing

variable {dflt : T} {b : CircularBuffer T}

theorem safe_iff : Safe b ↔ b.m_tail < b.m_buffer.length ∧ b.m_buffer.length = b.m_size ∧ b.m_head < b.m_size := by
  constructor
  · intro h
    exact ⟨h.tail, h.length, h.head⟩
  · rintro ⟨htail, hlen, hhead⟩
    exact ⟨htail, hlen, hhead, fun v => ⟨_, add_eq htail (by omega) v⟩, ⟨_, subscript_lt htail⟩,
      ⟨_, subscript_lt (by omega)⟩⟩

theorem safe_make (dflt : T) {n : Nat} : Safe (make dflt n) ↔ 1 ≤ n := by
  rw [safe_iff]
  simp only [make, List.length_replicate, true_and, and_self]
  exact Iff.rfl

theorem safe_use (h : Safe b) (u : Use T) : ∃ c, b.use u = .ok c ∧ Safe c := by
  have htail := h.tail
  have hlen := h.length
  have hhead := h.head
  cases u with
  | add v =>
    refine ⟨_, add_eq htail (by omega) v, safe_iff.mpr ⟨?_, by simpa [added] using hlen, ?_⟩⟩
    · simp only [added, List.length_set, hlen]
      exact Nat.mod_lt _ (by omega)
    · simp only [added]
      exact Nat.mod_lt _ (by omega)
  | popFront =>
    refine ⟨_, popFront_eq (by omega), safe_iff.mpr ⟨htail, hlen, ?_⟩⟩
    simp only [popped]
    split
    · exact hhead
    · exact Nat.mod_lt _ (by omega)

theorem subscript_replicate {ε : Type} {e : ε} {n i : Nat} {d x : T} (h : subscript e (List.replicate n d) i = .ok x) :
    x = d := by
  have hmem := List.mem_of_getElem? (subscript_ok.mp h)
  exact List.eq_of_mem_replicate hmem

/-- `setSize` leaves the cursors alone, so it makes nothing empty or safe that was not. -/
theorem emptied_setSize (size : Nat) : Emptied dflt (b.setSize dflt size) ↔ b.empty = true :=
  ⟨fun h => h.empty, fun h => ⟨h, fun _ hx => subscript_replicate hx, fun _ hx => subscript_replicate hx⟩⟩

theorem careful_iff (size : Nat) : Careful b (.setSize size) ↔
    Safe (b.setSize dflt size) ∧ Emptied dflt (b.setSize dflt size) := by
  rw [emptied_setSize, safe_iff]
  simp only [setSize, List.length_replicate, Careful, empty, decide_eq_true_eq]
  constructor
  · rintro ⟨hempty, htail⟩
    exact ⟨⟨htail, trivial, by omega⟩, hempty⟩
  · rintro ⟨⟨htail, -, -⟩, hempty⟩
    exact ⟨hempty, htail⟩

theorem call_res (b : CircularBuffer T) (u : Use T) : (b.call dflt (.use u)).res = b.use u := by
  rw [call, bind_of_ok (emit_res _)]
  rfl

/-- One call on a buffer that is in order. -/
theorem call_keeps {tr : List (Call T)} {c : Call T} {d : CircularBuffer T} (h : Safe b) (hc : Careful b c)
    (hd : (b.call dflt c).res = .ok d) : CallLaw dflt (tr ++ (b.call dflt c).out) d := by
  cases c with
  | setSize size =>
    cases hd
    obtain ⟨hsafe, hemptied⟩ := (careful_iff size).mp hc
    exact ⟨hsafe, fun _ _ => hemptied⟩
  | use u =>
    obtain ⟨e, he, hsafe⟩ := safe_use h u
    rw [call_res] at hd
    obtain rfl : e = d := Except.ok.inj (he.symm.trans hd)
    refine ⟨hsafe, fun size hlast => ?_⟩
    have hout : (b.call dflt (.use u)).out = [.use u] := by
      rw [call, bind_of_ok (emit_res _)]
      rfl
    rw [hout, List.getLast?_concat] at hlast
    cases hlast

theorem call_back {tr : List (Call T)} {c : Call T} {d : CircularBuffer T} (hd : (b.call dflt c).res = .ok d)
    (h : CallLaw dflt (tr ++ (b.call dflt c).out) d) : Careful b c := by
  cases c with
  | setSize size =>
    cases hd
    exact (careful_iff size).mpr ⟨h.safe, h.emptied size List.getLast?_concat⟩
  | use u => trivial

theorem call_returns (dflt : T) (h : Safe b) (c : Call T) : ∃ d, (b.call dflt c).res = .ok d := by
  cases c with
  | setSize size => exact ⟨_, rfl⟩
  | use u =>
    obtain ⟨d, hd, -⟩ := safe_use h u
    exact ⟨d, (call_res b u).trans hd⟩

end Resizing

/-- From a buffer made with any size: every state reached is in order, and every `setSize`
    empties the buffer, exactly when it is made with at least one slot and each `setSize`
    finds it empty and its tail below the new size. `CircularBuffer()` is `make dflt 0`. -/
theorem resized_safely_iff (dflt : T) (n : Nat) (cs : List (Call T)) :
    Throughout (call dflt) (CallLaw dflt) (make dflt n) cs ↔ 1 ≤ n ∧ Along (call dflt) Careful (make dflt n) cs := by
  by_cases hn : 1 ≤ n
  · rw [and_iff_right hn]
    refine runs_law_iff (call dflt) (I := CallLaw dflt) (fun _ _ h => h) (fun _ _ _ _ h hc hd => call_keeps h.safe hc hd)
      (fun _ _ _ _ _ hd h => call_back hd h) (fun _ b c e h he => ?_) ⟨(safe_make dflt).mpr hn, fun _ h => by cases h⟩ cs
    obtain ⟨d, hd⟩ := call_returns dflt h.safe c
    rw [hd] at he
    cases he
  · refine iff_of_false (fun h => hn ?_) fun h => hn h.1
    exact (safe_make dflt).mp (h [] List.nil_prefix _ rfl).safe

/-- A buffer of three slots, cut to one while its tail is at the third. -/
theorem a_smaller_size_leaves_the_tail : ¬ ∀ (n : Nat) (cs : List (Call ℤ)), 1 ≤ n → (∀ size, .setSize size ∈ cs → 1 ≤ size) →
    Throughout (call 0) (CallLaw 0) (make 0 n) cs := by
  intro h
  have hlaw := h 3 [.use (.add 1), .use (.add 2), .setSize 1] (by decide) (by simp) _ List.prefix_rfl _ rfl
  exact absurd hlaw.safe.tail (by decide)

/-! ## The observers -/

/-- A queue of capacity `cap` under the same calls. -/
def queueUse (cap : Nat) (q : List T) : Use T → List T
  | .add value => Ring.push cap q value
  | .popFront => q.tail

def fifo (cap : Nat) (us : List (Use T)) : List T := us.foldl (queueUse cap) []

/-- The observers of `b` show the queue `q`. -/
structure Observes (cap : Nat) (q : List T) (b : CircularBuffer T) : Prop where
  size : b.size = q.length
  empty : b.empty = true ↔ q.length = 0
  full : b.full = true ↔ q.length = cap
  front : ∀ x, q.head? = some x → b.front = .ok x

/-- What counts as stored in a buffer of `n` slots: nothing, or the last item added. -/
structure Single (n : Nat) (q : List T) (b : CircularBuffer T) : Prop where
  size : b.m_size = n
  length : b.m_buffer.length = n
  tail : b.m_tail < n
  stored : (q = [] ∧ b.m_head = b.m_tail) ∨
    ∃ v, q = [v] ∧ b.m_head = Ring.slot n b.m_tail 0 ∧ b.m_buffer[b.m_head]? = some v

section Observers

variable {n : Nat} {q : List T} {b : CircularBuffer T}

theorem single_add (h : Single n q b) (v : T) : Single n [v] (b.added v) := by
  have ht := h.tail
  have hlen : b.m_tail < b.m_buffer.length := by rw [h.length]; exact ht
  have hhead : (b.added v).m_head = Ring.slot n (b.added v).m_tail 0 := by
    simp only [added, h.size, Ring.slot, Nat.sub_zero]
  refine ⟨h.size, by simpa [added] using h.length, ?_, Or.inr ⟨v, rfl, hhead, ?_⟩⟩
  · simp only [added, h.size]
    exact Nat.mod_lt _ (by omega)
  · have hslot : (b.added v).m_head = b.m_tail := by
      rw [hhead]
      simp only [added, h.size]
      exact Ring.slot_first ht
    rw [hslot]
    exact List.getElem?_set_self hlen

theorem single_popped (h : Single n q b) : Single n q.tail b.popped := by
  have ht := h.tail
  refine ⟨h.size, h.length, ht, Or.inl ?_⟩
  rcases h.stored with ⟨rfl, hhead⟩ | ⟨v, rfl, hhead, -⟩
  · exact ⟨rfl, by simp [popped, empty, hhead]⟩
  · refine ⟨rfl, ?_⟩
    simp only [popped, empty, decide_eq_true_eq, h.size]
    split
    · rename_i he
      exact he.symm
    · rw [hhead]
      exact Ring.next_slot_zero ht

theorem single_use (h : Single n q b) (u : Use T) : ∃ c, b.use u = .ok c ∧ Single n (queueUse 1 q u) c := by
  have ht := h.tail
  cases u with
  | add v =>
    refine ⟨_, add_eq (by rw [h.length]; exact ht) (by rw [h.size]; omega) v, ?_⟩
    rw [queueUse, Ring.push_one]
    exact single_add h v
  | popFront => exact ⟨_, popFront_eq (by rw [h.size]; omega), single_popped h⟩

theorem single_make (dflt : T) (hn : 1 ≤ n) : Single n [] (make dflt n) :=
  ⟨rfl, List.length_replicate, hn, Or.inl ⟨rfl, rfl⟩⟩

/-- The observers show what counts as stored, also in the place of the larger queue. -/
theorem single_observes (hn : 2 ≤ n) (h : Single n q b) : Observes (n - 1) q b := by
  have ht := h.tail
  rcases h.stored with ⟨rfl, hhead⟩ | ⟨v, rfl, hhead, hv⟩
  · have hnext : (b.m_tail + 1) % n ≠ b.m_tail := by
      rw [Ring.next_eq ht]
      split <;> omega
    refine ⟨by simp [size, hhead], by simp [empty, hhead], ?_, fun x hx => by cases hx⟩
    refine iff_of_false ?_ fun h0 => ?_
    · simp [full, h.size, hhead, hnext]
    · rw [List.length_nil] at h0
      omega
  · have hfront : b.front = .ok v := subscript_ok.mpr hv
    rw [Ring.slot_zero ht] at hhead
    refine ⟨?_, ?_, ?_, fun x hx => by cases hx; exact hfront⟩
    · simp only [size, h.size, hhead, List.length_singleton]
      split <;> split <;> omega
    · simp only [empty, hhead, List.length_singleton, decide_eq_true_eq]
      split <;> omega
    · simp only [full, h.size, hhead, Ring.next_eq ht, List.length_singleton, if_pos (by omega : 0 < n), decide_eq_true_eq]
      split <;> split <;> omega

end Observers

/-- No add follows another at once. -/
def Spaced (us : List (Use T)) : Prop := ∀ x y, ¬ [Use.add x, Use.add y] <:+: us

theorem fifo_snoc (cap : Nat) (us : List (Use T)) (u : Use T) : fifo cap (us ++ [u]) = queueUse cap (fifo cap us) u := by
  simp [fifo]

theorem fifo_one_length (us : List (Use T)) : (fifo 1 us).length ≤ 1 := by
  induction us using List.reverseRecOn with
  | nil => exact Nat.zero_le 1
  | append_singleton us u ih =>
    rw [fifo_snoc]
    cases u with
    | add v => rw [queueUse, Ring.push_one, List.length_singleton]
    | popFront =>
      rw [queueUse, List.length_tail]
      omega

/-- Before a spaced add the queue for one item is empty. -/
theorem spaced_add {us : List (Use T)} {v : T} (h : Spaced (us ++ [.add v])) : fifo 1 us = [] := by
  cases us using List.reverseRecOn with
  | nil => rfl
  | append_singleton us u =>
    cases u with
    | add x => exact absurd ⟨us, [], by simp⟩ (h x v)
    | popFront =>
      have hone := fifo_one_length us
      rw [fifo_snoc, queueUse, List.eq_nil_iff_length_eq_zero, List.length_tail]
      omega

theorem spaced_fifo {cap : Nat} (hcap : 0 < cap) {us : List (Use T)} (h : Spaced us) : fifo cap us = fifo 1 us := by
  induction us using List.reverseRecOn with
  | nil => rfl
  | append_singleton us u ih =>
    have hus : Spaced us := fun x y hxy => h x y (hxy.trans (List.prefix_append us [u]).isInfix)
    rw [fifo_snoc, fifo_snoc, ih hus]
    cases u with
    | add v => rw [spaced_add h, queueUse, queueUse, Ring.push_nil hcap, Ring.push_one]
    | popFront => rfl

/-- Two adds in a row leave two items in a larger queue. -/
theorem fifo_two_adds {cap : Nat} (hcap : 2 ≤ cap) (us : List (Use T)) (x y : T) :
    2 ≤ (fifo cap (us ++ [.add x, .add y])).length := by
  have hsplit : us ++ [Use.add x, .add y] = us ++ [.add x] ++ [.add y] := by simp
  rw [hsplit, fifo_snoc, fifo_snoc, queueUse, queueUse, Ring.push_length, Ring.push_length]
  omega

/-- After every part of the calls the observers of a buffer of `n` slots are those of a queue
    of capacity `n - 1`, exactly when that is a queue for one item or no two adds are in a
    row. -/
theorem fifo_iff (dflt : T) (n : Nat) (hn : 2 ≤ n) (us : List (Use T)) :
    (∀ vs, vs <+: us → ∃ b, vs.foldlM use (make dflt n) = .ok b ∧ Observes (n - 1) (fifo (n - 1) vs) b) ↔
      n = 2 ∨ Spaced us := by
  have hone : ∀ vs : List (Use T), ∃ b, vs.foldlM use (make dflt n) = .ok b ∧ Single n (fifo 1 vs) b := fun vs =>
    foldlM_follows (R := Single n) (fun _ _ u h => single_use h u) (single_make dflt (by omega)) vs
  constructor
  · intro h
    by_contra hbad
    rw [not_or, Spaced] at hbad
    push Not at hbad
    obtain ⟨hne, x, y, l, r, hus⟩ := hbad
    obtain ⟨b, hb, hobs⟩ := h (l ++ [.add x, .add y]) ⟨r, hus⟩
    obtain ⟨c, hc, hsingle⟩ := hone (l ++ [.add x, .add y])
    obtain rfl : b = c := Except.ok.inj (hb.symm.trans hc)
    have htwo : 2 ≤ (fifo (n - 1) (l ++ [.add x, .add y])).length := fifo_two_adds (by omega) l x y
    have hle := fifo_one_length (l ++ [.add x, .add y])
    rw [← (single_observes hn hsingle).size, hobs.size] at hle
    omega
  · intro h vs hvs
    obtain ⟨b, hb, hsingle⟩ := hone vs
    have hsame : fifo (n - 1) vs = fifo 1 vs := by
      rcases h with rfl | hs
      · rfl
      · exact spaced_fifo (by omega) fun x y hxy => hs x y (hxy.trans hvs.isInfix)
    exact ⟨b, hb, by rw [hsame]; exact single_observes hn hsingle⟩

theorem fifo_turns : ∃ b : CircularBuffer ℤ, [Use.add 1, .popFront, .add 2].foldlM use (make 0 3) = .ok b ∧
    Observes 2 [2] b := by
  refine (fifo_iff (0 : ℤ) 3 (by decide) [.add 1, .popFront, .add 2]).mpr (Or.inr ?_) _ List.prefix_rfl
  rintro x y ⟨l, r, h⟩
  have hlen := congrArg List.length h
  simp only [List.length_append, List.length_cons, List.length_nil] at hlen
  rcases l with _ | ⟨a, _ | ⟨b, l⟩⟩
  · simp at h
  · simp at h
  · simp only [List.length_cons] at hlen
    omega

/-- Two adds on three slots: the first is not counted, and `front` is the second. -/
theorem the_first_of_two_is_lost : ¬ ∀ (n : Nat) (us : List (Use ℤ)), 2 ≤ n →
    ∃ b, us.foldlM use (make 0 n) = .ok b ∧ Observes (n - 1) (fifo (n - 1) us) b := by
  intro h
  obtain ⟨b, hb, hobs⟩ := h 3 [.add 1, .add 2] (by decide)
  cases hb
  exact absurd hobs.size (by decide)

end CircularBuffer

end LeapSyncFfh
