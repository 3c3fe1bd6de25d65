/-
  LeapSyncFfh.Ffh.TestFlow — `testFlow` statement by statement, for any type of angles.

  `stof` is the conversion to an angle: with `LeapSyncFfh.stof` the loop is the machine of
  `FfhCtrl` (`readStr_flowStep`), and a type with infinities has one too. `resetFlag` is
  kept as the source has it; it is false at every read (`readStr_clear`).

  `interpret` is what the prompt of `testFlow` describes: the words in groups of three,
  `quit` and `reset` at any place of a group. It knows no array and no flag, and the
  commands sent are its commands (`testFlow_interprets`).

  A triple is a complete group. The checks of the source are comments, so every triple that
  converts to an element is entered, whatever follows the numerals and whatever the angle,
  and any other ends the program (`readStr_triple`); the loop meets what those checks are
  for exactly when it is given no triple they would reject (`testFlow_rejects_iff`).
-/

import LeapSyncFfh.Ffh.FfhCtrl
import LeapSyncFfh.Lib.Reader

namespace LeapSyncFfh

open Emit

namespace FfhCtrl

variable {A : Type} [Zero A] (stof : String → Except Fault A)

/-! ## The loop -/

/-- The locals of `testFlow` at the read of `strs[k]`. -/
structure Locals where
  strs : Fin 3 → String := fun _ => ""
  resetFlag : Bool := false
  k : Fin 3 := 0

def Locals.flow (l : Locals) : Flow := ⟨l.strs, l.k⟩

/-- The strings after a word that does not end the loop. -/
def Flow.keep (t : Flow) (w : String) : Flow :=
  ⟨Function.update t.strs t.next w, if w = "reset" ∨ t.next = 2 then 0 else t.next + 1⟩

/-- What follows the loop over the strings, up to the next read. -/
def behind (c : FfhCtrl A) (strs : Fin 3 → String) (resetFlag : Bool) :
    Emit (UdpEv A) Fault (Reader.Turn (FfhCtrl A × Locals) (FfhCtrl A × AR_RETURN_VALUE)) :=
  if resetFlag then pure (.reading (c, ⟨strs, false, 0⟩))
  else do
    let e ← lift (convert stof strs)
    let c := c.place e
    c.send_hand_cmd
    pure (.reading (c, ⟨strs, resetFlag, 0⟩))

/-- `std::cin >> str` and what follows it up to the next read. -/
def readStr (s : FfhCtrl A × Locals) (word : Option String) :
    Emit (UdpEv A) Fault (Reader.Turn (FfhCtrl A × Locals) (FfhCtrl A × AR_RETURN_VALUE)) :=
  let str := word.getD (s.2.strs s.2.k)
  let strs := Function.update s.2.strs s.2.k str
  if str = "quit" then pure (.returned (s.1, .SUCCESS))
  else if str = "reset" then do
    let c ← s.1.reset
    -- `break` with the flag set
    behind stof c strs true
  else if s.2.k = 2 then behind stof s.1 strs s.2.resetFlag
  else pure (.reading (s.1, ⟨strs, s.2.resetFlag, s.2.k + 1⟩))

/-- The whole call, on the words it is given. -/
def testFlowOn (c : FfhCtrl A) (ws : List (Option String)) :
    Emit (UdpEv A) Fault (Reader.Turn (FfhCtrl A × Locals) (FfhCtrl A × AR_RETURN_VALUE)) :=
  if !c.inConnection_ then pure (.returned (c, .ACTION_FAIL)) else Reader.feed (readStr stof) (c, {}) ws

/-! ## One read -/

/-- The call of a read that sends `cmd`. -/
def sending (c : FfhCtrl A) (cmd : udp_hand_cmd A) (l : Locals) :
    Emit (UdpEv A) Fault (Reader.Turn (FfhCtrl A × Locals) (FfhCtrl A × AR_RETURN_VALUE)) :=
  ⟨[.sendto c.udp_.sockfd_ c.udp_.server_addr cmd], .ok (.reading ({ c with handCmd_ := cmd }, l))⟩

section Read

variable (c : FfhCtrl A) {l : Locals} (word : Option String)

theorem readStr_quit (h : word.getD (l.strs l.k) = "quit") : readStr stof (c, l) word = pure (.returned (c, .SUCCESS)) := by
  simp only [readStr, h, if_true]

theorem readStr_reset (h : word.getD (l.strs l.k) = "reset") :
    readStr stof (c, l) word = sending c .zero ⟨Function.update l.strs l.k "reset", false, 0⟩ := by
  simp only [readStr, h, if_true]
  rw [if_neg (by decide)]
  rfl

theorem readStr_next (hq : word.getD (l.strs l.k) ≠ "quit") (hr : word.getD (l.strs l.k) ≠ "reset") (hk : l.k ≠ 2) :
    readStr stof (c, l) word =
      pure (.reading (c, ⟨Function.update l.strs l.k (word.getD (l.strs l.k)), l.resetFlag, l.k + 1⟩)) := by
  simp only [readStr, if_neg hq, if_neg hr, if_neg hk]

/-- A triple is entered and sent, or it ends the program. -/
theorem readStr_triple (hq : word.getD (l.strs l.k) ≠ "quit") (hr : word.getD (l.strs l.k) ≠ "reset") (hk : l.k = 2)
    (hf : l.resetFlag = false) :
    (∀ e, convert stof (Function.update l.strs l.k (word.getD (l.strs l.k))) = .ok e →
      readStr stof (c, l) word =
        sending c (c.place e).handCmd_ ⟨Function.update l.strs l.k (word.getD (l.strs l.k)), false, 0⟩) ∧
    ∀ f, convert stof (Function.update l.strs l.k (word.getD (l.strs l.k))) = .error f →
      readStr stof (c, l) word = fail f := by
  have hread : readStr stof (c, l) word = behind stof c (Function.update l.strs l.k (word.getD (l.strs l.k))) false := by
    simp only [readStr, if_neg hq, if_neg hr, if_pos hk, hf]
  rw [hread]
  constructor
  · intro e he
    simp only [behind, he, lift_ok_bind]
    rfl
  · intro f hf
    simp only [behind, hf, lift_error_bind]
    rfl

end Read

omit [Zero A] in
/-- Where the machine of `FfhCtrl` stands. -/
def flowing : Reader.Turn (FfhCtrl A × Locals) (FfhCtrl A × AR_RETURN_VALUE) → FlowStep A
  | .reading (c, l) => .reading c l.flow
  | .returned (c, r) => .returned c r

/-- With `LeapSyncFfh.stof`, a read is a step of that machine. -/
theorem readStr_flowStep {F : Type} [DivisionRing F] (c : FfhCtrl F) (strs : Fin 3 → String) (k : Fin 3)
    (word : Option String) :
    c.flowStep ⟨strs, k⟩ word = readStr LeapSyncFfh.stof (c, ⟨strs, false, k⟩) word >>= fun t => pure (flowing t) := by
  unfold flowStep
  by_cases hq : word.getD (strs k) = "quit"
  · rw [readStr_quit _ c word hq, pure_bind]
    simp only [hq, if_true]
    rfl
  by_cases hr : word.getD (strs k) = "reset"
  · rw [readStr_reset _ c word hr]
    simp only [hr, if_true]
    rw [if_neg (by decide)]
    rfl
  by_cases hk : k = 2
  · obtain ⟨hok, herr⟩ := readStr_triple (LeapSyncFfh.stof (F := F)) c (l := ⟨strs, false, k⟩) word hq hr hk rfl
    simp only [if_neg hq, if_neg hr, if_pos hk, enter_convert]
    cases he : convert (LeapSyncFfh.stof (F := F)) (Function.update strs k (word.getD (strs k))) with
    | ok e =>
      rw [hok e he]
      rfl
    | error f =>
      rw [herr f he]
      rfl
  · rw [readStr_next _ c word hq hr hk, pure_bind]
    simp only [if_neg hq, if_neg hr, if_neg hk]
    rfl

/-! ## The words in groups of three -/

inductive Order where
  | reset
  | triple (strs : Fin 3 → String)

/-- What the words order, after those of a group that is not complete; nothing is ordered
    from `quit` on. -/
def orders : List String → List String → List Order
  | _, [] => []
  | group, w :: ws =>
    if w = "quit" then []
    else if w = "reset" then .reset :: orders [] ws
    else match group with
      | [finger, joint] => .triple ![finger, joint, w] :: orders [] ws
      | group => orders (group ++ [w]) ws

/-- The commands that the orders come to. -/
def interpret (handCmd : udp_hand_cmd A) : List Order → List (udp_hand_cmd A)
  | [] => []
  | .reset :: os => .zero :: interpret .zero os
  | .triple strs :: os =>
    match convert stof strs with
    | .ok (i, j, a) => handCmd.set i j a :: interpret (handCmd.set i j a) os
    | .error _ => []

/-- The words of the group at hand. -/
def Locals.group (l : Locals) : List String := [l.strs 0, l.strs 1].take l.k

section Orders

variable {l : Locals} {w : String} (ws : List String)

omit [Zero A]

theorem orders_next (hq : w ≠ "quit") (hr : w ≠ "reset") (hk : l.k ≠ 2) :
    orders l.group (w :: ws) = orders (Locals.mk (Function.update l.strs l.k w) l.resetFlag (l.k + 1)).group ws := by
  obtain ⟨strs, flag, k⟩ := l
  simp only [orders, if_neg hq, if_neg hr]
  fin_cases k
  · rfl
  · rfl
  · exact absurd rfl hk

theorem orders_triple (hq : w ≠ "quit") (hr : w ≠ "reset") (hk : l.k = 2) :
    orders l.group (w :: ws) = .triple (Function.update l.strs l.k w) :: orders [] ws := by
  obtain ⟨strs, flag, k⟩ := l
  obtain rfl : k = 2 := hk
  simp only [orders, if_neg hq, if_neg hr]
  have hstrs : Function.update strs 2 w = ![strs 0, strs 1, w] := by
    funext p
    fin_cases p <;> rfl
  rw [hstrs]
  rfl

end Orders

/-- What the read of `w` comes to, and what is ordered from there on: it ends the loop,
    resets, waits for the next word of the group, or enters the triple it completes; a
    triple that does not convert, or points outside, ends the program. -/
inductive Word (c : FfhCtrl A) (l : Locals) (w : String) :
    Emit (UdpEv A) Fault (Reader.Turn (FfhCtrl A × Locals) (FfhCtrl A × AR_RETURN_VALUE)) → Prop
  | quit : w = "quit" → l.flow.completed (some w) = none → (∀ ws, orders l.group (w :: ws) = []) →
      Word c l w (pure (.returned (c, .SUCCESS)))
  | reset (m : Locals) : w = "reset" → l.flow.completed (some w) = none → m.resetFlag = false →
      m.flow = l.flow.keep w → (∀ ws, orders l.group (w :: ws) = .reset :: orders m.group ws) →
      Word c l w (sending c .zero m)
  | next (m : Locals) : w ≠ "quit" → w ≠ "reset" → l.flow.completed (some w) = none → m.resetFlag = false →
      m.flow = l.flow.keep w → (∀ ws, orders l.group (w :: ws) = orders m.group ws) →
      Word c l w (pure (.reading (c, m)))
  | entered (strs : Fin 3 → String) (i : Fin 5) (j : Fin 4) (a : A) (m : Locals) : w ≠ "quit" →
      l.flow.completed (some w) = some strs → convert stof strs = .ok (i, j, a) → m.resetFlag = false → m.k = 0 →
      m.flow = l.flow.keep w → (∀ ws, orders l.group (w :: ws) = .triple strs :: orders m.group ws) →
      Word c l w (sending c (c.handCmd_.set i j a) m)
  | fault (strs : Fin 3 → String) (f : Fault) : w ≠ "quit" → l.flow.completed (some w) = some strs →
      convert stof strs = .error f → (∀ ws, orders l.group (w :: ws) = .triple strs :: orders [] ws) →
      Word c l w (fail f)

theorem read_word (c : FfhCtrl A) {l : Locals} (w : String) (hflag : l.resetFlag = false) :
    Word stof c l w (readStr stof (c, l) (some w)) := by
  by_cases hq : w = "quit"
  · subst hq
    rw [readStr_quit stof c (some "quit") rfl]
    exact .quit rfl (by simp [Flow.completed]) fun ws => by simp [orders]
  by_cases hr : w = "reset"
  · subst hr
    rw [readStr_reset stof c (some "reset") rfl]
    exact .reset _ rfl (by simp [Flow.completed]) rfl (by simp [Flow.keep, Locals.flow])
      fun ws => by simp [orders, Locals.group]
  by_cases hk : l.k = 2
  · have hcomp : l.flow.completed (some w) = some (Function.update l.strs l.k w) := by
      simp [Flow.completed, Locals.flow, hq, hr, hk]
    have hkeep : (Locals.mk (Function.update l.strs l.k w) false 0).flow = l.flow.keep w := by
      simp [Flow.keep, Locals.flow, hk]
    obtain ⟨hok, herr⟩ := readStr_triple stof c (some w) hq hr hk hflag
    cases he : convert stof (Function.update l.strs l.k w) with
    | ok e =>
      rw [hok e he]
      exact .entered _ e.1 e.2.1 e.2.2 _ hq hcomp he rfl rfl hkeep fun ws => orders_triple ws hq hr hk
    | error f =>
      rw [herr f he]
      exact .fault _ f hq hcomp he fun ws => orders_triple ws hq hr hk
  · rw [readStr_next stof c (some w) hq hr hk]
    exact .next _ hq hr (by simp [Flow.completed, Locals.flow, hk]) hflag (by simp [Flow.keep, Locals.flow, hr, hk])
      fun ws => orders_next ws hq hr hk

/-- The loop, from any place in a group. -/
theorem feed_interprets : ∀ {ws : List String} {c : FfhCtrl A} {l : Locals}, l.resetFlag = false → "quit" ∈ ws →
    (∀ strs, .triple strs ∈ orders l.group ws → ∃ e, convert stof strs = .ok e) →
    ∃ d, (Reader.feed (readStr stof) (c, l) (ws.map some)).res = .ok (.returned (d, .SUCCESS)) ∧
      (Reader.feed (readStr stof) (c, l) (ws.map some)).out.filterMap UdpEv.command =
        interpret stof c.handCmd_ (orders l.group ws) := by
  intro ws
  induction ws with
  | nil => exact fun _ hquit => absurd hquit List.not_mem_nil
  | cons w ws ih =>
    intro c l hflag hquit hall
    have hrest : w ≠ "quit" → "quit" ∈ ws := fun h => (List.mem_cons.mp hquit).resolve_left (Ne.symm h)
    have hword := read_word stof c w hflag
    rw [List.map_cons]
    generalize hread : readStr stof (c, l) (some w) = x at hword
    cases hword with
    | quit _ _ hos =>
      rw [Reader.feed_returned (by rw [hread]; rfl), hread, hos]
      exact ⟨c, rfl, rfl⟩
    | reset m hw _ hm _ hos =>
      rw [hos] at hall ⊢
      obtain ⟨d, hd, hout⟩ := ih (c := { c with handCmd_ := .zero }) hm (hrest (by rw [hw]; decide))
        fun strs hs => hall strs (List.mem_cons_of_mem _ hs)
      rw [Reader.feed_reading (by rw [hread]; rfl), hread]
      exact ⟨d, hd, by rw [List.filterMap_append, hout]; rfl⟩
    | next m hq _ _ hm _ hos =>
      rw [hos] at hall ⊢
      obtain ⟨d, hd, hout⟩ := ih (c := c) hm (hrest hq) hall
      rw [Reader.feed_reading (by rw [hread]; rfl), hread]
      exact ⟨d, hd, hout⟩
    | entered strs i j a m hq _ he hm _ _ hos =>
      rw [hos] at hall ⊢
      obtain ⟨d, hd, hout⟩ := ih (c := { c with handCmd_ := c.handCmd_.set i j a }) hm (hrest hq)
        fun strs hs => hall strs (List.mem_cons_of_mem _ hs)
      rw [Reader.feed_reading (by rw [hread]; rfl), hread]
      refine ⟨d, hd, ?_⟩
      rw [List.filterMap_append, hout]
      simp only [interpret, he]
      rfl
    | fault strs f _ _ he hos =>
      rw [hos] at hall
      obtain ⟨e, he'⟩ := hall strs List.mem_cons_self
      rw [he] at he'
      cases he'

theorem testFlowOn_connected {c : FfhCtrl A} (h : c.inConnection_ = true) (ws : List (Option String)) :
    testFlowOn stof c ws = Reader.feed (readStr stof) (c, {}) ws := by
  simp [testFlowOn, h]

/-- On words with a `quit`, every triple of which converts, `testFlow` returns, and the
    commands it has sent are those of the orders; not connected, it returns at once and
    reads none of them. -/
theorem testFlow_interprets (c : FfhCtrl A) (ws : List String) (hquit : "quit" ∈ ws)
    (hall : ∀ strs, .triple strs ∈ orders [] ws → ∃ e, convert stof strs = .ok e) :
    (c.inConnection_ = true → ∃ d, (testFlowOn stof c (ws.map some)).res = .ok (.returned (d, .SUCCESS)) ∧
      (testFlowOn stof c (ws.map some)).out.filterMap UdpEv.command = interpret stof c.handCmd_ (orders [] ws)) ∧
    (c.inConnection_ = false → testFlowOn stof c (ws.map some) = pure (.returned (c, .ACTION_FAIL))) := by
  constructor
  · intro hin
    rw [testFlowOn_connected stof hin]
    exact feed_interprets stof rfl hquit hall
  · intro hin
    simp [testFlowOn, hin]

/-- A connected controller. -/
def online : FfhCtrl ℚ := { make 0 "10.0.0.1" 8001 3 .zero with inConnection_ := true }

/-- A `reset` in the middle of a group. -/
theorem testFlow_interprets_reset : ∃ d,
    (testFlowOn LeapSyncFfh.stof online (["0", "1", "reset", "2", "1", "30", "quit"].map some)).res =
      .ok (.returned (d, .SUCCESS)) ∧
    (testFlowOn LeapSyncFfh.stof online (["0", "1", "reset", "2", "1", "30", "quit"].map some)).out.filterMap
      UdpEv.command = [.zero, udp_hand_cmd.zero.set 2 1 30] := by
  have he : convert (LeapSyncFfh.stof (F := ℚ)) ![ "2", "1", "30"] = .ok (2, 1, 30) := by decide +kernel
  obtain ⟨d, hd, hout⟩ := (testFlow_interprets (LeapSyncFfh.stof (F := ℚ)) online
    ["0", "1", "reset", "2", "1", "30", "quit"] (by decide) (fun strs hs => by
      simp [orders] at hs
      exact ⟨_, hs ▸ he⟩)).1 rfl
  refine ⟨d, hd, hout.trans ?_⟩
  simp [orders, interpret, he]

/-! ## Bad triples -/

section Checks

variable {F : Type} [Field F] [LinearOrder F]

/-- A triple that the commented-out checks are for: a finger, a joint and a number within
    the joint's limits, and no word with anything behind its numeral. -/
structure Valid (strs : Fin 3 → String) (i : Fin 5) (j : Fin 4) (a : F) : Prop extends Entry strs i j a where
  whole : stoiRest (strs 0) = [] ∧ stoiRest (strs 1) = [] ∧ stofRest (strs 2) = []
  lower : LIMIT_HCMD_LOWER j ≤ a
  upper : a ≤ LIMIT_HCMD_UPPER j

/-- A valid triple is entered and sent once; any other changes nothing and sends nothing.
    Then the loop reads the next. -/
def Handled (c : FfhCtrl F) (strs : Fin 3 → String)
    (x : Emit (UdpEv F) Fault (Reader.Turn (FfhCtrl F × Locals) (FfhCtrl F × AR_RETURN_VALUE))) : Prop :=
  (∀ i j a, Valid strs i j a → ∃ m, m.k = 0 ∧ x = sending c (c.handCmd_.set i j a) m) ∧
  ((∀ i j (a : F), ¬ Valid strs i j a) → ∃ m, m.k = 0 ∧ x = pure (.reading (c, m)))

/-- What the manual test is to do with a word. -/
def Rejects (s : FfhCtrl F × Locals) (w : String) : Prop :=
  ∀ strs, s.2.flow.completed (some w) = some strs → Handled s.1 strs (readStr LeapSyncFfh.stof s (some w))

theorem Valid.converts {strs : Fin 3 → String} {i : Fin 5} {j : Fin 4} {a : F} (h : Valid strs i j a) :
    convert LeapSyncFfh.stof strs = .ok (i, j, a) :=
  (convert_ok LeapSyncFfh.stof).mpr ⟨h.angle, h.finger, h.joint⟩

/-- A triple that is entered is handled exactly when it is valid. -/
theorem handled_entered {c : FfhCtrl F} {strs : Fin 3 → String} {i : Fin 5} {j : Fin 4} {a : F} {m : Locals}
    (he : convert LeapSyncFfh.stof strs = .ok (i, j, a)) (hk : m.k = 0) :
    Handled c strs (sending c (c.handCmd_.set i j a) m) ↔ ∃ i j a, Valid strs i j (a : F) := by
  constructor
  · intro h
    by_contra hbad
    obtain ⟨n, -, hn⟩ := h.2 fun i j a hv => hbad ⟨i, j, a, hv⟩
    cases congrArg Emit.out hn
  · rintro ⟨i', j', a', hv⟩
    have hsame : ∀ {i' j' a'}, Valid strs i' j' a' → (i', j', a') = (i, j, a) := fun hv =>
      Except.ok.inj (hv.converts.symm.trans he)
    refine ⟨fun k l b hb => ?_, fun hbad => absurd hv (hbad i' j' a')⟩
    cases hsame hb
    exact ⟨m, hk, rfl⟩

/-- One that ends the program is neither. -/
theorem not_handled_fault {c : FfhCtrl F} {strs : Fin 3 → String} {f : Fault}
    (he : convert (LeapSyncFfh.stof (F := F)) strs = .error f) :
    ¬ Handled c strs (fail f) ∧ ∀ i j (a : F), ¬ Valid strs i j a := by
  have hbad : ∀ i j (a : F), ¬ Valid strs i j a := fun i j a hv => by
    rw [hv.converts] at he
    cases he
  refine ⟨fun h => ?_, hbad⟩
  obtain ⟨m, -, hm⟩ := h.2 hbad
  cases congrArg Emit.res hm

/-- The loop, from any place in a group. -/
theorem each_rejects_iff : ∀ {ws : List String} {c : FfhCtrl F} {l : Locals}, l.resetFlag = false →
    (Reader.Each (readStr LeapSyncFfh.stof) Rejects (c, l) ws ↔
      ∀ strs, .triple strs ∈ orders l.group ws → ∃ i j a, Valid strs i j (a : F)) := by
  intro ws
  induction ws with
  | nil =>
    intro c l _
    exact iff_of_true trivial fun strs hs => by simp [orders] at hs
  | cons w ws ih =>
    intro c l hflag
    have hrejects : Rejects (c, l) w ↔ ∀ strs, l.flow.completed (some w) = some strs →
        Handled c strs (readStr LeapSyncFfh.stof (c, l) (some w)) := Iff.rfl
    have hword := read_word (LeapSyncFfh.stof (F := F)) c w hflag
    generalize hread : readStr LeapSyncFfh.stof (c, l) (some w) = x at hword hrejects
    cases hword with
    | quit _ hcomp hos =>
      rw [Reader.each_over (fun t => by rw [hread]; intro h; cases h), hrejects, hos]
      simp [hcomp]
    | reset m _ hcomp hm _ hos =>
      rw [Reader.each_reading (by rw [hread]; rfl), hrejects, hos, ih hm]
      simp [hcomp]
    | next m _ _ hcomp hm _ hos =>
      rw [Reader.each_reading (by rw [hread]; rfl), hrejects, hos, ih hm]
      simp [hcomp]
    | entered strs i j a m _ hcomp he hm hk _ hos =>
      rw [Reader.each_reading (by rw [hread]; rfl), hrejects, hos, ih hm]
      simp [hcomp, handled_entered he hk]
    | fault strs f _ hcomp he hos =>
      obtain ⟨hnot, hbad⟩ := not_handled_fault (c := c) he
      rw [Reader.each_over (fun t => by rw [hread]; intro h; cases h), hrejects, hos]
      refine iff_of_false (fun h => hnot (h strs hcomp)) fun h => ?_
      obtain ⟨i, j, a, hv⟩ := h strs List.mem_cons_self
      exact hbad i j a hv

/-- For every state of the command and all words, each complete triple is entered when it is
    valid and rejected when it is not, exactly when no triple is to be rejected. -/
theorem testFlow_rejects_iff (c : FfhCtrl F) (ws : List String) :
    Reader.Each (readStr LeapSyncFfh.stof) Rejects (c, {}) ws ↔
      ∀ strs, .triple strs ∈ orders [] ws → ∃ i j a, Valid strs i j (a : F) :=
  each_rejects_iff rfl

/-- An angle beyond the joint's limit is sent. -/
theorem testFlow_sends_bad_angles : ¬ ∀ (c : FfhCtrl ℚ) (ws : List String), c.inConnection_ = true →
    Reader.Each (readStr LeapSyncFfh.stof) Rejects (c, {}) ws := by
  intro h
  obtain ⟨i, j, a, hv⟩ := (each_rejects_iff rfl).mp (h online ["0", "0", "500"] rfl) ![ "0", "0", "500"]
    (by simp [orders, Locals.group])
  have he : convert (LeapSyncFfh.stof (F := ℚ)) ![ "0", "0", "500"] = .ok (0, 0, 500) := by decide +kernel
  cases Except.ok.inj (he.symm.trans hv.converts)
  exact absurd hv.upper (by decide)

end Checks

end FfhCtrl

end LeapSyncFfh
