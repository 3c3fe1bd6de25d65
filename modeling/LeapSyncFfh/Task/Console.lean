/-
  LeapSyncFfh.Task.Console — which of the loops at the terminal end with their input.

  `operator>>` leaves its string as it was at the end of the input, so every read there
  meets the same word again. A loop that stands at a menu goes round for ever, and `testFlow`
  enters the last triple again and again; but a loop whose old words do not convert ends
  with the exception that they throw.

  `Place` is where `testFlow` or `singleJointTest` stands, from the words alone, and
  `Follows` says that a loop reads as its place does; what such a loop needs to end is then
  worked out once, on the places (`Follows.stops_iff`).
-/

import LeapSyncFfh.Ffh.TestFlow
import LeapSyncFfh.Task.SelfCheck

namespace LeapSyncFfh

open Cells Emit

/-- A C++ exception that ends the loop. -/
def Thrown (e : Fault) : Prop := e = .uncaught

namespace FfhCtrl

theorem Flow.completed_none {t : Flow} {w : String} :
    t.completed (some w) = none ↔ w = "quit" ∨ w = "reset" ∨ t.next ≠ 2 := by
  simp only [Flow.completed, Option.getD_some]
  split
  · rename_i h; exact iff_of_true rfl h
  · rename_i h; exact iff_of_false (fun hc => by cases hc) h

theorem Flow.completed_some {t : Flow} {w : String} {strs : Fin 3 → String} (h : t.completed (some w) = some strs) :
    w ≠ "reset" ∧ t.next = 2 ∧ strs = Function.update t.strs t.next w := by
  simp only [Flow.completed, Option.getD_some] at h
  split at h
  · cases h
  · rename_i hn
    simp only [not_or, not_not] at hn
    exact ⟨hn.2.1, hn.2.2, (Option.some.inj h).symm⟩

end FfhCtrl

/-! ## The places -/

/-- At the menu of `singleJointTest`, in `testFlow` (of a menu, or called alone), or over. -/
inductive Place where
  | menu (operCmd : String)
  | flow (operCmd : Option String) (t : FfhCtrl.Flow)
  | ended

namespace Place

variable {A : Type} (stof : String → Except Fault A) (connected : Bool)

/-- The place after a word. A `testFlow` that is not connected returns at once. -/
def next : Place → String → Place
  | .menu _, w =>
    if w = "test" then if connected then .flow (some w) {} else .menu w
    else if w = "quit" then .ended else .menu w
  | .flow operCmd t, w =>
    if w = "quit" then
      match operCmd with
      | some operCmd => .menu operCmd
      | none => .ended
    else .flow operCmd (t.keep w)
  | .ended, _ => .ended

def completed : Place → String → Option (Fin 3 → String)
  | .flow _ t, w => t.completed (some w)
  | _, _ => none

/-- The triples that the words complete. -/
def triples : Place → List String → List (Fin 3 → String)
  | _, [] => []
  | p, w :: ws => (p.completed w).toList ++ (p.next connected w).triples ws

/-- The word that is met again at the end of the input. -/
def stale : Place → String
  | .menu operCmd => operCmd
  | .flow _ t => t.strs t.next
  | .ended => ""

/-- The end of the input ends the loop: what was read last throws when it is met again. An
    old `test` at the menu calls `testFlow`, whose strings are empty. -/
def Ends : Place → Prop
  | .menu operCmd => operCmd = "test" ∧ connected = true ∧ FfhCtrl.convert stof (fun _ => "") = .error .uncaught
  | .flow _ t => (∀ k, t.next ≤ k → t.strs k ≠ "reset") ∧ FfhCtrl.convert stof t.strs = .error .uncaught
  | .ended => True

/-- The triples one after another: the first that does not convert throws, or all do and
    `done` holds. -/
def Settles : List (Fin 3 → String) → Prop → Prop
  | [], done => done
  | strs :: rest, done =>
    match FfhCtrl.convert stof strs with
    | .ok _ => Settles rest done
    | .error e => Thrown e

/-- What a loop at this place needs to end with its input: the first triple that does not
    convert throws, or there is none and the place after the words is one that ends. -/
def Settled (p : Place) (ws : List String) : Prop :=
  Settles stof (p.triples connected ws) ((ws.foldl (next connected) p).Ends stof connected)

/-- A loop that is still at this place has read no `quit` here. -/
def Live : Place → Prop
  | .menu operCmd => operCmd ≠ "quit"
  | .flow operCmd t => (∀ op, operCmd = some op → op ≠ "quit") ∧ ∀ k, t.strs k ≠ "quit"
  | .ended => False

/-- Words that are no longer read. -/
theorem ended_words (ws : List String) :
    triples connected .ended ws = [] ∧ ws.foldl (next connected) .ended = .ended := by
  induction ws with
  | nil => exact ⟨rfl, rfl⟩
  | cons w ws ih => exact ih

theorem settles_of_ok {strs : Fin 3 → String} {e : Fin 5 × Fin 4 × A} (h : FfhCtrl.convert stof strs = .ok e)
    (rest : List (Fin 3 → String)) (done : Prop) : Settles stof (strs :: rest) done ↔ Settles stof rest done := by
  simp only [Settles, h]

theorem settles_of_error {strs : Fin 3 → String} {e : Fault} (h : FfhCtrl.convert stof strs = .error e)
    (rest : List (Fin 3 → String)) (done : Prop) : Settles stof (strs :: rest) done ↔ Thrown e := by
  simp only [Settles, h]

end Place

/-! ## A loop at its place -/

section Follows

variable {A ω σ ρ : Type} (stof : String → Except Fault A) (connected : Bool) (R : σ → Place → Prop)

/-- The read of `w` at `p`: it returns, reads on in silence, sends and reads on, or ends the
    program with the fault of the triple that it completes. -/
inductive Obeys (p : Place) (w : String) (x : Emit ω Fault (Reader.Turn σ ρ)) : Prop
  | returned (r : ρ) : p.completed w = none → p.next connected w = .ended → x.res = .ok (.returned r) → Obeys p w x
  | silent (t : σ) : p.completed w = none → (∀ op t, p = .flow op t → w ≠ "reset") → x.out = [] →
      x.res = .ok (.reading t) → R t (p.next connected w) → Obeys p w x
  | reset (t : σ) : p.completed w = none → (∃ op t, p = .flow op t) → w = "reset" → x.out ≠ [] →
      x.res = .ok (.reading t) → R t (p.next connected w) → Obeys p w x
  | entered (strs : Fin 3 → String) (e : Fin 5 × Fin 4 × A) (t : σ) : p.completed w = some strs →
      FfhCtrl.convert stof strs = .ok e → x.out ≠ [] → x.res = .ok (.reading t) → R t (p.next connected w) → Obeys p w x
  | fault (strs : Fin 3 → String) (e : Fault) : p.completed w = some strs → FfhCtrl.convert stof strs = .error e →
      x.out = [] → x.res = .error e → Obeys p w x

/-- A loop whose reads are those of its place, the stale word again at the end of the input. -/
structure Follows (read : σ → Option String → Emit ω Fault (Reader.Turn σ ρ)) : Prop where
  live : ∀ {s p}, R s p → p.Live
  stale : ∀ {s p}, R s p → read s none = read s (some p.stale)
  obeys : ∀ {s p}, R s p → ∀ w, Obeys stof connected R p w (read s (some w))

/-! ## What such a loop needs to end -/

namespace Follows

variable {stof connected R} {read : σ → Option String → Emit ω Fault (Reader.Turn σ ρ)}

/-- In `testFlow` the old words are read up to the last, which completes the triple again. -/
theorem stops_flow (h : Follows stof connected R read) {operCmd : Option String} {s : σ} {t : FfhCtrl.Flow}
    (hR : R s (.flow operCmd t)) :
    Reader.Stops Thrown (Reader.feed read s) ([] : List String) ↔ (Place.flow operCmd t).Ends stof connected := by
  induction hn : 2 - t.next.val using Nat.strong_induction_on generalizing s t with
  | _ n ih =>
    have hquit : t.strs t.next ≠ "quit" := (h.live hR).2 t.next
    have hob := h.obeys hR (t.strs t.next)
    rw [Reader.stops_nil, h.stale hR, show (Place.flow operCmd t).stale = t.strs t.next from rfl]
    cases hob with
    | returned r _ hover _ => simp [Place.next, hquit] at hover
    | silent u hcomp hns hout hres hu =>
      have hr : t.strs t.next ≠ "reset" := hns operCmd t rfl
      have hk : t.next ≠ 2 := ((FfhCtrl.Flow.completed_none.mp hcomp).resolve_left hquit).resolve_left hr
      have hkeep : (Place.flow operCmd t).next connected (t.strs t.next) = .flow operCmd ⟨t.strs, t.next + 1⟩ := by
        simp [Place.next, FfhCtrl.Flow.keep, hquit, hr, hk]
      rw [hkeep] at hu
      have hval : (t.next + 1).val = t.next.val + 1 := by omega
      rw [Reader.after_reading hres, and_iff_right hout, ih _ (by simp only [hval]; omega) hu rfl]
      refine and_congr_left fun _ => ⟨fun hall k hle => ?_, fun hall k hle => hall k ?_⟩
      · by_cases hkk : k = t.next
        · rwa [hkk]
        · exact hall k (show t.next + 1 ≤ k by omega)
      · have hle : t.next + 1 ≤ k := hle
        show t.next ≤ k
        omega
    | reset u _ _ hr hout hres _ =>
      exact iff_of_false (fun hs => hout hs.1) fun he => he.1 t.next (le_refl _) hr
    | entered strs e u hcomp he hout hres _ =>
      obtain ⟨-, -, hstrs⟩ := FfhCtrl.Flow.completed_some hcomp
      rw [Function.update_eq_self] at hstrs
      subst hstrs
      refine iff_of_false (fun hs => hout hs.1) fun hends => ?_
      have := hends.2
      rw [he] at this
      cases this
    | fault strs e hcomp he hout hres =>
      obtain ⟨hr, hk, hstrs⟩ := FfhCtrl.Flow.completed_some hcomp
      rw [Function.update_eq_self] at hstrs
      subst hstrs
      rw [Reader.after_error hres, and_iff_right hout]
      constructor
      · intro hthrown
        refine ⟨fun k hle => ?_, by rw [he, hthrown]⟩
        rwa [show k = t.next by omega]
      · intro hends
        exact Except.error.inj (he.symm.trans hends.2)

/-- The menu reads its old word again; an old `test` comes to `testFlow` with no strings. -/
theorem stops_menu (h : Follows stof connected R read) {operCmd : String} {s : σ} (hR : R s (.menu operCmd)) :
    Reader.Stops Thrown (Reader.feed read s) ([] : List String) ↔ (Place.menu operCmd).Ends stof connected := by
  have hquit : operCmd ≠ "quit" := h.live hR
  have hover : (Place.menu operCmd).next connected operCmd ≠ .ended := by
    simp only [Place.next, if_neg hquit]
    split
    · split <;> exact fun e => by cases e
    · exact fun e => by cases e
  have hsilent : ∀ {s}, R s (.menu operCmd) → ∃ u, (read s none).out = [] ∧ (read s none).res = .ok (.reading u) ∧
      R u ((Place.menu operCmd).next connected operCmd) := by
    intro s hR
    have hob := h.obeys hR operCmd
    rw [h.stale hR, show (Place.menu operCmd).stale = operCmd from rfl]
    cases hob with
    | returned r _ hov _ => exact absurd hov hover
    | silent u _ _ hout hres hu => exact ⟨u, hout, hres, hu⟩
    | reset u _ hflow _ _ _ _ => obtain ⟨op, t, hf⟩ := hflow; cases hf
    | entered strs e u hcomp _ _ _ _ => cases hcomp
    | fault strs e hcomp _ _ _ => cases hcomp
  by_cases htest : operCmd = "test" ∧ connected = true
  · have hnext : (Place.menu operCmd).next connected operCmd = .flow (some operCmd) {} := by
      simp only [Place.next, htest.1, htest.2, if_true]
    obtain ⟨u, hout, hres, hu⟩ := hsilent hR
    rw [hnext] at hu
    rw [Reader.stops_nil, Reader.after_reading hres, and_iff_right hout, h.stops_flow hu]
    constructor
    · intro hends
      exact ⟨htest.1, htest.2, hends.2⟩
    · intro hends
      exact ⟨fun _ _ => (by decide : "" ≠ "reset"), hends.2.2⟩
  · -- the menu again, for ever
    have hnext : (Place.menu operCmd).next connected operCmd = .menu operCmd := by
      simp only [Place.next, if_neg hquit]
      split
      · rename_i ht
        rw [if_neg fun hc => htest ⟨ht, hc⟩]
      · rfl
    have hagain : ∀ s, R s (.menu operCmd) → ∃ u, (read s none).res = .ok (.reading u) ∧ R u (.menu operCmd) := by
      intro s hs
      obtain ⟨u, -, hres, hu⟩ := hsilent hs
      rw [hnext] at hu
      exact ⟨u, hres, hu⟩
    exact iff_of_false (Reader.stuck read hagain hR) fun hends => htest ⟨hends.1, hends.2.1⟩

/-- A loop ends with its input exactly when the triples settle it, or the end of the input
    does. -/
theorem stops_iff (h : Follows stof connected R read) {ws : List String} {s : σ} {p : Place} (hR : R s p) :
    Reader.Stops Thrown (Reader.feed read s) ws ↔ p.Settled stof connected ws := by
  unfold Place.Settled
  induction ws generalizing s p with
  | nil =>
    have hlive := h.live hR
    cases p with
    | menu operCmd => exact h.stops_menu hR
    | flow operCmd t => exact h.stops_flow hR
    | ended => exact hlive.elim
  | cons w ws ih =>
    rw [Reader.stops_cons, Place.triples, List.foldl_cons]
    cases h.obeys hR w with
    | returned r hcomp hover hres =>
      obtain ⟨htriples, hfold⟩ := Place.ended_words connected ws
      rw [hcomp, hover, htriples, hfold]
      exact iff_of_true (Reader.after_returned hres) trivial
    | silent u hcomp _ _ hres hu =>
      rw [Reader.after_reading hres, ih hu, hcomp]
      rfl
    | reset u hcomp _ _ _ hres hu =>
      rw [Reader.after_reading hres, ih hu, hcomp]
      rfl
    | entered strs e u hcomp he _ hres hu =>
      rw [Reader.after_reading hres, ih hu, hcomp]
      exact (Place.settles_of_ok stof he _ _).symm
    | fault strs e hcomp he _ hres =>
      rw [Reader.after_error hres, hcomp]
      exact (Place.settles_of_error stof he _ _).symm

end Follows

end Follows

/-! ## `testFlow` -/

section TestFlow

open FfhCtrl

variable {A : Type} [Zero A] (stof : String → Except Fault A)

/-- `testFlow`, called alone, is in its flow until it returns. -/
def Flowing (s : FfhCtrl A × Locals) (p : Place) : Prop :=
  s.2.resetFlag = false ∧ p = .flow none s.2.flow ∧ ∀ k, s.2.strs k ≠ "quit"

theorem keep_no_quit {l m : Locals} {w : String} (h : ∀ k, l.strs k ≠ "quit") (hw : w ≠ "quit")
    (hm : m.flow = l.flow.keep w) (k : Fin 3) : m.strs k ≠ "quit" := by
  have hstrs : m.strs = Function.update l.strs l.k w := congrArg Flow.strs hm
  rw [hstrs]
  by_cases hk : k = l.k
  · simpa [hk] using hw
  · simpa [hk] using h k

theorem testFlow_follows (connected : Bool) : Follows stof connected (Flowing (A := A)) (readStr stof) where
  live := by
    rintro ⟨c, l⟩ p ⟨-, rfl, hquit⟩
    exact ⟨fun op hop => (by cases hop), hquit⟩
  stale := by
    rintro ⟨c, l⟩ p ⟨-, rfl, -⟩
    rfl
  obeys := by
    rintro ⟨c, l⟩ p ⟨hflag, rfl, hquit⟩ w
    have hword := read_word stof c w hflag
    have hflowing : ∀ {d : FfhCtrl A} {m : Locals}, w ≠ "quit" → m.resetFlag = false → m.flow = l.flow.keep w →
        Flowing (d, m) ((Place.flow none l.flow).next connected w) := by
      intro d m hq hm hkeep
      refine ⟨hm, ?_, keep_no_quit hquit hq hkeep⟩
      simp only [Place.next, if_neg hq, hkeep]
    generalize readStr stof (c, l) (some w) = x at hword
    cases hword with
    | quit hw hcomp _ => exact .returned _ hcomp (by simp [Place.next, hw]) rfl
    | reset m hw hcomp hm hkeep _ =>
      exact .reset _ hcomp ⟨none, l.flow, rfl⟩ hw (List.cons_ne_nil _ _) rfl (hflowing (by rw [hw]; decide) hm hkeep)
    | next m hq hr hcomp hm hkeep _ => exact .silent _ hcomp (fun _ _ _ => hr) rfl rfl (hflowing hq hm hkeep)
    | entered strs i j a m hq hcomp he hm _ hkeep _ =>
      exact .entered strs (i, j, a) _ hcomp he (List.cons_ne_nil _ _) rfl (hflowing hq hm hkeep)
    | fault strs f _ hcomp he _ => exact .fault strs f hcomp he rfl rfl

end TestFlow

/-! ## `singleJointTest` -/

section SingleJoint

open FfhCtrl

variable {A : Type} [Zero A] (stof : String → Except Fault A)

/-- Where `singleJointTest` stands: at its read, or in a `testFlow` that it has called. `ffh`
    is its copy of `ffhs_.front()`. -/
structure Menu (A : Type) where
  ffh : Option (FfhCtrl A)
  operCmd : String := ""
  locals : Option Locals := none

/-- The call. -/
def Menu.start (task : LpV2SyncFFH A) : Menu A := ⟨task.ffhs_[left_hand]?.join, "", none⟩

/-- `*ffh`. -/
def deref : Option (FfhCtrl A) → Except Fault (FfhCtrl A)
  | none => .error .nullPointer
  | some c => .ok c

/-- Back in the round, once `testFlow` has returned. -/
def calling (operCmd : String) : Reader.Turn (FfhCtrl A × Locals) (FfhCtrl A × AR_RETURN_VALUE) → Menu A
  | .reading (c, l) => ⟨some c, operCmd, some l⟩
  | .returned (c, _) => ⟨some c, operCmd, none⟩

/-- `std::cin >> operCmd` and the rest of the round, or a read of `testFlow`. -/
def singleJointRead (s : Menu A) (word : Option String) :
    Emit (UdpEv A) Fault (Reader.Turn (Menu A) (FfhCtrl A)) :=
  match s.locals with
  | none =>
    let operCmd := word.getD s.operCmd
    if operCmd = "test" then do
      let c ← lift (deref s.ffh)
      pure (.reading ⟨some c, operCmd, if c.inConnection_ then some {} else none⟩)
    else if operCmd = "quit" then do
      let c ← lift (deref s.ffh)
      let c ← c.reset
      pure (.returned c)
    else pure (.reading { s with operCmd := operCmd })
  | some l => do
    let c ← lift (deref s.ffh)
    let t ← readStr stof (c, l) word
    pure (.reading (calling s.operCmd t))

/-- `singleJointTest` at its place, with a controller. -/
inductive Testing (connected : Bool) : Menu A → Place → Prop
  | menu {c : FfhCtrl A} {operCmd : String} : c.inConnection_ = connected → operCmd ≠ "quit" →
      Testing connected ⟨some c, operCmd, none⟩ (.menu operCmd)
  | flow {c : FfhCtrl A} {operCmd : String} {l : Locals} : c.inConnection_ = connected → operCmd ≠ "quit" →
      l.resetFlag = false → (∀ k, l.strs k ≠ "quit") → Testing connected ⟨some c, operCmd, some l⟩ (.flow (some operCmd) l.flow)

variable {connected : Bool} {c : FfhCtrl A} {operCmd : String}

theorem menu_obeys (hin : c.inConnection_ = connected) (w : String) :
    Obeys stof connected (Testing connected) (.menu operCmd) w (singleJointRead stof ⟨some c, operCmd, none⟩ (some w)) := by
  by_cases htest : w = "test"
  · subst htest
    refine .silent ⟨some c, "test", if c.inConnection_ then some {} else none⟩ rfl (fun _ _ h => by cases h) rfl rfl ?_
    cases connected with
    | true =>
      rw [if_pos hin]
      exact .flow hin (by decide) rfl fun _ => (by decide : "" ≠ "quit")
    | false =>
      rw [if_neg (by rw [hin]; decide)]
      exact .menu hin (by decide)
  by_cases hquit : w = "quit"
  · subst hquit
    exact .returned { c with handCmd_ := .zero } rfl rfl rfl
  · have hread : singleJointRead stof ⟨some c, operCmd, none⟩ (some w) = pure (.reading ⟨some c, w, none⟩) := by
      simp only [singleJointRead, Option.getD_some, if_neg htest, if_neg hquit]
    have hnext : (Place.menu operCmd).next connected w = .menu w := by simp only [Place.next, if_neg htest, if_neg hquit]
    rw [hread]
    refine .silent _ rfl (fun _ _ h => by cases h) rfl rfl ?_
    rw [hnext]
    exact .menu hin hquit

theorem flow_obeys {l : Locals} (hin : c.inConnection_ = connected) (hop : operCmd ≠ "quit") (hflag : l.resetFlag = false)
    (hstrs : ∀ k, l.strs k ≠ "quit") (w : String) :
    Obeys stof connected (Testing connected) (.flow (some operCmd) l.flow) w
      (singleJointRead stof ⟨some c, operCmd, some l⟩ (some w)) := by
  have hword := read_word stof c w hflag
  have hflowing : ∀ {d : FfhCtrl A} {m : Locals}, w ≠ "quit" → d.inConnection_ = connected → m.resetFlag = false →
      m.flow = l.flow.keep w →
      Testing connected ⟨some d, operCmd, some m⟩ ((Place.flow (some operCmd) l.flow).next connected w) := by
    intro d m hq hd hm hkeep
    simp only [Place.next, if_neg hq, ← hkeep]
    exact .flow hd hop hm (keep_no_quit hstrs hq hkeep)
  have hread : singleJointRead stof ⟨some c, operCmd, some l⟩ (some w) =
      readStr stof (c, l) (some w) >>= fun t => pure (.reading (calling operCmd t)) := rfl
  rw [hread]
  generalize readStr stof (c, l) (some w) = x at hword
  cases hword with
  | quit hw hcomp _ =>
    refine .silent _ hcomp (fun _ _ _ => by rw [hw]; decide) rfl rfl ?_
    simp only [Place.next, if_pos hw]
    exact .menu hin hop
  | reset m hw hcomp hm hkeep _ =>
    exact .reset _ hcomp ⟨some operCmd, l.flow, rfl⟩ hw (List.cons_ne_nil _ _) rfl
      (hflowing (by rw [hw]; decide) hin hm hkeep)
  | next m hq hr hcomp hm hkeep _ => exact .silent _ hcomp (fun _ _ _ => hr) rfl rfl (hflowing hq hin hm hkeep)
  | entered strs i j a m hq hcomp he hm _ hkeep _ =>
    exact .entered strs (i, j, a) _ hcomp he (List.cons_ne_nil _ _) rfl (hflowing hq hin hm hkeep)
  | fault strs f _ hcomp he _ => exact .fault strs f hcomp he rfl rfl

theorem singleJoint_follows (connected : Bool) :
    Follows stof connected (Testing connected) (singleJointRead stof) where
  live := by
    intro s p h
    cases h with
    | menu _ hop => exact hop
    | flow _ hop _ hstrs => exact ⟨fun op h => (by cases h; exact hop), hstrs⟩
  stale := by
    intro s p h
    cases h with
    | menu _ _ => rfl
    | flow _ _ _ _ => rfl
  obeys := by
    intro s p h w
    cases h with
    | menu hin _ => exact menu_obeys stof hin w
    | flow hin hop hflag hstrs => exact flow_obeys stof hin hop hflag hstrs w

/-- Without a controller nothing ends the loop: `test` and `quit` go through the null pointer. -/
theorem singleJoint_null {ws : List String} (hop : operCmd ≠ "test" ∧ operCmd ≠ "quit") :
    ¬ Reader.Stops Thrown (Reader.feed (singleJointRead stof) ⟨none, operCmd, none⟩) ws := by
  induction ws generalizing operCmd with
  | nil =>
    refine Reader.stuck _ (I := fun s => s = ⟨none, operCmd, none⟩) ?_ rfl
    rintro s rfl
    refine ⟨⟨none, operCmd, none⟩, ?_, rfl⟩
    simp only [singleJointRead, Option.getD_none, if_neg hop.1, if_neg hop.2]
    rfl
  | cons w ws ih =>
    rw [Reader.stops_cons]
    by_cases hw : w = "test" ∨ w = "quit"
    · have hread : (singleJointRead stof ⟨none, operCmd, none⟩ (some w)).res = .error .nullPointer := by
        rcases hw with rfl | rfl <;> rfl
      rw [Reader.after_error hread]
      exact fun h => by cases h
    · rw [not_or] at hw
      have hread : (singleJointRead stof ⟨none, operCmd, none⟩ (some w)).res = .ok (.reading ⟨none, w, none⟩) := by
        simp only [singleJointRead, Option.getD_some, if_neg hw.1, if_neg hw.2]
        rfl
      rw [Reader.after_reading hread]
      exact ih hw

end SingleJoint

/-! ## The menu in the program -/

section Program

open LpV2SyncFFH Program

variable {F : Type}

def Menu.phase (s : Menu F) : Phase F :=
  match s.locals with
  | none => .menu s.operCmd
  | some l => .flow s.operCmd l.flow

/-- Where the program stands after a read. -/
def landing (task : LpV2SyncFFH F) (cbs : CallBacks) : Reader.Turn (Menu F) (FfhCtrl F) → Prog F
  | .reading s => ⟨(match s.ffh with | some c => task.setFfh left_hand c | none => task), cbs, s.phase⟩
  | .returned c => ⟨task.setFfh left_hand c, cbs, .returned⟩

theorem setFfh_self {task : LpV2SyncFFH F} {c : FfhCtrl F} (hc : task.ffhs_[left_hand]? = some (some c)) :
    task.setFfh left_hand c = task := by
  obtain ⟨hlt, hget⟩ := List.getElem?_eq_some_iff.mp hc
  unfold setFfh
  rw [← hget, List.set_getElem_self hlt]

/-- A read of `singleJointTest` is a step of the program. -/
theorem singleJoint_readStep [Field F] [LinearOrder F] [Libm F] {task : LpV2SyncFFH F} (cbs : CallBacks) {s : Menu F}
    {c : FfhCtrl F} (hc : task.ffhs_[left_hand]? = some (some c)) (hs : s.ffh = some c)
    (hflag : ∀ l, s.locals = some l → l.resetFlag = false) (word : Option String) :
    readStep ⟨task, cbs, s.phase⟩ word =
      mapOut (.udp left_hand) (singleJointRead stof s word) >>= fun t => pure (landing task cbs t) := by
  obtain ⟨ffh, operCmd, locals⟩ := s
  obtain rfl : ffh = some c := hs
  cases locals with
  | none =>
    simp only [readStep, Menu.phase, menuStep, singleJointRead]
    by_cases htest : word.getD operCmd = "test"
    · simp only [if_pos htest, LpV2SyncFFH.testFlow, withFfh_of hc]
      cases hin : c.inConnection_ with
      | true =>
        rw [show flowing c.testFlow = (c, some {}) by simp [FfhCtrl.testFlow, hin, flowing]]
        simp only [deref, lift_ok_bind, hin]
        rfl
      | false =>
        rw [show flowing c.testFlow = (c, none) by simp [FfhCtrl.testFlow, hin, flowing]]
        simp only [deref, lift_ok_bind, hin]
        rfl
    by_cases hquit : word.getD operCmd = "quit"
    · simp only [if_neg htest, if_pos hquit, resetFfh, withFfh_of hc]
      rfl
    · simp only [if_neg htest, if_neg hquit]
      show _ = (pure ⟨task.setFfh left_hand c, cbs, .menu (word.getD operCmd)⟩ : Emit (Ev F) Fault (Prog F))
      rw [setFfh_self hc]
  | some l =>
    have hstep := FfhCtrl.readStr_flowStep c l.strs l.k word
    have hl : (⟨l.strs, false, l.k⟩ : FfhCtrl.Locals) = l := by rw [← hflag l rfl]
    simp only [readStep, Menu.phase, Program.flowStep, readFlow, withFfh_of hc, singleJointRead, deref, lift_ok_bind,
      FfhCtrl.Locals.flow]
    rw [hstep, hl]
    obtain ⟨out, res⟩ := FfhCtrl.readStr (stof (F := F)) (c, l) word
    cases res with
    | error e => rfl
    | ok t =>
      refine Emit.ext (by simp only [bind_pure_out, mapOut_out]) ?_
      cases t with
      | reading r => rfl
      | returned r => rfl

end Program

/-! ## Which loops end -/

section Ends

variable {A : Type} [Zero A] (stof : String → Except Fault A)

theorem testFlow_stops_iff (c : FfhCtrl A) (ws : List String) :
    Reader.Stops Thrown (c.testFlowOn stof) ws ↔ (c.inConnection_ = true → (Place.flow none {}).Settled stof true ws) := by
  cases hin : c.inConnection_ with
  | true =>
    rw [funext (FfhCtrl.testFlowOn_connected stof hin)]
    have hR : Flowing (c, {}) (.flow none {}) := ⟨rfl, rfl, fun _ => (by decide : "" ≠ "quit")⟩
    exact ((testFlow_follows stof true).stops_iff hR).trans ⟨fun h _ => h, fun h => h rfl⟩
  | false =>
    have hrun : ∀ vs, c.testFlowOn stof vs = pure (.returned (c, .ACTION_FAIL)) := fun vs => by
      simp [FfhCtrl.testFlowOn, hin]
    refine iff_of_true ⟨⟨0, Or.inl ⟨(c, .ACTION_FAIL), by rw [hrun]; rfl⟩⟩, fun n => by rw [hrun, hrun]⟩ fun h => by cases h

theorem singleJoint_stops_iff (ffh : Option (FfhCtrl A)) (ws : List String) :
    Reader.Stops Thrown (Reader.feed (singleJointRead stof) ⟨ffh, "", none⟩) ws ↔
      ∃ c, ffh = some c ∧ (Place.menu "").Settled stof c.inConnection_ ws := by
  cases ffh with
  | none => exact iff_of_false (singleJoint_null stof ⟨by decide, by decide⟩) fun ⟨c, hc, _⟩ => by cases hc
  | some c =>
    have hR : Testing c.inConnection_ ⟨some c, "", none⟩ (.menu "") := .menu rfl (by decide)
    refine ((singleJoint_follows stof c.inConnection_).stops_iff hR).trans ⟨fun h => ⟨c, rfl, h⟩, ?_⟩
    rintro ⟨d, hd, h⟩
    cases hd
    exact h

end Ends

section SelfCheck

open LpV2SyncFFH

variable {F : Type} [Zero F]

theorem not_thrown {e : Fault} (h : ShapeFault e) : ¬ Thrown e := by
  rintro rfl
  exact h

/-- A round that does not get its pass done ends the program with no exception. -/
theorem selfCheckRead_fault {s : Check F} (word : Option String) (hw : word.getD s.str = "test")
    (h : ¬ ∀ c ∈ checkPass, Checkable s.task c) : ∃ e, ShapeFault e ∧ (selfCheckRead s word).res = .error e := by
  obtain ⟨e, hs, he⟩ := exact_faults (checking_exact checkPass s.task s.tmp_cmd) h
  refine ⟨e, hs, ?_⟩
  simp only [selfCheckRead, if_pos hw]
  rw [bind_of_error he]

theorem selfCheckRead_other {s : Check F} (word : Option String) (ht : word.getD s.str ≠ "test")
    (hq : word.getD s.str ≠ "quit") : (selfCheckRead s word).res = .ok (.reading { s with str := word.getD s.str }) := by
  simp only [selfCheckRead, if_neg ht, if_pos hq]
  rfl

/-- Without its `quit` it never ends: it repeats the pass, or asks for ever. -/
theorem selfCheck_stuck {s : Check F} (hquit : s.str ≠ "quit") :
    ¬ Reader.Stops Thrown (Reader.feed selfCheckRead s) ([] : List String) := by
  by_cases htest : s.str = "test"
  · by_cases hpass : ∀ c ∈ checkPass, Checkable s.task c
    · refine Reader.stuck _ (I := fun s => s.str = "test" ∧ ∀ c ∈ checkPass, Checkable s.task c) ?_ ⟨htest, hpass⟩
      rintro u ⟨hstr, hu⟩
      obtain ⟨t, ht, ha, -⟩ := selfCheckRead_test hu none hstr
      exact ⟨_, ht, rfl, fun c hc => (ha.checkable c).mpr (hu c hc)⟩
    · obtain ⟨e, hs, he⟩ := selfCheckRead_fault none htest hpass
      rw [Reader.stops_nil, Reader.after_error he]
      exact fun h => not_thrown hs h.2
  · refine Reader.stuck _ (I := fun u => u = s) ?_ rfl
    rintro u rfl
    exact ⟨_, selfCheckRead_other none htest hquit, rfl⟩

theorem selfCheck_stops_iff {ws : List String} {s : Check F} (hstr : s.str ≠ "quit") :
    Reader.Stops Thrown (Reader.feed selfCheckRead s) ws ↔
      "quit" ∈ ws ∧ ("test" ∈ ws.takeWhile (· ≠ "quit") → ∀ c ∈ checkPass, Checkable s.task c) := by
  induction ws generalizing s with
  | nil => exact iff_of_false (selfCheck_stuck hstr) fun h => by cases h.1
  | cons w ws ih =>
    rw [Reader.stops_cons]
    by_cases hquit : w = "quit"
    · subst hquit
      exact iff_of_true (Reader.after_returned (r := s.task) rfl) ⟨List.mem_cons_self, fun h => by simp at h⟩
    have hmem : "quit" ∈ w :: ws ↔ "quit" ∈ ws := by simp [Ne.symm hquit]
    have htake : (w :: ws).takeWhile (· ≠ "quit") = w :: ws.takeWhile (· ≠ "quit") := by simp [hquit]
    rw [hmem, htake]
    by_cases htest : w = "test"
    · subst htest
      by_cases hpass : ∀ c ∈ checkPass, Checkable s.task c
      · obtain ⟨t, ht, ha, -⟩ := selfCheckRead_test hpass (some "test") rfl
        rw [Reader.after_reading ht, ih (show "test" ≠ "quit" by decide)]
        refine and_congr_right fun _ => iff_of_true (fun _ c hc => (ha.checkable c).mpr (hpass c hc)) fun _ => hpass
      · obtain ⟨e, hs, he⟩ := selfCheckRead_fault (some "test") rfl hpass
        rw [Reader.after_error he]
        exact iff_of_false (not_thrown hs) fun h => hpass (h.2 List.mem_cons_self)
    · rw [Reader.after_reading (selfCheckRead_other (some w) htest hquit), ih hquit]
      simp [Ne.symm htest]

/-- For all words: `testFlow` ends with its input when it is not connected or its triples
    settle it; `singleJointTest`, when it has a controller and the triples of the `testFlow`
    it calls settle it; `selfCheck`, when `quit` is among the words and a `test` before it
    finds what a pass needs. -/
theorem loops_end_iff (stof : String → Except Fault F) (task : LpV2SyncFFH F) (c : FfhCtrl F) (tmp_cmd : udp_hand_cmd F)
    (ws : List String) :
    (Reader.Stops Thrown (c.testFlowOn stof) ws ↔
      (c.inConnection_ = true → (Place.flow none {}).Settled stof true ws)) ∧
    (Reader.Stops Thrown (Reader.feed (singleJointRead stof) (Menu.start task)) ws ↔
      ∃ c, task.ffhs_[left_hand]? = some (some c) ∧ (Place.menu "").Settled stof c.inConnection_ ws) ∧
    (Reader.Stops Thrown (Reader.feed selfCheckRead ⟨task, "", tmp_cmd⟩) ws ↔
      "quit" ∈ ws ∧ ("test" ∈ ws.takeWhile (· ≠ "quit") →
        Has task left_hand ∧ Table task.selfCheckData1 ∧ Table task.selfCheckData2)) := by
  refine ⟨testFlow_stops_iff stof c ws, ?_, ?_⟩
  · simp only [Menu.start, singleJoint_stops_iff, Option.join_eq_some_iff]
  · rw [selfCheck_stops_iff (show "" ≠ "quit" by decide), checkPass_needs]

/-- After a single `test` and the end of the input the self check repeats its passes. -/
theorem selfCheck_repeats : ¬ ∀ (task : LpV2SyncFFH ℤ) (tmp_cmd : udp_hand_cmd ℤ) (ws : List String),
    Reader.Stops Thrown (Reader.feed selfCheckRead ⟨task, "", tmp_cmd⟩) ws := by
  intro h
  exact absurd ((selfCheck_stops_iff (show "" ≠ "quit" by decide)).mp (h still .zero ["test"])).1 (by decide)

end SelfCheck

end LeapSyncFfh
