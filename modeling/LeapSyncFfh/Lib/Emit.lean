/-
  LeapSyncFfh.Lib.Emit — computations that emit outputs and end with a value or a fault.

  `Emit ω ε α` is the list of outputs of a computation, oldest first, and its result.
  A fault ends a computation and keeps what was emitted before it, so a statement about
  every output speaks about faulting computations too.

  `Heeds account ok g tr` reads a list of outputs against an account kept of them, `g` before
  the first: every output is allowed by the account of those before it.

  `Sat p Q x`: every output of `x` satisfies `p`, and if `x` returns, its value satisfies
  `Q`. The rules (`sat_pure`, `sat_bind`, ...) follow the constructors. `Ends P Q x` is the
  same for the fault it ends with, `Within p P Q x` is both, and `Exact P C Q x` says that `C`
  decides between the value and the fault.

  `runs step s is` takes the steps labelled `is` from `s`. `Along step c s is` says that
  every step of that run is taken in a state and with a label that meet `c`; `runs_sat`
  is the run rule: what every permitted step keeps, a permitted run keeps; `runs_heeds`,
  `runs_ends` and `runs_exact` are those of `Heeds`, `Ends` and `Exact`. `ghost` folds a value along a run, and
  `runs_ghost` is the rule for facts about it and the outputs so far.
  `runs_law_iff` is for a law about the outputs and the state after every call: when it
  survives exactly the permitted steps, it holds throughout exactly the permitted runs.
-/

structure Emit (ω ε α : Type) where
  out : List ω
  res : Except ε α

namespace Emit

variable {ω ω' ε α β σ ι : Type}

def emit (w : ω) : Emit ω ε Unit := ⟨[w], .ok ()⟩

def fail (e : ε) : Emit ω ε α := ⟨[], .error e⟩

def lift (x : Except ε α) : Emit ω ε α := ⟨[], x⟩

instance : Monad (Emit ω ε) where
  pure a := ⟨[], .ok a⟩
  bind x f :=
    match x.res with
    | .ok a => ⟨x.out ++ (f a).out, (f a).res⟩
    | .error e => ⟨x.out, .error e⟩

/-- The same computation, its outputs renamed. -/
def mapOut (f : ω → ω') (x : Emit ω ε α) : Emit ω' ε α := ⟨x.out.map f, x.res⟩

@[ext] theorem ext {x y : Emit ω ε α} (ho : x.out = y.out) (hr : x.res = y.res) : x = y := by
  cases x; cases y; cases ho; cases hr; rfl

/-! ## Outputs and results of the constructors -/

@[simp] theorem pure_out (a : α) : (pure a : Emit ω ε α).out = [] := rfl
@[simp] theorem pure_res (a : α) : (pure a : Emit ω ε α).res = .ok a := rfl
@[simp] theorem emit_out (w : ω) : (emit w : Emit ω ε Unit).out = [w] := rfl
@[simp] theorem emit_res (w : ω) : (emit w : Emit ω ε Unit).res = .ok () := rfl
@[simp] theorem fail_out (e : ε) : (fail e : Emit ω ε α).out = [] := rfl
@[simp] theorem fail_res (e : ε) : (fail e : Emit ω ε α).res = .error e := rfl
@[simp] theorem lift_out (x : Except ε α) : (lift x : Emit ω ε α).out = [] := rfl
@[simp] theorem lift_res (x : Except ε α) : (lift x : Emit ω ε α).res = x := rfl
@[simp] theorem mapOut_out (f : ω → ω') (x : Emit ω ε α) : (mapOut f x).out = x.out.map f := rfl
@[simp] theorem mapOut_res (f : ω → ω') (x : Emit ω ε α) : (mapOut f x).res = x.res := rfl

theorem bind_of_ok {x : Emit ω ε α} {a : α} (h : x.res = .ok a) (f : α → Emit ω ε β) :
    x >>= f = ⟨x.out ++ (f a).out, (f a).res⟩ := by
  show (match x.res with | .ok a => _ | .error e => _) = _
  rw [h]

theorem bind_of_error {x : Emit ω ε α} {e : ε} (h : x.res = .error e) (f : α → Emit ω ε β) :
    x >>= f = ⟨x.out, .error e⟩ := by
  show (match x.res with | .ok a => _ | .error e => _) = _
  rw [h]

instance : LawfulMonad (Emit ω ε) := LawfulMonad.mk' (Emit ω ε)
  (fun x => by
    show (match x.res with | .ok a => _ | .error e => _) = x
    split <;> simp_all [Emit.ext_iff])
  (fun a f => by rw [bind_of_ok (pure_res a)]; simp)
  (fun x f g => by
    cases hx : x.res with
    | error e => rw [bind_of_error hx, bind_of_error rfl, bind_of_error hx]
    | ok a =>
      rw [bind_of_ok hx, bind_of_ok hx]
      cases hf : (f a).res with
      | error e => rw [bind_of_error rfl, bind_of_error hf]
      | ok b => rw [bind_of_ok rfl, bind_of_ok hf]; simp)

@[simp] theorem lift_ok_bind (a : α) (f : α → Emit ω ε β) : lift (.ok a) >>= f = f a := by
  rw [bind_of_ok (lift_res _)]; simp

@[simp] theorem lift_error_bind (e : ε) (f : α → Emit ω ε β) : lift (.error e) >>= f = fail e := by
  rw [bind_of_error (lift_res _)]; rfl

@[simp] theorem fail_bind (e : ε) (f : α → Emit ω ε β) : fail e >>= f = fail e := by
  rw [bind_of_error (fail_res _)]; rfl

theorem bind_res_ok {x : Emit ω ε α} {f : α → Emit ω ε β} {b : β} :
    (x >>= f).res = .ok b ↔ ∃ a, x.res = .ok a ∧ (f a).res = .ok b := by
  cases h : x.res with
  | ok a => rw [bind_of_ok h]; simp
  | error e => rw [bind_of_error h]; simp

/-- The step of a computation that returned: what its first part emitted and returned. -/
theorem bind_ok_split {x : Emit ω ε α} {f : α → Emit ω ε β} {b : β} (h : (x >>= f).res = .ok b) :
    ∃ a, x.res = .ok a ∧ (f a).res = .ok b ∧ (x >>= f).out = x.out ++ (f a).out := by
  obtain ⟨a, ha, hb⟩ := bind_res_ok.mp h
  exact ⟨a, ha, hb, by rw [bind_of_ok ha]⟩

@[simp] theorem bind_pure_out (x : Emit ω ε α) (f : α → β) : (x >>= fun a => pure (f a)).out = x.out := by
  cases h : x.res with
  | ok a => rw [bind_of_ok h]; simp
  | error e => rw [bind_of_error h]

theorem bind_pure_error {x : Emit ω ε α} {f : α → β} {e : ε} :
    (x >>= fun a => pure (f a)).res = .error e ↔ x.res = .error e := by
  cases h : x.res with
  | ok a => rw [bind_of_ok h]; simp
  | error e => rw [bind_of_error h]; simp

/-- The value of a computation that has no fault to end with. -/
def val (x : Emit ω Empty α) : α :=
  match x.res with
  | .ok a => a

theorem res_val (x : Emit ω Empty α) : x.res = .ok x.val := by
  unfold val
  split
  assumption

/-- A statement about what a returned value is. -/
theorem ok_imp_iff {p : α → Prop} {a : α} : (∀ b, (Except.ok a : Except ε α) = .ok b → p b) ↔ p a := by
  constructor
  · intro h
    exact h a rfl
  · rintro h b ⟨⟩
    exact h

/-! ## Outputs against an account of those before -/

section Account

variable {γ : Type} (account : γ → ω → γ) (ok : γ → ω → Prop)

def Heeds (g : γ) : List ω → Prop
  | [] => True
  | w :: tr => ok g w ∧ Heeds (account g w) tr

theorem heeds_append (g : γ) (tr tr' : List ω) :
    Heeds account ok g (tr ++ tr') ↔ Heeds account ok g tr ∧ Heeds account ok (tr.foldl account g) tr' := by
  induction tr generalizing g with
  | nil => simp [Heeds]
  | cons w tr ih => simp [Heeds, ih, and_assoc]

/-- Outputs that change no account and are always allowed. -/
theorem heeds_idle {g : γ} {tr : List ω} (h : ∀ w ∈ tr, account g w = g ∧ ok g w) :
    Heeds account ok g tr ∧ tr.foldl account g = g := by
  induction tr with
  | nil => exact ⟨trivial, rfl⟩
  | cons w tr ih =>
    obtain ⟨hacc, hok⟩ := h w List.mem_cons_self
    obtain ⟨hrest, hfold⟩ := ih fun v hv => h v (List.mem_cons_of_mem w hv)
    simp only [Heeds, List.foldl_cons, hacc]
    exact ⟨⟨hok, hrest⟩, hfold⟩

end Account

/-! ## Every output and the returned value -/

def Sat (p : ω → Prop) (Q : α → Prop) (x : Emit ω ε α) : Prop :=
  (∀ w ∈ x.out, p w) ∧ ∀ a, x.res = .ok a → Q a

theorem sat_pure {p : ω → Prop} {Q : α → Prop} {a : α} (h : Q a) : Sat p Q (pure a : Emit ω ε α) :=
  ⟨fun _ hw => (List.not_mem_nil hw).elim, fun _ hb => by cases hb; exact h⟩

theorem sat_fail {p : ω → Prop} {Q : α → Prop} (e : ε) : Sat p Q (fail e : Emit ω ε α) :=
  ⟨fun _ hw => (List.not_mem_nil hw).elim, fun _ hb => by cases hb⟩

theorem sat_lift {p : ω → Prop} {Q : α → Prop} {x : Except ε α} (h : ∀ a, x = .ok a → Q a) :
    Sat p Q (lift x : Emit ω ε α) :=
  ⟨fun _ hw => (List.not_mem_nil hw).elim, h⟩

theorem sat_bind {p : ω → Prop} {Q : α → Prop} {R : β → Prop} {x : Emit ω ε α} {f : α → Emit ω ε β}
    (hx : Sat p Q x) (hf : ∀ a, Q a → Sat p R (f a)) : Sat p R (x >>= f) := by
  cases h : x.res with
  | ok a =>
    rw [bind_of_ok h]
    obtain ⟨h1, h2⟩ := hf a (hx.2 a h)
    refine ⟨fun w hw => ?_, h2⟩
    rcases List.mem_append.mp hw with hw | hw
    · exact hx.1 w hw
    · exact h1 w hw
  | error e => rw [bind_of_error h]; exact ⟨hx.1, fun _ hb => by cases hb⟩

theorem sat_mono {p q : ω → Prop} {Q R : α → Prop} {x : Emit ω ε α} (hx : Sat p Q x) (hp : ∀ w, p w → q w)
    (hQ : ∀ a, Q a → R a) : Sat q R x :=
  ⟨fun w hw => hp w (hx.1 w hw), fun a ha => hQ a (hx.2 a ha)⟩

/-- What is returned is the computation's result. -/
theorem sat_res {p : ω → Prop} {Q : α → Prop} {x : Emit ω ε α} (hx : Sat p Q x) :
    Sat p (fun a => Q a ∧ x.res = .ok a) x := ⟨hx.1, fun a ha => ⟨hx.2 a ha, ha⟩⟩

theorem sat_mapOut {p : ω' → Prop} {Q : α → Prop} {f : ω → ω'} {x : Emit ω ε α} (h : Sat (fun w => p (f w)) Q x) :
    Sat p Q (mapOut f x) := by
  refine ⟨fun w hw => ?_, h.2⟩
  obtain ⟨v, hv, rfl⟩ := List.mem_map.mp hw
  exact h.1 v hv

/-! ## How a computation ends -/

/-- A fault it ends with satisfies `P`, a value it returns `Q`. -/
def Ends (P : ε → Prop) (Q : α → Prop) (x : Emit ω ε α) : Prop :=
  (∀ e, x.res = .error e → P e) ∧ ∀ a, x.res = .ok a → Q a

section Ends

variable {P : ε → Prop} {Q : α → Prop} {R : β → Prop}

theorem ends_pure {a : α} (h : Q a) : Ends P Q (pure a : Emit ω ε α) :=
  ⟨fun _ he => (by cases he), fun _ hb => by cases hb; exact h⟩

theorem ends_fail {e : ε} (h : P e) : Ends P Q (fail e : Emit ω ε α) :=
  ⟨fun _ he => (by cases he; exact h), fun _ hb => by cases hb⟩

theorem ends_emit (w : ω) : Ends P (fun _ => True) (emit w : Emit ω ε Unit) :=
  ⟨fun _ he => (by cases he), fun _ _ => trivial⟩

theorem ends_of_ok {x : Emit ω ε α} {a : α} (hx : x.res = .ok a) (h : Q a) : Ends P Q x :=
  ⟨fun e he => (by rw [hx] at he; cases he), fun b hb => by rw [hx] at hb; cases hb; exact h⟩

theorem ends_mapOut {f : ω → ω'} {x : Emit ω ε α} (h : Ends P Q x) : Ends P Q (mapOut f x) := h

theorem ends_bind {x : Emit ω ε α} {f : α → Emit ω ε β} (hx : Ends P Q x) (hf : ∀ a, Q a → Ends P R (f a)) :
    Ends P R (x >>= f) := by
  cases h : x.res with
  | ok a =>
    rw [bind_of_ok h]
    exact hf a (hx.2 a h)
  | error e =>
    rw [bind_of_error h]
    exact ⟨fun e' he => (by cases he; exact hx.1 e h), fun b hb => by cases hb⟩

theorem ends_mono {P' : ε → Prop} {Q' : α → Prop} {x : Emit ω ε α} (hx : Ends P Q x) (hP : ∀ e, P e → P' e)
    (hQ : ∀ a, Q a → Q' a) : Ends P' Q' x :=
  ⟨fun e he => hP e (hx.1 e he), fun a ha => hQ a (hx.2 a ha)⟩

/-- The outputs and the end together. -/
def Within (p : ω → Prop) (P : ε → Prop) (Q : α → Prop) (x : Emit ω ε α) : Prop := (∀ w ∈ x.out, p w) ∧ Ends P Q x

theorem within_pure {p : ω → Prop} {a : α} (h : Q a) : Within p P Q (pure a : Emit ω ε α) :=
  ⟨fun _ hw => (List.not_mem_nil hw).elim, ends_pure h⟩

theorem within_emit {p : ω → Prop} {w : ω} (h : p w) : Within p P (fun _ => True) (emit w : Emit ω ε Unit) :=
  ⟨fun v hv => by rw [List.mem_singleton.mp hv]; exact h, ends_emit w⟩

theorem within_lift {p : ω → Prop} {x : Except ε α} (h : Ends P Q (lift x : Emit ω ε α)) :
    Within p P Q (lift x : Emit ω ε α) := ⟨fun _ hw => (List.not_mem_nil hw).elim, h⟩

theorem within_bind {p : ω → Prop} {x : Emit ω ε α} {f : α → Emit ω ε β} (hx : Within p P Q x)
    (hf : ∀ a, Q a → Within p P R (f a)) : Within p P R (x >>= f) :=
  ⟨(sat_bind ⟨hx.1, hx.2.2⟩ fun a ha => (⟨(hf a ha).1, fun _ _ => trivial⟩ : Sat p (fun _ => True) (f a))).1,
    ends_bind hx.2 fun a ha => (hf a ha).2⟩

theorem within_mapOut {p : ω' → Prop} {f : ω → ω'} {x : Emit ω ε α} (h : Within (fun w => p (f w)) P Q x) :
    Within p P Q (mapOut f x) :=
  ⟨(sat_mapOut (Q := fun _ => True) ⟨h.1, fun _ _ => trivial⟩).1, h.2⟩

theorem Sat.within {p : ω → Prop} {x : Emit ω ε α} (h : Sat p Q x) : Within p (fun _ => True) Q x :=
  ⟨h.1, fun _ _ => trivial, h.2⟩

theorem Ends.within {x : Emit ω ε α} (h : Ends P Q x) : Within (fun _ => True) P Q x := ⟨fun _ _ => trivial, h⟩

theorem Within.sat {p : ω → Prop} {x : Emit ω ε α} (h : Within p P Q x) : Sat p Q x := ⟨h.1, h.2.2⟩

/-- It returns exactly when `C`, and otherwise ends with a fault that satisfies `P`. -/
def Exact (P : ε → Prop) (C : Prop) (Q : α → Prop) (x : Emit ω ε α) : Prop :=
  Ends (fun e => P e ∧ ¬ C) (fun a => C ∧ Q a) x

theorem exact_pure {a : α} (h : Q a) : Exact P True Q (pure a : Emit ω ε α) := ends_pure ⟨trivial, h⟩

theorem exact_of_ok {C : Prop} {x : Emit ω ε α} {a : α} (hx : x.res = .ok a) (hc : C) (h : Q a) : Exact P C Q x :=
  ends_of_ok hx ⟨hc, h⟩

theorem exact_of_error {C : Prop} {x : Emit ω ε α} {e : ε} (hx : x.res = .error e) (hc : ¬ C) (h : P e) :
    Exact P C Q x :=
  ⟨fun e' he => (by rw [hx] at he; cases he; exact ⟨h, hc⟩), fun b hb => by rw [hx] at hb; cases hb⟩

theorem exact_congr {C C' : Prop} {x : Emit ω ε α} (hC : C ↔ C') (hx : Exact P C Q x) : Exact P C' Q x :=
  ends_mono hx (fun _ h => ⟨h.1, fun hc => h.2 (hC.mpr hc)⟩) fun _ h => ⟨hC.mp h.1, h.2⟩

theorem exact_mono {C : Prop} {Q' : α → Prop} {x : Emit ω ε α} (hx : Exact P C Q x) (hQ : ∀ a, Q a → Q' a) :
    Exact P C Q' x := ends_mono hx (fun _ h => h) fun a h => ⟨h.1, hQ a h.2⟩

theorem exact_bind {C D : Prop} {x : Emit ω ε α} {f : α → Emit ω ε β} (hx : Exact P C Q x)
    (hf : ∀ a, C → Q a → Exact P D R (f a)) : Exact P (C ∧ D) R (x >>= f) := by
  refine ends_bind (Q := fun a => C ∧ Q a) ⟨fun e he => ?_, hx.2⟩ fun a h => ?_
  · exact ⟨(hx.1 e he).1, fun hc => (hx.1 e he).2 hc.1⟩
  · exact ends_mono (hf a h.1 h.2) (fun _ hd => ⟨hd.1, fun hc => hd.2 hc.2⟩) fun _ hd => ⟨⟨h.1, hd.1⟩, hd.2⟩

/-- What cannot fault returns. -/
theorem ends_total {x : Emit ω ε α} (hx : Ends (fun _ => False) Q x) : ∃ a, x.res = .ok a ∧ Q a := by
  cases h : x.res with
  | ok a => exact ⟨a, rfl, hx.2 a h⟩
  | error e => exact (hx.1 e h).elim

/-- Where `C` fails it faults. -/
theorem exact_faults {C : Prop} {x : Emit ω ε α} (hx : Exact P C Q x) (hc : ¬ C) : ∃ e, P e ∧ x.res = .error e := by
  cases h : x.res with
  | ok a => exact absurd (hx.2 a h).1 hc
  | error e => exact ⟨e, (hx.1 e h).1, rfl⟩

/-- Where `C` holds it returns. -/
theorem exact_returns {C : Prop} {P' : ε → Prop} {x : Emit ω ε α} (hx : Exact P C Q x) (hc : C) : Ends P' Q x :=
  ends_mono hx (fun _ h => absurd hc h.2) fun _ h => h.2

end Ends

/-! ## Runs -/

variable (step : σ → ι → Emit ω ε σ)

def runs (s : σ) : List ι → Emit ω ε σ
  | [] => pure s
  | i :: is => step s i >>= fun t => runs t is

/-- Every step of the run is taken in a state and with a label that meet `c`. -/
def Along (c : σ → ι → Prop) (s : σ) : List ι → Prop
  | [] => True
  | i :: is => c s i ∧ ∀ t, (step s i).res = .ok t → Along c t is

theorem along_prefix {c : σ → ι → Prop} {js is : List ι} (hjs : js <+: is) {s : σ} (h : Along step c s is) :
    Along step c s js := by
  induction js generalizing is s with
  | nil => trivial
  | cons j js ih =>
    cases is with
    | nil => exact absurd (List.prefix_nil.mp hjs) (List.cons_ne_nil _ _)
    | cons i is =>
      obtain ⟨rfl, hrest⟩ := List.cons_prefix_cons.mp hjs
      exact ⟨h.1, fun t ht => ih hrest (h.2 t ht)⟩

/-- The last step of a permitted run. -/
theorem along_last {c : σ → ι → Prop} {is : List ι} {i : ι} {s t : σ} (h : Along step c s (is ++ [i]))
    (ht : (runs step s is).res = .ok t) : c t i := by
  induction is generalizing s with
  | nil => cases ht; exact h.1
  | cons j js ih =>
    obtain ⟨u, hu, hrest, -⟩ := bind_ok_split ht
    exact ih (h.2 u hu) hrest

/-- A law that the labels decide holds along every run of labels that meet it. -/
theorem along_of_forall {c : σ → ι → Prop} {P : ι → Prop} (h : ∀ s i, P i → c s i) {is : List ι} (s : σ)
    (his : ∀ i ∈ is, P i) : Along step c s is := by
  induction is generalizing s with
  | nil => trivial
  | cons i is ih =>
    obtain ⟨hi, hrest⟩ := List.forall_mem_cons.mp his
    exact ⟨h s i hi, fun t _ => ih t hrest⟩

theorem along_and {c d : σ → ι → Prop} {is : List ι} {s : σ} (hc : Along step c s is) (hd : Along step d s is) :
    Along step (fun t i => c t i ∧ d t i) s is := by
  induction is generalizing s with
  | nil => trivial
  | cons i is ih => exact ⟨⟨hc.1, hd.1⟩, fun t ht => ih (hc.2 t ht) (hd.2 t ht)⟩

/-- And only along those, if a step that meets it returns. -/
theorem forall_of_along {c : σ → ι → Prop} {P : ι → Prop} (h : ∀ s i, c s i → P i)
    (hret : ∀ s i, c s i → ∃ t, (step s i).res = .ok t) {is : List ι} {s : σ} (his : Along step c s is) :
    ∀ i ∈ is, P i := by
  induction is generalizing s with
  | nil => exact fun i hi => by cases hi
  | cons i is ih =>
    obtain ⟨t, ht⟩ := hret s i his.1
    exact List.forall_mem_cons.mpr ⟨h s i his.1, ih (his.2 t ht)⟩

theorem runs_append (s : σ) (is js : List ι) : runs step s (is ++ js) = runs step s is >>= fun t => runs step t js := by
  induction is generalizing s with
  | nil => simp [runs]
  | cons i is ih => simp [runs, ih]

theorem runs_snoc (s : σ) (is : List ι) (i : ι) : runs step s (is ++ [i]) = runs step s is >>= fun t => step t i := by
  rw [runs_append]; simp [runs]

theorem runs_map {κ : Type} (f : κ → ι) (s : σ) (ks : List κ) :
    runs step s (ks.map f) = runs (fun s k => step s (f k)) s ks := by
  induction ks generalizing s with
  | nil => rfl
  | cons k ks ih => simp only [List.map_cons, runs, ih]

/-- The run rule: what every permitted step keeps, and every output it makes, a permitted
    run keeps and makes. -/
theorem runs_sat {c : σ → ι → Prop} {p : ω → Prop} {I : σ → Prop}
    (hstep : ∀ s i, I s → c s i → Sat p I (step s i)) :
    ∀ (is : List ι) (s : σ), I s → Along step c s is → Sat p I (runs step s is) := by
  intro is
  induction is with
  | nil => intro s hs _; exact sat_pure hs
  | cons i is ih =>
    intro s hs ⟨hc, hrest⟩
    apply sat_bind (sat_res (hstep s i hs hc))
    intro t ⟨ht, hres⟩
    exact ih t ht (hrest t hres)

/-- The same of steps that are all permitted. -/
theorem runs_sends {p : ω → Prop} {I : σ → Prop} (hstep : ∀ s i, I s → Sat p I (step s i)) (is : List ι) {s : σ}
    (hs : I s) : Sat p I (runs step s is) := by
  induction is generalizing s with
  | nil => exact sat_pure hs
  | cons i is ih => exact sat_bind (hstep s i hs) fun t ht => ih ht

/-- The run rule for how the steps end. -/
theorem runs_ends {P : ε → Prop} {I : σ → Prop} (hstep : ∀ s i, I s → Ends P I (step s i)) :
    ∀ (is : List ι) (s : σ), I s → Ends P I (runs step s is) := by
  intro is
  induction is with
  | nil => exact fun s hs => ends_pure hs
  | cons i is ih => exact fun s hs => ends_bind (hstep s i hs) fun t ht => ih t ht

/-- The run rule for steps that return exactly when they meet `d`, with a fact about the
    outputs made and the state reached. -/
theorem runs_exact {P : ε → Prop} {c d : σ → ι → Prop} {I : List ω → σ → Prop}
    (hstep : ∀ tr s i, I tr s → c s i → Exact P (d s i) (I (tr ++ (step s i).out)) (step s i)) :
    ∀ (is : List ι) (tr : List ω) (s : σ), I tr s → Along step c s is →
      Exact P (Along step d s is) (I (tr ++ (runs step s is).out)) (runs step s is) := by
  intro is
  induction is with
  | nil => exact fun tr s hs _ => exact_of_ok rfl trivial (by simpa [runs] using hs)
  | cons i is ih =>
    intro tr s hs ⟨hc, hrest⟩
    have hi := hstep tr s i hs hc
    cases hu : (step s i).res with
    | error e =>
      obtain ⟨he, hd⟩ := hi.1 e hu
      rw [runs, bind_of_error hu]
      exact exact_of_error rfl (fun h => hd h.1) he
    | ok u =>
      obtain ⟨hd, hkeep⟩ := hi.2 u hu
      have hruns := ih _ u hkeep (hrest u hu)
      rw [runs, bind_of_ok hu]
      refine exact_congr ⟨fun h => ⟨hd, fun v hv => ?_⟩, fun h => h.2 u hu⟩ ?_
      · obtain rfl : u = v := by rw [hu] at hv; exact Except.ok.inj hv
        exact h
      · show Exact P _ (I (tr ++ ((step s i).out ++ (runs step u is).out))) _
        rw [← List.append_assoc]
        exact hruns

/-- The same without a condition on the steps. -/
theorem runs_inv {I : σ → Prop} (hstep : ∀ s i t, I s → (step s i).res = .ok t → I t) {s t : σ} {is : List ι}
    (hs : I s) (h : (runs step s is).res = .ok t) : I t := by
  have along : ∀ (js : List ι) (u : σ), Along step (fun _ _ => True) u js := by
    intro js
    induction js with
    | nil => intro _; trivial
    | cons j js ih => intro u; exact ⟨trivial, fun v _ => ih v⟩
  exact (runs_sat step (p := fun _ => True) (fun s i hi _ => ⟨fun _ _ => trivial, fun t => hstep s i t hi⟩)
    is s hs (along is s)).2 t h

/-- The run rule for outputs that are to heed an account of those before them, also of a run
    that ends in a fault. -/
theorem runs_heeds {γ : Type} (account : γ → ω → γ) (ok : γ → ω → Prop) {I : γ → σ → Prop}
    (hstep : ∀ g s i, I g s → Heeds account ok g (step s i).out ∧
      ∀ t, (step s i).res = .ok t → I ((step s i).out.foldl account g) t) :
    ∀ (is : List ι) (g : γ) (s : σ), I g s → Heeds account ok g (runs step s is).out ∧
      ∀ t, (runs step s is).res = .ok t → I ((runs step s is).out.foldl account g) t := by
  intro is
  induction is with
  | nil => intro g s hs; exact ⟨trivial, fun t ht => by cases ht; exact hs⟩
  | cons i is ih =>
    intro g s hs
    obtain ⟨hheeds, hkeep⟩ := hstep g s i hs
    cases hres : (step s i).res with
    | error e =>
      rw [runs, bind_of_error hres]
      exact ⟨hheeds, fun t ht => by cases ht⟩
    | ok u =>
      obtain ⟨hrest, hend⟩ := ih _ u (hkeep u hres)
      rw [runs, bind_of_ok hres]
      refine ⟨(heeds_append _ _ _ _ _).mpr ⟨hheeds, hrest⟩, fun t ht => ?_⟩
      rw [List.foldl_append]
      exact hend t ht

/-- A run is permitted and keeps `I`, or it is not and ends in `J`: when permitted steps keep
    `I`, any other step breaks it, and what is broken stays so. -/
theorem runs_either {c : σ → ι → Prop} {I J : σ → Prop}
    (hstep : ∀ s i t, I s → c s i → (step s i).res = .ok t → I t)
    (hbreak : ∀ s i t, I s → ¬ c s i → (step s i).res = .ok t → J t)
    (hkeep : ∀ s i t, J s → (step s i).res = .ok t → J t) :
    ∀ (is : List ι) (s t : σ), I s → (runs step s is).res = .ok t →
      (Along step c s is ∧ I t) ∨ (¬ Along step c s is ∧ J t) := by
  intro is
  induction is with
  | nil => intro s t hs h; cases h; exact Or.inl ⟨trivial, hs⟩
  | cons i is ih =>
    intro s t hs h
    obtain ⟨u, hu, hrest, -⟩ := bind_ok_split h
    by_cases hc : c s i
    · rcases ih u t (hstep s i u hs hc hu) hrest with ⟨ha, ht⟩ | ⟨ha, ht⟩
      · refine Or.inl ⟨⟨hc, fun v hv => ?_⟩, ht⟩
        obtain rfl : u = v := by rw [hu] at hv; exact Except.ok.inj hv
        exact ha
      · exact Or.inr ⟨fun h => ha (h.2 u hu), ht⟩
    · exact Or.inr ⟨fun h => hc h.1, runs_inv step hkeep (hbreak s i u hs hc hu) hrest⟩

/-- Two conditions that agree on the steps from an invariant permit the same runs. -/
theorem along_iff {c d : σ → ι → Prop} {I : σ → Prop} (hstep : ∀ s i t, I s → (step s i).res = .ok t → I t)
    (hcd : ∀ s i, I s → (c s i ↔ d s i)) : ∀ (is : List ι) (s : σ), I s → (Along step c s is ↔ Along step d s is) := by
  intro is
  induction is with
  | nil => exact fun _ _ => Iff.rfl
  | cons i is ih =>
    intro s hs
    exact and_congr (hcd s i hs) (forall₂_congr fun t ht => ih t (hstep s i t hs ht))

/-- A run that is not permitted has a first step that is not, and it is reached. -/
theorem not_along {c : σ → ι → Prop} : ∀ (is : List ι) (s : σ), ¬ Along step c s is →
    ∃ js i ks t, is = js ++ i :: ks ∧ (runs step s js).res = .ok t ∧ Along step c s js ∧ ¬ c t i := by
  intro is
  induction is with
  | nil => intro s h; exact absurd trivial h
  | cons i is ih =>
    intro s h
    by_cases hc : c s i
    · cases hu : (step s i).res with
      | error e => exact absurd ⟨hc, fun t ht => by rw [hu] at ht; cases ht⟩ h
      | ok u =>
      have hnot : ¬ Along step c u is := by
        intro ha
        refine h ⟨hc, fun v hv => ?_⟩
        obtain rfl : u = v := by rw [hu] at hv; exact Except.ok.inj hv
        exact ha
      obtain ⟨js, k, ks, t, rfl, hrun, halong, hbad⟩ := ih u hnot
      refine ⟨i :: js, k, ks, t, rfl, by rw [runs, bind_of_ok hu]; exact hrun, ⟨hc, fun v hv => ?_⟩, hbad⟩
      obtain rfl : u = v := by rw [hu] at hv; exact Except.ok.inj hv
      exact halong
    · exact ⟨[], i, is, s, rfl, rfl, trivial, hc⟩

/-- When a step stays inside `p`, and faults inside `P` if it does, exactly if it meets `c`, so
    does a run. -/
theorem runs_within_iff {c : σ → ι → Prop} {p : ω → Prop} {P : ε → Prop} {I : σ → Prop}
    (hstep : ∀ s i, I s → c s i → Within p P I (step s i))
    (hback : ∀ s i, I s → (∀ w ∈ (step s i).out, p w) → (∀ e, (step s i).res = .error e → P e) → c s i) :
    ∀ (is : List ι) (s : σ), I s →
      (((∀ w ∈ (runs step s is).out, p w) ∧ ∀ e, (runs step s is).res = .error e → P e) ↔ Along step c s is) := by
  intro is
  induction is with
  | nil =>
    intro s _
    exact ⟨fun _ => trivial, fun _ => ⟨fun _ hw => (List.not_mem_nil hw).elim, fun _ he => by cases he⟩⟩
  | cons i is ih =>
    intro s hs
    cases hres : (step s i).res with
    | error e =>
      rw [runs, bind_of_error hres]
      constructor
      · rintro ⟨hout, hfault⟩
        exact ⟨hback s i hs hout fun e' he' => hfault e' (hres ▸ he'), fun t ht => by rw [hres] at ht; cases ht⟩
      · rintro ⟨hc, -⟩
        obtain ⟨hout, hfault, -⟩ := hstep s i hs hc
        exact ⟨hout, fun e' he' => hfault e' (hres.trans he')⟩
    | ok t =>
      rw [runs, bind_of_ok hres]
      constructor
      · rintro ⟨hout, hfault⟩
        have hc := hback s i hs (fun w hw => hout w (List.mem_append_left _ hw)) fun e he => by rw [hres] at he; cases he
        refine ⟨hc, fun u hu => ?_⟩
        obtain rfl : t = u := by rw [hres] at hu; exact Except.ok.inj hu
        exact (ih t ((hstep s i hs hc).2.2 t hres)).mp ⟨fun w hw => hout w (List.mem_append_right _ hw), hfault⟩
      · rintro ⟨hc, halong⟩
        obtain ⟨hout, -, hkeep⟩ := hstep s i hs hc
        obtain ⟨hrest, hfault⟩ := (ih t (hkeep t hres)).mpr (halong t hres)
        exact ⟨fun w hw => (List.mem_append.mp hw).elim (hout w) (hrest w), hfault⟩

/-- `L` holds of the outputs and the state after every part of the run that returned. -/
def Throughout (L : List ω → σ → Prop) (s : σ) (is : List ι) : Prop :=
  ∀ js, js <+: is → ∀ t, (runs step s js).res = .ok t → L (runs step s js).out t

/-- A law that the invariant gives, and that a step from the invariant meets only where it
    is permitted, holds throughout exactly the permitted runs. -/
theorem runs_law_iff {c : σ → ι → Prop} {I L : List ω → σ → Prop} (hlaw : ∀ tr s, I tr s → L tr s)
    (hstep : ∀ tr s i t, I tr s → c s i → (step s i).res = .ok t → I (tr ++ (step s i).out) t)
    (hback : ∀ tr s i t, I tr s → (step s i).res = .ok t → L (tr ++ (step s i).out) t → c s i)
    (hfault : ∀ tr s i e, I tr s → (step s i).res = .error e → c s i) {s : σ} (hs : I [] s) (is : List ι) :
    Throughout step L s is ↔ Along step c s is := by
  suffices ∀ (is : List ι) (s : σ) (tr : List ω), I tr s →
      (Throughout step (fun out => L (tr ++ out)) s is ↔ Along step c s is) by simpa using this is s [] hs
  intro is
  induction is with
  | nil =>
    intro s tr hs
    refine ⟨fun _ => trivial, fun _ js hjs t ht => ?_⟩
    obtain rfl := List.prefix_nil.mp hjs
    cases ht
    simpa [runs] using hlaw tr s hs
  | cons i is ih =>
    intro s tr hs
    cases hres : (step s i).res with
    | error e =>
      refine ⟨fun _ => ⟨hfault tr s i e hs hres, fun t ht => by rw [hres] at ht; cases ht⟩, fun _ js hjs t ht => ?_⟩
      rcases List.prefix_cons_iff.mp hjs with rfl | ⟨ks, rfl, -⟩
      · cases ht; simpa [runs] using hlaw tr s hs
      · rw [runs, bind_of_error hres] at ht; cases ht
    | ok t =>
      have hrest : ∀ hc : c s i, Throughout step (fun out => L (tr ++ (step s i).out ++ out)) t is ↔ Along step c t is :=
        fun hc => ih t (tr ++ (step s i).out) (hstep tr s i t hs hc hres)
      constructor
      · intro h
        have hc : c s i := by
          refine hback tr s i t hs hres ?_
          have := h [i] (List.cons_prefix_cons.mpr ⟨rfl, List.nil_prefix⟩) t
          simp only [runs, bind_pure] at this
          exact this hres
        refine ⟨hc, fun u hu => ?_⟩
        obtain rfl : t = u := by rw [hres] at hu; exact Except.ok.inj hu
        refine (hrest hc).mp fun js hjs u hu => ?_
        have := h (i :: js) (List.cons_prefix_cons.mpr ⟨rfl, hjs⟩) u
        rw [runs, bind_of_ok hres] at this
        show L (tr ++ (step s i).out ++ (runs step t js).out) u
        rw [List.append_assoc]
        exact this hu
      · rintro ⟨hc, halong⟩ js hjs u hu
        rcases List.prefix_cons_iff.mp hjs with rfl | ⟨ks, rfl, hks⟩
        · cases hu; simpa [runs] using hlaw tr s hs
        · rw [runs, bind_of_ok hres] at hu ⊢
          rw [← List.append_assoc]
          exact (hrest hc).mpr (halong t hres) ks hks u hu

/-- What `next` makes of `g` along the run: a value the run does not carry itself. -/
def ghost {γ : Type} (next : γ → σ → ι → γ) (g : γ) (s : σ) : List ι → γ
  | [] => g
  | i :: is =>
    match (step s i).res with
    | .ok t => ghost next (next g s i) t is
    | .error _ => next g s i

/-- A fact about the ghost value, the outputs made and the state reached. -/
theorem runs_ghost {γ : Type} (next : γ → σ → ι → γ) {J : γ → List ω → σ → Prop}
    (hstep : ∀ g tr s i t, J g tr s → (step s i).res = .ok t → J (next g s i) (tr ++ (step s i).out) t)
    {g : γ} {s : σ} (hs : J g [] s) {is : List ι} {t : σ} (h : (runs step s is).res = .ok t) :
    J (ghost step next g s is) (runs step s is).out t := by
  suffices ∀ (is : List ι) (s : σ) (g : γ) (tr : List ω), J g tr s → (runs step s is).res = .ok t →
      J (ghost step next g s is) (tr ++ (runs step s is).out) t by simpa using this is s g [] hs h
  intro is
  induction is with
  | nil => intro s g tr hj h; simp only [runs, pure_res, Except.ok.injEq] at h; subst h; simpa [runs, ghost] using hj
  | cons i is ih =>
    intro s g tr hj h
    obtain ⟨u, hu, hrest, hout⟩ := bind_ok_split h
    have := ih u (next g s i) (tr ++ (step s i).out) (hstep g tr s i u hj hu) hrest
    simpa [runs, hout, ghost, hu] using this

/-- In a run that returned, the labels are a ghost value. -/
theorem ghost_labels {s t : σ} {is : List ι} (js : List ι) (h : (runs step s is).res = .ok t) :
    ghost step (fun js _ i => js ++ [i]) js s is = js ++ is := by
  induction is generalizing s js with
  | nil => simp [ghost]
  | cons i is ih =>
    obtain ⟨u, hu, hrest, -⟩ := bind_ok_split h
    simp [ghost, hu, ih (js ++ [i]) hrest]

/-- A fact about the labels taken, the outputs made and the state reached. -/
theorem runs_trace {J : List ι → List ω → σ → Prop}
    (hstep : ∀ is tr s i t, J is tr s → (step s i).res = .ok t → J (is ++ [i]) (tr ++ (step s i).out) t)
    {s : σ} (hs : J [] [] s) {is : List ι} {t : σ} (h : (runs step s is).res = .ok t) :
    J is (runs step s is).out t := by
  have hj := runs_ghost step (fun js _ i => js ++ [i]) hstep hs h
  rwa [ghost_labels step [] h] at hj

end Emit
