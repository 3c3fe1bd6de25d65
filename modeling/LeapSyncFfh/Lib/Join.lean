/-
  LeapSyncFfh.Lib.Join — two streams joined by a key, each kept in a window of its last
  items.

  Items of the two streams arrive in any interleaving. A left item takes its partner from
  the window of the right ones when it arrives; a right item is set at the left one it
  meets in the window of these, whose scan stops at the first older key (`update?`).
  `Streams` is the plain join: nothing is dropped, and every left item is looked at.

  There are two ways to keep the right window. Either it is the last items (`keeping`), or a
  right item that has met its partner is not put there, and a left item takes its own out,
  with all older ones (`consuming`). While the left keys increase the first is the plain join
  cut to the window (`keeping_eq`), and while both increase the second is too
  (`consuming_eq`). `streams_get` says what the plain join holds: the last right item of the
  key that came later, or else the last of the key among the `n` before.
-/

import Mathlib

namespace Join

variable {K α β γ : Type}

def lefts (es : List (α ⊕ β)) : List α := es.filterMap Sum.getLeft?

def rights (es : List (α ⊕ β)) : List β := es.filterMap Sum.getRight?

@[simp] theorem lefts_snoc_inl (es : List (α ⊕ β)) (a : α) : lefts (es ++ [.inl a]) = lefts es ++ [a] := by simp [lefts]

@[simp] theorem lefts_snoc_inr (es : List (α ⊕ β)) (b : β) : lefts (es ++ [.inr b]) = lefts es := by simp [lefts]

@[simp] theorem rights_snoc_inl (es : List (α ⊕ β)) (a : α) : rights (es ++ [.inl a]) = rights es := by simp [rights]

@[simp] theorem rights_snoc_inr (es : List (α ⊕ β)) (b : β) : rights (es ++ [.inr b]) = rights es ++ [b] := by
  simp [rights]

/-! ## Lists in falling order -/

section Falling

variable [LinearOrder K]

/-- The first of key `k` is changed, if there is one; the scan stops at a smaller key. -/
def update? (key : γ → K) (k : K) (f : γ → γ) : List γ → Option (List γ)
  | [] => none
  | c :: cs => if k = key c then some (f c :: cs) else if key c < k then none else (update? key k f cs).map (c :: ·)

theorem map_absent {key : γ → K} {cs : List γ} {k : K} (h : ∀ c ∈ cs, k ≠ key c) (f : γ → γ) :
    cs.map (fun c => if k = key c then f c else c) = cs := by
  refine (List.map_congr_left fun c hc => ?_).trans (List.map_id cs)
  rw [if_neg (h c hc)]
  rfl

/-- In falling order the scan misses none of the key, and there is one at most. -/
theorem update?_falling {key : γ → K} {cs : List γ} (h : cs.Pairwise fun c d => key d < key c) (k : K) (f : γ → γ) :
    update? key k f cs =
      if ∃ c ∈ cs, k = key c then some (cs.map fun c => if k = key c then f c else c) else none := by
  induction cs with
  | nil => simp [update?]
  | cons c cs ih =>
    obtain ⟨hc, hcs⟩ := List.pairwise_cons.mp h
    have hpast : key c ≤ k → ∀ d ∈ cs, k ≠ key d := fun hle d hd => ((hc d hd).trans_le hle).ne'
    rw [update?, List.map_cons]
    split
    · rename_i he
      rw [if_pos ⟨c, List.mem_cons_self, he⟩, map_absent (hpast he.ge)]
    · rename_i hne
      have hmem : (∃ d ∈ c :: cs, k = key d) ↔ ∃ d ∈ cs, k = key d := by simp [hne]
      split
      · rename_i hlt
        rw [if_neg]
        rw [hmem]
        rintro ⟨d, hd, he⟩
        exact hpast hlt.le d hd he
      · rw [ih hcs]
        simp only [hmem]
        split <;> rfl

/-- The scan sees of an item only what `g` keeps. -/
theorem update?_map {δ : Type} (key : γ → K) (key' : δ → K) {k : K} (f : γ → γ) (f' : δ → δ) (g : γ → δ)
    (hkey : ∀ c, key' (g c) = key c) (hf : ∀ c, k = key c → g (f c) = f' (g c)) (cs : List γ) :
    (update? key k f cs).map (List.map g) = update? key' k f' (cs.map g) := by
  induction cs with
  | nil => rfl
  | cons c cs ih =>
    rw [List.map_cons, update?, update?, hkey]
    split
    · rename_i he
      rw [Option.map_some, List.map_cons, hf c he]
    · split
      · rfl
      · rw [← ih, Option.map_map, Option.map_map]
        rfl

/-- A change that `g` does not see. -/
theorem update?_unseen {δ : Type} {key : γ → K} {k : K} {f : γ → γ} {g : γ → δ} (hf : ∀ c, g (f c) = g c) :
    ∀ {cs ds : List γ}, update? key k f cs = some ds → ds.map g = cs.map g := by
  intro cs
  induction cs with
  | nil => exact fun h => by cases h
  | cons c cs ih =>
    intro ds h
    rw [update?] at h
    split at h
    · cases h
      rw [List.map_cons, List.map_cons, hf]
    · split at h
      · cases h
      · obtain ⟨ds', hds, rfl⟩ := Option.map_eq_some_iff.mp h
        rw [List.map_cons, List.map_cons, ih hds]

theorem update?_length {key : γ → K} {k : K} {f : γ → γ} {cs ds : List γ} (h : update? key k f cs = some ds) :
    ds.length = cs.length := by
  simpa using congrArg List.length (update?_unseen (g := fun _ => ()) (fun _ => rfl) h)

theorem take_takeWhile_comm (p : γ → Bool) (n : Nat) (cs : List γ) :
    (cs.take n).takeWhile p = (cs.takeWhile p).take n := by
  induction cs generalizing n with
  | nil => simp
  | cons c cs ih =>
    cases n with
    | zero => rfl
    | succ n =>
      rw [List.take_succ_cons, List.takeWhile_cons, List.takeWhile_cons]
      split
      · rw [ih, List.take_succ_cons]
      · rfl

/-- What comes before an item that is sought lies in a prefix that reaches past its key. -/
theorem find_takeWhile {key : γ → K} {cs : List γ} (h : cs.Pairwise fun c d => key d < key c) {p : γ → Bool} {k : K}
    (hp : ∀ c, k ≤ key c → p c = true) :
    (cs.takeWhile p).find? (fun c => key c = k) = cs.find? fun c => key c = k := by
  induction cs with
  | nil => rfl
  | cons c cs ih =>
    obtain ⟨hc, hcs⟩ := List.pairwise_cons.mp h
    by_cases hle : k ≤ key c
    · rw [List.takeWhile_cons_of_pos (hp c hle), List.find?_cons, List.find?_cons, ih hcs]
    · have hno : (c :: cs).find? (fun d => key d = k) = none := by
        rw [List.find?_eq_none]
        intro d hd
        have hd' : key d < k := by
          rcases List.mem_cons.mp hd with rfl | hd
          · exact not_le.mp hle
          · exact (hc d hd).trans (not_le.mp hle)
        simpa using hd'.ne
      rw [hno, List.find?_eq_none]
      intro d hd
      exact List.find?_eq_none.mp hno d (List.takeWhile_subset p hd)

end Falling

/-! ## The plain join -/

structure Streams (α β : Type) where
  pairs : List (α × Option β) := []
  seen : List β := []

/-- The left window with what its items met, and the right window. -/
structure Window (α β : Type) where
  pairs : List (α × Option β) := []
  rights : List β := []

section Machines

variable [LinearOrder K] (kl : α → K) (kr : β → K) (n : Nat)

def meet (a : α) (bs : List β) : Option β := bs.find? fun b => kr b = kl a

def Streams.step (s : Streams α β) : α ⊕ β → Streams α β
  | .inl a => { s with pairs := (a, meet kl kr a (s.seen.take n)) :: s.pairs }
  | .inr b => ⟨s.pairs.map fun p => if kr b = kl p.1 then (p.1, some b) else p, b :: s.seen⟩

def streams (es : List (α ⊕ β)) : Streams α β := es.foldl (Streams.step kl kr n) {}

/-- The last right item of `a`'s key that comes later, or else among the `n` before. -/
def partner (pre post : List (α ⊕ β)) (a : α) : Option β :=
  (meet kl kr a (rights post).reverse).or (meet kl kr a ((rights pre).reverse.take n))

/-- The left items `ps` meet `b` where they are of its key. -/
def setAt (b : β) (ps : List (α × Option β)) : Option (List (α × Option β)) :=
  update? (fun p => kl p.1) (kr b) (fun p => (p.1, some b)) ps

def Window.keep (w : Window α β) : α ⊕ β → Window α β
  | .inl a => { w with pairs := ((a, meet kl kr a w.rights) :: w.pairs).take n }
  | .inr b => ⟨(setAt kl kr b w.pairs).getD w.pairs, (b :: w.rights).take n⟩

def keeping (es : List (α ⊕ β)) : Window α β := es.foldl (Window.keep kl kr n) {}

def Window.consume (w : Window α β) : α ⊕ β → Window α β
  | .inl a => ⟨((a, meet kl kr a w.rights) :: w.pairs).take n, w.rights.takeWhile fun b => kr b ≠ kl a⟩
  | .inr b =>
    match setAt kl kr b w.pairs with
    | some ps => { w with pairs := ps }
    | none => { w with rights := (b :: w.rights).take n }

def consuming (es : List (α ⊕ β)) : Window α β := es.foldl (Window.consume kl kr n) {}

theorem streams_snoc (es : List (α ⊕ β)) (e : α ⊕ β) :
    streams kl kr n (es ++ [e]) = (streams kl kr n es).step kl kr n e := by
  rw [streams, List.foldl_append]
  rfl

theorem streams_seen (es : List (α ⊕ β)) : (streams kl kr n es).seen = (rights es).reverse := by
  induction es using List.reverseRecOn with
  | nil => rfl
  | append_singleton es e ih =>
    rw [streams_snoc]
    cases e with
    | inl a => rw [rights_snoc_inl]; exact ih
    | inr b => rw [rights_snoc_inr, List.reverse_append]; exact congrArg (b :: ·) ih

theorem streams_lefts (es : List (α ⊕ β)) : (streams kl kr n es).pairs.map Prod.fst = (lefts es).reverse := by
  induction es using List.reverseRecOn with
  | nil => rfl
  | append_singleton es e ih =>
    rw [streams_snoc]
    cases e with
    | inl a => rw [lefts_snoc_inl, List.reverse_append]; exact congrArg (a :: ·) ih
    | inr b =>
      rw [lefts_snoc_inr, ← ih]
      show List.map Prod.fst (List.map _ _) = _
      rw [List.map_map]
      refine List.map_congr_left fun p _ => ?_
      show (if kr b = kl p.1 then (p.1, some b) else p).1 = p.1
      split <;> rfl

theorem pairs_falling {es : List (α ⊕ β)} (h : (lefts es).Pairwise fun a a' => kl a < kl a') :
    (streams kl kr n es).pairs.Pairwise fun p q => kl q.1 < kl p.1 := by
  have hrev := List.pairwise_reverse.mpr h
  rw [← streams_lefts kl kr n, List.pairwise_map] at hrev
  exact hrev

theorem seen_falling {es : List (α ⊕ β)} (h : (rights es).Pairwise fun b b' => kr b < kr b') :
    (streams kl kr n es).seen.Pairwise fun b b' => kr b' < kr b := by
  rw [streams_seen]
  exact List.pairwise_reverse.mpr h

variable {kl kr n} {es : List (α ⊕ β)}

/-- What the plain join holds for the left item `a`. -/
theorem streams_get (pre post : List (α ⊕ β)) (a : α) :
    (streams kl kr n (pre ++ .inl a :: post)).pairs[(lefts post).length]? = some (a, partner kl kr n pre post a) := by
  induction post using List.reverseRecOn with
  | nil =>
    rw [streams_snoc]
    show some (a, meet kl kr a ((streams kl kr n pre).seen.take n)) = _
    rw [streams_seen]
    rfl
  | append_singleton post e ih =>
    rw [← List.cons_append, ← List.append_assoc, streams_snoc]
    cases e with
    | inl a' =>
      rw [lefts_snoc_inl, List.length_append]
      show ((a', _) :: (streams kl kr n (pre ++ .inl a :: post)).pairs)[(lefts post).length + 1]? = _
      rw [List.getElem?_cons_succ, ih, partner, partner, rights_snoc_inl]
    | inr b =>
      rw [lefts_snoc_inr]
      show (List.map _ _)[_]? = _
      rw [List.getElem?_map, ih, partner, partner, rights_snoc_inr, List.reverse_append]
      show some (if kr b = kl a then (a, some b) else (a, _)) = some (a, (meet kl kr a (b :: (rights post).reverse)).or _)
      unfold meet
      by_cases h : kr b = kl a
      · simp [h]
      · simp [h]

/-! ## The windows -/

theorem take_cons_take (c : γ) (cs : List γ) (n : Nat) : (c :: cs.take n).take n = (c :: cs).take n := by
  cases n with
  | zero => rfl
  | succ n => rw [List.take_succ_cons, List.take_succ_cons, List.take_take, Nat.min_eq_left (Nat.le_succ n)]

/-- Setting `b` in a window is setting it in all, cut to the window. -/
theorem setAt_take {ps : List (α × Option β)} (h : ps.Pairwise fun p q => kl q.1 < kl p.1) (b : β) :
    (setAt kl kr b (ps.take n)).getD (ps.take n) = (ps.map fun p => if kr b = kl p.1 then (p.1, some b) else p).take n := by
  rw [setAt, update?_falling (h.sublist (List.take_sublist n ps)), ← List.map_take]
  split
  · rfl
  · rename_i hno
    exact (map_absent (fun c hc he => hno ⟨c, hc, he⟩) _).symm

/-- While the left keys increase, keeping the last items of both is the plain join. -/
theorem keeping_eq (h : (lefts es).Pairwise fun a a' => kl a < kl a') :
    keeping kl kr n es = ⟨(streams kl kr n es).pairs.take n, (streams kl kr n es).seen.take n⟩ := by
  induction es using List.reverseRecOn with
  | nil => simp [keeping, streams]
  | append_singleton es e ih =>
    rw [keeping, List.foldl_append, streams_snoc]
    show Window.keep kl kr n (keeping kl kr n es) e = _
    cases e with
    | inl a =>
      rw [lefts_snoc_inl] at h
      rw [ih (List.pairwise_append.mp h).1]
      show Window.mk _ _ = Window.mk _ _
      rw [take_cons_take]
      rfl
    | inr b =>
      rw [lefts_snoc_inr] at h
      rw [ih h]
      show Window.mk _ _ = Window.mk _ _
      rw [setAt_take (pairs_falling kl kr n h), take_cons_take]
      rfl

/-- `b` is newer than every left item so far. -/
def ahead (kl : α → K) (kr : β → K) (as : List α) (b : β) : Bool := as.all fun a => kl a < kr b

/-- The consuming window: it may lack items, but none that a later left item can meet. -/
structure Consumes (kl : α → K) (kr : β → K) (n : Nat) (es : List (α ⊕ β)) (w : Window α β) : Prop where
  pairs : w.pairs = (streams kl kr n es).pairs.take n
  rights : w.rights.Sublist (streams kl kr n es).seen
  ahead : w.rights.takeWhile (ahead kl kr (lefts es)) =
    ((streams kl kr n es).seen.takeWhile (ahead kl kr (lefts es))).take n

theorem takeWhile_of_imp {p q : γ → Bool} (h : ∀ c, p c = true → q c = true) (cs : List γ) :
    (cs.takeWhile q).takeWhile p = cs.takeWhile p := by
  rw [List.takeWhile_takeWhile]
  congr 1
  funext c
  cases hp : p c with
  | false => simp
  | true => simp [h c hp]

theorem consumes_left {w : Window α β} (h : Consumes kl kr n es w) {a : α} (ha : ∀ a' ∈ lefts es, kl a' < kl a)
    (hr : (rights es).Pairwise fun b b' => kr b < kr b') :
    Consumes kl kr n (es ++ [.inl a]) (w.consume kl kr n (.inl a)) := by
  have hfall := seen_falling kl kr n hr
  have hpast : ∀ b, kl a ≤ kr b → ahead kl kr (lefts es) b = true := by
    intro b hb
    unfold ahead
    rw [List.all_eq_true]
    exact fun a' ha' => decide_eq_true ((ha a' ha').trans_le hb)
  have hmeet : meet kl kr a w.rights = meet kl kr a ((streams kl kr n es).seen.take n) := by
    unfold meet
    rw [← find_takeWhile (hfall.sublist h.rights) hpast, h.ahead,
      ← find_takeWhile (hfall.sublist (List.take_sublist n _)) hpast, take_takeWhile_comm]
  -- what is newer than `a` too
  have hnext : ∀ b, ahead kl kr (lefts es ++ [a]) b = true → ahead kl kr (lefts es) b = true ∧ kl a < kr b := by
    intro b hb
    simpa [ahead, List.all_append] using hb
  constructor
  · rw [streams_snoc]
    show ((a, meet kl kr a w.rights) :: w.pairs).take n = ((a, _) :: _).take n
    rw [hmeet, h.pairs, take_cons_take]
  · rw [streams_snoc]
    exact (List.takeWhile_sublist _).trans h.rights
  · rw [streams_snoc, lefts_snoc_inl]
    show (w.rights.takeWhile _).takeWhile _ = ((streams kl kr n es).seen.takeWhile _).take n
    rw [takeWhile_of_imp fun b hb => by simpa using (hnext b hb).2.ne', ← takeWhile_of_imp fun b hb => (hnext b hb).1, h.ahead,
      take_takeWhile_comm, takeWhile_of_imp fun b hb => (hnext b hb).1]

theorem consumes_right {w : Window α β} (h : Consumes kl kr n es w) {b : β} (hb : ∀ b' ∈ rights es, kr b' < kr b)
    (hl : (lefts es).Pairwise fun a a' => kl a < kl a') :
    Consumes kl kr n (es ++ [.inr b]) (w.consume kl kr n (.inr b)) := by
  have hlate : ahead kl kr (lefts es) b = false → (streams kl kr n es).seen.takeWhile (ahead kl kr (lefts es)) = [] := by
    intro hno
    rw [streams_seen, List.takeWhile_eq_nil_iff]
    intro hpos hah
    have hlt := hb _ (List.mem_reverse.mp (List.get_mem _ ⟨0, hpos⟩))
    rw [Bool.eq_false_iff] at hno
    apply hno
    unfold ahead at hah ⊢
    rw [List.all_eq_true] at hah ⊢
    exact fun a ha => decide_eq_true ((of_decide_eq_true (hah a ha)).trans hlt)
  have hwindow : (streams kl kr n (es ++ [.inr b])).pairs.take n =
      (setAt kl kr b w.pairs).getD w.pairs := by
    rw [streams_snoc, h.pairs]
    exact (setAt_take (pairs_falling kl kr n hl) b).symm
  have hseen : (streams kl kr n (es ++ [.inr b])).seen = b :: (streams kl kr n es).seen := by
    rw [streams_snoc]
    rfl
  cases hcase : setAt kl kr b w.pairs with
  | some ps =>
    have hcons : w.consume kl kr n (.inr b) = { w with pairs := ps } := by simp only [Window.consume, hcase]
    -- it meets a left item, so it is not newer than all
    have hno : ahead kl kr (lefts es) b = false := by
      rw [setAt, h.pairs, update?_falling ((pairs_falling kl kr n hl).sublist (List.take_sublist n _))] at hcase
      split at hcase
      · rename_i hex
        obtain ⟨p, hp, he⟩ := hex
        have hmem : p.1 ∈ lefts es := by
          rw [← List.mem_reverse, ← streams_lefts kl kr n]
          exact List.mem_map_of_mem (List.mem_of_mem_take hp)
        rw [Bool.eq_false_iff]
        intro hall
        exact absurd (of_decide_eq_true (List.all_eq_true.mp hall p.1 hmem)) he.not_gt
      · cases hcase
    rw [hcons]
    refine ⟨by rw [hwindow, hcase]; rfl, by rw [hseen]; exact h.rights.cons b, ?_⟩
    rw [hseen, lefts_snoc_inr, List.takeWhile_cons_of_neg (by rw [hno]; exact Bool.false_ne_true)]
    show w.rights.takeWhile _ = _
    rw [h.ahead, hlate hno]
  | none =>
    have hcons : w.consume kl kr n (.inr b) = { w with rights := (b :: w.rights).take n } := by
      simp only [Window.consume, hcase]
    rw [hcons]
    refine ⟨by rw [hwindow, hcase]; rfl, ?_, ?_⟩
    · rw [hseen]
      exact (List.take_sublist n _).trans (h.rights.cons_cons b)
    · rw [hseen, lefts_snoc_inr]
      show ((b :: w.rights).take n).takeWhile _ = _
      rw [take_takeWhile_comm]
      cases hah : ahead kl kr (lefts es) b with
      | true =>
        rw [List.takeWhile_cons_of_pos hah, List.takeWhile_cons_of_pos hah, h.ahead, take_cons_take]
      | false =>
        have hneg : ¬ ahead kl kr (lefts es) b = true := by rw [hah]; exact Bool.false_ne_true
        rw [List.takeWhile_cons_of_neg hneg, List.takeWhile_cons_of_neg hneg]

/-- While both keys increase, the consuming window makes the same pairs. -/
theorem consuming_eq (hl : (lefts es).Pairwise fun a a' => kl a < kl a')
    (hr : (rights es).Pairwise fun b b' => kr b < kr b') :
    (consuming kl kr n es).pairs = (streams kl kr n es).pairs.take n := by
  suffices h : Consumes kl kr n es (consuming kl kr n es) from h.pairs
  induction es using List.reverseRecOn with
  | nil => exact ⟨by simp [consuming, streams], List.nil_sublist _, by simp [consuming, streams]⟩
  | append_singleton es e ih =>
    rw [consuming, List.foldl_append]
    show Consumes kl kr n (es ++ [e]) (Window.consume kl kr n (consuming kl kr n es) e)
    cases e with
    | inl a =>
      rw [lefts_snoc_inl, List.pairwise_append] at hl
      rw [rights_snoc_inl] at hr
      exact consumes_left (ih hl.1 hr) (fun a' ha' => hl.2.2 a' ha' a (List.mem_singleton.mpr rfl)) hr
    | inr b =>
      rw [lefts_snoc_inr] at hl
      rw [rights_snoc_inr, List.pairwise_append] at hr
      exact consumes_right (ih hl hr.1) (fun b' hb' => hr.2.2 b' hb' b (List.mem_singleton.mpr rfl)) hl

end Machines

end Join
