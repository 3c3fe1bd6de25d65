/-
  LeapSyncFfh.Lib.Heap — blocks from `malloc` and who holds them.

  An address is never given out twice, so a pointer that is kept after its `free` stays
  recognisable: freeing it again is `none`, like freeing anything that is not live.

  `Owns h as`: the live blocks of `h` are exactly `as`, each once. It is stated for all
  blocks of a program at once; a component's own are a part of `as`, and the rules leave the
  rest in place (`owns_malloc`, `owns_free`, `owns_realloc`).
-/

import Mathlib.Data.List.Perm.Basic

structure Heap where
  live : List Nat := []
  next : Nat := 0

namespace Heap

variable {h h' : Heap} {a : Nat} {as bs : List Nat}

/-- The new block and the heap with it. -/
def malloc (h : Heap) : Nat × Heap := (h.next, { live := h.next :: h.live, next := h.next + 1 })

def free (h : Heap) (a : Nat) : Option Heap :=
  if a ∈ h.live then some { h with live := h.live.erase a } else none

/-- A block of another size in the place of `a`. -/
def realloc (h : Heap) (a : Nat) : Option (Nat × Heap) := (h.free a).map malloc

structure Owns (h : Heap) (as : List Nat) : Prop where
  live : h.live.Perm as
  nodup : as.Nodup
  below : ∀ a ∈ as, a < h.next

theorem owns_empty : Owns {} [] := ⟨.nil, .nil, nofun⟩

theorem Owns.perm (ho : Owns h as) (hp : as.Perm bs) : Owns h bs :=
  ⟨ho.live.trans hp, hp.nodup_iff.mp ho.nodup, fun a ha => ho.below a (hp.mem_iff.mpr ha)⟩

theorem owns_malloc (ho : Owns h as) : Owns h.malloc.2 (h.malloc.1 :: as) where
  live := ho.live.cons _
  nodup := List.nodup_cons.mpr ⟨fun hn => absurd (ho.below _ hn) (Nat.lt_irrefl _), ho.nodup⟩
  below a ha := by
    rcases List.mem_cons.mp ha with rfl | ha
    · exact Nat.lt_succ_self _
    · exact Nat.lt_succ_of_lt (ho.below a ha)

/-- A block that is owned can be freed, and the others are as before. -/
theorem owns_free (ho : Owns h (a :: as)) : ∃ h', h.free a = some h' ∧ Owns h' as := by
  have hmem : a ∈ h.live := ho.live.mem_iff.mpr List.mem_cons_self
  refine ⟨_, if_pos hmem, ?_, (List.nodup_cons.mp ho.nodup).2, fun b hb => ho.below b (List.mem_cons_of_mem a hb)⟩
  have := ho.live.erase a
  rwa [List.erase_cons_head] at this

theorem owns_realloc (ho : Owns h (a :: as)) : ∃ b h', h.realloc a = some (b, h') ∧ Owns h' (b :: as) := by
  obtain ⟨h₁, hfree, ho₁⟩ := owns_free ho
  exact ⟨_, _, by rw [realloc, hfree]; rfl, owns_malloc ho₁⟩

end Heap
