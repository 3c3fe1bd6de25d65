/-
  LeapSyncFfh.Common.Literals — the instances behind the program's numerals.

  An index of a `Fin` and a numeral of an abstract type of angles each carry an instance.
  Named here, a numeral is the same term in every module that writes it. They are scoped,
  so the libraries do without them.
-/

import Mathlib

namespace LeapSyncFfh

scoped instance three_neZero : NeZero 3 := ⟨by decide⟩
scoped instance four_neZero : NeZero 4 := ⟨by decide⟩
scoped instance five_neZero : NeZero 5 := ⟨by decide⟩

scoped instance two_atLeastTwo : Nat.AtLeastTwo 2 := ⟨by decide⟩
scoped instance three_atLeastTwo : Nat.AtLeastTwo 3 := ⟨by decide⟩
scoped instance five_atLeastTwo : Nat.AtLeastTwo 5 := ⟨by decide⟩
scoped instance ten_atLeastTwo : Nat.AtLeastTwo 10 := ⟨by decide⟩
scoped instance fifteen_atLeastTwo : Nat.AtLeastTwo 15 := ⟨by decide⟩
scoped instance twenty_atLeastTwo : Nat.AtLeastTwo 20 := ⟨by decide⟩
scoped instance thirty_atLeastTwo : Nat.AtLeastTwo 30 := ⟨by decide⟩
scoped instance sixty_atLeastTwo : Nat.AtLeastTwo 60 := ⟨by decide⟩
scoped instance ninety_atLeastTwo : Nat.AtLeastTwo 90 := ⟨by decide⟩

end LeapSyncFfh
