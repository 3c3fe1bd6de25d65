/-
  LeapSyncFfh.Common.Strto — `std::stoi` and `std::stof` on a token (no white space).

  Both convert the longest numeral at the start and ignore what follows; without one they
  throw `invalid_argument`, out of the result's range `out_of_range`. `stof` gives the
  exact value of the numeral, without rounding to `float`; `inf` and `nan`, which `std::stof`
  returns as well, have none.
  `stoiRest` and `stofRest` are what they ignore.
-/

import LeapSyncFfh.Common.Faults
import Mathlib.Algebra.Field.Rat
import Mathlib.Data.Rat.Cast.Defs

namespace LeapSyncFfh

def digitValue (base : Nat) (c : Char) : Option Nat :=
  let v :=
    if '0' ≤ c ∧ c ≤ '9' then c.toNat - '0'.toNat
    else if 'a' ≤ c ∧ c ≤ 'z' then c.toNat - 'a'.toNat + 10
    else if 'A' ≤ c ∧ c ≤ 'Z' then c.toNat - 'A'.toNat + 10
    else base
  if v < base then some v else none

/-- The digits at the start: their value on top of `acc`, their number, and the rest. -/
def digits (base : Nat) : Nat → Nat → List Char → Nat × Nat × List Char
  | acc, count, [] => (acc, count, [])
  | acc, count, c :: cs =>
    match digitValue base c with
    | some d => digits base (acc * base + d) (count + 1) cs
    | none => (acc, count, c :: cs)

/-- An optional sign: whether it is minus, and the rest. -/
def sign : List Char → Bool × List Char
  | '-' :: cs => (true, cs)
  | '+' :: cs => (false, cs)
  | cs => (false, cs)

def stoi (str : String) : Except Fault Int :=
  let (neg, cs) := sign str.toList
  let (v, count, _) := digits 10 0 0 cs
  let n : Int := if neg then -(v : Int) else v
  if count = 0 then .error .uncaught
  else if n < -2147483648 ∨ 2147483647 < n then .error .uncaught
  else .ok n

theorem stoi_error {str : String} {e : Fault} (h : stoi str = .error e) : e = .uncaught := by
  unfold stoi at h
  simp only [] at h
  generalize (if (sign str.toList).1 = true then _ else _ : Int) = n at h
  split at h
  · cases h; rfl
  split at h
  · cases h; rfl
  · cases h

/-- What follows the digits that `stoi` converts. -/
def stoiRest (str : String) : List Char := (digits 10 0 0 (sign str.toList).2).2.2

/-- The exponent part `e±dd`, 0 when there is none. -/
def exponent (mark : Char) : List Char → Int
  | c :: cs =>
    if c.toLower = mark then
      let (neg, cs) := sign cs
      let (v, count, _) := digits 10 0 0 cs
      if count = 0 then 0 else if neg then -(v : Int) else v
    else 0
  | [] => 0

def exponentRest (mark : Char) : List Char → List Char
  | c :: cs =>
    let (_, count, rest) := digits 10 0 0 (sign cs).2
    if c.toLower = mark ∧ count ≠ 0 then rest else c :: cs
  | [] => []

/-- Digits with an optional point, then an exponent to base `radix`. -/
def mantissa (base radix : Nat) (mark : Char) (cs : List Char) : Option ℚ :=
  let (whole, n, cs) := digits base 0 0 cs
  let (v, k, cs) :=
    match cs with
    | '.' :: cs => digits base whole 0 cs
    | cs => (whole, 0, cs)
  if n + k = 0 then none else some ((v : ℚ) / (base : ℚ) ^ k * (radix : ℚ) ^ exponent mark cs)

def mantissaRest (base : Nat) (mark : Char) (cs : List Char) : List Char :=
  let (_, _, cs) := digits base 0 0 cs
  match cs with
  | '.' :: cs => exponentRest mark (digits base 0 0 cs).2.2
  | cs => exponentRest mark cs

def startsWith (word : List Char) (cs : List Char) : Bool := word.isPrefixOf (cs.map Char.toLower)

/-- The value of the numeral at the start of the token. -/
def strtof (str : String) : Except Fault ℚ :=
  let (neg, cs) := sign str.toList
  let value :=
    match cs with
    | '0' :: x :: rest =>
      -- a lone `0x` is the numeral 0
      if x.toLower = 'x' then (mantissa 16 2 'p' rest).or (some 0) else mantissa 10 10 'e' cs
    | _ => mantissa 10 10 'e' cs
  match value with
  | some q => .ok (if neg then -q else q)
  | none => if startsWith ['i', 'n', 'f'] cs || startsWith ['n', 'a', 'n'] cs then .error .notExact else .error .uncaught

/-- What follows the numeral that `stof` converts. -/
def stofRest (str : String) : List Char :=
  let cs := (sign str.toList).2
  match cs with
  | '0' :: x :: rest =>
    if x.toLower = 'x' then
      if (mantissa 16 2 'p' rest).isSome then mantissaRest 16 'p' rest else x :: rest
    else mantissaRest 10 'e' cs
  | _ => mantissaRest 10 'e' cs

/-- `strtof` reports a range error from half a unit past the largest `float`, and for what is
    below the smallest normal one (rounded to its precision) and not a subnormal itself. -/
def stof {F : Type} [DivisionRing F] (str : String) : Except Fault F := do
  let q ← strtof str
  if (2 : ℚ) ^ 128 - 2 ^ 103 ≤ |q| then .error .uncaught
  else if |q| < 1 / 2 ^ 126 - 1 / 2 ^ 151 ∧ (q * 2 ^ 149).den ≠ 1 then .error .uncaught
  else .ok (q : F)

theorem stof_error {F : Type} [DivisionRing F] {str : String} {e : Fault} (h : (stof str : Except Fault F) = .error e) :
    e = .uncaught ∨ e = .notExact := by
  simp only [stof, bind, Except.bind] at h
  split at h
  · rename_i hq
    simp only [strtof] at hq
    split at hq
    · cases hq
    · split at hq
      · cases hq; cases h; exact .inr rfl
      · cases hq; cases h; exact .inl rfl
  split at h
  · cases h; exact .inl rfl
  split at h
  · cases h; exact .inl rfl
  · cases h

end LeapSyncFfh
