/-
  ModuleBuild.Number.Binary64
  ───────────────────────────
  **DOUBLE PRECISION NUMBERS, EXACTLY.**

  A finite double is a sign and a mantissa times a power of two.  Arithmetic
  is done on quotients of natural numbers and rounded once, to the nearest
  double, ties to the even mantissa; what lies beyond the largest double
  becomes an infinity.

  Main results:
    * `ofRatio_zero_num` — zero is kept;
    * `bits_infinity`, `bits_one` — the 64 bits of some numbers.
-/
import ModuleBuild.Number.Rounding

namespace ModuleBuild

/-- A double precision number.  A finite one is `mantissa * 2 ^ exponent`, with the mantissa below
2 ^ 53 and the exponent at least -1074 and as small as the mantissa allows. -/
inductive Binary64
  | finite (negative : Bool) (mantissa : Nat) (exponent : Int)
  | infinity (negative : Bool)
  | nan
  deriving DecidableEq

namespace Binary64

/-! ## §1. Rounding to a double. -/

/-- The least exponent of a double. -/
def minExponent : Int := -1074

/-- The greatest exponent of a double. -/
def maxExponent : Int := 971

/-- `num / den / 2 ^ e` as a quotient of natural numbers. -/
def scale (num den : Nat) (e : Int) : Nat × Nat :=
  if 0 ≤ e then (num, den * Nat.pow 2 e.toNat) else (num * Nat.pow 2 (-e).toNat, den)

/-- The exponent with which the quotient has a mantissa of 53 bits, or the least exponent. -/
def exponentFor (num den : Nat) : Int :=
  let e : Int := (num.log2 : Int) - den.log2 - 52
  let s := scale num den e
  max minExponent (if s.1 / s.2 < Nat.pow 2 52 then e - 1 else e)

/-- The double nearest to `num / den`, of the given sign. -/
def ofRatio (negative : Bool) (num den : Nat) : Binary64 :=
  if num = 0 then .finite negative 0 minExponent
  else
    let e := exponentFor num den
    let s := scale num den e
    let m := roundHalfEven s.1 s.2
    let (m, e) := if m = Nat.pow 2 53 then (Nat.pow 2 52, e + 1) else (m, e)
    if maxExponent < e then .infinity negative else .finite negative m e

theorem ofRatio_zero_num (negative : Bool) (den : Nat) :
    ofRatio negative 0 den = .finite negative 0 minExponent := by
  simp [ofRatio]

/-- Positive zero. -/
def zero : Binary64 := .finite false 0 minExponent

/-- The double nearest to an integer. -/
def ofInt (i : Int) : Binary64 := ofRatio (i < 0) i.natAbs 1

/-- The double nearest to `digits * 10 ^ power`; `size` is the number of digits.  Powers that no
double reaches are not computed. -/
def ofDecimal (negative : Bool) (digits size : Nat) (power : Int) : Binary64 :=
  if digits = 0 then ofRatio negative 0 1
  else if 400 < power + size then .infinity negative
  else if power + size < -400 then ofRatio negative 0 1
  else if 0 ≤ power then ofRatio negative (digits * Nat.pow 10 power.toNat) 1
  else ofRatio negative digits (Nat.pow 10 (-power).toNat)

/-! ## §2. Values. -/

/-- The magnitude of `mantissa * 2 ^ exponent` as a quotient. -/
def magnitude (mantissa : Nat) (exponent : Int) : Nat × Nat :=
  if 0 ≤ exponent then (mantissa * Nat.pow 2 exponent.toNat, 1)
  else (mantissa, Nat.pow 2 (-exponent).toNat)

/-- The sixty-four bits: sign, exponent field, mantissa field. -/
def bits : Binary64 → Nat
  | .finite negative m e =>
    (if negative then Nat.pow 2 63 else 0) +
      (if m < Nat.pow 2 52 then m else (e + 1075).toNat * Nat.pow 2 52 + (m - Nat.pow 2 52))
  | .infinity negative => (if negative then Nat.pow 2 63 else 0) + 2047 * Nat.pow 2 52
  | .nan => 2047 * Nat.pow 2 52 + Nat.pow 2 51

theorem bits_infinity : bits (.infinity false) = 0x7FF0000000000000 := by decide

theorem bits_one : bits (ofInt 1) = 0x3FF0000000000000 := by decide

/-- Whether the number is a zero of either sign. -/
def isZero : Binary64 → Bool
  | .finite _ m _ => m = 0
  | _ => false

/-- The integer part, toward zero, of a finite double. -/
def truncate (negative : Bool) (mantissa : Nat) (exponent : Int) : Int :=
  let q := magnitude mantissa exponent
  let n : Int := q.1 / q.2
  if negative then -n else n

/-- The double nearest to `factor` times a magnitude. -/
def timesNat (factor : Nat) : Binary64 → Binary64
  | .finite negative m e =>
    let q := magnitude m e
    ofRatio negative (q.1 * factor) q.2
  | .infinity negative => if factor = 0 then .nan else .infinity negative
  | .nan => .nan

/-- The double nearest to a number divided by `divisor`. -/
def overNat (divisor : Nat) : Binary64 → Binary64
  | .finite negative m e =>
    let q := magnitude m e
    ofRatio negative q.1 (q.2 * divisor)
  | .infinity negative => .infinity negative
  | .nan => .nan

/-- How far `done` parts of `total` are, in percent: the nearest double to the quotient, times a
hundred, rounded again. -/
def percentOf (done total : Nat) : Binary64 := timesNat 100 (ofRatio false done total)

theorem percentOf_all : bits (percentOf 7 7) = 0x4059000000000000 := by decide

end Binary64

end ModuleBuild
