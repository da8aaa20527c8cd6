/-
  ModuleBuild.Number.Shortest
  ───────────────────────────
  **THE FEWEST DIGITS THAT READ BACK.**

  A double is written with the fewest significant decimal digits from which
  it is read back.  For one digit, two, … seventeen, the two neighbours of
  the value on that decimal grid are read; the first grid with a neighbour
  that reads back is taken, of two the nearer, of two at the same distance
  the one with an even last digit.

  A record says how the digits are laid out: positional between two powers of
  ten, otherwise with an exponent of at least two digits.

  Main results:
    * `text_one`, `text_large` — where positional notation ends.
-/
import ModuleBuild.Number.Binary64
import ModuleBuild.Text.Numeral

namespace ModuleBuild

namespace Binary64

/-! ## §1. Digits. -/

/-- Digits and the power of ten of the first: `0.d₁d₂… * 10 ^ (power + 1)`. -/
structure Decimal where
  digits : Nat
  power : Int
  deriving DecidableEq

/-- How many decimal digits a number has. -/
def digitCount (n : Nat) : Nat := (Nat.toDigits 10 n).length

/-- The power of ten of the first digit of a positive quotient. -/
def leadingPower (num den : Nat) : Int :=
  if den ≤ num then (digitCount (num / den) : Int) - 1
  else
    let j := digitCount (den / num) - 1
    if den ≤ num * Nat.pow 10 j then -(j : Int) else -((j : Int) + 1)

/-- `num / den` in units of `10 ^ p`, as a quotient. -/
def inUnits (num den : Nat) (p : Int) : Nat × Nat :=
  if 0 ≤ p then (num, den * Nat.pow 10 p.toNat) else (num * Nat.pow 10 (-p).toNat, den)

/-- Whether `digits * 10 ^ p` reads back as the number. -/
def readsBack (m : Nat) (e : Int) (digits : Nat) (p : Int) : Bool :=
  ofDecimal false digits (digitCount digits) p = .finite false m e

/-- The neighbour on the grid of `n` digits that reads back, if any. -/
def onGrid? (m : Nat) (e : Int) (n : Nat) : Option (Nat × Int) :=
  let q := magnitude m e
  let p := leadingPower q.1 q.2 + 1 - n
  let u := inUnits q.1 q.2 p
  let below := u.1 / u.2
  let r := u.1 % u.2
  let above := below + 1
  match readsBack m e below p, readsBack m e above p with
  | true, true =>
    if 2 * r < u.2 ∨ (2 * r = u.2 ∧ below % 2 = 0) then some (below, p) else some (above, p)
  | true, false => some (below, p)
  | false, true => some (above, p)
  | false, false => none

/-- The first grid, from `n` digits on, with a neighbour that reads back. -/
def firstGrid (m : Nat) (e : Int) : (fuel n : Nat) → Nat × Int
  | 0, _ => (0, 0)
  | fuel + 1, n =>
    match onGrid? m e n with
    | some found => found
    | none => firstGrid m e fuel (n + 1)

/-- A number without its zeros at the end. -/
def dropZeros : (fuel n : Nat) → Nat
  | 0, n => n
  | fuel + 1, n => if n % 10 = 0 ∧ n ≠ 0 then dropZeros fuel (n / 10) else n

/-- The fewest digits that read back as the positive number `m * 2 ^ e`. -/
def shortest (m : Nat) (e : Int) : Decimal :=
  let g := firstGrid m e 17 1
  { digits := dropZeros 18 g.1, power := g.2 + digitCount g.1 - 1 }

/-! ## §2. Layout. -/

/-- How digits become text: the powers of ten between which notation is positional, and the texts
of the values that have no digits. -/
structure Layout where
  leastPositional : Int
  greatestPositional : Int
  leastExponentDigits : Nat
  infinity : Text
  nan : Text

/-- Zeros. -/
def zeros (n : Nat) : Text := List.replicate n (CodePoint.ofChar '0')

/-- Digits with the point where the power puts it, and a zero after a point at the end. -/
def positional (digits : Text) (power : Int) : Text :=
  if power < 0 then Text.join ["0.", zeros (-power - 1).toNat, digits]
  else
    let whole := power.toNat + 1
    if digits.length ≤ whole then Text.join [digits, zeros (whole - digits.length), ".0"]
    else Text.join [digits.take whole, ".", digits.drop whole]

/-- Digits with the point after the first, and an exponent with its sign. -/
def scientific (layout : Layout) (digits : Text) (power : Int) : Text :=
  let exponent := Text.ofNat power.natAbs
  Text.join [digits.take 1, if digits.length ≤ 1 then [] else CodePoint.dot :: digits.drop 1,
    if power < 0 then "e-" else "e+",
    zeros (layout.leastExponentDigits - exponent.length), exponent]

/-- The text of a double. -/
def toText (layout : Layout) : Binary64 → Text
  | .finite negative m e =>
    let body :=
      if m = 0 then ("0.0" : Text)
      else
        let d := shortest m e
        let digits := Text.ofNat d.digits
        if layout.leastPositional ≤ d.power ∧ d.power ≤ layout.greatestPositional then
          positional digits d.power
        else scientific layout digits d.power
    if negative then CodePoint.ofChar '-' :: body else body
  | .infinity negative =>
    if negative then CodePoint.ofChar '-' :: layout.infinity else layout.infinity
  | .nan => layout.nan

/-- Positional notation goes from ten thousandths to sixteen digits before the point. -/
def plainLayout : Layout :=
  { leastPositional := -4, greatestPositional := 15, leastExponentDigits := 2,
    infinity := "inf", nan := "nan" }

theorem text_one : toText plainLayout (ofInt 1) = "1.0" := by decide +kernel

theorem text_large :
    toText plainLayout (ofDecimal false 1 1 15) = "1000000000000000.0" ∧
      toText plainLayout (ofDecimal false 1 1 16) = "1e+16" := by decide +kernel

end Binary64

end ModuleBuild
