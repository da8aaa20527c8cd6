/-
  ModuleBuild.Text.Numeral
  ────────────────────────
  **NUMBERS AS DECIMAL TEXT.**

  Integers are written with the fewest digits and a hyphen before negative
  ones.  The reader takes white space around the number, a sign, the decimal
  digits of any script, and single low lines between digits.  A number with
  too many digits is refused before anything is said about what follows it.

  Main results:
    * `valueOfDigits_ofNat` — the digits of a number have its value.
-/
import ModuleBuild.Text.Blank

namespace ModuleBuild

namespace CodePoint

/-- Whether this is a digit of ASCII. -/
def isAsciiDigit (c : CodePoint) : Bool := 0x30 ≤ c.code && c.code ≤ 0x39

/-- The zeros beyond ASCII of the scripts of Unicode 14 that have decimal digits; the nine other
digits follow each. -/
def scriptZeros : List Nat :=
  [0x660, 0x6F0, 0x7C0, 0x966, 0x9E6, 0xA66, 0xAE6, 0xB66, 0xBE6, 0xC66, 0xCE6, 0xD66,
   0xDE6, 0xE50, 0xED0, 0xF20, 0x1040, 0x1090, 0x17E0, 0x1810, 0x1946, 0x19D0, 0x1A80, 0x1A90,
   0x1B50, 0x1BB0, 0x1C40, 0x1C50, 0xA620, 0xA8D0, 0xA900, 0xA9D0, 0xA9F0, 0xAA50, 0xABF0,
   0xFF10, 0x104A0, 0x10D30, 0x11066, 0x110F0, 0x11136, 0x111D0, 0x112F0, 0x11450, 0x114D0,
   0x11650, 0x116C0, 0x11730, 0x118E0, 0x11950, 0x11C50, 0x11D50, 0x11DA0, 0x16A60, 0x16AC0,
   0x16B50, 0x1D7CE, 0x1D7D8, 0x1D7E2, 0x1D7EC, 0x1D7F6, 0x1E140, 0x1E2F0, 0x1E950, 0x1FBF0]

/-- The value of a decimal digit of any script. -/
def decimalValue? (c : CodePoint) : Option Nat :=
  if c.code < 0x80 then
    if c.isAsciiDigit then some (c.code - 0x30) else none
  else
    (scriptZeros.find? fun z => z ≤ c.code && c.code ≤ z + 9).map (c.code - ·)

end CodePoint

namespace Text

/-- A natural number in decimal digits. -/
def ofNat (n : Nat) : Text := (Nat.toDigits 10 n).map CodePoint.ofChar

/-- An integer in decimal digits, a hyphen before a negative one. -/
def ofInt (i : Int) : Text :=
  if i < 0 then CodePoint.ofChar '-' :: ofNat i.natAbs else ofNat i.natAbs

/-- The value of a text of ASCII digits. -/
def valueOfDigits (t : Text) : Nat := t.foldl (fun n c => 10 * n + (c.code - 0x30)) 0

theorem valueOfDigits_ofNat (n : Nat) : valueOfDigits (ofNat n) = n := by
  have h : ∀ (l : List Char) (k : Nat),
      (l.map CodePoint.ofChar).foldl (fun n c => 10 * n + (c.code - 0x30)) k
        = Nat.ofDigitChars 10 l k := by
    intro l
    induction l with
    | nil => intro k; rfl
    | cons c cs ih => intro k; exact ih _
  rw [valueOfDigits, ofNat, h, Nat.ofDigitChars_ten_toDigits]

/-- A number in the digits of a base up to sixteen, small letters, padded with zeros on the left. -/
def inBase (base width n : Nat) : Text :=
  let digits := Nat.toDigits base n
  (List.replicate (width - digits.length) '0' ++ digits).map CodePoint.ofChar

/-- A number in hexadecimal digits, small letters, padded with zeros on the left. -/
def hex (width n : Nat) : Text := inBase 16 width n

/-- The values of the digits that a text starts with, and what follows the last of them.  Single low
lines may stand between two digits; after one, and at the start, there must be a digit. -/
def digitRun? (afterDigit : Bool) : Text → Option (List Nat × Text)
  | [] => if afterDigit then some ([], []) else none
  | c :: rest =>
    match c.decimalValue? with
    | some d => (digitRun? true rest).map fun r => (d :: r.1, r.2)
    | none =>
      if afterDigit then
        if c = CodePoint.ofChar '_' then digitRun? false rest else some ([], c :: rest)
      else none

/-- Why a text is no integer. -/
inductive IntegerFault
  /-- It is not written as one. -/
  | malformed
  /-- It has more digits than are read. -/
  | tooLong (digits : Nat)

/-- The most digits that are read. -/
def maxDigits : Nat := 4300

/-- The integer that a text writes. -/
def toInt? (t : Text) : Except IntegerFault Int :=
  let body := t.dropWhile CodePoint.isWhiteSpace
  let negative := body.head? = some (CodePoint.ofChar '-')
  let signed := negative || body.head? = some (CodePoint.ofChar '+')
  match digitRun? false (if signed then body.tail else body) with
  | none => .error .malformed
  | some (ds, rest) =>
    if ds.length > maxDigits then .error (.tooLong ds.length)
    else if rest.all CodePoint.isWhiteSpace then
      let n : Nat := ds.foldl (fun n d => 10 * n + d) 0
      .ok (if negative then -(n : Int) else n)
    else .error .malformed

end Text

end ModuleBuild
