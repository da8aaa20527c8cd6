/-
  ModuleBuild.Log.Field
  ─────────────────────
  **HOW A FIELD OF A RECORD IS WRITTEN.**

  A field holds a text, a number, or nothing.  A form says how it is written:
  as it is, between quotes, as one character, or as a number in one of
  several bases and notations; with a least width, a precision, and flags.
  What a field holds may not suit its form, and then it cannot be written.

  Texts are cut to the precision and filled up with spaces.  Numbers have
  their sign and the mark of their base before the zeros that fill them up.

  Main results:
    * `width_le_length_fillUp` — a field is as wide as its form asks;
    * `write_text_decimal` — a text is not written as a number.
-/
import ModuleBuild.Number.Rounding
import ModuleBuild.Text.Quoted

namespace ModuleBuild

/-! ## §1. Fields and forms. -/

/-- What a field of a record holds. -/
inductive FieldValue
  | text (t : Text)
  | number (n : Nat)
  | nothing
  deriving DecidableEq

/-- What a field is written as; `capitals` asks for capital letters in a number. -/
inductive Manner
  | plain
  | quoted
  | asciiQuoted
  | character
  | decimal
  | octal
  | hexadecimal (capitals : Bool)
  | fixed
  | scientific (capitals : Bool)
  | general (capitals : Bool)
  deriving DecidableEq

/-- How a field is written. -/
structure FieldForm where
  manner : Manner
  /-- The field stands at the left of its width. -/
  left : Bool := false
  /-- A number has a plus sign. -/
  plus : Bool := false
  /-- A number without sign has a space in its place. -/
  gap : Bool := false
  /-- The base of a number is marked, and its point is always written. -/
  marked : Bool := false
  /-- A number is filled up with zeros. -/
  zeros : Bool := false
  width : Nat := 0
  precision : Option Nat := none
  deriving DecidableEq

namespace FieldForm

/-! ## §2. Width. -/

/-- A text filled up to the width. -/
def fillUp (f : FieldForm) (t : Text) : Text :=
  let room := List.replicate (f.width - t.length) (CodePoint.ofChar ' ')
  if f.left then t ++ room else room ++ t

/-- A field is as wide as its form asks. -/
theorem width_le_length_fillUp (f : FieldForm) (t : Text) : f.width ≤ (f.fillUp t).length := by
  unfold fillUp
  dsimp only
  split <;> simp <;> omega

/-- The sign of a number. -/
def sign (f : FieldForm) : Text := if f.plus then "+" else if f.gap then " " else []

/-- A number with its sign, the mark of its base, and the zeros that fill it up. -/
def ofDigits (f : FieldForm) (mark digits : Text) : Text :=
  let front := f.sign ++ if f.marked then mark else []
  let room := f.width - (front.length + digits.length)
  if f.zeros && !f.left then front ++ List.replicate room (CodePoint.ofChar '0') ++ digits
  else f.fillUp (front ++ digits)

/-! ## §3. Notations with a point. -/

/-- The point and the digits behind it. -/
def pointed (f : FieldForm) (digits : Text) : Text :=
  if digits = [] && !f.marked then [] else CodePoint.dot :: digits

/-- A number with a number of places behind the point. -/
def fixedDigits (f : FieldForm) (places n : Nat) : Text :=
  Text.ofNat n ++ f.pointed (List.replicate places (CodePoint.ofChar '0'))

/-- The number that the first digits of another make up, `places` behind the first, and the power of
ten of the first. -/
def leading (places n : Nat) : Nat × Nat :=
  let power := (Nat.toDigits 10 n).length - 1
  let m :=
    if power ≤ places then n * Nat.pow 10 (places - power)
    else roundHalfEven n (Nat.pow 10 (power - places))
  if m = Nat.pow 10 (places + 1) then (m / 10, power + 1) else (m, power)

/-- A number between one and ten, and its power of ten; `keep` says what is kept of the digits
behind the point. -/
def scientificDigits (f : FieldForm) (capitals : Bool) (keep : Text → Text) (places n : Nat) :
    Text :=
  let digits := Text.inBase 10 (places + 1) (leading places n).1
  Text.join [digits.take 1, f.pointed (keep digits.tail), if capitals then "E+" else "e+",
    Text.inBase 10 2 (leading places n).2]

/-- The digits without the zeros at their end. -/
def trimZeros (t : Text) : Text := t.dropEndWhile (· = CodePoint.ofChar '0')

/-- A number in the shorter of the two notations with a point, with a number of digits in all. -/
def generalDigits (f : FieldForm) (capitals : Bool) (digits n : Nat) : Text :=
  let keep := if f.marked then id else trimZeros
  let power := (leading (digits - 1) n).2
  if power < digits then Text.ofNat n ++ f.pointed (keep (List.replicate (digits - 1 - power)
    (CodePoint.ofChar '0')))
  else f.scientificDigits capitals keep (digits - 1) n

/-! ## §4. Writing. -/

/-- The digits behind the point where no precision is given. -/
def usualPrecision : Nat := 6

/-- A number in its notation. -/
def writeNumber? (f : FieldForm) (n : Nat) : Option Text :=
  let least := f.precision.getD 0
  let places := f.precision.getD usualPrecision
  match f.manner with
  | .decimal => some (f.ofDigits [] (Text.inBase 10 least n))
  | .octal => some (f.ofDigits "0o" (Text.inBase 8 least n))
  | .hexadecimal false => some (f.ofDigits "0x" (Text.hex least n))
  | .hexadecimal true => some (f.ofDigits "0X" ((Text.hex least n).map CodePoint.capital))
  | .fixed => some (f.ofDigits [] (f.fixedDigits places n))
  | .scientific capitals => some (f.ofDigits [] (f.scientificDigits capitals id places n))
  | .general capitals => some (f.ofDigits [] (f.generalDigits capitals (max 1 places) n))
  | _ => none

/-- The one character that a field holds, or whose number it holds. -/
def character? : FieldValue → Option Text
  | .text [c] => some [c]
  | .number n => if n < 0x110000 then some [CodePoint.ofNat n] else none
  | _ => none

/-- A field as it is shown; `quote` is what is done to a text. -/
def shown (quote : Text → Text) : FieldValue → Text
  | .text t => quote t
  | .number n => Text.ofNat n
  | .nothing => "None"

/-- A shown field, cut to the precision and filled up. -/
def cut (f : FieldForm) (t : Text) : Text :=
  f.fillUp (match f.precision with
    | some n => t.take n
    | none => t)

/-- A field in its form, if what it holds suits it. -/
def write? (f : FieldForm) (v : FieldValue) : Option Text :=
  match f.manner with
  | .plain => some (f.cut (shown id v))
  | .quoted => some (f.cut (shown Text.quoted v))
  | .asciiQuoted => some (f.cut (shown (fun t => t.quoted.asciiOnly) v))
  | .character => (character? v).map f.fillUp
  | _ =>
    match v with
    | .number n => f.writeNumber? n
    | _ => none

/-- A text is not written as a number. -/
theorem write_text_decimal (f : FieldForm) (t : Text) (h : f.manner = .decimal) :
    f.write? (.text t) = none := by
  simp [write?, h]

end FieldForm

end ModuleBuild
