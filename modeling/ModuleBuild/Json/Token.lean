/-
  ModuleBuild.Json.Token
  ──────────────────────
  **THE TOKENS OF A DOCUMENT.**

  Reading a document starts by cutting it into tokens: punctuation, strings,
  numbers and names.  Space, tab, line feed and carriage return separate
  tokens.  A text that starts no token, and a string that is broken, become
  tokens too, and nothing is read after them: whether they are an error, and
  which, depends on what may stand there.

  Main results:
    * `scanString_length`, `scanScalar_length` — what follows a token is shorter;
    * `tokens_nil` — the empty text has only its end.
-/
import ModuleBuild.Json.Value
import ModuleBuild.Text.Numeral

namespace ModuleBuild

namespace Json

/-! ## §1. Tokens. -/

/-- What is wrong with a string. -/
inductive StringFault
  | unterminated
  | controlCharacter
  | escape
  | unicodeEscape
  deriving DecidableEq

/-- A token. -/
inductive Token
  | openObject
  | closeObject
  | openArray
  | closeArray
  | colon
  | comma
  | string (t : Text)
  /-- A name or a number. -/
  | scalar (v : Json)
  /-- An integer with more digits than are read. -/
  | longInteger (digits : Nat)
  /-- A string that is broken at some position. -/
  | brokenString (fault : StringFault) (position : Nat)
  /-- Something that starts no token. -/
  | stray
  | endOfText
  deriving DecidableEq

/-! ## §2. Strings. -/

/-- The value of a hexadecimal digit. -/
def hexValue? (c : CodePoint) : Option Nat :=
  if 0x30 ≤ c.code ∧ c.code ≤ 0x39 then some (c.code - 0x30)
  else if 0x41 ≤ c.code ∧ c.code ≤ 0x46 then some (c.code - 0x41 + 10)
  else if 0x61 ≤ c.code ∧ c.code ≤ 0x66 then some (c.code - 0x61 + 10)
  else none

/-- The number that four hexadecimal digits write. -/
def hexFour? (a b c d : CodePoint) : Option Nat :=
  match hexValue? a, hexValue? b, hexValue? c, hexValue? d with
  | some a, some b, some c, some d => some (((a * 16 + b) * 16 + c) * 16 + d)
  | _, _, _, _ => none

/-- What a letter after a backslash stands for. -/
def escapeValue? (c : CodePoint) : Option CodePoint :=
  if c = CodePoint.quote ∨ c = CodePoint.backslash ∨ c = CodePoint.slash then some c
  else if c = CodePoint.ofChar 'b' then some (CodePoint.ofNat 0x08)
  else if c = CodePoint.ofChar 'f' then some (CodePoint.ofNat 0x0C)
  else if c = CodePoint.ofChar 'n' then some CodePoint.lineFeed
  else if c = CodePoint.ofChar 'r' then some CodePoint.carriageReturn
  else if c = CodePoint.ofChar 't' then some (CodePoint.ofNat 0x09)
  else none

/-- A unit of a string: a code point as it stands, or one named by four digits. -/
structure StringUnit where
  value : CodePoint
  named : Bool
  deriving DecidableEq

/-- The outcome of reading a string: its units and what follows the closing quote, or the fault
and what follows the place where it shows. -/
inductive StringScan
  | done (units : List StringUnit) (rest : Text)
  | broken (fault : StringFault) (rest : Text)

/-- A scan with one more unit in front. -/
def StringScan.cons (u : StringUnit) : StringScan → StringScan
  | .done units rest => .done (u :: units) rest
  | .broken fault rest => .broken fault rest

/-- Reads a string after its opening quote.  A named code point needs something after its four
digits; a control character must be named. -/
def scanString : Text → StringScan
  | [] => .broken .unterminated []
  | c :: rest =>
    if c = CodePoint.quote then .done [] rest
    else if c = CodePoint.backslash then
      match rest with
      | [] => .broken .unterminated []
      | e :: rest' =>
        if e = CodePoint.ofChar 'u' then
          match rest' with
          | a :: b :: c' :: d :: after :: rest'' =>
            match hexFour? a b c' d with
            | some n => (scanString (after :: rest'')).cons ⟨CodePoint.ofNat n, true⟩
            | none => .broken .unicodeEscape (e :: rest')
          | _ => .broken .unicodeEscape (e :: rest')
        else
          match escapeValue? e with
          | some v => (scanString rest').cons ⟨v, false⟩
          | none => .broken .escape (c :: rest)
    else if c.code < 0x20 then .broken .controlCharacter (c :: rest)
    else (scanString rest).cons ⟨c, false⟩

/-- What follows a string is shorter than what was read. -/
theorem scanString_length {t rest : Text} {units : List StringUnit}
    (h : scanString t = .done units rest) : rest.length < t.length := by
  fun_induction scanString t generalizing units <;>
    first
      | (simp only [StringScan.done.injEq] at h; obtain ⟨-, rfl⟩ := h; simp)
      | (cases h)
      | (rename_i ih
         simp only [StringScan.cons] at h
         split at h
         · rename_i hs
           simp only [StringScan.done.injEq] at h
           obtain ⟨-, rfl⟩ := h
           have := ih hs
           simp only [List.length_cons] at this ⊢
           omega
         · cases h)

/-- The first half of a surrogate pair. -/
def isHighSurrogate (c : CodePoint) : Bool := 0xD800 ≤ c.code && c.code ≤ 0xDBFF

/-- The second half of a surrogate pair. -/
def isLowSurrogate (c : CodePoint) : Bool := 0xDC00 ≤ c.code && c.code ≤ 0xDFFF

/-- The text of some units: two named halves of a pair, one after the other, are one code point. -/
def joinUnits : List StringUnit → Text
  | [] => []
  | [u] => [u.value]
  | u :: v :: rest =>
    if u.named && v.named && isHighSurrogate u.value && isLowSurrogate v.value then
      CodePoint.ofNat (0x10000 + (u.value.code - 0xD800) * 0x400 + (v.value.code - 0xDC00))
        :: joinUnits rest
    else u.value :: joinUnits (v :: rest)

/-! ## §3. Numbers and names. -/

/-- The ASCII digits at the start of a text, and the rest. -/
def spanDigits (t : Text) : Text × Text :=
  (t.takeWhile CodePoint.isAsciiDigit, t.dropWhile CodePoint.isAsciiDigit)

theorem spanDigits_length (t : Text) :
    (spanDigits t).1.length + (spanDigits t).2.length = t.length := by
  have h : (spanDigits t).1 ++ (spanDigits t).2 = t := by
    simp [spanDigits]
  rw [← List.length_append, h]

/-- The digits of a fraction, when a point with digits stands at the start. -/
def scanFraction? : Text → Option (Text × Text)
  | [] => none
  | c :: rest =>
    let s := spanDigits rest
    if c = CodePoint.dot ∧ s.1 ≠ [] then some s else none

/-- The sign and digits of an exponent, when one stands at the start. -/
def scanExponent? : Text → Option ((Bool × Text) × Text)
  | [] => none
  | c :: rest =>
    if c = CodePoint.ofChar 'e' ∨ c = CodePoint.ofChar 'E' then
      let negative := rest.head? = some (CodePoint.ofChar '-')
      let signed := negative || rest.head? = some (CodePoint.ofChar '+')
      let s := spanDigits (if signed then rest.tail else rest)
      if s.1 ≠ [] then some ((negative, s.1), s.2) else none
    else none

/-- The integer digits at the start of a text: a zero alone, or digits that start with no zero. -/
def scanWhole? : Text → Option (Text × Text)
  | [] => none
  | c :: rest =>
    if c = CodePoint.ofChar '0' then some ([c], rest)
    else if c.isAsciiDigit then some (spanDigits (c :: rest))
    else none

theorem scanWhole_length {t digits rest : Text} (h : scanWhole? t = some (digits, rest)) :
    rest.length < t.length := by
  cases t with
  | nil => simp [scanWhole?] at h
  | cons c cs =>
    have hl := spanDigits_length cs
    simp only [scanWhole?] at h
    by_cases hz : c = CodePoint.ofChar '0'
    · simp only [hz, if_true, Option.some.injEq, Prod.mk.injEq] at h
      simp [← h.2]
    · by_cases hd : c.isAsciiDigit = true
      · simp only [hz, if_false, hd, if_true, spanDigits, List.dropWhile_cons,
          Option.some.injEq, Prod.mk.injEq] at h hl
        rw [← h.2]
        simp only [List.length_cons]
        omega
      · simp [hz, hd] at h

theorem scanFraction_length {t digits rest : Text} (h : scanFraction? t = some (digits, rest)) :
    rest.length ≤ t.length := by
  cases t with
  | nil => simp [scanFraction?] at h
  | cons c cs =>
    simp only [scanFraction?] at h
    split at h
    · have hl := spanDigits_length cs
      simp only [Option.some.injEq] at h
      rw [h] at hl
      simp only [List.length_cons]
      simp only at hl
      omega
    · cases h

theorem scanExponent_length {t rest : Text} {e : Bool × Text}
    (h : scanExponent? t = some (e, rest)) : rest.length ≤ t.length := by
  cases t with
  | nil => simp [scanExponent?] at h
  | cons c cs =>
    simp only [scanExponent?] at h
    split at h
    · generalize hu : (if (decide (cs.head? = some (CodePoint.ofChar '-')) ||
          decide (cs.head? = some (CodePoint.ofChar '+'))) = true then cs.tail else cs) = u at h
      have hle : u.length ≤ cs.length := by
        rw [← hu]
        split <;> simp
      have hl := spanDigits_length u
      split at h
      · simp only [Option.some.injEq, Prod.mk.injEq] at h
        rw [h.2] at hl
        simp only [List.length_cons]
        omega
      · cases h
    · cases h

/-- The token of a number with these parts.  Without fraction and exponent it is an integer. -/
def numberToken (negative : Bool) (whole : Text) (fraction : Option Text)
    (exponent : Option (Bool × Text)) : Token :=
  match fraction, exponent with
  | none, none =>
    if Text.maxDigits < whole.length then .longInteger whole.length
    else
      let n : Int := Text.valueOfDigits whole
      .scalar (.int (if negative then -n else n))
  | _, _ =>
    let digits := whole ++ fraction.getD []
    let power : Int :=
      match exponent with
      | none => 0
      | some (neg, ds) =>
        let n : Int := Text.valueOfDigits ds
        if neg then -n else n
    let significant := digits.dropWhile (· = CodePoint.ofChar '0')
    .scalar (.double (Binary64.ofDecimal negative (Text.valueOfDigits digits) significant.length
      (power - (fraction.getD []).length)))

/-- Reads a number after its sign. -/
def scanNumber? (negative : Bool) (t : Text) : Option (Token × Text) :=
  match scanWhole? t with
  | none => none
  | some (whole, rest) =>
    let (fraction, rest) :=
      match scanFraction? rest with
      | some (f, r) => (some f, r)
      | none => (none, rest)
    let (exponent, rest) :=
      match scanExponent? rest with
      | some (e, r) => (some e, r)
      | none => (none, rest)
    some (numberToken negative whole fraction exponent, rest)

theorem scanNumber_length {negative : Bool} {t rest : Text} {token : Token}
    (h : scanNumber? negative t = some (token, rest)) : rest.length < t.length := by
  unfold scanNumber? at h
  split at h
  · cases h
  · rename_i whole r1 hw
    have h1 := scanWhole_length hw
    have h2 : ((match scanFraction? r1 with
        | some (f, r) => (some f, r)
        | none => (none, r1)) : Option Text × Text).2.length ≤ r1.length := by
      split
      · rename_i hf; exact scanFraction_length hf
      · exact Nat.le_refl _
    generalize ((match scanFraction? r1 with
        | some (f, r) => (some f, r)
        | none => (none, r1)) : Option Text × Text) = p at h h2
    obtain ⟨fraction, r2⟩ := p
    dsimp only at h h2
    have h3 : ((match scanExponent? r2 with
        | some (e, r) => (some e, r)
        | none => (none, r2)) : Option (Bool × Text) × Text).2.length ≤ r2.length := by
      split
      · rename_i he; exact scanExponent_length he
      · exact Nat.le_refl _
    generalize ((match scanExponent? r2 with
        | some (e, r) => (some e, r)
        | none => (none, r2)) : Option (Bool × Text) × Text) = q at h h3
    obtain ⟨exponent, r3⟩ := q
    dsimp only at h h3
    simp only [Option.some.injEq, Prod.mk.injEq] at h
    rw [← h.2]
    omega

/-- The names that are values. -/
def names : List (Text × Json) :=
  [("null", .null), ("true", .bool true), ("false", .bool false), ("NaN", .double .nan),
   ("Infinity", .double (.infinity false)), ("-Infinity", .double (.infinity true))]

/-- Reads a name. -/
def scanName? (t : Text) : Option (Token × Text) :=
  (names.find? fun n => t.startsWith n.1).map fun n => (.scalar n.2, t.drop n.1.length)

theorem scanName_length {t rest : Text} {token : Token} (h : scanName? t = some (token, rest)) :
    rest.length < t.length := by
  unfold scanName? at h
  cases hf : names.find? fun n => t.startsWith n.1 with
  | none => simp [hf] at h
  | some n =>
    simp only [hf, Option.map_some, Option.some.injEq, Prod.mk.injEq] at h
    have hs : t.startsWith n.1 = true := by simpa using List.find?_some hf
    have hlen : n.1.length ≤ t.length := (List.isPrefixOf_iff_prefix.1 hs).length_le
    have hpos : 0 < n.1.length := by
      have hall : ∀ m ∈ names, 0 < m.1.length := by decide
      exact hall n (List.mem_of_find?_eq_some hf)
    rw [← h.2]
    simp only [List.length_drop]
    omega

/-- Reads a name or a number. -/
def scanScalar? (t : Text) : Option (Token × Text) :=
  match scanName? t with
  | some r => some r
  | none =>
    if t.head? = some (CodePoint.ofChar '-') then scanNumber? true t.tail else scanNumber? false t

theorem scanScalar_length {t rest : Text} {token : Token}
    (h : scanScalar? t = some (token, rest)) : rest.length < t.length := by
  unfold scanScalar? at h
  split at h
  · rename_i hn
    rw [h] at hn
    exact scanName_length hn
  · split at h
    · have := scanNumber_length h
      simp only [List.length_tail] at this
      omega
    · exact scanNumber_length h

/-! ## §4. The tokens of a text. -/

/-- Space, tab, line feed and carriage return. -/
def isSpace (c : CodePoint) : Bool :=
  c.code = 0x20 || c.code = 0x09 || c.code = 0x0A || c.code = 0x0D

/-- The token of a punctuation mark. -/
def punctuation? (c : CodePoint) : Option Token :=
  if c = CodePoint.openBrace then some .openObject
  else if c = CodePoint.closeBrace then some .closeObject
  else if c = CodePoint.ofChar '[' then some .openArray
  else if c = CodePoint.ofChar ']' then some .closeArray
  else if c = CodePoint.ofChar ':' then some .colon
  else if c = CodePoint.ofChar ',' then some .comma
  else none

/-- A token and where it starts. -/
structure Located where
  token : Token
  position : Nat
  deriving DecidableEq

/-- The tokens of the text from position `position` on, up to its end or to one that cannot be
read past. -/
def tokensFrom (position : Nat) (t : Text) : List Located :=
  match t with
  | [] => [⟨.endOfText, position⟩]
  | c :: rest =>
    if isSpace c then tokensFrom (position + 1) rest
    else
      match punctuation? c with
      | some token => ⟨token, position⟩ :: tokensFrom (position + 1) rest
      | none =>
        if c = CodePoint.quote then
          match hs : scanString rest with
          | .done units rest' =>
            have := scanString_length hs
            ⟨.string (joinUnits units), position⟩
              :: tokensFrom (position + 1 + (rest.length - rest'.length)) rest'
          | .broken .unterminated _ => [⟨.brokenString .unterminated position, position⟩]
          | .broken fault rest' =>
            [⟨.brokenString fault (position + 1 + (rest.length - rest'.length)), position⟩]
        else
          match hs : scanScalar? (c :: rest) with
          | none => [⟨.stray, position⟩]
          | some (token, rest') =>
            have := scanScalar_length hs
            ⟨token, position⟩ :: tokensFrom (position + ((c :: rest).length - rest'.length)) rest'
  termination_by t.length
  decreasing_by all_goals (simp only [List.length_cons] at *; omega)

/-- The tokens of a text. -/
def tokens (t : Text) : List Located := tokensFrom 0 t

@[simp] theorem tokens_nil : tokens [] = [⟨.endOfText, 0⟩] := by simp [tokens, tokensFrom]

end Json

end ModuleBuild
