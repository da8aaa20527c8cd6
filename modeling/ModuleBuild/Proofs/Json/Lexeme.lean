/-
  ModuleBuild.Proofs.Json.Lexeme
  ──────────────────────────────
  **HOW TOKENS ARE WRITTEN.**

  A lexeme is a token together with the way it is written: the parts of a
  string as plain characters and escapes, a numeral by its digits, a name.
  Lexemes know nothing of the scanner; the scanner is shown to read each of
  them, and to stop where it ends.  Only a numeral depends on what follows
  it: a digit, a point or an exponent would belong to it.

  Main results:
    * `scanString_parts` — a string ends at its closing quote;
    * `scanNumber_numeral` — a numeral is read up to what does not belong to it;
    * `tokensFrom_lexeme` — a lexeme is one token, and reading goes on behind it.
-/
import ModuleBuild.Json.Token

namespace ModuleBuild

namespace Json

/-! ## §1. Strings. -/

/-- The letters that stand for a character after a backslash. -/
def escapeLetters : Text := "\"\\/bfnrt"

/-- A hexadecimal digit. -/
def isHexDigit (c : CodePoint) : Bool :=
  (0x30 ≤ c.code && c.code ≤ 0x39) || (0x41 ≤ c.code && c.code ≤ 0x46)
    || (0x61 ≤ c.code && c.code ≤ 0x66)

/-- A part of a string between its quotes. -/
inductive StringPart
  /-- A character that stands for itself. -/
  | plain (c : CodePoint) (ne_quote : c ≠ CodePoint.quote) (ne_backslash : c ≠ CodePoint.backslash)
      (not_control : 0x20 ≤ c.code)
  /-- A letter after a backslash. -/
  | escape (letter : CodePoint) (mem_escapeLetters : letter ∈ escapeLetters)
  /-- The number of a code point, in four digits. -/
  | named (a b c d : CodePoint) (digits : ∀ x ∈ [a, b, c, d], isHexDigit x = true)

def StringPart.text : StringPart → Text
  | .plain c .. => [c]
  | .escape letter _ => [CodePoint.backslash, letter]
  | .named a b c d _ => [CodePoint.backslash, CodePoint.ofChar 'u', a, b, c, d]

/-- What a part of a string stands for. -/
def StringPart.unit : StringPart → StringUnit
  | .plain c .. => ⟨c, false⟩
  | .escape letter _ => ⟨(escapeValue? letter).getD letter, false⟩
  | .named a b c d _ => ⟨CodePoint.ofNat ((hexFour? a b c d).getD 0), true⟩

theorem exists_escapeValue {letter : CodePoint} (h : letter ∈ escapeLetters) :
    ∃ v, escapeValue? letter = some v := by
  have hall : ∀ c ∈ escapeLetters, (escapeValue? c).isSome = true := by decide
  exact Option.isSome_iff_exists.1 (hall letter h)

theorem ne_letterU_of_mem_escapeLetters {letter : CodePoint} (h : letter ∈ escapeLetters) :
    letter ≠ CodePoint.ofChar 'u' := by
  have hall : ∀ c ∈ escapeLetters, c ≠ CodePoint.ofChar 'u' := by decide
  exact hall letter h

theorem exists_hexValue {c : CodePoint} (h : isHexDigit c = true) : ∃ v, hexValue? c = some v := by
  unfold isHexDigit at h
  simp only [Bool.or_eq_true, Bool.and_eq_true, decide_eq_true_eq] at h
  unfold hexValue?
  split
  · exact ⟨_, rfl⟩
  · split
    · exact ⟨_, rfl⟩
    · split
      · exact ⟨_, rfl⟩
      · omega

theorem exists_hexFour {a b c d : CodePoint} (h : ∀ x ∈ [a, b, c, d], isHexDigit x = true) :
    ∃ n, hexFour? a b c d = some n := by
  obtain ⟨va, ha⟩ := exists_hexValue (h a (by simp))
  obtain ⟨vb, hb⟩ := exists_hexValue (h b (by simp))
  obtain ⟨vc, hc⟩ := exists_hexValue (h c (by simp))
  obtain ⟨vd, hd⟩ := exists_hexValue (h d (by simp))
  unfold hexFour?
  rw [ha, hb, hc, hd]
  exact ⟨_, rfl⟩

/-- The scanner takes one part of a string, as long as something follows. -/
theorem scanString_part (p : StringPart) {after : CodePoint} {rest : Text} :
    scanString (p.text ++ after :: rest) = (scanString (after :: rest)).cons p.unit := by
  have hbackslash : CodePoint.backslash ≠ CodePoint.quote := by decide
  cases p with
  | plain c hquote hbackslash hcontrol =>
    show scanString (c :: after :: rest) = _
    rw [scanString.eq_def]
    dsimp only
    rw [if_neg hquote, if_neg hbackslash, if_neg (by omega)]
    rfl
  | escape letter hmem =>
    obtain ⟨v, hv⟩ := exists_escapeValue hmem
    show scanString (CodePoint.backslash :: letter :: after :: rest) = _
    rw [scanString.eq_def]
    dsimp only
    rw [if_neg hbackslash, if_pos rfl, if_neg (ne_letterU_of_mem_escapeLetters hmem), hv]
    simp only [StringPart.unit, hv, Option.getD_some]
  | named a b c d hdigits =>
    obtain ⟨n, hn⟩ := exists_hexFour hdigits
    show scanString (CodePoint.backslash :: CodePoint.ofChar 'u' :: a :: b :: c :: d :: after :: rest)
      = _
    rw [scanString.eq_def]
    dsimp only
    rw [if_neg hbackslash, if_pos rfl, if_pos rfl, hn]
    simp only [StringPart.unit, hn, Option.getD_some]

/-- **A string ends at its closing quote.** -/
theorem scanString_parts (parts : List StringPart) (rest : Text) :
    scanString (parts.flatMap StringPart.text ++ CodePoint.quote :: rest)
      = .done (parts.map StringPart.unit) rest := by
  induction parts with
  | nil =>
    show scanString (CodePoint.quote :: rest) = _
    rw [scanString.eq_def]
    exact if_pos rfl
  | cons p parts ih =>
    -- what follows the part is another part, or the quote
    obtain ⟨after, more, hmore⟩ : ∃ after more,
        parts.flatMap StringPart.text ++ CodePoint.quote :: rest = after :: more := by
      cases h : parts.flatMap StringPart.text with
      | nil => exact ⟨_, _, rfl⟩
      | cons c cs => exact ⟨_, _, rfl⟩
    rw [List.flatMap_cons, List.append_assoc, hmore, scanString_part, ← hmore, ih]
    rfl

/-! ## §2. Numerals. -/

/-- Some digits, and nothing else. -/
def IsDigits (t : Text) : Prop := t ≠ [] ∧ ∀ c ∈ t, c.isAsciiDigit = true

/-- The digits of a whole number: a zero alone, or digits that start with no zero. -/
def IsWhole (t : Text) : Prop :=
  t = "0" ∨ (IsDigits t ∧ t.head? ≠ some (CodePoint.ofChar '0'))

/-- The end of a numeral that says by which power of ten it counts. -/
structure Exponent where
  letter : CodePoint
  sign : Text
  digits : Text
  mem_letters : letter ∈ ("eE" : Text)
  mem_signs : sign ∈ ([[], "+", "-"] : List Text)
  isDigits_digits : IsDigits digits

/-- A number as it is written. -/
structure Numeral where
  negative : Bool
  whole : Text
  fraction : Option Text
  exponent : Option Exponent
  isWhole_whole : IsWhole whole
  isDigits_fraction : ∀ f ∈ fraction, IsDigits f

def Exponent.text (e : Exponent) : Text := e.letter :: e.sign ++ e.digits

/-- The sign and the digits of an exponent. -/
def Exponent.value (e : Exponent) : Bool × Text := (e.sign = "-", e.digits)

/-- The point and the digits of a fraction, if there is one. -/
def Numeral.fractionText (n : Numeral) : Text :=
  (n.fraction.map fun f => CodePoint.dot :: f).getD []

def Numeral.exponentText (n : Numeral) : Text := (n.exponent.map Exponent.text).getD []

/-- A numeral without its sign. -/
def Numeral.magnitudeText (n : Numeral) : Text := n.whole ++ n.fractionText ++ n.exponentText

def Numeral.text (n : Numeral) : Text :=
  (if n.negative then [CodePoint.ofChar '-'] else []) ++ n.magnitudeText

def Numeral.token (n : Numeral) : Token :=
  numberToken n.negative n.whole n.fraction (n.exponent.map Exponent.value)

theorem Numeral.fractionText_of_none {n : Numeral} (h : n.fraction = none) :
    n.fractionText = [] := by
  unfold Numeral.fractionText
  rw [h]
  rfl

theorem Numeral.exponentText_of_none {n : Numeral} (h : n.exponent = none) :
    n.exponentText = [] := by
  unfold Numeral.exponentText
  rw [h]
  rfl

/-- A numeral is made of digits and some marks. -/
theorem Numeral.forall_mem_text (n : Numeral) {P : CodePoint → Prop}
    (hdigit : ∀ c, c.isAsciiDigit = true → P c) (hmark : ∀ c ∈ ("-+.eE" : Text), P c) :
    ∀ c ∈ n.text, P c := by
  have hdigits : ∀ {t : Text}, IsDigits t → ∀ c ∈ t, P c := fun ht c hc => hdigit c (ht.2 c hc)
  have hzero : P (CodePoint.ofChar '0') := hdigit _ (by decide)
  have hletters : ∀ c ∈ ("eE" : Text), c ∈ ("-+.eE" : Text) := by decide
  have hsigns : ∀ sign ∈ ([[], "+", "-"] : List Text), ∀ c ∈ sign, c ∈ ("-+.eE" : Text) := by decide
  unfold Numeral.text Numeral.magnitudeText
  rw [List.forall_mem_append, List.forall_mem_append, List.forall_mem_append]
  -- the sign, the whole part, the fraction and the exponent
  refine ⟨?_, ⟨?_, ?_⟩, ?_⟩
  · intro c hc
    cases hneg : n.negative with
    | true =>
      rw [hneg, if_pos rfl] at hc
      exact List.mem_singleton.1 hc ▸ hmark _ (by decide)
    | false =>
      rw [hneg] at hc
      cases hc
  · intro c hc
    rcases n.isWhole_whole with hwhole | ⟨hwhole, -⟩
    · rw [hwhole] at hc
      exact List.mem_singleton.1 hc ▸ hzero
    · exact hdigits hwhole c hc
  · cases hf : n.fraction with
    | none =>
      rw [n.fractionText_of_none hf]
      simp
    | some f =>
      have htext : n.fractionText = CodePoint.dot :: f := by
        unfold Numeral.fractionText
        rw [hf]
        rfl
      rw [htext, List.forall_mem_cons]
      exact ⟨hmark _ (by decide), hdigits (n.isDigits_fraction f hf)⟩
  · cases he : n.exponent with
    | none =>
      rw [n.exponentText_of_none he]
      simp
    | some e =>
      have htext : n.exponentText = e.text := by
        unfold Numeral.exponentText
        rw [he]
        rfl
      rw [htext]
      unfold Exponent.text
      rw [List.forall_mem_append, List.forall_mem_cons]
      exact ⟨⟨hmark _ (hletters _ e.mem_letters), fun c hc => hmark c (hsigns _ e.mem_signs c hc)⟩,
        hdigits e.isDigits_digits⟩

/-- What may belong to a numeral, once it has begun. -/
def isNumeric (c : CodePoint) : Bool :=
  c.isAsciiDigit || c = CodePoint.dot || c = CodePoint.ofChar 'e' || c = CodePoint.ofChar 'E'

/-- A text that starts with nothing that may belong to a numeral in front of it. -/
def EndsNumeral (rest : Text) : Prop := ∀ c ∈ rest.head?, isNumeric c = false

theorem spanDigits_append {t rest : Text} (ht : ∀ c ∈ t, c.isAsciiDigit = true)
    (hrest : ∀ c ∈ rest.head?, c.isAsciiDigit = false) : spanDigits (t ++ rest) = (t, rest) := by
  have hcut : rest.takeWhile CodePoint.isAsciiDigit = []
      ∧ rest.dropWhile CodePoint.isAsciiDigit = rest := by
    cases rest with
    | nil => exact ⟨rfl, rfl⟩
    | cons c cs =>
      have hc : c.isAsciiDigit = false := hrest c rfl
      exact ⟨List.takeWhile_cons_of_neg (by simp [hc]), List.dropWhile_cons_of_neg (by simp [hc])⟩
  unfold spanDigits
  rw [List.takeWhile_append_of_pos ht, List.dropWhile_append_of_pos ht, hcut.1, hcut.2,
    List.append_nil]

theorem isAsciiDigit_of_isNumeric {c : CodePoint} (h : isNumeric c = false) :
    c.isAsciiDigit = false := by
  unfold isNumeric at h
  simp only [Bool.or_eq_false_iff] at h
  exact h.1.1.1

/-- The digits of a whole number are read up to what is no digit. -/
theorem scanWhole_append {whole rest : Text} (h : IsWhole whole)
    (hrest : ∀ c ∈ rest.head?, c.isAsciiDigit = false) :
    scanWhole? (whole ++ rest) = some (whole, rest) := by
  rcases h with rfl | ⟨⟨hne, hdigits⟩, hzero⟩
  · show scanWhole? (CodePoint.ofChar '0' :: rest) = _
    rw [scanWhole?, if_pos rfl]
    rfl
  · cases whole with
    | nil => exact absurd rfl hne
    | cons c cs =>
      have hc : c ≠ CodePoint.ofChar '0' := fun e => hzero (by rw [e]; rfl)
      show scanWhole? (c :: (cs ++ rest)) = _
      rw [scanWhole?, if_neg hc, if_pos (hdigits c (List.mem_cons_self ..)),
        ← List.cons_append, spanDigits_append hdigits hrest]

/-- An exponent is read up to what is no digit. -/
theorem scanExponent_append (e : Exponent) {rest : Text}
    (hrest : ∀ c ∈ rest.head?, c.isAsciiDigit = false) :
    scanExponent? (e.text ++ rest) = some (e.value, rest) := by
  obtain ⟨letter, sign, digits, hletter, hsign, hne, hdigits⟩ := e
  have hletter' : letter = CodePoint.ofChar 'e' ∨ letter = CodePoint.ofChar 'E' := by
    have hall : ∀ c ∈ ("eE" : Text), c = CodePoint.ofChar 'e' ∨ c = CodePoint.ofChar 'E' := by
      decide
    exact hall letter hletter
  have hspan := spanDigits_append hdigits hrest
  -- what stands behind the sign starts with a digit, and a digit is no sign
  obtain ⟨run, hrun⟩ : ∃ run, run = digits ++ rest := ⟨_, rfl⟩
  have hhead : ∀ c, c.isAsciiDigit = false → run.head? ≠ some c := by
    intro c hc hh
    cases digits with
    | nil => exact absurd rfl hne
    | cons d ds =>
      rw [hrun] at hh
      injection hh with hh
      rw [← hh, hdigits d (List.mem_cons_self ..)] at hc
      cases hc
  have hminus := hhead (CodePoint.ofChar '-') (by decide)
  have hplus := hhead (CodePoint.ofChar '+') (by decide)
  rw [← hrun] at hspan
  show scanExponent? (letter :: (sign ++ digits ++ rest)) = _
  rw [scanExponent?, if_pos hletter', List.append_assoc, ← hrun]
  simp only [List.mem_cons, List.not_mem_nil, or_false] at hsign
  rcases hsign with rfl | rfl | rfl
  · have hvalue : ("-" : Text) ≠ [] := by decide
    simp [hminus, hplus, hspan, hne, Exponent.value, hvalue]
  · show (let negative : Bool := some (CodePoint.ofChar '+') = some (CodePoint.ofChar '-')
      let signed := negative || some (CodePoint.ofChar '+') = some (CodePoint.ofChar '+')
      let s := spanDigits (if signed then run else CodePoint.ofChar '+' :: run)
      if s.1 ≠ [] then some ((negative, s.1), s.2) else none) = _
    have hsigns : CodePoint.ofChar '+' ≠ CodePoint.ofChar '-' := by decide
    have hvalue : (decide (("+" : Text) = "-")) = false := by decide
    simp [hsigns, hspan, hne, Exponent.value, hvalue]
  · show (let negative : Bool := some (CodePoint.ofChar '-') = some (CodePoint.ofChar '-')
      let signed := negative || some (CodePoint.ofChar '-') = some (CodePoint.ofChar '+')
      let s := spanDigits (if signed then run else CodePoint.ofChar '-' :: run)
      if s.1 ≠ [] then some ((negative, s.1), s.2) else none) = _
    simp [hspan, hne, Exponent.value]

/-- The parts of a numeral that may be missing are told apart by how they start. -/
theorem head_exponentText (n : Numeral) {rest : Text} (hrest : EndsNumeral rest) {c : CodePoint}
    (hc : c ∈ (n.exponentText ++ rest).head?) :
    c = CodePoint.ofChar 'e' ∨ c = CodePoint.ofChar 'E' ∨ isNumeric c = false := by
  unfold Numeral.exponentText at hc
  cases he : n.exponent with
  | none =>
    rw [he] at hc
    exact .inr (.inr (hrest c hc))
  | some e =>
    rw [he] at hc
    have hall : ∀ x ∈ ("eE" : Text), x = CodePoint.ofChar 'e' ∨ x = CodePoint.ofChar 'E' := by decide
    have hletter : e.letter = c := by
      injection hc
    rcases hall _ e.mem_letters with h | h
    · exact .inl (hletter.symm.trans h)
    · exact .inr (.inl (hletter.symm.trans h))

theorem not_digit_exponentText (n : Numeral) {rest : Text} (hrest : EndsNumeral rest) :
    ∀ c ∈ (n.exponentText ++ rest).head?, c.isAsciiDigit = false := by
  intro c hc
  rcases head_exponentText n hrest hc with rfl | rfl | h
  · decide
  · decide
  · exact isAsciiDigit_of_isNumeric h

theorem not_digit_fractionText (n : Numeral) {rest : Text} (hrest : EndsNumeral rest) :
    ∀ c ∈ (n.fractionText ++ (n.exponentText ++ rest)).head?, c.isAsciiDigit = false := by
  intro c hc
  unfold Numeral.fractionText at hc
  cases hf : n.fraction with
  | none =>
    rw [hf] at hc
    exact not_digit_exponentText n hrest c hc
  | some f =>
    rw [hf] at hc
    have hdot : CodePoint.dot = c := by
      injection hc
    rw [← hdot]
    decide

/-- A fraction is read up to what is no digit; where there is none, none is read. -/
theorem scanFraction_numeral (n : Numeral) {rest : Text} (hrest : EndsNumeral rest) :
    scanFraction? (n.fractionText ++ (n.exponentText ++ rest))
      = n.fraction.map fun f => (f, n.exponentText ++ rest) := by
  have hdigit := not_digit_exponentText n hrest
  unfold Numeral.fractionText
  cases hf : n.fraction with
  | none =>
    show scanFraction? (n.exponentText ++ rest) = none
    cases ht : n.exponentText ++ rest with
    | nil => rfl
    | cons c cs =>
      have hc : c ≠ CodePoint.dot := by
        rintro rfl
        rcases head_exponentText n hrest (by rw [ht]; rfl) with h | h | h <;> revert h <;> decide
      rw [scanFraction?]
      exact if_neg fun h => hc h.1
  | some f =>
    obtain ⟨hne, hdigits⟩ := n.isDigits_fraction f hf
    show scanFraction? (CodePoint.dot :: (f ++ (n.exponentText ++ rest))) = _
    rw [scanFraction?, spanDigits_append hdigits hdigit]
    exact if_pos ⟨rfl, hne⟩

/-- An exponent is read if there is one. -/
theorem scanExponent_numeral (n : Numeral) {rest : Text} (hrest : EndsNumeral rest) :
    scanExponent? (n.exponentText ++ rest) = n.exponent.map fun e => (e.value, rest) := by
  unfold Numeral.exponentText
  cases he : n.exponent with
  | none =>
    show scanExponent? rest = none
    cases rest with
    | nil => rfl
    | cons c cs =>
      have hc : isNumeric c = false := hrest c rfl
      rw [scanExponent?]
      refine if_neg ?_
      rintro (rfl | rfl) <;> revert hc <;> decide
  | some e =>
    exact scanExponent_append e fun c hc => isAsciiDigit_of_isNumeric (hrest c hc)

/-- **A numeral is read up to what does not belong to it.** -/
theorem scanNumber_numeral (n : Numeral) {rest : Text} (hrest : EndsNumeral rest) :
    scanNumber? n.negative (n.magnitudeText ++ rest) = some (n.token, rest) := by
  unfold scanNumber? Numeral.magnitudeText
  rw [List.append_assoc, List.append_assoc,
    scanWhole_append n.isWhole_whole (not_digit_fractionText n hrest)]
  dsimp only
  rw [scanFraction_numeral n hrest]
  have hexponent := scanExponent_numeral n hrest
  unfold Numeral.token
  cases hf : n.fraction with
  | none =>
    dsimp only [Option.map_none]
    rw [n.fractionText_of_none hf, List.nil_append, hexponent]
    cases he : n.exponent with
    | none =>
      rw [n.exponentText_of_none he]
      rfl
    | some e => rfl
  | some f =>
    dsimp only [Option.map_some]
    rw [hexponent]
    cases he : n.exponent with
    | none =>
      rw [n.exponentText_of_none he]
      rfl
    | some e => rfl

/-! ## §3. Names. -/

/-- A name is read, whatever follows. -/
theorem scanName_append {n : Text × Json} (h : n ∈ names) (rest : Text) :
    scanName? (n.1 ++ rest) = some (.scalar n.2, rest) := by
  simp only [names, List.mem_cons, List.not_mem_nil, or_false] at h
  rcases h with rfl | rfl | rfl | rfl | rfl | rfl
  all_goals rfl

theorem head_of_startsWith {t start : Text} (h : t.startsWith start = true) {c : CodePoint} {k : Nat}
    (hc : start[k]? = some c) : t[k]? = some c := by
  obtain ⟨rest, rfl⟩ := List.isPrefixOf_iff_prefix.1 h
  obtain ⟨hk, -⟩ := List.getElem?_eq_some_iff.1 hc
  rw [List.getElem?_append_left hk, hc]

/-- Names have a first and a second letter, and neither is a digit. -/
theorem letters_of_mem_names {n : Text × Json} (h : n ∈ names) {k : Nat} (hk : k < 2) :
    ∃ c, n.1[k]? = some c ∧ c.isAsciiDigit = false := by
  have hall : ∀ n ∈ names, ∀ k < 2, (n.1[k]?.map CodePoint.isAsciiDigit) = some false := by decide
  exact Option.map_eq_some_iff.1 (hall n h k hk)

/-- A text with a digit in front, or behind a sign, starts with no name. -/
theorem scanName_of_digit {t : Text} {k : Nat} (hk : k < 2) {c : CodePoint} (hc : t[k]? = some c)
    (hdigit : c.isAsciiDigit = true) : scanName? t = none := by
  unfold scanName?
  rw [Option.map_eq_none_iff, List.find?_eq_none]
  intro n hn hstart
  obtain ⟨d, hd, hnot⟩ := letters_of_mem_names hn hk
  rw [head_of_startsWith hstart hd, Option.some.injEq] at hc
  rw [hc, hdigit] at hnot
  cases hnot

theorem exists_of_isWhole {t : Text} (h : IsWhole t) :
    ∃ c cs, t = c :: cs ∧ c.isAsciiDigit = true := by
  rcases h with rfl | ⟨⟨hne, hdigits⟩, -⟩
  · exact ⟨_, _, rfl, by decide⟩
  · cases t with
    | nil => exact absurd rfl hne
    | cons c cs => exact ⟨c, cs, rfl, hdigits c (List.mem_cons_self ..)⟩

/-- A numeral with its sign is read up to what does not belong to it. -/
theorem scanScalar_numeral (n : Numeral) {rest : Text} (hrest : EndsNumeral rest) :
    scanScalar? (n.text ++ rest) = some (n.token, rest) := by
  obtain ⟨c, cs, hwhole, hdigit⟩ := exists_of_isWhole n.isWhole_whole
  have hscan := scanNumber_numeral n hrest
  obtain ⟨more, hmore⟩ : ∃ more, n.magnitudeText ++ rest = c :: more := by
    refine ⟨cs ++ n.fractionText ++ n.exponentText ++ rest, ?_⟩
    unfold Numeral.magnitudeText
    rw [hwhole]
    simp
  unfold scanScalar? Numeral.text
  rw [List.append_assoc, hmore]
  rw [hmore] at hscan
  cases hn : n.negative with
  | true =>
    rw [hn] at hscan
    rw [if_pos rfl, scanName_of_digit (k := 1) (by decide) rfl hdigit]
    exact hscan
  | false =>
    rw [hn] at hscan
    have hminus : c ≠ CodePoint.ofChar '-' := by
      rintro rfl
      revert hdigit
      decide
    rw [if_neg Bool.false_ne_true, scanName_of_digit (k := 0) (by decide) rfl hdigit]
    show (if some c = some (CodePoint.ofChar '-') then scanNumber? true more
      else scanNumber? false (c :: more)) = _
    rw [if_neg (by simpa using hminus)]
    exact hscan

/-! ## §4. Lexemes. -/

/-- A token as it is written. -/
inductive Lexeme
  | openObject
  | closeObject
  | openArray
  | closeArray
  | colon
  | comma
  | string (parts : List StringPart)
  | numeral (n : Numeral)
  | name (n : Text × Json) (mem_names : n ∈ names)

def Lexeme.text : Lexeme → Text
  | .openObject => [CodePoint.openBrace]
  | .closeObject => [CodePoint.closeBrace]
  | .openArray => "["
  | .closeArray => "]"
  | .colon => ":"
  | .comma => ","
  | .string parts => CodePoint.quote :: parts.flatMap StringPart.text ++ [CodePoint.quote]
  | .numeral n => n.text
  | .name n _ => n.1

def Lexeme.token : Lexeme → Token
  | .openObject => .openObject
  | .closeObject => .closeObject
  | .openArray => .openArray
  | .closeArray => .closeArray
  | .colon => .colon
  | .comma => .comma
  | .string parts => .string (joinUnits (parts.map StringPart.unit))
  | .numeral n => n.token
  | .name n _ => .scalar n.2

/-- A lexeme stops where its text does: only a numeral might go on. -/
def Lexeme.StopsAt (l : Lexeme) (rest : Text) : Prop :=
  match l with
  | .numeral _ => EndsNumeral rest
  | _ => True

/-- The lexemes that are one mark. -/
def marks : List Lexeme := [.openObject, .closeObject, .openArray, .closeArray, .colon, .comma]

/-- What is read as punctuation is a mark. -/
theorem exists_mark {c : CodePoint} {token : Token} (h : punctuation? c = some token) :
    ∃ l ∈ marks, l.text = [c] ∧ l.token = token := by
  unfold punctuation? at h
  split at h
  · rename_i hc
    cases h
    exact ⟨.openObject, by simp [marks], by rw [hc]; rfl, rfl⟩
  split at h
  · rename_i hc
    cases h
    exact ⟨.closeObject, by simp [marks], by rw [hc]; rfl, rfl⟩
  split at h
  · rename_i hc
    cases h
    exact ⟨.openArray, by simp [marks], by rw [hc]; rfl, rfl⟩
  split at h
  · rename_i hc
    cases h
    exact ⟨.closeArray, by simp [marks], by rw [hc]; rfl, rfl⟩
  split at h
  · rename_i hc
    cases h
    exact ⟨.colon, by simp [marks], by rw [hc]; rfl, rfl⟩
  split at h
  · rename_i hc
    cases h
    exact ⟨.comma, by simp [marks], by rw [hc]; rfl, rfl⟩
  · cases h

theorem tokensFrom_mark {c : CodePoint} {token : Token} (hspace : isSpace c = false)
    (h : punctuation? c = some token) (position : Nat) (rest : Text) :
    tokensFrom position (c :: rest) = ⟨token, position⟩ :: tokensFrom (position + 1) rest := by
  rw [tokensFrom, if_neg (by simp [hspace])]
  split
  · rename_i t ht
    rw [h, Option.some.injEq] at ht
    rw [ht]
  · rename_i hnone
    rw [h] at hnone
    cases hnone

/-- A code point that starts a name or a numeral, if anything. -/
def startsScalar (c : CodePoint) : Bool :=
  !isSpace c && (punctuation? c).isNone && c ≠ CodePoint.quote

/-- The lexemes that are a name or a numeral. -/
theorem tokensFrom_scalar {c : CodePoint} {t rest : Text} {token : Token}
    (hc : startsScalar c = true) (h : scanScalar? (c :: t) = some (token, rest)) (position : Nat) :
    ∃ next, tokensFrom position (c :: t) = ⟨token, position⟩ :: tokensFrom next rest := by
  simp only [startsScalar, Bool.and_eq_true, Bool.not_eq_true', Option.isNone_iff_eq_none,
    decide_eq_true_eq] at hc
  obtain ⟨⟨hspace, hmark⟩, hquote⟩ := hc
  rw [tokensFrom, if_neg (by simp [hspace])]
  split
  · rename_i token' htoken
    rw [hmark] at htoken
    cases htoken
  · rw [if_neg hquote]
    split
    · rename_i hnone
      rw [h] at hnone
      cases hnone
    · rename_i token' rest' hsome
      rw [h] at hsome
      cases hsome
      exact ⟨_, rfl⟩

/-- The lexemes that are a string. -/
theorem tokensFrom_string (parts : List StringPart) (position : Nat) (rest : Text) :
    ∃ next, tokensFrom position ((Lexeme.string parts).text ++ rest)
      = ⟨(Lexeme.string parts).token, position⟩ :: tokensFrom next rest := by
  have hscan := scanString_parts parts rest
  have htext : (Lexeme.string parts).text ++ rest
      = CodePoint.quote :: (parts.flatMap StringPart.text ++ CodePoint.quote :: rest) := by
    simp [Lexeme.text]
  have hmark : punctuation? CodePoint.quote = none := by decide
  rw [htext, tokensFrom, if_neg (by decide)]
  split
  · rename_i token htoken
    rw [hmark] at htoken
    cases htoken
  · rw [if_pos rfl]
    split
    · rename_i units rest' hdone
      rw [hscan] at hdone
      cases hdone
      exact ⟨_, rfl⟩
    · rename_i hbroken
      rw [hscan] at hbroken
      cases hbroken
    · rename_i hbroken
      rw [hscan] at hbroken
      cases hbroken

theorem startsScalar_of_isAsciiDigit {c : CodePoint} (h : c.isAsciiDigit = true) :
    startsScalar c = true := by
  have hne : ∀ d : CodePoint, d.isAsciiDigit = false → c ≠ d := by
    rintro d hd rfl
    rw [h] at hd
    cases hd
  have hmark : punctuation? c = none := by
    unfold punctuation?
    rw [if_neg (hne _ (by decide)), if_neg (hne _ (by decide)), if_neg (hne _ (by decide)),
      if_neg (hne _ (by decide)), if_neg (hne _ (by decide)), if_neg (hne _ (by decide))]
  have hspace : isSpace c = false := by
    simp only [CodePoint.isAsciiDigit, Bool.and_eq_true, decide_eq_true_eq] at h
    simp only [isSpace, Bool.or_eq_false_iff, decide_eq_false_iff_not]
    omega
  simp [startsScalar, hmark, hspace, hne CodePoint.quote (by decide)]

/-- How a numeral starts. -/
theorem exists_of_numeral (n : Numeral) : ∃ c t, n.text = c :: t ∧ startsScalar c = true := by
  obtain ⟨c, cs, hwhole, hdigit⟩ := exists_of_isWhole n.isWhole_whole
  have hmagnitude : n.magnitudeText = c :: (cs ++ n.fractionText ++ n.exponentText) := by
    unfold Numeral.magnitudeText
    rw [hwhole]
    rfl
  unfold Numeral.text
  rw [hmagnitude]
  cases n.negative with
  | true => exact ⟨_, _, rfl, by decide⟩
  | false => exact ⟨_, _, rfl, startsScalar_of_isAsciiDigit hdigit⟩

/-- How a name starts. -/
theorem exists_of_name {n : Text × Json} (h : n ∈ names) :
    ∃ c t, n.1 = c :: t ∧ startsScalar c = true := by
  have hall : ∀ n ∈ names, (n.1.head?.map startsScalar) = some true := by decide
  obtain ⟨c, hc, hstarts⟩ := Option.map_eq_some_iff.1 (hall n h)
  obtain ⟨t, ht⟩ := List.head?_eq_some_iff.1 hc
  exact ⟨c, t, ht, hstarts⟩

/-- **A lexeme is one token, and reading goes on behind it.** -/
theorem tokensFrom_lexeme (l : Lexeme) {rest : Text} (h : l.StopsAt rest) (position : Nat) :
    ∃ next, tokensFrom position (l.text ++ rest) = ⟨l.token, position⟩ :: tokensFrom next rest := by
  cases l with
  | openObject => exact ⟨_, tokensFrom_mark (by decide) (by decide) position rest⟩
  | closeObject => exact ⟨_, tokensFrom_mark (by decide) (by decide) position rest⟩
  | openArray => exact ⟨_, tokensFrom_mark (by decide) (by decide) position rest⟩
  | closeArray => exact ⟨_, tokensFrom_mark (by decide) (by decide) position rest⟩
  | colon => exact ⟨_, tokensFrom_mark (by decide) (by decide) position rest⟩
  | comma => exact ⟨_, tokensFrom_mark (by decide) (by decide) position rest⟩
  | string parts => exact tokensFrom_string parts position rest
  | numeral n =>
    obtain ⟨c, t, htext, hstarts⟩ := exists_of_numeral n
    have hscan := scanScalar_numeral n h
    show ∃ next, tokensFrom position (n.text ++ rest) = ⟨n.token, position⟩ :: _
    rw [htext] at hscan ⊢
    exact tokensFrom_scalar hstarts hscan position
  | name n hn =>
    obtain ⟨c, t, htext, hstarts⟩ := exists_of_name hn
    have hscan : scanScalar? (n.1 ++ rest) = some (.scalar n.2, rest) := by
      unfold scanScalar?
      rw [scanName_append hn rest]
    show ∃ next, tokensFrom position (n.1 ++ rest) = ⟨.scalar n.2, position⟩ :: _
    rw [htext] at hscan ⊢
    exact tokensFrom_scalar hstarts hscan position

end Json

end ModuleBuild
