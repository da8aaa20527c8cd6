/-
  ModuleBuild.Text.Basic
  ──────────────────────
  **TEXT AS A LIST OF CODE POINTS.**

  A document may name any code point by an escape, also half of a surrogate
  pair, so the unit of text is the code point and not the scalar value:
  every number below 0x110000 is one.  A `Text` is a list of them.

  Texts are ordered by the numbers of their code points, first difference
  first; this is the order of directory listings and of name sets.

  Main results:
    * `Text.ofString_append` — a literal may be cut anywhere;
    * `Text.join_split` — splitting at a separator loses nothing;
    * the instances that make `<` on texts a strict linear order.
-/

namespace ModuleBuild

/-! ## §1. Code points. -/

/-- A Unicode code point, surrogates included. -/
structure CodePoint where
  code : Nat
  code_lt : code < 0x110000
  deriving DecidableEq

namespace CodePoint

/-- The code point of a number, and the replacement character of a number that has none. -/
def ofNat (n : Nat) : CodePoint :=
  if h : n < 0x110000 then ⟨n, h⟩ else ⟨0xFFFD, by decide⟩

theorem code_ofNat {n : Nat} (h : n < 0x110000) : (ofNat n).code = n := by
  simp [ofNat, h]

theorem ofNat_code (c : CodePoint) : ofNat c.code = c := by
  simp [ofNat, c.code_lt]

/-- Every character is a code point. -/
def ofChar (c : Char) : CodePoint :=
  ⟨c.toNat, by
    have h : c.val.toNat < 0xD800 ∨ (0xDFFF < c.val.toNat ∧ c.val.toNat < 0x110000) := c.valid
    show c.val.toNat < 0x110000
    omega⟩

instance : Coe Char CodePoint := ⟨ofChar⟩

/-- Half of a surrogate pair: no character on its own, and not encodable. -/
def isSurrogate (c : CodePoint) : Bool :=
  0xD800 ≤ c.code && c.code ≤ 0xDFFF

/-- The double quote. -/
def quote : CodePoint := ⟨0x22, by decide⟩
/-- The single quote. -/
def apostrophe : CodePoint := ⟨0x27, by decide⟩
/-- The backslash. -/
def backslash : CodePoint := ⟨0x5C, by decide⟩
/-- The line feed. -/
def lineFeed : CodePoint := ⟨0x0A, by decide⟩
/-- The carriage return. -/
def carriageReturn : CodePoint := ⟨0x0D, by decide⟩
/-- The slash, which separates the names of a path and the segments of a specifier. -/
def slash : CodePoint := ⟨0x2F, by decide⟩
/-- The full stop, which starts the extension of a name. -/
def dot : CodePoint := ⟨0x2E, by decide⟩
/-- The brace that opens an object. -/
def openBrace : CodePoint := ⟨0x7B, by decide⟩
/-- The brace that closes an object. -/
def closeBrace : CodePoint := ⟨0x7D, by decide⟩

/-- A small letter of ASCII as a capital. -/
def capital (c : CodePoint) : CodePoint :=
  if 0x61 ≤ c.code ∧ c.code ≤ 0x7A then ofNat (c.code - 0x20) else c

instance : LT CodePoint := ⟨fun a b => a.code < b.code⟩

instance : DecidableLT CodePoint := fun a b => inferInstanceAs (Decidable (a.code < b.code))

theorem lt_def (a b : CodePoint) : a < b ↔ a.code < b.code := Iff.rfl

theorem ext_code {a b : CodePoint} (h : a.code = b.code) : a = b := by
  cases a; cases b; cases h; rfl

instance : @Std.Irrefl CodePoint (· < ·) := ⟨fun a => Nat.lt_irrefl a.code⟩

instance : @Std.Asymm CodePoint (· < ·) := ⟨fun _ _ h => Nat.lt_asymm h⟩

instance : @Trans CodePoint CodePoint CodePoint (· < ·) (· < ·) (· < ·) :=
  ⟨fun h h' => Nat.lt_trans h h'⟩

instance : @Std.Trichotomous CodePoint (· < ·) :=
  ⟨fun _ _ h h' => ext_code (Nat.le_antisymm (Nat.le_of_not_lt h') (Nat.le_of_not_lt h))⟩

end CodePoint

/-! ## §2. Texts. -/

/-- A text is its code points in order. -/
abbrev Text := List CodePoint

namespace Text

/-- The text of a string. -/
def ofString (s : String) : Text := s.toList.map CodePoint.ofChar

instance : Coe String Text := ⟨ofString⟩

/-- A text as a string; a surrogate, which is no character, becomes the replacement character. -/
def asString (t : Text) : String :=
  String.ofList (t.map fun c => if c.isSurrogate then Char.ofNat 0xFFFD else Char.ofNat c.code)

theorem ofString_append (s t : String) : ofString (s ++ t) = ofString s ++ ofString t := by
  simp [ofString]

/-- The parts of a text, one after another. -/
def join (parts : List Text) : Text := parts.flatten

@[simp] theorem join_nil : join [] = [] := rfl

@[simp] theorem join_cons (p : Text) (ps : List Text) : join (p :: ps) = p ++ join ps := rfl

/-- The parts of a text with a separator between each two. -/
def joinWith (sep : Text) (parts : List Text) : Text := sep.intercalate parts

/-- The pieces between the occurrences of a code point; a text without one is a single piece. -/
def split (sep : CodePoint) : Text → List Text
  | [] => [[]]
  | c :: rest =>
    match split sep rest with
    | [] => [[c]]
    | piece :: pieces =>
      if c = sep then [] :: piece :: pieces else (c :: piece) :: pieces

theorem split_ne_nil (sep : CodePoint) (t : Text) : split sep t ≠ [] := by
  cases t with
  | nil => simp [split]
  | cons c rest =>
    unfold split
    split
    · simp
    · split <;> simp

theorem joinWith_cons_cons (sep p q : Text) (qs : List Text) :
    joinWith sep (p :: q :: qs) = p ++ sep ++ joinWith sep (q :: qs) := by
  simp [joinWith, List.intercalate]

/-- Splitting at a separator and joining with it gives the text back. -/
theorem join_split (sep : CodePoint) (t : Text) : joinWith [sep] (split sep t) = t := by
  induction t with
  | nil => rfl
  | cons c rest ih =>
    unfold split
    cases h : split sep rest with
    | nil => exact absurd h (split_ne_nil sep rest)
    | cons piece pieces =>
      rw [h] at ih
      by_cases hc : c = sep
      · simp [hc, joinWith_cons_cons, ih]
      · cases pieces with
        | nil => simp_all [joinWith, List.intercalate]
        | cons q qs => simp_all [joinWith_cons_cons]

/-- No piece contains the separator. -/
theorem not_mem_of_mem_split {sep : CodePoint} {t piece : Text} (h : piece ∈ split sep t) :
    sep ∉ piece := by
  induction t generalizing piece with
  | nil => simp_all [split]
  | cons c rest ih =>
    unfold split at h
    cases hs : split sep rest with
    | nil => exact absurd hs (split_ne_nil sep rest)
    | cons p ps =>
      have hp : sep ∉ p := ih (by simp [hs])
      have hps : ∀ q ∈ ps, sep ∉ q := fun q hq => ih (by simp [hs, hq])
      simp only [hs] at h
      split at h
      · simp only [List.mem_cons] at h
        rcases h with rfl | rfl | h
        · simp
        · exact hp
        · exact hps _ h
      · rename_i hc
        simp only [List.mem_cons] at h
        rcases h with rfl | h
        · simp [Ne.symm hc, hp]
        · exact hps _ h

/-- The text without the code points at its end that satisfy a test. -/
def dropEndWhile (p : CodePoint → Bool) (t : Text) : Text :=
  (t.reverse.dropWhile p).reverse

/-- The text with one code point put in place of another. -/
def substitute (old new : CodePoint) (t : Text) : Text :=
  t.map fun c => if c = old then new else c

/-- Whether a text starts with another. -/
def startsWith (t start : Text) : Bool := start.isPrefixOf t

/-- Whether a text ends with another. -/
def endsWith (t ending : Text) : Bool := ending.isSuffixOf t

end Text

end ModuleBuild
