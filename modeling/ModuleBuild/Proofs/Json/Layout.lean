/-
  ModuleBuild.Proofs.Json.Layout
  ──────────────────────────────
  **DOCUMENTS WITH COMMENTS AND EXTRA COMMAS.**

  A document may be laid out with white space and comments between its
  lexemes, and with one extra comma behind the last part of a container.
  Removing comments leaves a layout with white space only, removing the extra
  commas leaves the lexemes with white space between them, and trimming
  leaves that as it is.  The two scans agree on where a string ends because
  each of them passes a string lexeme as a whole, whatever it holds.

  Main results:
    * `stripComments_laidOut` — without comments a layout has white space in their places;
    * `dropTrailingCommas_laidOut` — without the extra commas the lexemes are left;
    * `decode_laidOut` — a layout is read as the bare lexemes are.
-/
import ModuleBuild.Json.Jsonc
import ModuleBuild.Proofs.Json.Grammar
import ModuleBuild.Proofs.Text.Trimming

namespace ModuleBuild

namespace Jsonc

open Json

/-! ## §1. Layouts. -/

/-- One piece of what may stand between two lexemes. -/
inductive GapPiece
  | space (c : CodePoint) (isSpace_c : isSpace c = true)
  /-- A comment up to the end of its line, and the line feed. -/
  | line (body : Text) (oneLine : CodePoint.lineFeed ∉ body)
  /-- A comment between marks. -/
  | block (body : Text) (unclosed : ¬ ("*/" : Text) <:+: body)

def GapPiece.text : GapPiece → Text
  | .space c _ => [c]
  | .line body _ => ("//" : Text) ++ body ++ [CodePoint.lineFeed]
  | .block body _ => ("/*" : Text) ++ body ++ ("*/" : Text)

/-- A text that may stand between two lexemes. -/
def IsGap (t : Text) : Prop := ∃ pieces : List GapPiece, t = pieces.flatMap GapPiece.text

/-- A text that may stand behind the last lexeme: the last line needs no line feed. -/
def IsLastGap (t : Text) : Prop :=
  ∃ gap body, IsGap gap ∧ CodePoint.lineFeed ∉ body ∧ (t = gap ∨ t = gap ++ (("//" : Text) ++ body))

/-- Lexemes behind a lexeme `before`, if there is one, with gaps of some kind between them and one of
another kind at the end.  An extra comma stands before the end of a container that is not empty. -/
inductive LaidOut (gap last : Text → Prop) : Option Lexeme → List Lexeme → Text → Prop
  | done {before : Option Lexeme} {g : Text} (hg : last g) : LaidOut gap last before [] g
  | lexeme {before : Option Lexeme} {g : Text} {l : Lexeme} {ts : List Lexeme} {t : Text}
    (hg : gap g) (ht : LaidOut gap last (some l) ts t) :
    LaidOut gap last before (l :: ts) (g ++ (l.text ++ t))
  | extraComma {before : Lexeme} {g g' : Text} {l : Lexeme} {ts : List Lexeme} {t : Text}
    (hbefore : before.isOpener = false) (hl : l.isCloser = true) (hg : gap g) (hg' : gap g')
    (ht : LaidOut gap last (some l) ts t) :
    LaidOut gap last (some before) (l :: ts)
      (g ++ CodePoint.ofChar ',' :: (g' ++ (l.text ++ t)))

/-- The texts that lay out some lexemes as a configuration file may. -/
def Layout (ts : List Lexeme) (t : Text) : Prop := LaidOut IsGap IsLastGap none ts t

/-! ## §2. What the scan for comments makes of a gap. -/

/-- Nothing that means something outside of strings and comments. -/
def isInert (c : CodePoint) : Bool :=
  c ≠ CodePoint.quote && c ≠ CodePoint.slash && c ≠ CodePoint.ofChar ','

theorem isInert_iff {c : CodePoint} : isInert c = true ↔
    c ≠ CodePoint.quote ∧ c ≠ CodePoint.slash ∧ c ≠ CodePoint.ofChar ',' := by
  simp [isInert, and_assoc]

theorem isInert_of_isSpace {c : CodePoint} (h : isSpace c = true) : isInert c = true := by
  rw [isInert_iff]
  refine ⟨?_, ?_, ?_⟩ <;> rintro rfl <;> revert h <;> decide

/-- Code without quotes and slashes is kept. -/
theorem stripFrom_code {t : Text} (h : ∀ c ∈ t, c ≠ CodePoint.quote ∧ c ≠ CodePoint.slash)
    (rest : Text) : stripFrom .code (t ++ rest) = t ++ stripFrom .code rest := by
  induction t with
  | nil => rfl
  | cons c t ih =>
    obtain ⟨hquote, hslash⟩ := h c (List.mem_cons_self ..)
    have hstep : ∀ next, advance .code c next = (.code, true) := by
      intro next
      simp [advance, hquote, hslash]
    show stripFrom .code (c :: (t ++ rest)) = _
    rw [stripFrom, hstep]
    show c :: stripFrom .code (t ++ rest) = _
    rw [ih fun d hd => h d (List.mem_cons_of_mem c hd)]
    rfl

/-- In a comment up to the end of its line nothing is kept. -/
theorem stripFrom_line {body : Text} (h : CodePoint.lineFeed ∉ body) (rest : Text) :
    stripFrom .line (body ++ rest) = stripFrom .line rest := by
  induction body with
  | nil => rfl
  | cons c body ih =>
    have hc : c ≠ CodePoint.lineFeed := fun e => h (by simp [e])
    have hstep : ∀ next, advance .line c next = (.line, false) := by
      intro next
      simp [advance, hc]
    show stripFrom .line (c :: (body ++ rest)) = _
    rw [stripFrom, hstep]
    exact ih fun hm => h (List.mem_cons_of_mem c hm)

/-- In a comment between marks line feeds are kept. -/
theorem stripFrom_block {body : Text} (h : ¬ ("*/" : Text) <:+: body) (rest : Text) :
    stripFrom .block (body ++ (("*/" : Text) ++ rest))
      = body.filter (· = CodePoint.lineFeed) ++ stripFrom .code rest := by
  induction body with
  | nil => rfl
  | cons c body ih =>
    have hrest : ¬ ("*/" : Text) <:+: body := fun hi => h (hi.trans (List.suffix_cons c body).isInfix)
    -- the mark that closes the comment does not begin in its body
    have hopen : ¬ (c = CodePoint.ofChar '*'
        ∧ (body ++ (("*/" : Text) ++ rest)).head? = some CodePoint.slash) := by
      rintro ⟨rfl, hhead⟩
      cases body with
      | nil =>
        revert hhead
        show some (CodePoint.ofChar '*') = some CodePoint.slash → False
        decide
      | cons d body =>
        injection hhead with hhead
        exact h ⟨[], body, by rw [hhead]; rfl⟩
    show stripFrom .block (c :: (body ++ (("*/" : Text) ++ rest))) = _
    rw [stripFrom, advance, if_neg hopen]
    by_cases hc : c = CodePoint.lineFeed
    · simp [hc, ih hrest]
    · simp [hc, ih hrest]

/-- The white space that is left of a piece of a gap. -/
def GapPiece.spaces : GapPiece → Text
  | .space c _ => [c]
  | .line .. => [CodePoint.lineFeed]
  | .block body _ => body.filter (· = CodePoint.lineFeed)

theorem isSpaces_piece (p : GapPiece) : IsSpaces p.spaces := by
  have hfeed : isSpace CodePoint.lineFeed = true := by decide
  cases p with
  | space c hc =>
    intro d hd
    rw [List.mem_singleton.1 hd]
    exact hc
  | line body h =>
    intro d hd
    rw [List.mem_singleton.1 hd]
    exact hfeed
  | block body h =>
    intro d hd
    have hd' := (List.mem_filter.1 hd).2
    rw [decide_eq_true_eq] at hd'
    rw [hd']
    exact hfeed

theorem stripFrom_piece (p : GapPiece) (rest : Text) :
    stripFrom .code (p.text ++ rest) = p.spaces ++ stripFrom .code rest := by
  cases p with
  | space c hc =>
    have hinert := isInert_iff.1 (isInert_of_isSpace hc)
    refine stripFrom_code (fun d hd => ?_) rest
    rw [List.mem_singleton.1 hd]
    exact ⟨hinert.1, hinert.2.1⟩
  | line body h =>
    show stripFrom .line (body ++ [CodePoint.lineFeed] ++ rest) = _
    rw [List.append_assoc, stripFrom_line h]
    rfl
  | block body h =>
    show stripFrom .block (body ++ ("*/" : Text) ++ rest) = _
    rw [List.append_assoc, stripFrom_block h]
    rfl

/-- A gap becomes white space. -/
theorem stripFrom_gap {g : Text} (h : IsGap g) :
    ∃ spaces, IsSpaces spaces ∧ ∀ rest, stripFrom .code (g ++ rest) = spaces ++ stripFrom .code rest := by
  obtain ⟨pieces, rfl⟩ := h
  induction pieces with
  | nil =>
    have hnone : IsSpaces [] := fun c hc => by cases hc
    exact ⟨[], hnone, fun rest => rfl⟩
  | cons p pieces ih =>
    obtain ⟨spaces, hspaces, heq⟩ := ih
    refine ⟨p.spaces ++ spaces, ?_, fun rest => ?_⟩
    · intro c hc
      rcases List.mem_append.1 hc with hc | hc
      · exact isSpaces_piece p c hc
      · exact hspaces c hc
    · rw [List.flatMap_cons, List.append_assoc, stripFrom_piece, heq, List.append_assoc]

/-- So does the gap at the end. -/
theorem stripFrom_lastGap {g : Text} (h : IsLastGap g) : IsSpaces (stripFrom .code g) := by
  obtain ⟨gap, body, hgap, hbody, hg⟩ := h
  obtain ⟨spaces, hspaces, heq⟩ := stripFrom_gap hgap
  rcases hg with rfl | rfl
  · have hall := heq []
    rw [List.append_nil] at hall
    rw [hall]
    show IsSpaces (spaces ++ [])
    rw [List.append_nil]
    exact hspaces
  · have hline := stripFrom_line hbody []
    rw [List.append_nil] at hline
    rw [heq]
    show IsSpaces (spaces ++ stripFrom .line body)
    rw [hline]
    show IsSpaces (spaces ++ [])
    rw [List.append_nil]
    exact hspaces

/-! ## §3. What the scan for comments makes of a lexeme. -/

theorem isInert_of_isAsciiDigit {c : CodePoint} (h : c.isAsciiDigit = true) : isInert c = true := by
  rw [isInert_iff]
  refine ⟨?_, ?_, ?_⟩ <;> rintro rfl <;> revert h <;> decide

theorem isInert_numeral (n : Numeral) : ∀ c ∈ n.text, isInert c = true :=
  n.forall_mem_text (fun _ hc => isInert_of_isAsciiDigit hc) (by decide)

/-- Apart from strings and commas, lexemes mean nothing to the scans. -/
theorem string_or_comma_or_inert (l : Lexeme) :
    (∃ parts, l = .string parts) ∨ l = .comma ∨ ∀ c ∈ l.text, isInert c = true := by
  cases l with
  | string parts => exact .inl ⟨parts, rfl⟩
  | comma => exact .inr (.inl rfl)
  | numeral n => exact .inr (.inr (isInert_numeral n))
  | name n hn =>
    have hall : ∀ n ∈ names, ∀ c ∈ n.1, isInert c = true := by decide
    exact .inr (.inr (hall n hn))
  | _ => exact .inr (.inr (by decide))

theorem ne_of_isHexDigit {c : CodePoint} (h : isHexDigit c = true) :
    c ≠ CodePoint.quote ∧ c ≠ CodePoint.backslash := by
  constructor <;> rintro rfl <;> revert h <;> decide

/-- In a string, what is neither its end nor the start of an escape is kept. -/
theorem stripFrom_string_cons {c : CodePoint} (hquote : c ≠ CodePoint.quote)
    (hbackslash : c ≠ CodePoint.backslash) (rest : Text) :
    stripFrom .string (c :: rest) = c :: stripFrom .string rest := by
  rw [stripFrom, advance, if_neg hbackslash, if_neg hquote]
  rfl

/-- A backslash takes the next code point along. -/
theorem stripFrom_string_escape (e : CodePoint) (rest : Text) :
    stripFrom .string (CodePoint.backslash :: e :: rest)
      = CodePoint.backslash :: e :: stripFrom .string rest := by
  rw [stripFrom, advance, if_pos rfl]
  show CodePoint.backslash :: stripFrom .escape (e :: rest) = _
  rw [stripFrom, advance]
  rfl

theorem stripFrom_part (p : StringPart) (rest : Text) :
    stripFrom .string (p.text ++ rest) = p.text ++ stripFrom .string rest := by
  cases p with
  | plain c hquote hbackslash _ => exact stripFrom_string_cons hquote hbackslash rest
  | escape letter _ => exact stripFrom_string_escape letter rest
  | named a b c d hdigits =>
    have hkeep : ∀ x ∈ [a, b, c, d], ∀ rest,
        stripFrom .string (x :: rest) = x :: stripFrom .string rest := by
      intro x hx rest
      have hne := ne_of_isHexDigit (hdigits x hx)
      exact stripFrom_string_cons hne.1 hne.2 rest
    show stripFrom .string
      (CodePoint.backslash :: CodePoint.ofChar 'u' :: a :: b :: c :: d :: rest) = _
    rw [stripFrom_string_escape, hkeep a (by simp), hkeep b (by simp), hkeep c (by simp),
      hkeep d (by simp)]
    rfl

theorem stripFrom_parts (parts : List StringPart) (rest : Text) :
    stripFrom .string (parts.flatMap StringPart.text ++ CodePoint.quote :: rest)
      = parts.flatMap StringPart.text ++ CodePoint.quote :: stripFrom .code rest := by
  induction parts with
  | nil => rfl
  | cons p parts ih => rw [List.flatMap_cons, List.append_assoc, stripFrom_part, ih, List.append_assoc]

/-- A lexeme is kept as a whole, whatever a string holds. -/
theorem stripFrom_lexeme (l : Lexeme) (rest : Text) :
    stripFrom .code (l.text ++ rest) = l.text ++ stripFrom .code rest := by
  rcases string_or_comma_or_inert l with ⟨parts, rfl⟩ | rfl | hinert
  · show stripFrom .code (CodePoint.quote :: (parts.flatMap StringPart.text ++ [CodePoint.quote] ++ rest))
      = _
    rw [List.append_assoc]
    show CodePoint.quote
      :: stripFrom .string (parts.flatMap StringPart.text ++ CodePoint.quote :: rest) = _
    rw [stripFrom_parts]
    simp [Lexeme.text]
  · rfl
  · exact stripFrom_code (fun c hc => ⟨(isInert_iff.1 (hinert c hc)).1,
      (isInert_iff.1 (hinert c hc)).2.1⟩) rest

/-- **Without comments a layout has white space in their places.** -/
theorem stripComments_laidOut {before : Option Lexeme} {ts : List Lexeme} {t : Text}
    (h : LaidOut IsGap IsLastGap before ts t) :
    LaidOut IsSpaces IsSpaces before ts (stripComments t) := by
  unfold stripComments
  induction h with
  | done hg => exact .done (stripFrom_lastGap hg)
  | lexeme hg _ ih =>
    obtain ⟨spaces, hspaces, heq⟩ := stripFrom_gap hg
    rw [heq, stripFrom_lexeme]
    exact .lexeme hspaces ih
  | extraComma hbefore hl hg hg' _ ih =>
    obtain ⟨spaces, hspaces, heq⟩ := stripFrom_gap hg
    obtain ⟨spaces', hspaces', heq'⟩ := stripFrom_gap hg'
    have hcomma : ∀ rest, stripFrom .code (CodePoint.ofChar ',' :: rest)
        = CodePoint.ofChar ',' :: stripFrom .code rest := stripFrom_lexeme .comma
    rw [heq, hcomma, heq', stripFrom_lexeme]
    exact .extraComma hbefore hl hspaces hspaces' ih

/-! ## §4. What the scan for extra commas makes of a layout. -/

theorem isAllBlank_of_isSpaces {g : Text} (h : IsSpaces g) : Text.isAllBlank g = true := by
  have hblank : ∀ c : CodePoint, isSpace c = true → c.isBlank = true := by
    intro c hc
    simp only [isSpace, Bool.or_eq_true, decide_eq_true_eq] at hc
    simp only [CodePoint.isBlank, CodePoint.isWhiteSpace, CodePoint.isSeparator, Bool.or_eq_true,
      Bool.and_eq_true, decide_eq_true_eq]
    omega
  exact List.all_eq_true.2 fun c hc => hblank c (h c hc)

/-- Only a lexeme that ends a container closes one. -/
theorem closesContainer_lexeme {g : Text} (h : IsSpaces g) (l : Lexeme) (t : Text) :
    closesContainer (g ++ (l.text ++ t)) = l.isCloser := by
  obtain ⟨c, rest, htext, hc, -⟩ := first_of_text l
  have hblank : c.isBlank = false := by
    simp only [isSolid, Bool.and_eq_true, Bool.not_eq_true'] at hc
    exact hc.1
  have hstart : Text.trimStart (g ++ (l.text ++ t)) = c :: (rest ++ t) := by
    rw [Text.trimStart_append_of_isAllBlank (isAllBlank_of_isSpaces h), htext]
    exact Text.trimStart_cons hblank _
  -- a scalar starts with none of the two marks
  have hscalar : ∀ {c : CodePoint}, startsScalar c = true →
      (c = CodePoint.closeBrace || c = CodePoint.ofChar ']' : Bool) = false := by
    intro c hc
    rw [Bool.or_eq_false_iff, decide_eq_false_iff_not, decide_eq_false_iff_not]
    constructor <;> rintro rfl <;> revert hc <;> decide
  unfold closesContainer
  rw [hstart]
  show (c = CodePoint.closeBrace || c = CodePoint.ofChar ']' : Bool) = l.isCloser
  cases l with
  | numeral n =>
    obtain ⟨d, t', hd, hstarts⟩ := exists_of_numeral n
    have hsame : n.text = c :: rest := htext
    rw [hd] at hsame
    cases hsame
    exact hscalar hstarts
  | name n hn =>
    obtain ⟨d, t', hd, hstarts⟩ := exists_of_name hn
    have hsame : n.1 = c :: rest := htext
    rw [hd] at hsame
    cases hsame
    exact hscalar hstarts
  | string parts =>
    cases htext
    rfl
  | _ =>
    cases htext
    rfl

/-- No container ends behind a comma between two parts of it. -/
theorem closesContainer_comma {ts : List Lexeme} {t : Text}
    (h : LaidOut IsSpaces IsSpaces (some .comma) ts t)
    (hchain : (Lexeme.comma :: ts).IsChain Neighbours) : closesContainer t = false := by
  cases h with
  | done hg =>
    unfold closesContainer
    have hnone := Text.trimStart_append_of_isAllBlank (isAllBlank_of_isSpaces hg) []
    rw [List.append_nil] at hnone
    rw [hnone]
    rfl
  | @lexeme _ g l ts t hg _ =>
    rw [closesContainer_lexeme hg, Bool.eq_false_iff]
    exact fun hl => (List.isChain_cons_cons.1 hchain).1.2 ⟨rfl, hl⟩
  | extraComma _ _ hg _ _ => exact closesContainer_lexeme hg .comma _

theorem literal_cons {c : CodePoint} (hquote : c ≠ CodePoint.quote)
    (hbackslash : c ≠ CodePoint.backslash) (rest : Text) :
    literal? (c :: rest) = (literal? rest).map fun p => (c :: p.1, p.2) := by
  rw [literal?.eq_def]
  dsimp only
  rw [if_neg hquote, if_neg hbackslash]

theorem literal_escape {e : CodePoint} (h : e ≠ CodePoint.lineFeed) (rest : Text) :
    literal? (CodePoint.backslash :: e :: rest)
      = (literal? rest).map fun p => (CodePoint.backslash :: e :: p.1, p.2) := by
  rw [literal?.eq_def]
  dsimp only
  rw [if_neg (by decide), if_pos rfl, if_neg h]

theorem literal_part (p : StringPart) (rest : Text) :
    literal? (p.text ++ rest) = (literal? rest).map fun q => (p.text ++ q.1, q.2) := by
  cases p with
  | plain c hquote hbackslash _ => exact literal_cons hquote hbackslash rest
  | escape letter hletter =>
    have hall : ∀ c ∈ escapeLetters, c ≠ CodePoint.lineFeed := by decide
    exact literal_escape (hall letter hletter) rest
  | named a b c d hdigits =>
    have hkeep : ∀ x ∈ [a, b, c, d], ∀ rest,
        literal? (x :: rest) = (literal? rest).map fun p => (x :: p.1, p.2) := by
      intro x hx rest
      have hne := ne_of_isHexDigit (hdigits x hx)
      exact literal_cons hne.1 hne.2 rest
    show literal? (CodePoint.backslash :: CodePoint.ofChar 'u' :: a :: b :: c :: d :: rest) = _
    rw [literal_escape (by decide), hkeep a (by simp), hkeep b (by simp), hkeep c (by simp),
      hkeep d (by simp)]
    simp only [Option.map_map]
    rfl

/-- The scan for extra commas ends a string where its lexeme ends. -/
theorem literal_parts (parts : List StringPart) (rest : Text) :
    literal? (parts.flatMap StringPart.text ++ CodePoint.quote :: rest)
      = some (parts.flatMap StringPart.text ++ [CodePoint.quote], rest) := by
  induction parts with
  | nil =>
    show literal? (CodePoint.quote :: rest) = _
    rw [literal?.eq_def]
    exact if_pos rfl
  | cons p parts ih =>
    rw [List.flatMap_cons, List.append_assoc, literal_part, ih, List.append_assoc]
    rfl

/-- A code point that is neither a quote nor an extra comma is kept. -/
theorem dropTrailingCommas_cons {c : CodePoint} {rest : Text} (hquote : c ≠ CodePoint.quote)
    (hcomma : ¬ (c = CodePoint.ofChar ',' ∧ closesContainer rest = true)) :
    dropTrailingCommas (c :: rest) = c :: dropTrailingCommas rest := by
  rw [dropTrailingCommas, if_neg hquote, if_neg hcomma]

theorem dropTrailingCommas_inert {t : Text} (h : ∀ c ∈ t, isInert c = true) (rest : Text) :
    dropTrailingCommas (t ++ rest) = t ++ dropTrailingCommas rest := by
  induction t with
  | nil => rfl
  | cons c t ih =>
    have hc := isInert_iff.1 (h c (List.mem_cons_self ..))
    show dropTrailingCommas (c :: (t ++ rest)) = _
    rw [dropTrailingCommas_cons hc.1 fun hboth => hc.2.2 hboth.1,
      ih fun d hd => h d (List.mem_cons_of_mem c hd)]
    rfl

theorem dropTrailingCommas_string (parts : List StringPart) (rest : Text) :
    dropTrailingCommas ((Lexeme.string parts).text ++ rest)
      = (Lexeme.string parts).text ++ dropTrailingCommas rest := by
  have hliteral := literal_parts parts rest
  have htext : (Lexeme.string parts).text ++ rest
      = CodePoint.quote :: (parts.flatMap StringPart.text ++ CodePoint.quote :: rest) := by
    simp [Lexeme.text]
  rw [htext, dropTrailingCommas, if_pos rfl]
  split
  · rename_i body rest' hsome
    rw [hliteral] at hsome
    cases hsome
    rfl
  · rename_i hnone
    rw [hliteral] at hnone
    cases hnone

/-- A lexeme is kept, and a comma too when no container ends behind it. -/
theorem dropTrailingCommas_lexeme {l : Lexeme} {rest : Text}
    (h : l = .comma → closesContainer rest = false) :
    dropTrailingCommas (l.text ++ rest) = l.text ++ dropTrailingCommas rest := by
  rcases string_or_comma_or_inert l with ⟨parts, rfl⟩ | rfl | hinert
  · exact dropTrailingCommas_string parts rest
  · have hcomma : ¬ (CodePoint.ofChar ',' = CodePoint.ofChar ',' ∧ closesContainer rest = true) := by
      rw [h rfl]
      simp
    exact dropTrailingCommas_cons (by decide) hcomma
  · exact dropTrailingCommas_inert hinert rest

theorem isInert_of_isSpaces {g : Text} (h : IsSpaces g) : ∀ c ∈ g, isInert c = true :=
  fun c hc => isInert_of_isSpace (h c hc)

/-- **Without the extra commas the lexemes are left.** -/
theorem dropTrailingCommas_laidOut {before : Option Lexeme} {ts : List Lexeme} {t : Text}
    (h : LaidOut IsSpaces IsSpaces before ts t) (hchain : ts.IsChain Neighbours) :
    Spaced ts (dropTrailingCommas t) := by
  induction h with
  | @done _ g hg =>
    have hkeep := dropTrailingCommas_inert (isInert_of_isSpaces hg) []
    have hnil : dropTrailingCommas [] = [] := by
      rw [dropTrailingCommas]
    rw [hnil, List.append_nil] at hkeep
    rw [hkeep]
    exact .nil hg
  | lexeme hg ht ih =>
    rw [dropTrailingCommas_inert (isInert_of_isSpaces hg), dropTrailingCommas_lexeme]
    · exact .cons hg (ih hchain.tail)
    · rintro rfl
      exact closesContainer_comma ht hchain
  | @extraComma before g g' l ts t _ hl hg hg' ht ih =>
    have hcloses : closesContainer (g' ++ (l.text ++ t)) = true := by
      rw [closesContainer_lexeme hg', hl]
    -- the comma goes, and the spaces on both of its sides become one gap
    have hdrop : dropTrailingCommas (CodePoint.ofChar ',' :: (g' ++ (l.text ++ t)))
        = dropTrailingCommas (g' ++ (l.text ++ t)) := by
      rw [dropTrailingCommas, if_neg (by decide), if_pos ⟨rfl, hcloses⟩]
    have hcomma : l ≠ .comma := by
      rintro rfl
      cases hl
    rw [dropTrailingCommas_inert (isInert_of_isSpaces hg), hdrop,
      dropTrailingCommas_inert (isInert_of_isSpaces hg'),
      dropTrailingCommas_lexeme fun h => absurd h hcomma, ← List.append_assoc]
    refine .cons ?_ (ih hchain.tail)
    exact List.forall_mem_append.2 ⟨hg, hg'⟩

/-! ## §5. Documents with comments. -/

theorem isBlank_of_isSolid {c : CodePoint} (h : isSolid c = true) : c.isBlank = false := by
  simp only [isSolid, Bool.and_eq_true, Bool.not_eq_true'] at h
  exact h.1

/-- Trimming takes white space behind the last lexeme away. -/
theorem trimEnd_spaced {ts : List Lexeme} {t : Text} (h : Spaced ts t) (hts : ts ≠ []) :
    Spaced ts (Text.trimEnd t) ∧ Text.trimEnd t ≠ [] := by
  induction h with
  | nil _ => exact absurd rfl hts
  | @cons gap l ts t hgap ht ih =>
    obtain ⟨init, c, htext, hc⟩ := endsSolid_text l
    have hne : ∀ tail, gap ++ (l.text ++ tail) ≠ [] := by
      intro tail
      rw [htext]
      simp
    cases ts with
    | nil =>
      -- the lexeme is the last one
      cases ht with
      | nil hend =>
        have hlast : (gap ++ l.text).getLast? = some c := by
          rw [htext, ← List.append_assoc]
          exact List.getLast?_concat
        have htrim : Text.trimEnd (gap ++ (l.text ++ t)) = gap ++ (l.text ++ []) := by
          rw [← List.append_assoc, Text.trimEnd_append_of_isAllBlank (isAllBlank_of_isSpaces hend),
            Text.trimEnd_of_getLast? hlast (isBlank_of_isSolid hc), List.append_nil]
        rw [htrim]
        have hnone : IsSpaces [] := fun c hc => by cases hc
        exact ⟨.cons hgap (.nil hnone), hne _⟩
    | cons l' ts =>
      obtain ⟨hspaced, hrest⟩ := ih (List.cons_ne_nil _ _)
      have htrim : Text.trimEnd (gap ++ (l.text ++ t)) = gap ++ (l.text ++ Text.trimEnd t) := by
        rw [← List.append_assoc, Text.trimEnd_append hrest, List.append_assoc]
      rw [htrim]
      exact ⟨.cons hgap hspaced, hne _⟩

/-- Trimming leaves lexemes with white space between them. -/
theorem trim_spaced {ts : List Lexeme} {t : Text} (h : Spaced ts t) (hts : ts ≠ []) :
    Spaced ts (Text.trim t) ∧ Text.trim t ≠ [] := by
  cases h with
  | nil _ => exact absurd rfl hts
  | @cons gap l ts t hgap ht =>
    obtain ⟨c, rest, htext, hc, -⟩ := first_of_text l
    have hnone : IsSpaces [] := fun c hc => by cases hc
    have hstart : Text.trimStart (gap ++ (l.text ++ t)) = [] ++ (l.text ++ t) := by
      rw [Text.trimStart_append_of_isAllBlank (isAllBlank_of_isSpaces hgap), htext]
      exact Text.trimStart_cons (isBlank_of_isSolid hc) _
    unfold Text.trim
    rw [hstart]
    exact trimEnd_spaced (.cons hnone ht) hts

/-- A text of lexemes with white space between them is a layout. -/
theorem laidOut_of_spaced {ts : List Lexeme} {t : Text} (h : Spaced ts t) (before : Option Lexeme) :
    LaidOut IsGap IsLastGap before ts t := by
  have hgap : ∀ {g : Text}, IsSpaces g → IsGap g := by
    intro g hg
    induction g with
    | nil => exact ⟨[], rfl⟩
    | cons c g ih =>
      obtain ⟨pieces, hpieces⟩ := ih fun d hd => hg d (List.mem_cons_of_mem c hd)
      refine ⟨.space c (hg c (List.mem_cons_self ..)) :: pieces, ?_⟩
      rw [List.flatMap_cons, ← hpieces]
      rfl
  induction h generalizing before with
  | nil hg => exact .done ⟨_, [], hgap hg, by simp, .inl rfl⟩
  | cons hg _ ih => exact .lexeme (hgap hg) (ih _)

/-- What a layout leaves for the reader of plain documents. -/
theorem spaced_clean {ts : List Lexeme} {t : Text} (hts : IsDocument ts) (ht : Layout ts t) :
    Spaced ts (clean t) ∧ clean t ≠ [] := by
  have hstripped := stripComments_laidOut ht
  have hdropped := dropTrailingCommas_laidOut hstripped (isChain_of_forms hts)
  obtain ⟨l, rest, rfl, -⟩ := startsValue_of_forms hts
  exact trim_spaced hdropped (List.cons_ne_nil _ _)

/-- **A layout is read as the bare lexemes are**, a plain document as the reader of plain documents
reads it; and there is a value unless a numeral has more digits than are read. -/
theorem decode_laidOut {ts : List Lexeme} (hts : IsDocument ts) :
    (∀ t, Layout ts t → decode t = Json.decode (bare ts))
      ∧ (∀ t, Spaced ts t → decode t = Json.decode t)
      ∧ ((∃ v, Json.decode (bare ts) = .ok v)
        ∨ ∃ digits, HasLongInteger digits ts
          ∧ Json.decode (bare ts) = .error (.longInteger digits)) := by
  -- the outcome that all spacings have in common
  obtain ⟨r, hr⟩ : ∃ r, ∀ t, Spaced ts t → Json.decode t = r := by
    rcases decode_spaced hts with ⟨v, hv⟩ | ⟨digits, -, hd⟩
    · exact ⟨_, hv⟩
    · exact ⟨_, hd⟩
  have hlayout : ∀ t, Layout ts t → decode t = r := by
    intro t ht
    obtain ⟨hspaced, hne⟩ := spaced_clean hts ht
    have hempty : (clean t).isEmpty = false := by simpa using hne
    show (if (clean t).isEmpty = true then .ok .null else Json.decode (clean t)) = r
    rw [hempty, if_neg Bool.false_ne_true, hr _ hspaced]
  refine ⟨fun t ht => ?_, fun t ht => ?_, ?_⟩
  · rw [hlayout t ht, hr _ (spaced_bare ts)]
  · rw [hlayout t (laidOut_of_spaced ht none), hr t ht]
  · rcases decode_spaced hts with ⟨v, hv⟩ | ⟨digits, hlong, hd⟩
    · exact .inl ⟨v, hv _ (spaced_bare ts)⟩
    · exact .inr ⟨digits, hlong, hd _ (spaced_bare ts)⟩

/-- A string of the marks that the scans look for. -/
def markedString : Lexeme :=
  .string [.plain CodePoint.slash (by decide) (by decide) (by decide),
    .plain CodePoint.slash (by decide) (by decide) (by decide),
    .plain (CodePoint.ofChar ',') (by decide) (by decide) (by decide),
    .plain (CodePoint.ofChar ']') (by decide) (by decide) (by decide),
    .escape CodePoint.quote (by decide)]

theorem decode_laidOut_markedString :
    IsDocument [.openArray, markedString, .closeArray]
      ∧ Layout [.openArray, markedString, .closeArray] "[ // \"\n\"//,]\\\"\", /* ] */]"
      ∧ decode "[ // \"\n\"//,]\\\"\", /* ] */]" = Json.decode "[\"//,]\\\"\"]" := by
  have hdocument : IsDocument [.openArray, markedString, .closeArray] :=
    .array (.lastItem (.string _))
  have hnone : IsGap [] := ⟨[], rfl⟩
  have hline : IsGap " // \"\n" :=
    ⟨[.space (CodePoint.ofChar ' ') (by decide), .line " \"" (by decide)], rfl⟩
  have hblock : IsGap " /* ] */" :=
    ⟨[.space (CodePoint.ofChar ' ') (by decide), .block " ] " (by decide)], rfl⟩
  have hlast : IsLastGap [] := ⟨[], [], hnone, by simp, .inl rfl⟩
  have hlayout : Layout [.openArray, markedString, .closeArray]
      "[ // \"\n\"//,]\\\"\", /* ] */]" :=
    .lexeme hnone (.lexeme hline (.extraComma rfl rfl hnone hblock (.done hlast)))
  exact ⟨hdocument, hlayout, (decode_laidOut hdocument).1 _ hlayout⟩

end Jsonc

end ModuleBuild
