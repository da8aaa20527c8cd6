/-
  ModuleBuild.Proofs.ModuleText.Literals
  ──────────────────────────────────────
  **STRING LITERALS IN A MODULE.**

  A module without comments, template literals and regular expressions is code
  with string literals in between.  The passes know nothing of literals: they
  see quotes of both kinds and what stands between them.  All the same, what
  stands in a literal never meets what stands outside it: a quote of the
  literal's own kind inside it is escaped, and nothing opens a statement in
  front of a backslash.

  So a literal behind neither `from` nor `import` is handled as a text of its
  own.  It is left alone exactly if its contents are, that is, if no
  statement with an incomplete specifier is written out in it.

  Main results:
    * `passUpTo_append` — a pass over some pieces and then over others;
    * `passUpTo_of_guarded` — what stands in a literal does not meet its closing quote;
    * `complete_spanText` — a literal behind neither word holds its contents, completed.
-/
import Mathlib
import ModuleBuild.Proofs.ModuleText.Insertion

namespace ModuleBuild

namespace ModuleText

/-! ## §1. Literals and code. -/

/-- A line break that no string literal holds as it is. -/
def isLineBreak (c : CodePoint) : Bool := c = CodePoint.lineFeed || c = CodePoint.carriageReturn

/-- Whether a text can stand between two quotes of a kind as a string literal: such a quote has a
backslash in front, and so has each backslash that stands for itself. -/
def isLiteralBody (quote : CodePoint) : Text → Bool
  | [] => true
  | [c] => c ≠ CodePoint.backslash && c ≠ quote && !isLineBreak c
  | c :: d :: rest =>
    if c = CodePoint.backslash then !isLineBreak d && isLiteralBody quote rest
    else c ≠ quote && !isLineBreak c && isLiteralBody quote (d :: rest)

/-- A string literal and the code that follows it. -/
structure Span where
  quote : CodePoint
  body : Text
  code : Text
  deriving DecidableEq

/-- The literal of a span. -/
def Span.literal (s : Span) : Text := s.quote :: s.body ++ [s.quote]

/-- A string literal, and code in which there is no quote. -/
structure Span.Lexed (s : Span) : Prop where
  isQuote_quote : isQuote s.quote = true
  isLiteralBody_body : isLiteralBody s.quote s.body = true
  plain : ∀ c ∈ s.code, isQuote c = false

instance (s : Span) : Decidable s.Lexed :=
  decidable_of_iff (isQuote s.quote = true ∧ isLiteralBody s.quote s.body = true ∧
      ∀ c ∈ s.code, isQuote c = false)
    ⟨fun h => ⟨h.1, h.2.1, h.2.2⟩, fun h => ⟨h.1, h.2, h.3⟩⟩

/-- A module's text: code, and literals with code behind them. -/
def spanText (head : Text) (spans : List Span) : Text :=
  head ++ spans.flatMap fun s => s.literal ++ s.code

/-- Whether code ends, blanks aside, with `from` or `import`, as words of their own. -/
def endsInKeyword (code : Text) : Bool := endsWithWord "from" code || endsWithWord "import" code

/-- What completing makes of literals and code; `code` stands in front.  A literal behind neither word
holds its contents as completing makes them, and code is kept unless it reads like a specifier itself. -/
inductive SpansCompleted : Text → List Span → List Span → Prop
  | nil (code : Text) : SpansCompleted code [] []
  | cons {code : Text} {s s' : Span} {spans spans' : List Span} :
      s'.quote = s.quote → (endsInKeyword code = false → s'.body = complete s.body) →
      (s'.code = s.code ∨ isTarget s.code = true ∧ s'.code = Specifier.addExtension s.code) →
      SpansCompleted s.code spans spans' → SpansCompleted code (s :: spans) (s' :: spans')

/-! ## §2. A pass up to a quote. -/

variable {opens : Text → Bool} {f : Text → Text}

/-- A pass over some pieces behind which a quote stands, if any. -/
def passUpTo (opens : Text → Bool) (f : Text → Text) (next : Option CodePoint) (run : Text) :
    List Piece → List Piece
  | [] => []
  | p :: pieces =>
    let p' := passPiece opens f run p ((firstQuote? pieces).or next)
    p' :: passUpTo opens f next p'.run pieces

theorem passPieces_eq_passUpTo (hf : ∀ s, opens (f s) = false) (run : Text) (pieces : List Piece) :
    passPieces opens f run pieces = passUpTo opens f none run pieces := by
  induction pieces generalizing run with
  | nil => rfl
  | cons p pieces ih => rw [passPieces_cons hf, passUpTo, Option.or_none, ih]

/-- **A pass over some pieces and then over others.** -/
theorem passUpTo_append (next : Option CodePoint) (run : Text) (xs ys : List Piece) :
    passUpTo opens f next run (xs ++ ys)
      = passUpTo opens f ((firstQuote? ys).or next) run xs
        ++ passUpTo opens f next
            (lastRun run (passUpTo opens f ((firstQuote? ys).or next) run xs)) ys := by
  induction xs generalizing run with
  | nil => rfl
  | cons p xs ih =>
    have hfirst : (firstQuote? (xs ++ ys)).or next
        = (firstQuote? xs).or ((firstQuote? ys).or next) := by
      cases xs with
      | nil => rfl
      | cons q xs => rfl
    simp only [List.cons_append, passUpTo, hfirst, ih, lastRun_cons]

/-! ## §3. Pieces of a literal. -/

/-- Whether a text ends with a backslash. -/
def EndsInBackslash (t : Text) : Prop := t.getLast? = some CodePoint.backslash

/-- In front of each quote of some kind a backslash stands. -/
def Guarded (quote : CodePoint) : Text → List Piece → Prop
  | _, [] => True
  | run, p :: pieces => (p.quote = quote → EndsInBackslash run) ∧ Guarded quote p.run pieces

/-- A function that opens no statement behind a backslash. -/
def MindsBackslash (opens : Text → Bool) : Prop := ∀ t, EndsInBackslash t → opens t = false

theorem mindsBackslash_opens : MindsBackslash opensFrom ∧ MindsBackslash opensBare := by
  have hcloses : ∀ t, EndsInBackslash t → Closes t := fun t ht =>
    ⟨CodePoint.backslash, ht, by decide, by decide, by decide⟩
  exact ⟨fun t ht => (not_opens_of_closes (hcloses t ht)).1,
    fun t ht => (not_opens_of_closes (hcloses t ht)).2⟩

variable {quote : CodePoint}

theorem Guarded.mono {run run' : Text} {pieces : List Piece} (h : Guarded quote run pieces)
    (himp : EndsInBackslash run → EndsInBackslash run') : Guarded quote run' pieces := by
  cases pieces with
  | nil => trivial
  | cons p pieces => exact ⟨fun hq => himp (h.1 hq), h.2⟩

theorem endsInBackslash_append {t : Text} (front : Text) (h : EndsInBackslash t) :
    EndsInBackslash (front ++ t) := by
  unfold EndsInBackslash at h ⊢
  rw [List.getLast?_append, h]
  rfl

theorem isQuote_backslash : isQuote CodePoint.backslash = false := by decide

/-- One code point that needs no backslash. -/
theorem guarded_cut_cons {c : CodePoint} {t : Text} (hc : c ≠ quote)
    (h : Guarded quote (cut t).1 (cut t).2) : Guarded quote (cut (c :: t)).1 (cut (c :: t)).2 := by
  unfold cut
  dsimp only
  split
  · exact ⟨fun hq => absurd hq hc, h⟩
  · exact h.mono (endsInBackslash_append [c])

/-- The contents of a literal are guarded. -/
theorem guarded_cut {body : Text} (h : isLiteralBody quote body = true) :
    Guarded quote (cut body).1 (cut body).2 := by
  fun_induction isLiteralBody quote body with
  | case1 => trivial
  | case2 c =>
    simp only [Bool.and_eq_true, decide_eq_true_eq] at h
    exact guarded_cut_cons h.1.2 trivial
  | case3 d rest ih =>
    rw [Bool.and_eq_true] at h
    have hrest := ih h.2
    unfold cut
    dsimp only
    rw [isQuote_backslash, if_neg Bool.false_ne_true]
    -- what follows the backslash may be a quote of any kind
    unfold cut
    dsimp only
    split
    · exact ⟨fun _ => rfl, hrest⟩
    · exact hrest.mono (endsInBackslash_append [CodePoint.backslash, d])
  | case4 c d rest hc ih =>
    simp only [Bool.and_eq_true, decide_eq_true_eq] at h
    exact guarded_cut_cons h.1.1 (ih h.2)

/-- A pass keeps the pieces of a literal guarded, and what it makes of them does not depend on whether
the literal's own quote follows. -/
theorem passUpTo_of_guarded (hminds : MindsBackslash opens) {run : Text} {pieces : List Piece}
    (h : Guarded quote run pieces) :
    passUpTo opens f (some quote) run pieces = passUpTo opens f none run pieces
      ∧ Guarded quote run (passUpTo opens f none run pieces) := by
  induction pieces generalizing run with
  | nil => exact ⟨rfl, trivial⟩
  | cons p pieces ih =>
    have hkept : p.quote = quote → ∀ next, passPiece opens f run p next = p := fun hq next =>
      passPiece_of_not_opens (hminds run (h.1 hq)) p next
    have hpiece : passPiece opens f run p ((firstQuote? pieces).or (some quote))
        = passPiece opens f run p ((firstQuote? pieces).or none) := by
      cases pieces with
      | nil =>
        by_cases hq : p.quote = quote
        · rw [hkept hq, hkept hq]
        · simp [passPiece, replaces, firstQuote?, Ne.symm hq]
      | cons q pieces => rfl
    generalize hp' : passPiece opens f run p ((firstQuote? pieces).or none) = p' at hpiece
    have hquote : p'.quote = p.quote := by rw [← hp', quote_passPiece]
    -- what follows a piece that was replaced is not the literal's own quote
    have hrest : Guarded quote p'.run pieces := by
      cases pieces with
      | nil => trivial
      | cons q rest =>
        refine ⟨fun hq => ?_, h.2.2⟩
        have hsame : p' = p := by
          by_cases hpq : p.quote = quote
          · rw [← hp', hkept hpq]
          · rw [← hp']
            simp [passPiece, replaces, firstQuote?, hq, Ne.symm hpq]
        rw [hsame]
        exact h.2.1 hq
    obtain ⟨heq, hguarded⟩ := ih hrest
    rw [passUpTo, passUpTo, hpiece, hp', heq]
    exact ⟨rfl, fun hq => h.1 (hquote ▸ hq), hguarded⟩

/-! ## §4. What opens a statement behind code. -/

theorem endsWithWord_of_suffix {word front t : Text} (hword : word ≠ [])
    (h : endsWithWord word t = true)
    (hmore : (Text.trimEnd t).length ≠ word.length) : endsWithWord word (front ++ t) = true := by
  rw [endsWithWord_def, Bool.and_eq_true] at h ⊢
  obtain ⟨init, hinit⟩ := List.isSuffixOf_iff_suffix.1 h.1
  have hne : Text.trimEnd t ≠ [] := by
    rw [← hinit]
    simp [hword]
  have hinitNe : init ≠ [] := by
    rintro rfl
    exact hmore (by rw [← hinit, List.nil_append])
  have htake : ∀ pre : Text, (pre ++ (init ++ word)).take
      ((pre ++ (init ++ word)).length - word.length) = pre ++ init := by
    intro pre
    rw [← List.append_assoc, List.length_append, Nat.add_sub_cancel, List.take_left]
  have hlast : (front ++ init).getLast? = init.getLast? := by
    rw [List.getLast?_append]
    cases hl : init.getLast? with
    | none => exact absurd (List.getLast?_eq_none_iff.1 hl) hinitNe
    | some c => rfl
  have h2 := h.2
  rw [← hinit] at h2
  have htake0 := htake []
  rw [List.nil_append, List.nil_append] at htake0
  rw [htake0] at h2
  rw [Text.trimEnd_append hne, ← hinit, htake, hlast]
  exact ⟨List.isSuffixOf_iff_suffix.2 ⟨front ++ init, List.append_assoc ..⟩, h2⟩

/-- What opens a statement ends in one of the two words. -/
theorem endsInKeyword_of_opens {code : Text}
    (h : opensFrom code = true ∨ opensBare code = true) : endsInKeyword code = true := by
  unfold endsInKeyword
  rw [Bool.or_eq_true]
  rcases h with h | h
  · left
    obtain ⟨x, hx, hb⟩ := List.any_eq_true.1 h
    obtain ⟨front, rfl⟩ := suffix_of_mem_afterKeywords hx
    unfold isBindings at hb
    rw [Bool.and_eq_true, Bool.and_eq_true] at hb
    obtain ⟨⟨hblank, -⟩, hword⟩ := hb
    refine endsWithWord_of_suffix (by decide) hword fun hlength => ?_
    -- the bindings start with a blank, so they are not the word alone
    rw [endsWithWord_def, Bool.and_eq_true] at hword
    obtain ⟨init, hinit⟩ := List.isSuffixOf_iff_suffix.1 hword.1
    have hnil : init = [] := by
      rw [← hinit, List.length_append] at hlength
      exact List.length_eq_zero_iff.1 (by omega)
    rw [hnil, List.nil_append] at hinit
    obtain ⟨tail, htail⟩ : Text.trimEnd x <+: x := List.rdropWhile_prefix _ _
    rw [← hinit] at htail
    have hfrom : ("from" : Text) = CodePoint.ofChar 'f' :: ("rom" : Text) := by decide
    rw [← htail, hfrom] at hblank
    change (CodePoint.ofChar 'f').isBlank = true at hblank
    exact absurd hblank (by decide)
  · exact .inr h

/-! ## §5. The pieces of a span. -/

/-- The pieces of a span: those of its literal, and the closing quote with the code behind it. -/
def spanPieces (s : Span) : List Piece :=
  (⟨s.quote, (cut s.body).1⟩ :: (cut s.body).2) ++ [⟨s.quote, s.code⟩]

theorem cut_append_of_nil {t : Text} (h : (cut t).1 = []) (s : Text) :
    cut (s ++ t) = ((cut s).1, (cut s).2 ++ (cut t).2) := by
  induction s with
  | nil => rw [List.nil_append, cut, List.nil_append, ← h]
  | cons c s ih =>
    rw [List.cons_append, cut, cut, ih]
    dsimp only
    split <;> rfl

/-- The quotes of a module are those of its literals, and those in them. -/
theorem cut_spanText {head : Text} (hhead : ∀ c ∈ head, isQuote c = false) {spans : List Span}
    (hspans : ∀ s ∈ spans, s.Lexed) :
    cut (spanText head spans) = (head, spans.flatMap spanPieces) := by
  have hall : cut (spans.flatMap fun s => s.literal ++ s.code) = ([], spans.flatMap spanPieces) := by
    induction spans with
    | nil => rfl
    | cons s spans ih =>
      have hs := hspans s (List.mem_cons_self ..)
      have hquote : ∀ t : Text, cut (s.quote :: t) = ([], ⟨s.quote, (cut t).1⟩ :: (cut t).2) := by
        intro t
        simp [cut, hs.isQuote_quote]
      have hbehind := hquote (s.code ++ spans.flatMap fun s => s.literal ++ s.code)
      rw [cut_append hs.plain, ih fun s' h => hspans s' (List.mem_cons_of_mem _ h),
        List.append_nil] at hbehind
      have hbody := cut_append_of_nil (congrArg Prod.fst hbehind) s.body
      rw [hbehind] at hbody
      have htext : ((s :: spans).flatMap fun s => s.literal ++ s.code) = s.quote :: (s.body
          ++ s.quote :: (s.code ++ spans.flatMap fun s => s.literal ++ s.code)) := by
        simp [Span.literal]
      rw [htext, hquote, hbody]
      simp [spanPieces]
  rw [spanText, cut_append hhead, hall, List.append_nil]

@[simp] theorem firstQuote?_passUpTo (next : Option CodePoint) (run : Text) (pieces : List Piece) :
    firstQuote? (passUpTo opens f next run pieces) = firstQuote? pieces := by
  cases pieces with
  | nil => rfl
  | cons p pieces => simp [passUpTo, firstQuote?]

/-- The run behind some pieces after a pass is as it was, or completed. -/
theorem later_lastRun (hf : Completes f) (next : Option CodePoint) (pieces : List Piece) :
    ∀ {run run' : Text}, Later run run' →
      Later (lastRun run pieces) (lastRun run' (passUpTo opens f next run' pieces)) := by
  induction pieces with
  | nil => exact id
  | cons p pieces ih =>
    intro run run' _
    rw [passUpTo, lastRun_cons, lastRun_cons]
    exact ih (later_passPiece hf run' p _)

/-- A piece between two quotes is replaced by one pass at most. -/
theorem run_twice {ra rb : Text} (hab : Later ra rb) (p : Piece)
    (next : Option CodePoint) :
    (passPiece opensBare f rb (passPiece opensFrom f ra p next) next).run = p.run
      ∨ isTarget p.run = true ∧
        (passPiece opensBare f rb (passPiece opensFrom f ra p next) next).run = f p.run := by
  by_cases hfrom : replaces opensFrom ra p next = true
  · have hopens := (replaces_iff ra p next).1 hfrom
    have hbare : opensBare rb = false := by
      rw [Bool.eq_false_iff]
      intro hb
      obtain rfl := eq_of_later_of_opensBare hab hb
      rw [opensBare_of_opensFrom hopens.1] at hb
      cases hb
    rw [passPiece_of_not_opens hbare]
    exact .inr ⟨hopens.2.2, by simp [passPiece, hfrom]⟩
  · have hkept : passPiece opensFrom f ra p next = p := by simp [passPiece, hfrom]
    rw [hkept]
    by_cases hbare : replaces opensBare rb p next = true
    · exact .inr ⟨((replaces_iff rb p next).1 hbare).2.2, by simp [passPiece, hbare]⟩
    · exact .inl (by simp [passPiece, hbare])

/-! ## §6. Both passes over a span. -/

/-- A literal that no statement opens before, after a pass: its contents are handled on their own. -/
theorem passUpTo_literal (hminds : MindsBackslash opens) (hf : ∀ s, opens (f s) = false) {run : Text}
    (hrun : opens run = false) (run' : Text) {pieces : List Piece} (h : Guarded quote run' pieces) :
    passUpTo opens f (some quote) run (⟨quote, run'⟩ :: pieces)
        = ⟨quote, run'⟩ :: passPieces opens f run' pieces
      ∧ Guarded quote run' (passPieces opens f run' pieces) := by
  obtain ⟨heq, hguarded⟩ := passUpTo_of_guarded (f := f) hminds h
  rw [passPieces_eq_passUpTo hf]
  rw [passUpTo, passPiece_of_not_opens hrun, heq]
  exact ⟨rfl, hguarded⟩

/-- **Both passes over a literal that no statement opens before** do to its contents what completing
does. -/
theorem passes_literal {s : Span} (hs : s.Lexed) {ra rb : Text} (ha : opensFrom ra = false)
    (hb : opensBare rb = false) :
    ∃ inner, passUpTo opensBare Specifier.addExtension (some s.quote) rb
        (passUpTo opensFrom Specifier.addExtension (some s.quote) ra
          (⟨s.quote, (cut s.body).1⟩ :: (cut s.body).2)) = ⟨s.quote, (cut s.body).1⟩ :: inner
      ∧ (cut s.body).1 ++ glueAll inner = complete s.body := by
  have hf := completes_addExtension
  obtain ⟨hfrom, hguarded⟩ := passUpTo_literal mindsBackslash_opens.1 (fun s => (hf.silent s).1) ha _
    (guarded_cut hs.isLiteralBody_body)
  obtain ⟨hbare, -⟩ := passUpTo_literal mindsBackslash_opens.2 (fun s => (hf.silent s).2) hb _ hguarded
  refine ⟨_, by rw [hfrom, hbare], ?_⟩
  rw [complete_eq, pass, cut_pass opensFrom hf]
  rfl

theorem exists_cons_of_passUpTo (opens : Text → Bool) (f : Text → Text) (next : Option CodePoint)
    (run : Text) (p : Piece) (pieces : List Piece) :
    ∃ p' pieces', passUpTo opens f next run (p :: pieces) = p' :: pieces' ∧ p'.quote = p.quote :=
  ⟨_, _, rfl, quote_passPiece ..⟩

/-- A pass over a piece behind others. -/
theorem passUpTo_middle (run : Text) (xs : List Piece) (p : Piece) (rest : List Piece) :
    passUpTo opens f none run (xs ++ p :: rest)
      = passUpTo opens f (some p.quote) run xs
        ++ passPiece opens f (lastRun run (passUpTo opens f (some p.quote) run xs)) p
            (firstQuote? rest)
        :: passUpTo opens f none (passPiece opens f
            (lastRun run (passUpTo opens f (some p.quote) run xs)) p (firstQuote? rest)).run
          rest := by
  simp only [passUpTo_append, passUpTo, Option.or_none]
  rfl

/-- Behind code that does not end in one of the two words neither pass meets a specifier, also if the code
was completed. -/
theorem silent_of_not_endsInKeyword {code ra rb : Text} (hca : Later code ra) (hab : Later ra rb)
    (hword : endsInKeyword code = false) : opensFrom ra = false ∧ opensBare rb = false := by
  refine ⟨Bool.eq_false_iff.2 fun ho => ?_, Bool.eq_false_iff.2 fun ho => ?_⟩
  · rw [eq_of_later_of_opensFrom hca ho] at ho
    rw [endsInKeyword_of_opens (.inl ho)] at hword
    cases hword
  · rw [eq_of_later_of_opensBare hab ho] at ho
    rw [eq_of_later_of_opensBare hca ho] at ho
    rw [endsInKeyword_of_opens (.inr ho)] at hword
    cases hword

/-- **Both passes over a span** and what follows it. -/
theorem passes_span {s : Span} (hs : s.Lexed) {code ra rb : Text} (hca : Later code ra)
    (hab : Later ra rb) (rest : List Piece) :
    ∃ (s' : Span) (rc rd : Text), s'.quote = s.quote ∧
      (endsInKeyword code = false → s'.body = complete s.body) ∧
      (s'.code = s.code ∨ isTarget s.code = true ∧ s'.code = Specifier.addExtension s.code) ∧
      Later s.code rc ∧ Later rc rd ∧
      glueAll (passUpTo opensBare Specifier.addExtension none rb
          (passUpTo opensFrom Specifier.addExtension none ra (spanPieces s ++ rest)))
        = s'.literal ++ s'.code ++ glueAll (passUpTo opensBare Specifier.addExtension none rd
            (passUpTo opensFrom Specifier.addExtension none rc rest)) := by
  have hf := completes_addExtension
  -- the literal after the from-pass and after the bare pass
  generalize hA : passUpTo opensFrom Specifier.addExtension (some s.quote) ra
    (⟨s.quote, (cut s.body).1⟩ :: (cut s.body).2) = A
  generalize hB : passUpTo opensBare Specifier.addExtension (some s.quote) rb A = B
  have hbehind : Later (lastRun ra A) (lastRun rb B) := hB ▸ later_lastRun hf _ A hab
  -- its closing quote, with the code behind it
  generalize ha : passPiece opensFrom Specifier.addExtension (lastRun ra A) ⟨s.quote, s.code⟩
    (firstQuote? rest) = a
  generalize hb : passPiece opensBare Specifier.addExtension (lastRun rb B) a
    (firstQuote? rest) = b
  have hquoteA : a.quote = s.quote := by rw [← ha, quote_passPiece]
  have hquoteB : b.quote = s.quote := by rw [← hb, quote_passPiece, hquoteA]
  have hrest : passUpTo opensBare Specifier.addExtension none rb
        (passUpTo opensFrom Specifier.addExtension none ra (spanPieces s ++ rest))
      = B ++ b :: passUpTo opensBare Specifier.addExtension none b.run
          (passUpTo opensFrom Specifier.addExtension none a.run rest) := by
    rw [spanPieces, List.append_assoc, List.singleton_append, passUpTo_middle]
    dsimp only
    rw [hA, ha, passUpTo_middle, hquoteA, hB, firstQuote?_passUpTo, hb]
  obtain ⟨body', hbody, hglue⟩ : ∃ body', (endsInKeyword code = false → body' = complete s.body) ∧
      glueAll B = s.quote :: body' := by
    cases hword : endsInKeyword code with
    | false =>
      obtain ⟨hsilentA, hsilentB⟩ := silent_of_not_endsInKeyword hca hab hword
      obtain ⟨inner, hinner, hcomplete⟩ := passes_literal hs hsilentA hsilentB
      rw [hA, hB] at hinner
      exact ⟨_, fun _ => hcomplete, by rw [hinner]; rfl⟩
    | true =>
      obtain ⟨p, ps, hp, hpq⟩ := exists_cons_of_passUpTo opensFrom
        Specifier.addExtension (some s.quote) ra ⟨s.quote, (cut s.body).1⟩ (cut s.body).2
      rw [hA] at hp
      rw [hp] at hB
      obtain ⟨q, qs, hq, hqq⟩ := exists_cons_of_passUpTo opensBare
        Specifier.addExtension (some s.quote) rb p ps
      rw [hB] at hq
      refine ⟨q.run ++ glueAll qs, fun h => Bool.noConfusion h, ?_⟩
      rw [hq, glueAll, hqq, hpq]
      rfl
  refine ⟨⟨s.quote, body', b.run⟩, a.run, b.run, rfl, hbody, ?_, ha ▸ later_passPiece hf _ _ _,
    hb ▸ later_passPiece hf _ _ _, ?_⟩
  · rw [← hb, ← ha]
    exact run_twice hbehind _ _
  · rw [hrest, glueAll_append, hglue, glueAll, hquoteB]
    simp [Span.literal]

/-! ## §7. Modules. -/

/-- Both passes over the spans of a module, one after another. -/
theorem passes_spans :
    ∀ (spans : List Span) {code ra rb : Text}, (∀ s ∈ spans, s.Lexed) → Later code ra →
      Later ra rb → ∃ spans', SpansCompleted code spans spans' ∧
        glueAll (passUpTo opensBare Specifier.addExtension none rb
            (passUpTo opensFrom Specifier.addExtension none ra (spans.flatMap spanPieces)))
          = spans'.flatMap fun s => s.literal ++ s.code
  | [], code, _, _, _, _, _ => ⟨[], .nil code, rfl⟩
  | s :: spans, code, ra, rb, hspans, hca, hab => by
    obtain ⟨s', rc, rd, hquote, hbody, hcode, hcc, hcd, hglue⟩ :=
      passes_span (hspans s (List.mem_cons_self ..)) hca hab (spans.flatMap spanPieces)
    obtain ⟨spans', hcompleted, hrest⟩ :=
      passes_spans spans (fun s hs => hspans s (List.mem_cons_of_mem _ hs)) hcc hcd
    refine ⟨s' :: spans', .cons hquote hbody hcode hcompleted, ?_⟩
    rw [List.flatMap_cons, hglue, hrest, List.flatMap_cons]

/-- **What completing a module does to its string literals.**  The module stays code with literals in
between.  A literal behind neither `from` nor `import` holds what completing makes of its contents; so it
is left alone exactly if no specifier that is met in the contents is incomplete. -/
theorem complete_spanText {head : Text} {spans : List Span} (hhead : ∀ c ∈ head, isQuote c = false)
    (hspans : ∀ s ∈ spans, s.Lexed) :
    (∃ spans', complete (spanText head spans) = spanText head spans' ∧
      SpansCompleted head spans spans') ∧
    ∀ s ∈ spans, complete s.body = s.body
      ↔ ∀ t ∈ metSpecifiers Specifier.addExtension s.body, Specifier.addExtension t = t := by
  refine ⟨?_, fun s _ => mapSpecifiers_eq_self_iff completes_addExtension s.body⟩
  have hf := completes_addExtension
  obtain ⟨spans', hcompleted, hglue⟩ := passes_spans spans hspans (.inl rfl : Later head head)
    (.inl rfl : Later head head)
  refine ⟨spans', ?_, hcompleted⟩
  rw [complete_eq, pass, cut_pass opensFrom hf, cut_spanText hhead hspans]
  dsimp only
  rw [passPieces_eq_passUpTo fun s => (hf.silent s).1, passPieces_eq_passUpTo fun s => (hf.silent s).2,
    glue, hglue, spanText]

/-- Strings that look like specifiers are no specifiers. -/
def stringSpans : List Span :=
  [⟨CodePoint.apostrophe, "./config", ";
console.log("⟩, ⟨CodePoint.quote, "./a", ");
"⟩]

theorem complete_spanText_strings :
    (∀ c ∈ ("const p = " : Text), isQuote c = false) ∧ (∀ s ∈ stringSpans, s.Lexed) ∧
      ∃ spans', complete (spanText "const p = " stringSpans) = spanText "const p = " spans' ∧
        SpansCompleted "const p = " stringSpans spans' :=
  ⟨by decide, by decide, (complete_spanText (by decide) (by decide)).1⟩

/-- A literal that holds an import statement, behind no keyword. -/
def statementSpan : Span := ⟨CodePoint.apostrophe, "import \"./a\"", ";
"⟩

/-- It does not appear in the completed module: the statement in it is completed. -/
theorem statementSpan_changed :
    (∀ c ∈ ("const s = " : Text), isQuote c = false) ∧ statementSpan.Lexed ∧
      endsInKeyword "const s = " = false ∧
      ¬ statementSpan.literal <:+: complete (spanText "const s = " [statementSpan]) := by
  decide +kernel

end ModuleText

end ModuleBuild
