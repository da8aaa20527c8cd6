/-
  ModuleBuild.Proofs.ModuleText.Items
  ───────────────────────────────────
  **MODULES MADE OF STATEMENTS AND LINES.**

  A compiler emits modules of a simple make: from-statements, bare statements
  and lines without quotes, one after another, each with a line end.  On such
  a module the two passes do what a statement-by-statement reading says: each
  relative specifier is completed, and everything else stays.

  Lines may hold keywords, a specifier may hold or be one, a statement may go
  without its semicolon and its bindings may be named `from`: what a pass sees
  before a quote is a run that ends with the head of one statement, and that
  end alone decides.

  Main results:
    * `opens_head` — in front of a specifier exactly the right kind of statement is open;
    * `pass_quoted` — a pass handles one specifier and goes on behind it;
    * `pass_textOf` — a pass completes the specifiers of one kind of statement;
    * `complete_textOf` — both passes complete all of them.
-/
import ModuleBuild.Proofs.ModuleText.SecondPass

namespace ModuleBuild

namespace ModuleText

/-! ## §1. Items. -/

/-- The end of an item: a semicolon if there is one, and a line break. -/
structure LineEnd where
  semicolon : Bool
  carriageReturn : Bool

def LineEnd.text (e : LineEnd) : Text :=
  (if e.semicolon then [CodePoint.ofChar ';'] else []) ++
    (if e.carriageReturn then [CodePoint.carriageReturn] else []) ++ [CodePoint.lineFeed]

/-- A specifier between quotes of either kind, on one line. -/
structure QuotedSpecifier where
  quote : CodePoint
  specifier : Text
  isQuote_quote : isQuote quote = true
  plain : ∀ c ∈ specifier, isQuote c = false
  carriageReturn_not_mem : CodePoint.carriageReturn ∉ specifier
  lineFeed_not_mem : CodePoint.lineFeed ∉ specifier

/-- What a from-statement says before its specifier: a keyword, blanks, bindings, and `from` as a
word of its own. -/
structure FromHead where
  keyword : Text
  blanks : Text
  bindings : Text
  space : Text
  mem_fromKeywords : keyword ∈ fromKeywords
  blanks_ne_nil : blanks ≠ []
  isAllBlank_blanks : Text.isAllBlank blanks = true
  bindings_plain : ∀ c ∈ bindings, isQuote c = false ∧ c ≠ CodePoint.ofChar ';'
  separate : ∀ c, (blanks ++ bindings).getLast? = some c → c.isWord = false
  isAllBlank_space : Text.isAllBlank space = true

/-- What stands before a specifier. -/
inductive Head
  | from (head : FromHead)
  /-- The word `import`, and some blanks. -/
  | bare (space : Text) (isAllBlank_space : Text.isAllBlank space = true)

/-- The two kinds of statement. -/
inductive Kind
  | from
  | bare
  deriving DecidableEq

/-- What recognises the statements of a kind. -/
def Kind.opens : Kind → Text → Bool
  | .from => opensFrom
  | .bare => opensBare

/-- What follows the keyword of a from-statement. -/
def FromHead.tail (h : FromHead) : Text := h.blanks ++ h.bindings ++ ("from" : Text) ++ h.space

def Head.kind : Head → Kind
  | .from _ => .from
  | .bare .. => .bare

def Head.text : Head → Text
  | .from h => h.keyword ++ h.tail
  | .bare space _ => ("import" : Text) ++ space

/-- One item of a module. -/
inductive Item
  | statement (head : Head) (quoted : QuotedSpecifier) (lineEnd : LineEnd)
  | line (body : Text) (plain : ∀ c ∈ body, isQuote c = false) (lineEnd : LineEnd)

def QuotedSpecifier.text (q : QuotedSpecifier) : Text := q.quote :: q.specifier ++ [q.quote]

def Item.text : Item → Text
  | .statement head quoted lineEnd => head.text ++ quoted.text ++ lineEnd.text
  | .line body _ lineEnd => body ++ lineEnd.text

/-- The text of a module. -/
def textOf (items : List Item) : Text := items.flatMap Item.text

/-! ## §2. What completing does to an item. -/

/-- The specifier in its complete form, if it is relative. -/
def completed (s : Text) : Text :=
  if Specifier.isRelative s then Specifier.addExtension s else s

theorem not_mem_completed {c : CodePoint} (hc : c ∉ Specifier.moduleExtension) {s : Text}
    (h : c ∉ s) : c ∉ completed s := by
  unfold completed Specifier.addExtension
  split
  · split
    · exact h
    · simp [h, hc]
  · exact h

def QuotedSpecifier.complete (q : QuotedSpecifier) : QuotedSpecifier where
  quote := q.quote
  specifier := completed q.specifier
  isQuote_quote := q.isQuote_quote
  plain c hc := by
    have hext : ∀ c ∈ Specifier.moduleExtension, isQuote c = false := by decide
    rw [Bool.eq_false_iff]
    intro hq
    have hs : c ∉ q.specifier := fun hs => by simp [q.plain c hs] at hq
    have he : c ∉ Specifier.moduleExtension := fun he => by simp [hext c he] at hq
    exact not_mem_completed he hs hc
  carriageReturn_not_mem := not_mem_completed (by decide) q.carriageReturn_not_mem
  lineFeed_not_mem := not_mem_completed (by decide) q.lineFeed_not_mem

/-- An item with its specifier completed, if it is a statement of the kind. -/
def Item.completeKind (k : Kind) : Item → Item
  | .statement head quoted lineEnd =>
    .statement head (if head.kind = k then quoted.complete else quoted) lineEnd
  | item => item

/-- An item with its specifier completed. -/
def Item.complete : Item → Item
  | .statement head quoted lineEnd => .statement head quoted.complete lineEnd
  | item => item

theorem Item.completeKind_completeKind (item : Item) :
    (item.completeKind .from).completeKind .bare = item.complete := by
  cases item with
  | line body plain lineEnd => rfl
  | statement head quoted lineEnd => cases head <;> rfl

/-! ## §3. What is open before a specifier. -/

/-- A run that stands in front of an item: whatever comes before it ends its line. -/
def EndsLine (run : Text) : Prop := ∀ c, run.getLast? = some c → c.isWord = false

theorem isWord_lineFeed : CodePoint.lineFeed.isWord = false := by decide +kernel

theorem getLast?_lineEnd (front : Text) (e : LineEnd) :
    (front ++ e.text).getLast? = some CodePoint.lineFeed := by
  unfold LineEnd.text
  rw [← List.append_assoc, List.getLast?_concat]

theorem endsLine_lineEnd (front : Text) (e : LineEnd) : EndsLine (front ++ e.text) := by
  intro c hc
  rw [getLast?_lineEnd] at hc
  cases hc
  exact isWord_lineFeed

/-- A keyword that no word character touches in front is found, and what follows it. -/
theorem mem_afterKeywords {keyword : Text} (hk : keyword ∈ fromKeywords) (tail : Text) :
    ∀ (run : Text) (touched : Bool), (run = [] → touched = false) → EndsLine run →
      tail ∈ afterKeywords touched (run ++ keyword ++ tail)
  | [], touched, htouched, _ => by
    rw [htouched rfl, List.nil_append]
    cases keyword with
    | nil => exact absurd hk (by decide)
    | cons c rest =>
      show tail ∈ afterKeywords false (c :: (rest ++ tail))
      unfold afterKeywords
      refine List.mem_append_left _ ?_
      rw [if_neg Bool.false_ne_true]
      refine List.mem_map.2 ⟨c :: rest, List.mem_filter.2 ⟨hk, ?_⟩, ?_⟩
      · exact List.isPrefixOf_iff_prefix.2 (List.prefix_append (c :: rest) tail)
      · show (c :: rest ++ tail).drop (c :: rest).length = tail
        exact List.drop_left
  | c :: run, touched, _, hend => by
    show tail ∈ afterKeywords touched (c :: (run ++ keyword ++ tail))
    unfold afterKeywords
    refine List.mem_append_right _ (mem_afterKeywords hk tail run c.isWord ?_ ?_)
    · rintro rfl
      exact hend c rfl
    · intro d hd
      refine hend d ?_
      rw [List.getLast?_cons, hd]
      rfl

theorem semicolon_not_mem_of_isAllBlank {t : Text} (h : Text.isAllBlank t = true) :
    CodePoint.ofChar ';' ∉ t := by
  intro hm
  have hblank := List.all_eq_true.1 h _ hm
  revert hblank
  decide

/-- What follows the keyword of a from-statement is read as bindings. -/
theorem FromHead.isBindings_tail (h : FromHead) : isBindings h.tail = true := by
  unfold isBindings
  rw [Bool.and_eq_true, Bool.and_eq_true]
  refine ⟨⟨?_, ?_⟩, ?_⟩
  · cases hb : h.blanks with
    | nil => exact absurd hb h.blanks_ne_nil
    | cons c rest =>
      have hall := h.isAllBlank_blanks
      rw [hb] at hall
      unfold FromHead.tail
      rw [hb]
      exact List.all_eq_true.1 hall c (List.mem_cons_self ..)
  · have hfrom : CodePoint.ofChar ';' ∉ ("from" : Text) := by decide
    have hblanks := semicolon_not_mem_of_isAllBlank h.isAllBlank_blanks
    have hspace := semicolon_not_mem_of_isAllBlank h.isAllBlank_space
    have hbindings : CodePoint.ofChar ';' ∉ h.bindings := fun hm => (h.bindings_plain _ hm).2 rfl
    simp [FromHead.tail, hfrom, hblanks, hspace, hbindings]
  · exact endsWithWord_append getLast?_from (by decide) h.isAllBlank_space h.separate

/-- **In front of a specifier a statement of exactly its own kind is open.** -/
theorem opens_head {run : Text} (hrun : EndsLine run) (head : Head) (k : Kind) :
    k.opens (run ++ head.text) = decide (head.kind = k) := by
  have hfrom : ∀ h : FromHead, opensFrom (run ++ (Head.from h).text) = true := by
    intro h
    have hmem := mem_afterKeywords h.mem_fromKeywords h.tail run false (fun _ => rfl) hrun
    rw [List.append_assoc] at hmem
    exact List.any_eq_true.2 ⟨h.tail, hmem, h.isBindings_tail⟩
  have hbare : ∀ space hspace, opensBare (run ++ (Head.bare space hspace).text) = true := by
    intro space hspace
    show endsWithWord "import" (run ++ (("import" : Text) ++ space)) = true
    rw [← List.append_assoc]
    exact endsWithWord_append getLast?_import (by decide) hspace hrun
  cases head with
  | «from» h =>
    cases k with
    | «from» => exact hfrom h
    | bare => exact opensBare_of_opensFrom (hfrom h)
  | bare space hspace =>
    cases k with
    | bare => exact hbare space hspace
    | «from» =>
      show opensFrom _ = false
      rw [Bool.eq_false_iff]
      intro ho
      have hno := opensBare_of_opensFrom ho
      rw [hbare space hspace] at hno
      cases hno

/-! ## §4. A pass over one specifier. -/

variable {opens : Text → Bool} {f : Text → Text}

/-- What a pass makes of the specifier behind a run. -/
def passSpecifier (opens : Text → Bool) (f : Text → Text) (run s : Text) : Text :=
  if opens run && isTarget s then f s else s

/-- **A pass handles one specifier and goes on behind it.**  What follows the closing quote is no
specifier, whatever the specifier itself ends with. -/
theorem pass_quoted (hf : ∀ s, opens (f s) = false) {run s : Text} {q : CodePoint}
    (hq : isQuote q = true) (hrun : ∀ c ∈ run, isQuote c = false)
    (hs : ∀ c ∈ s, isQuote c = false) {rest : Text} (hrest : isTarget (cut rest).1 = false) :
    pass opens f (run ++ q :: s ++ q :: rest)
      = run ++ q :: passSpecifier opens f run s ++ q :: pass opens f rest := by
  have hbehind : cut (q :: rest) = ([], ⟨q, (cut rest).1⟩ :: (cut rest).2) := by
    simp [cut, hq]
  have hopened : cut (q :: (s ++ q :: rest)) = ([], ⟨q, s⟩ :: ⟨q, (cut rest).1⟩ :: (cut rest).2) := by
    have hin : cut (s ++ q :: rest) = (s, ⟨q, (cut rest).1⟩ :: (cut rest).2) := by
      rw [cut_append hs, hbehind, List.append_nil]
    simp [cut, hq, hin]
  have hcut : cut (run ++ q :: s ++ q :: rest)
      = (run, ⟨q, s⟩ :: ⟨q, (cut rest).1⟩ :: (cut rest).2) := by
    rw [List.append_assoc, List.cons_append, cut_append hrun, hopened, List.append_nil]
  -- what stands behind the closing quote is no target, so the piece there stays
  have hkeep : ∀ (front : Text) (next : Option CodePoint),
      passPiece opens f front ⟨q, (cut rest).1⟩ next = ⟨q, (cut rest).1⟩ := by
    intro front next
    simp [passPiece, replaces, hrest]
  have hpiece : passPiece opens f run ⟨q, s⟩ (some q) = ⟨q, passSpecifier opens f run s⟩ := by
    unfold passPiece replaces passSpecifier
    by_cases ho : (opens run && isTarget s) = true
    · simp [ho]
    · simp [ho]
  unfold pass
  rw [hcut]
  show glue run (passPieces opens f run (⟨q, s⟩ :: ⟨q, (cut rest).1⟩ :: (cut rest).2)) = _
  rw [passPieces_cons hf, passPieces_cons hf, hkeep]
  show glue run (passPiece opens f run ⟨q, s⟩ (some q) :: _) = _
  rw [hpiece]
  simp [glue, glueAll]

/-! ## §5. A pass over items. -/

theorem plain_append {s t : Text} (hs : ∀ c ∈ s, isQuote c = false)
    (ht : ∀ c ∈ t, isQuote c = false) : ∀ c ∈ s ++ t, isQuote c = false := by
  intro c hc
  rcases List.mem_append.1 hc with hc | hc
  · exact hs c hc
  · exact ht c hc

theorem plain_lineEnd (e : LineEnd) : ∀ c ∈ e.text, isQuote c = false := by
  obtain ⟨semicolon, carriageReturn⟩ := e
  revert semicolon carriageReturn
  decide

theorem plain_of_isAllBlank {t : Text} (h : Text.isAllBlank t = true) :
    ∀ c ∈ t, isQuote c = false := by
  have hquote : CodePoint.quote.isBlank = false := by decide
  have hapostrophe : CodePoint.apostrophe.isBlank = false := by decide
  intro c hc
  have hblank := List.all_eq_true.1 h c hc
  rw [Bool.eq_false_iff]
  intro hq
  unfold isQuote at hq
  rw [Bool.or_eq_true, decide_eq_true_eq, decide_eq_true_eq] at hq
  rcases hq with rfl | rfl
  · rw [hquote] at hblank
    cases hblank
  · rw [hapostrophe] at hblank
    cases hblank

theorem plain_head (head : Head) : ∀ c ∈ head.text, isQuote c = false := by
  cases head with
  | bare space hspace =>
    exact plain_append (by decide) (plain_of_isAllBlank hspace)
  | «from» h =>
    have hkeywords : ∀ k ∈ fromKeywords, ∀ c ∈ k, isQuote c = false := by decide
    have hbindings : ∀ c ∈ h.bindings, isQuote c = false := fun c hc => (h.bindings_plain c hc).1
    have htail : ∀ c ∈ h.tail, isQuote c = false :=
      plain_append (plain_append (plain_append (plain_of_isAllBlank h.isAllBlank_blanks)
        hbindings) (by decide)) (plain_of_isAllBlank h.isAllBlank_space)
    exact plain_append (hkeywords _ h.mem_fromKeywords) htail

/-- A line end starts no specifier. -/
theorem isTarget_lineEnd (e : LineEnd) (rest : Text) : isTarget (e.text ++ rest) = false := by
  have hrel : Specifier.isRelative (e.text ++ rest) = false := by
    obtain ⟨semicolon, carriageReturn⟩ := e
    cases semicolon <;> cases carriageReturn <;> rfl
  unfold isTarget
  rw [hrel]
  rfl

/-- On one line a pass replaces the relative specifiers; the bare dots and slash that it passes over
are complete. -/
theorem passSpecifier_addExtension (q : QuotedSpecifier) (run : Text) :
    passSpecifier opens Specifier.addExtension run q.specifier
      = if opens run = true then completed q.specifier else q.specifier := by
  have htarget : ∀ t : Text, t.endsWith [CodePoint.slash] = true → q.specifier = t →
      completed q.specifier = q.specifier := by
    intro t ht he
    unfold completed
    rw [he, Specifier.addExtension_of_slash ht, ite_self]
  unfold passSpecifier
  by_cases ho : opens run = true
  · rw [ho, Bool.true_and, if_pos rfl]
    by_cases hhere : q.specifier = "./"
    · rw [htarget "./" (by decide) hhere]
      simp [isTarget, hhere]
    · by_cases hup : q.specifier = "../"
      · rw [htarget "../" (by decide) hup]
        simp [isTarget, hup]
      · have hrel : isTarget q.specifier = Specifier.isRelative q.specifier := by
          simp [isTarget, hhere, hup, q.carriageReturn_not_mem, q.lineFeed_not_mem]
        rw [hrel]
        rfl
  · simp [ho]

theorem textOf_cons (item : Item) (items : List Item) :
    textOf (item :: items) = item.text ++ textOf items := rfl

/-- **A pass completes the specifiers of the statements of its kind.**  By induction on the items,
with all that stands between the last quote and the next item in front. -/
theorem pass_textOf (k : Kind) (hf : ∀ s, k.opens (Specifier.addExtension s) = false) :
    ∀ (items : List Item) (run : Text), (∀ c ∈ run, isQuote c = false) → EndsLine run →
      pass k.opens Specifier.addExtension (run ++ textOf items)
        = run ++ textOf (items.map (Item.completeKind k))
  | [], run, hplain, _ => by
    show pass _ _ (run ++ []) = run ++ []
    refine pass_of_cut_eq_nil ?_
    rw [cut_append hplain]
    rfl
  | .line body plain lineEnd :: items, run, hplain, _ => by
    have ih := pass_textOf k hf items (run ++ (body ++ lineEnd.text))
      (plain_append hplain (plain_append plain (plain_lineEnd lineEnd)))
      (by rw [← List.append_assoc]; exact endsLine_lineEnd _ lineEnd)
    rw [List.map_cons, textOf_cons, textOf_cons, ← List.append_assoc, ← List.append_assoc]
    exact ih
  | .statement head quoted lineEnd :: items, run, hplain, hend => by
    have ih := pass_textOf k hf items lineEnd.text (plain_lineEnd lineEnd)
      (endsLine_lineEnd [] lineEnd)
    have hrest : isTarget (cut (lineEnd.text ++ textOf items)).1 = false := by
      rw [cut_append (plain_lineEnd lineEnd)]
      exact isTarget_lineEnd lineEnd _
    -- the specifier of the statement is handled, and the pass goes on behind it
    have hpass := pass_quoted (f := Specifier.addExtension) hf quoted.isQuote_quote
      (plain_append hplain (plain_head head)) quoted.plain hrest
    have hopens := opens_head hend head k
    rw [passSpecifier_addExtension, hopens, ih] at hpass
    have htext : ∀ (q : QuotedSpecifier) (rest : List Item),
        run ++ textOf (.statement head q lineEnd :: rest)
          = run ++ head.text ++ q.quote :: q.specifier
            ++ q.quote :: (lineEnd.text ++ textOf rest) := by
      intro q rest
      rw [textOf_cons]
      simp [Item.text, QuotedSpecifier.text]
    rw [List.map_cons, htext, hpass]
    show _ = run ++ textOf (.statement head (if head.kind = k then quoted.complete else quoted)
      lineEnd :: items.map (Item.completeKind k))
    rw [htext]
    by_cases hk : head.kind = k
    · simp [hk, QuotedSpecifier.complete]
    · simp [hk]

/-- **On a module made of items completing is statement by statement.**  Every specifier that starts
with `./` or `../` is replaced by its complete form, and everything else stays. -/
theorem complete_textOf (items : List Item) :
    complete (textOf items) = textOf (items.map Item.complete) := by
  have hends : EndsLine [] := fun c hc => by cases hc
  have hplain : ∀ c ∈ ([] : Text), isQuote c = false := fun c hc => by cases hc
  have hfrom := pass_textOf .from (fun s => (completes_addExtension.silent s).1) items []
    hplain hends
  have hbare := pass_textOf .bare (fun s => (completes_addExtension.silent s).2)
    (items.map (Item.completeKind .from)) [] hplain hends
  rw [List.nil_append, List.nil_append] at hfrom hbare
  rw [complete_eq]
  calc pass opensBare Specifier.addExtension (pass opensFrom Specifier.addExtension (textOf items))
      = pass opensBare Specifier.addExtension
          (textOf (items.map (Item.completeKind .from))) := congrArg _ hfrom
    _ = textOf ((items.map (Item.completeKind .from)).map (Item.completeKind .bare)) := hbare
    _ = textOf (items.map Item.complete) := by
      rw [List.map_map]
      congr 2
      exact funext Item.completeKind_completeKind

end ModuleText

end ModuleBuild
