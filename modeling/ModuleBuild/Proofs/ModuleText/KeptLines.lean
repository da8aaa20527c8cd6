/-
  ModuleBuild.Proofs.ModuleText.KeptLines
  ───────────────────────────────────────
  **COMPLETING SPECIFIERS, SEEN LINE BY LINE.**

  The passes complete specifiers before the lines that import a marker are
  deleted.  A replaced specifier stands between two quotes of one line, and
  whether that line is an import line depends on what stands around the
  quotes only.  So line by line the same is deleted before and after, if
  each specifier that is met stays on its line and names the same markers
  with its extension.

  Main results:
    * `exists_lines_around` — what has no line end in it stays in one line;
    * `exists_importSpecifier_around` — what is around a quoted run makes an import line of it;
    * `keepsLine_pass` — the lines that are kept are the same before and after a pass;
    * `keepsLine_complete` — and after both, unless a marker is disguised.
-/
import ModuleBuild.ModuleText.ImportLine
import ModuleBuild.Proofs.ModuleText.SecondPass
import ModuleBuild.Proofs.Specifier.Disguise

namespace ModuleBuild

/-! ## §1. Lines around a run. -/

namespace Text

/-- Whether a text has no line end in it. -/
def OneLine (t : Text) : Prop := ∀ c ∈ t, c.endsLine = false

instance (t : Text) : Decidable (OneLine t) :=
  inferInstanceAs (Decidable (∀ c ∈ t, c.endsLine = false))

theorem lines_cons {c : CodePoint} (hc : c.endsLine = false) (rest : Text) :
    lines (c :: rest) = consToFirst c (lines rest) := by
  rw [lines, hc, Bool.false_and, if_neg Bool.false_ne_true]

/-- What has no line end in it stands in front of the first line of what follows. -/
theorem exists_lines_append (b : Text) :
    ∃ back after, ∀ w, w ≠ [] → OneLine w → lines (w ++ b) = (w ++ back) :: after := by
  have hgrow (back : Text) (after : List Text)
      (hone : ∀ c : CodePoint, consToFirst c (lines b) = (c :: back) :: after) :
      ∀ w, w ≠ [] → OneLine w → lines (w ++ b) = (w ++ back) :: after := by
    intro w hw hline
    induction w with
    | nil => exact absurd rfl hw
    | cons c w ih =>
      rw [List.cons_append, lines_cons (hline c (List.mem_cons_self ..))]
      cases w with
      | nil => exact hone c
      | cons d w =>
        rw [ih (by simp) fun e he => hline e (List.mem_cons_of_mem _ he)]
        rfl
  cases hb : lines b with
  | nil => exact ⟨[], [], hgrow [] [] fun c => by rw [hb]; rfl⟩
  | cons back after => exact ⟨back, after, hgrow back after fun c => by rw [hb]; rfl⟩

/-- **What has no line end in it stays in one line**, and nothing else depends on it. -/
theorem exists_lines_around (a b : Text) :
    ∃ before front back after, ∀ w, w ≠ [] → OneLine w →
      lines (a ++ w ++ b) = before ++ (front ++ w ++ back) :: after := by
  induction a with
  | nil =>
    obtain ⟨back, after, h⟩ := exists_lines_append b
    exact ⟨[], [], back, after, h⟩
  | cons c a ih =>
    obtain ⟨before, front, back, after, h⟩ := ih
    -- a carriage return ends its line unless a line feed follows, and no line feed starts the run
    have hhead : ∀ w, w ≠ [] → OneLine w →
        ((a ++ w ++ b).head? = some CodePoint.lineFeed ↔ a.head? = some CodePoint.lineFeed) := by
      intro w hw hline
      cases a with
      | cons d a => rfl
      | nil =>
        obtain ⟨d, w, rfl⟩ := List.exists_cons_of_ne_nil hw
        have hd := hline d (List.mem_cons_self ..)
        refine iff_of_false (fun he => ?_) (by simp)
        injection he with he
        rw [he] at hd
        exact absurd hd (by decide)
    by_cases hends : (c.endsLine
        && !(c = CodePoint.carriageReturn && a.head? = some CodePoint.lineFeed)) = true
    · refine ⟨[c] :: before, front, back, after, fun w hw hline => ?_⟩
      rw [List.cons_append, List.cons_append, lines, decide_eq_decide.2 (hhead w hw hline),
        if_pos hends, h w hw hline]
      rfl
    · cases before with
      | nil =>
        refine ⟨[], c :: front, back, after, fun w hw hline => ?_⟩
        rw [List.cons_append, List.cons_append, lines, decide_eq_decide.2 (hhead w hw hline),
          if_neg hends, h w hw hline]
        rfl
      | cons line before =>
        refine ⟨(c :: line) :: before, front, back, after, fun w hw hline => ?_⟩
        rw [List.cons_append, List.cons_append, lines, decide_eq_decide.2 (hhead w hw hline),
          if_neg hends, h w hw hline]
        rfl

/-- The body of a line keeps what ends in no line end. -/
theorem lineBody_append {w : Text} {c : CodePoint} (hw : w.getLast? = some c)
    (hc : c.isNewline = false) (back : Text) : lineBody (w ++ back) = w ++ lineBody back := by
  obtain ⟨init, rfl⟩ := List.getLast?_eq_some_iff.1 hw
  unfold lineBody dropEndWhile
  rw [List.reverse_append, List.dropWhile_append]
  split
  · rename_i hempty
    rw [List.isEmpty_iff.1 hempty, List.reverse_append, List.reverse_singleton,
      List.singleton_append, List.dropWhile_cons_of_neg (by simp [hc])]
    simp
  · rw [List.reverse_append, List.reverse_reverse]

/-- A code point that a text does not hold cuts off nothing of it at the start of another. -/
theorem startsWith_append_cons {start : Text} {c : CodePoint} (hc : c ∉ start) (t rest : Text) :
    Text.startsWith (t ++ c :: rest) start = Text.startsWith t start := by
  unfold startsWith
  rw [Bool.eq_iff_iff, List.isPrefixOf_iff_prefix, List.isPrefixOf_iff_prefix]
  constructor
  · intro h
    rcases List.prefix_or_prefix_of_prefix h (List.prefix_append t (c :: rest)) with hs | ⟨z, rfl⟩
    · exact hs
    · rw [List.prefix_append_right_inj] at h
      cases z with
      | nil => simp
      | cons d z =>
        obtain ⟨rfl, -⟩ := List.cons_prefix_cons.1 h
        exact absurd (by simp) hc
  · intro h
    exact h.trans (List.prefix_append ..)

end Text

/-! ## §2. Import lines around a quoted run. -/

namespace ModuleText

open Specifier (hasSegment)

/-- There are as many pieces as quotes. -/
theorem length_cut (t : Text) : (cut t).2.length = t.countP isQuote := by
  induction t with
  | nil => rfl
  | cons c rest ih =>
    unfold cut
    dsimp only
    by_cases h : isQuote c = true
    · rw [if_pos h, List.countP_cons_of_pos h, List.length_cons, ih]
    · rw [if_neg h, List.countP_cons_of_neg h, ih]

/-- A run between quotes, with both of them. -/
def quoted (q : CodePoint) (s : Text) : Text := q :: s ++ [q]

variable {q : CodePoint} {s s' : Text}

/-- A quote is no blank, is no letter of the keyword, and ends no line. -/
theorem solid_of_isQuote (hq : isQuote q = true) :
    q.isBlank = false ∧ q ∉ ("import" : Text) ∧ q.endsLine = false ∧ q.isNewline = false := by
  unfold isQuote at hq
  rcases Bool.or_eq_true_iff.1 hq with h | h <;> rw [of_decide_eq_true h] <;> decide

/-- What is cut from a text in front of which there are quotes, and which holds two more, is no two
pieces. -/
theorem length_cut_quoted {front : Text} (hfront : front.any isQuote = true)
    (hq : isQuote q = true) (s back : Text) :
    2 < (cut (front ++ quoted q s ++ back)).2.length := by
  rw [length_cut, quoted]
  have hone : 0 < front.countP isQuote := by
    obtain ⟨c, hc, hcq⟩ := List.any_eq_true.1 hfront
    exact List.countP_pos_iff.2 ⟨c, hc, hcq⟩
  simp only [List.countP_append, List.countP_cons, List.countP_nil, hq, if_true]
  omega

/-- The pieces of a text in front of whose quoted run there are no quotes. -/
theorem cut_quoted {front : Text} (hfront : front.any isQuote = false) (hq : isQuote q = true)
    (hs : ∀ c ∈ s, isQuote c = false) (back : Text) :
    cut (front ++ quoted q s ++ back)
      = (front, ⟨q, s⟩ :: ⟨q, (cut back).1⟩ :: (cut back).2) := by
  have hclose : cut (q :: back) = ([], ⟨q, (cut back).1⟩ :: (cut back).2) := by
    rw [cut, if_pos hq]
  have hopen : cut (q :: (s ++ q :: back)) = ([], ⟨q, s⟩ :: ⟨q, (cut back).1⟩ :: (cut back).2) := by
    rw [cut, if_pos hq, cut_append hs, hclose, List.append_nil]
  have htext : front ++ quoted q s ++ back = front ++ (q :: (s ++ q :: back)) := by
    simp [quoted]
  rw [htext, cut_append (by simpa using hfront), hopen, List.append_nil]

/-- **What is around a quoted run makes an import line of it, or not, whatever the run is.** -/
theorem exists_importSpecifier_around (front back : Text) (hq : isQuote q = true) :
    ∃ imports : Bool, ∀ s, (∀ c ∈ s, isQuote c = false) →
      importSpecifier? (front ++ quoted q s ++ back) = if imports then some s else none := by
  obtain ⟨hblank, hletter, -, -⟩ := solid_of_isQuote hq
  have htrim (s : Text) : Text.trimStart (front ++ quoted q s ++ back)
      = Text.trimStart front ++ quoted q s ++ back := by
    have hsolid : (quoted q s ++ back).dropWhile CodePoint.isBlank = quoted q s ++ back :=
      List.dropWhile_cons_of_neg (by simp [hblank])
    unfold Text.trimStart
    rw [List.append_assoc, List.dropWhile_append, hsolid]
    split
    · rename_i hempty
      rw [List.isEmpty_iff.1 hempty, List.nil_append]
    · rw [List.append_assoc]
  generalize Text.trimStart front = start at htrim
  have hstarts (s : Text) : Text.startsWith (start ++ quoted q s ++ back) "import"
      = Text.startsWith start "import" := by
    have htext : start ++ quoted q s ++ back = start ++ q :: (s ++ [q] ++ back) := by
      simp [quoted]
    rw [htext, Text.startsWith_append_cons hletter]
  by_cases himport : Text.startsWith start "import" = true
  swap
  · refine ⟨false, fun s _ => ?_⟩
    unfold importSpecifier?
    dsimp only
    rw [htrim, hstarts, if_neg himport, if_neg Bool.false_ne_true]
  have hdrop (s : Text) : (start ++ quoted q s ++ back).drop 6
      = start.drop 6 ++ quoted q s ++ back := by
    have hlen : 6 ≤ start.length := (List.isPrefixOf_iff_prefix.1 himport).length_le
    rw [List.append_assoc, List.drop_append_of_le_length hlen, List.append_assoc]
  -- with a quote before it, the run is not the first piece, and the line has too many
  by_cases hquote : (start.drop 6).any isQuote = true
  · refine ⟨false, fun s _ => ?_⟩
    have hlen := length_cut_quoted hquote hq s back
    unfold importSpecifier?
    dsimp only
    rw [htrim, hstarts, if_pos himport, hdrop, if_neg Bool.false_ne_true]
    split
    · rename_i hcut
      rw [hcut] at hlen
      exact absurd hlen (lt_irrefl 2)
    · rfl
  · rw [Bool.not_eq_true] at hquote
    refine ⟨bindsSpecifier (start.drop 6) && (cut back).2.isEmpty && endsStatement (cut back).1,
      fun s hs => ?_⟩
    unfold importSpecifier?
    dsimp only
    rw [htrim, hstarts, if_pos himport, hdrop, cut_quoted hquote hq hs]
    cases (cut back).2 with
    | nil => simp
    | cons p ps => simp

/-! ## §3. One specifier is replaced. -/

/-- Whether the lines that import a marker are the same with one specifier in place of another: both
stay on their line, and they name the same markers. -/
structure Unnoticed (markers : List Text) (s s' : Text) : Prop where
  oneLine : Text.OneLine s
  oneLine' : Text.OneLine s'
  names : ∀ m ∈ markers, hasSegment s' m = hasSegment s m

/-- A line is kept with either specifier. -/
theorem keepsLine_quoted {markers : List Text} (front back : Text) (hq : isQuote q = true)
    (hs : ∀ c ∈ s, isQuote c = false) (hs' : ∀ c ∈ s', isQuote c = false)
    (hnames : ∀ m ∈ markers, hasSegment s' m = hasSegment s m) :
    keepsLine markers (front ++ quoted q s' ++ back)
      = keepsLine markers (front ++ quoted q s ++ back) := by
  have hbody (s : Text) : Text.lineBody (front ++ quoted q s ++ back)
      = front ++ quoted q s ++ Text.lineBody back :=
    Text.lineBody_append
      (by rw [quoted, ← List.append_assoc, List.getLast?_concat]) (solid_of_isQuote hq).2.2.2 back
  obtain ⟨imports, himports⟩ := exists_importSpecifier_around front (Text.lineBody back) hq
  unfold keepsLine
  rw [hbody s, hbody s']
  have hmarker : ∀ m ∈ markers, isMarkerImport (front ++ quoted q s' ++ Text.lineBody back) m
      = isMarkerImport (front ++ quoted q s ++ Text.lineBody back) m := by
    intro m hm
    unfold isMarkerImport
    rw [himports s hs, himports s' hs']
    cases imports with
    | false => rfl
    | true => exact hnames m hm
  rw [Bool.not_inj_iff, Bool.eq_iff_iff, List.any_eq_true, List.any_eq_true]
  exact exists_congr fun m => and_congr_right fun hm => by rw [hmarker m hm]

/-- **The lines that are kept stay the same when a specifier is replaced unnoticed.** -/
theorem keepsLine_replaced {markers : List Text} (a b : Text) (hq : isQuote q = true)
    (hs : ∀ c ∈ s, isQuote c = false) (hs' : ∀ c ∈ s', isQuote c = false)
    (h : Unnoticed markers s s') :
    (Text.lines (a ++ quoted q s' ++ b)).map (keepsLine markers)
      = (Text.lines (a ++ quoted q s ++ b)).map (keepsLine markers) := by
  have hline {s : Text} (hs : Text.OneLine s) : Text.OneLine (quoted q s) := by
    intro c hc
    unfold quoted at hc
    rcases List.mem_append.1 hc with hc | hc
    · rcases List.mem_cons.1 hc with rfl | hc
      · exact (solid_of_isQuote hq).2.2.1
      · exact hs c hc
    · rw [List.mem_singleton.1 hc]
      exact (solid_of_isQuote hq).2.2.1
  have hne (s : Text) : quoted q s ≠ [] := by simp [quoted]
  obtain ⟨before, front, back, after, hlines⟩ := Text.exists_lines_around a b
  rw [hlines _ (hne s') (hline h.oneLine'), hlines _ (hne s) (hline h.oneLine), List.map_append,
    List.map_append, List.map_cons, List.map_cons, keepsLine_quoted front back hq hs hs' h.names]

/-! ## §4. Passes. -/

variable {opens : Text → Bool} {f : Text → Text} {markers : List Text}

/-- A pass over some pieces, behind whatever text, replaces one specifier after another. -/
theorem keepsLine_passPieces
    (hf : ∀ s, (∀ c ∈ s, isQuote c = false) → ∀ c ∈ f s, isQuote c = false)
    (run : Text) (pieces : List Piece)
    (hp : ∀ p ∈ pieces, isQuote p.quote = true ∧ ∀ c ∈ p.run, isQuote c = false)
    (h : ∀ s ∈ targetsOf opens run pieces, Unnoticed markers s (f s)) (a : Text) :
    (Text.lines (a ++ glueAll (passPieces opens f run pieces))).map (keepsLine markers)
      = (Text.lines (a ++ glueAll pieces)).map (keepsLine markers) := by
  fun_induction passPieces opens f run pieces generalizing a with
  | case1 => rfl
  | case2 => rfl
  | case3 run p p' rest hr ih =>
    rw [targetsOf, if_pos hr] at h
    have hsame : p.quote = p'.quote := by
      simp only [Bool.and_eq_true, decide_eq_true_eq] at hr
      exact hr.1.2
    obtain ⟨hquote, hrun⟩ := hp p (by simp)
    have htext (s : Text) (t : Text) : a ++ glueAll [⟨p.quote, s⟩, p'] ++ t
        = a ++ quoted p.quote s ++ (p'.run ++ t) := by
      simp [glueAll, quoted, hsame]
    have hglue (s : Text) (ps : List Piece) : a ++ glueAll (⟨p.quote, s⟩ :: p' :: ps)
        = a ++ glueAll [⟨p.quote, s⟩, p'] ++ glueAll ps := by
      simp [glueAll]
    -- first the pieces behind, then the one specifier
    rw [hglue, ih (fun r hr => hp r (by simp [hr])) fun s hs => h s (List.mem_cons_of_mem _ hs),
      htext, keepsLine_replaced a _ hquote hrun (hf p.run hrun) (h p.run (List.mem_cons_self ..)),
      ← htext, ← hglue]
  | case4 run p p' rest hr ih =>
    rw [targetsOf, if_neg hr] at h
    have hglue (ps : List Piece) : a ++ glueAll (p :: ps) = a ++ p.quote :: p.run ++ glueAll ps := by
      simp [glueAll]
    rw [hglue, hglue]
    exact ih (fun r hr => hp r (List.mem_cons_of_mem _ hr)) h _

/-- **A pass keeps the lines that import no marker, if nothing that it does is noticed.** -/
theorem keepsLine_pass (hf : Completes f) (t : Text)
    (h : ∀ s ∈ targets opens t, Unnoticed markers s (f s)) :
    (Text.lines (pass opens f t)).map (keepsLine markers)
      = (Text.lines t).map (keepsLine markers) := by
  have hpieces := keepsLine_passPieces hf.plain (cut t).1 (cut t).2 isQuote_cut.2 h (cut t).1
  unfold pass glue
  rw [hpieces]
  conv => rhs; rw [← glue_cut t]
  rfl

/-- The extension has no line end in it. -/
theorem oneLine_addExtension {s : Text} (h : Text.OneLine s) :
    Text.OneLine (Specifier.addExtension s) := by
  have hext : Text.OneLine Specifier.moduleExtension := by decide
  unfold Specifier.addExtension
  split
  · exact h
  · intro c hc
    rcases List.mem_append.1 hc with hc | hc
    · exact h c hc
    · exact hext c hc

/-- **What completing specifiers hides from the deletion of marker imports.**  A completed specifier
names a marker exactly if the specifier does, unless it is disguised.  So completing a text first
deletes the same lines, if no specifier that is met goes over a line end or is disguised. -/
theorem keepsLine_complete (names : List Text) :
    (∀ m ∈ Specifier.markerStems names, ∀ s,
      (hasSegment (Specifier.addExtension s) m = hasSegment s m ↔ ¬ Specifier.Disguised s m))
    ∧ ∀ t, (∀ s ∈ metSpecifiers Specifier.addExtension t, Text.OneLine s
          ∧ ∀ m ∈ Specifier.markerStems names, ¬ Specifier.Disguised s m) →
        (Text.lines (complete t)).map (keepsLine (Specifier.markerStems names))
          = (Text.lines t).map (keepsLine (Specifier.markerStems names)) := by
  refine ⟨fun m _ s => Specifier.hasSegment_addExtension_iff s m, fun t h => ?_⟩
  have hunnoticed : ∀ s ∈ metSpecifiers Specifier.addExtension t,
      Unnoticed (Specifier.markerStems names) s (Specifier.addExtension s) := fun s hs =>
    ⟨(h s hs).1, oneLine_addExtension (h s hs).1,
      fun m hm => (Specifier.hasSegment_addExtension_iff s m).2 ((h s hs).2 m hm)⟩
  unfold complete mapSpecifiers
  rw [keepsLine_pass completes_addExtension _ fun s hs => hunnoticed s (List.mem_append_right _ hs),
    keepsLine_pass completes_addExtension _ fun s hs => hunnoticed s (List.mem_append_left _ hs)]

/-- The condition holds of an import without extension, which is deleted before and after. -/
theorem keepsLine_complete_shared :
    (Text.lines (complete "import \"./types\";\n")).map
        (keepsLine (Specifier.markerStems ["src/types.ts"])) = [false]
      ∧ (Text.lines "import \"./types\";\n").map
        (keepsLine (Specifier.markerStems ["src/types.ts"])) = [false] := by
  have hstems : Specifier.markerStems ["src/types.ts"] = ["types"] := by decide
  have hmet : metSpecifiers Specifier.addExtension "import \"./types\";\n" = ["./types"] := by
    decide +kernel
  have hdeleted : (Text.lines "import \"./types\";\n").map
      (keepsLine (Specifier.markerStems ["src/types.ts"])) = [false] := by
    decide +kernel
  have hsame := (keepsLine_complete ["src/types.ts"]).2 "import \"./types\";\n" fun s hs => by
    rw [hmet] at hs
    rw [List.mem_singleton.1 hs]
    refine ⟨by decide, fun m hm => ?_⟩
    refine ((keepsLine_complete ["src/types.ts"]).1 m hm "./types").1 ?_
    rw [hstems] at hm
    rw [List.mem_singleton.1 hm]
    decide
  exact ⟨hsame.trans hdeleted, hdeleted⟩

/-- A source of declarations, imported with its extension, is not recognised any more. -/
theorem hasSegment_completed_source :
    ("types" : Text) ∈ Specifier.markerStems ["types.ts"] ∧ Specifier.isRelative "./types.ts" = true
      ∧ hasSegment "./types.ts" "types" = true
      ∧ hasSegment (Specifier.addExtension "./types.ts") "types" = false := by
  decide

end ModuleText

end ModuleBuild
