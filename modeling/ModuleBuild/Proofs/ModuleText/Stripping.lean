/-
  ModuleBuild.Proofs.ModuleText.Stripping
  ───────────────────────────────────────
  **DELETING LINES, ONCE AND TWICE.**

  A text has one cut into lines: each line has its end behind it, the last may
  lack one, and a carriage return and a line feed that belong together are not
  parted.  Deleting the lines that import a marker keeps the others whole, in
  order and with their own ends.

  What is left may be cut in another way: a line that ended with a carriage
  return meets a line feed that stood behind a deleted line.  The two become
  one end, and the body in front of it is the one that was kept before; so a
  second deletion finds nothing.

  Main results:
    * `isCut_iff` — the cut into lines is the only one;
    * `exists_body_of_mem_lines` — behind a deletion every line has a body that was kept;
    * `stripMarkers_whole_lines` — what a deletion leaves, and that a second one changes nothing.
-/
import ModuleBuild.Proofs.ModuleText.KeptLines

namespace ModuleBuild

namespace Text

/-! ## §1. Ends of lines. -/

/-- What ends a line: a code point that does, or a carriage return and a line feed. -/
def IsLineEnd (ending : Text) : Prop :=
  ending = [CodePoint.carriageReturn, CodePoint.lineFeed]
    ∨ ∃ c : CodePoint, c.endsLine = true ∧ ending = [c]

/-- A line with its end behind it. -/
def IsEnded (line : Text) : Prop :=
  ∃ body ending, OneLine body ∧ IsLineEnd ending ∧ line = body ++ ending

/-- A carriage return and a line feed would be parted between a line and what follows. -/
def Parts (line rest : Text) : Prop :=
  line.getLast? = some CodePoint.carriageReturn ∧ rest.head? = some CodePoint.lineFeed

/-- Lines, one behind the other: each has its end, the last may lack one, and no two code points that
are one end are parted. -/
inductive IsCut : List Text → Prop
  | nil : IsCut []
  | last {line : Text} : line ≠ [] → OneLine line → IsCut [line]
  | cons {line : Text} {ls : List Text} :
      IsEnded line → ¬ Parts line (join ls) → IsCut ls → IsCut (line :: ls)

variable {c : CodePoint} {line t : Text} {ls : List Text}

theorem endsLine_carriageReturn : CodePoint.carriageReturn.endsLine = true := by decide

theorem endsLine_lineFeed : CodePoint.lineFeed.endsLine = true := by decide

theorem lineFeed_ne_carriageReturn : CodePoint.lineFeed ≠ CodePoint.carriageReturn := by decide

/-- A line feed is a line of its own, or the end of one. -/
theorem lines_lineFeed (t : Text) : lines (CodePoint.lineFeed :: t) = [CodePoint.lineFeed] :: lines t := by
  rw [lines, endsLine_lineFeed, decide_eq_false lineFeed_ne_carriageReturn]
  rfl

/-- A code point that ends a line is cut off behind, unless that parts it from a line feed. -/
theorem lines_endsLine (hc : c.endsLine = true) (h : ¬ Parts [c] t) : lines (c :: t) = [c] :: lines t := by
  have hwhole : (decide (c = CodePoint.carriageReturn)
      && decide (t.head? = some CodePoint.lineFeed)) = false := by
    rw [Bool.eq_false_iff, ne_eq, Bool.and_eq_true, decide_eq_true_iff, decide_eq_true_iff]
    exact fun hp => h ⟨by rw [hp.1]; rfl, hp.2⟩
  rw [lines, hc, hwhole]
  rfl

/-- A carriage return and a line feed are one end. -/
theorem lines_carriageReturn_lineFeed (t : Text) :
    lines (CodePoint.carriageReturn :: CodePoint.lineFeed :: t)
      = [CodePoint.carriageReturn, CodePoint.lineFeed] :: lines t := by
  rw [lines, endsLine_carriageReturn, if_neg (by simp), lines_lineFeed]
  rfl

/-- What stands in front of an end stands in the line that it ends. -/
theorem lines_body {body rest : Text} (hbody : OneLine body) (h : lines rest = line :: ls) :
    lines (body ++ rest) = (body ++ line) :: ls := by
  induction body with
  | nil => exact h
  | cons c body ih =>
    have hrest := ih fun d hd => hbody d (List.mem_cons_of_mem c hd)
    rw [List.cons_append, lines_cons (hbody c (List.mem_cons_self ..)), hrest]
    rfl

/-- **A line with its end is cut off**; if that parts a line feed from it, the line feed goes with it. -/
theorem lines_append_of_isEnded (h : IsEnded line) (t : Text) :
    lines (line ++ t) = line :: lines t
      ∨ ∃ rest, t = CodePoint.lineFeed :: rest ∧ Parts line t
          ∧ lines (line ++ t) = (line ++ [CodePoint.lineFeed]) :: lines rest := by
  obtain ⟨body, ending, hbody, rfl | ⟨c, hc, rfl⟩, rfl⟩ := h
  · refine .inl ?_
    rw [List.append_assoc]
    exact lines_body hbody (lines_carriageReturn_lineFeed t)
  · rw [List.append_assoc, List.append_assoc]
    by_cases hparts : Parts [c] t
    · obtain ⟨hreturn, hfeed⟩ := hparts
      obtain ⟨rest, rfl⟩ := List.head?_eq_some_iff.1 hfeed
      have hreturn' : c = CodePoint.carriageReturn := by simpa using hreturn
      subst hreturn'
      exact .inr ⟨rest, rfl, ⟨List.getLast?_concat, hfeed⟩,
        lines_body hbody (lines_carriageReturn_lineFeed rest)⟩
    · exact .inl (lines_body hbody (lines_endsLine hc hparts))

/-! ## §2. The cut into lines. -/

/-- A line without an end is all there is. -/
theorem lines_of_oneLine (hne : line ≠ []) (h : OneLine line) : lines line = [line] := by
  obtain ⟨init, c, rfl⟩ := (List.eq_nil_or_concat line).resolve_left hne
  rw [List.concat_eq_append] at h ⊢
  have hlast : lines [c] = [[c]] := lines_cons (h c (by simp)) []
  exact lines_body (fun d hd => h d (List.mem_append_left _ hd)) hlast

/-- A line grows at its start when something without an end is put in front. -/
theorem IsEnded.cons (h : IsEnded line) (hc : c.endsLine = false) : IsEnded (c :: line) := by
  obtain ⟨body, ending, hbody, hending, rfl⟩ := h
  exact ⟨c :: body, ending, List.forall_mem_cons.2 ⟨hc, hbody⟩, hending, rfl⟩

theorem IsCut.of_cons (h : IsCut (line :: ls)) : IsCut ls := by
  cases h with
  | last => exact .nil
  | cons _ _ hls => exact hls

/-- The lines of a text are cut as lines are. -/
theorem isCut_lines (t : Text) : IsCut (lines t) := by
  induction t with
  | nil => exact .nil
  | cons c rest ih =>
    have hjoin := join_lines rest
    by_cases hc : c.endsLine = true
    -- a carriage return and the line feed behind it end one line
    · by_cases hparts : Parts [c] rest
      · obtain ⟨hreturn, hfeed⟩ := hparts
        obtain ⟨rest', rfl⟩ := List.head?_eq_some_iff.1 hfeed
        have hreturn' : c = CodePoint.carriageReturn := by simpa using hreturn
        subst hreturn'
        rw [lines_lineFeed] at ih
        rw [lines_carriageReturn_lineFeed]
        have hwhole : ¬ Parts [CodePoint.carriageReturn, CodePoint.lineFeed] (join (lines rest')) :=
          fun h => lineFeed_ne_carriageReturn (Option.some.inj h.1)
        exact .cons ⟨[], _, nofun, .inl rfl, rfl⟩ hwhole ih.of_cons
      · rw [lines_endsLine hc hparts]
        exact .cons ⟨[], [c], nofun, .inr ⟨c, hc, rfl⟩, rfl⟩ (by rwa [hjoin]) ih
    · rw [Bool.not_eq_true] at hc
      rw [lines_cons hc]
      cases hlines : lines rest with
      | nil => exact .last (List.cons_ne_nil _ _) (by simpa [OneLine] using hc)
      | cons line ls =>
        rw [hlines] at ih
        cases ih with
        | last hne hline => exact .last (List.cons_ne_nil _ _) (List.forall_mem_cons.2 ⟨hc, hline⟩)
        | cons hended hparts hls =>
          refine .cons (hended.cons hc) (fun h => hparts ⟨?_, h.2⟩) hls
          obtain ⟨body, ending, -, hending, rfl⟩ := hended
          have hne : body ++ ending ≠ [] := by
            rcases hending with rfl | ⟨d, -, rfl⟩ <;> simp
          rw [← List.getLast?_cons_of_ne_nil hne]
          exact h.1

/-- **The cut of a text into lines is the only one.** -/
theorem isCut_iff : IsCut ls ∧ join ls = t ↔ ls = lines t := by
  constructor
  · rintro ⟨h, rfl⟩
    induction h with
    | nil => rfl
    | last hne hline => rw [join_cons, join_nil, List.append_nil, lines_of_oneLine hne hline]
    | @cons line ls hended hparts _ ih =>
      rcases lines_append_of_isEnded hended (join ls) with hlines | ⟨_, _, hparted, _⟩
      · rw [join_cons, hlines, ← ih]
      · exact absurd hparted hparts
  · rintro rfl
    exact ⟨isCut_lines t, join_lines t⟩

/-! ## §3. Bodies of lines. -/

/-- A line feed more at its end leaves the body of a line. -/
theorem lineBody_concat_lineFeed (line : Text) :
    lineBody (line ++ [CodePoint.lineFeed]) = lineBody line := by
  unfold lineBody dropEndWhile
  rw [List.reverse_append]
  exact congrArg List.reverse (List.dropWhile_cons_of_pos (by decide))

/-- **Behind a deletion every line has the body of a line that was kept.** -/
theorem exists_body_of_mem_lines (keeps : Text → Bool) (h : IsCut ls) :
    ∀ line ∈ lines (join (ls.filter keeps)), ∃ kept ∈ ls.filter keeps, lineBody line = lineBody kept := by
  induction h with
  | nil => exact nofun
  | @last line hne hline =>
    by_cases hkeeps : keeps line = true
    · rw [List.filter_cons_of_pos hkeeps, List.filter_nil, join_cons, join_nil, List.append_nil,
        lines_of_oneLine hne hline]
      exact fun l hl => ⟨l, hl, rfl⟩
    · rw [List.filter_cons_of_neg hkeeps]
      exact nofun
  | @cons line ls hended _ _ ih =>
    by_cases hkeeps : keeps line = true
    swap
    · rwa [List.filter_cons_of_neg hkeeps]
    rw [List.filter_cons_of_pos hkeeps, join_cons]
    have hrest : ∀ l ∈ lines (join (ls.filter keeps)),
        ∃ kept ∈ line :: ls.filter keeps, lineBody l = lineBody kept := by
      intro l hl
      obtain ⟨kept, hkept, hbody⟩ := ih l hl
      exact ⟨kept, List.mem_cons_of_mem line hkept, hbody⟩
    rcases lines_append_of_isEnded hended (join (ls.filter keeps)) with hlines | ⟨rest, hjoin, -, hlines⟩
    · rw [hlines]
      exact List.forall_mem_cons.2 ⟨⟨line, List.mem_cons_self .., rfl⟩, hrest⟩
    · -- a line feed was left alone in front of the rest, and goes to this line
      rw [hlines]
      refine List.forall_mem_cons.2 ⟨⟨line, List.mem_cons_self .., lineBody_concat_lineFeed line⟩, ?_⟩
      rw [hjoin, lines_lineFeed] at hrest
      exact fun l hl => hrest l (List.mem_cons_of_mem _ hl)

end Text

/-! ## §4. Lines that import a marker. -/

namespace ModuleText

variable {markers : List Text}

/-- Whether a line is kept is a matter of its body. -/
theorem keepsLine_congr {line line' : Text} (h : Text.lineBody line = Text.lineBody line') :
    keepsLine markers line = keepsLine markers line' := by
  unfold keepsLine
  rw [h]

theorem keepsLine_iff {line : Text} :
    keepsLine markers line = true ↔ ∀ m ∈ markers, isMarkerImport (Text.lineBody line) m = false := by
  simp [keepsLine]

/-- No line that a deletion leaves imports a marker. -/
theorem keepsLine_of_mem_lines (markers : List Text) (t : Text) :
    ∀ line ∈ Text.lines (stripMarkers markers t), keepsLine markers line = true := by
  intro line hline
  obtain ⟨kept, hkept, hbody⟩ := Text.exists_body_of_mem_lines (keepsLine markers)
    (Text.isCut_lines t) line hline
  rw [keepsLine_congr hbody]
  exact (List.mem_filter.1 hkept).2

/-- **A deletion keeps, whole and in order, the lines of the one cut of a text that import no marker;
a second one changes nothing.** -/
theorem stripMarkers_whole_lines (markers : List Text) (t : Text) :
    (∃ ls, (∀ ls', Text.IsCut ls' ∧ Text.join ls' = t ↔ ls' = ls)
        ∧ stripMarkers markers t = Text.join (ls.filter fun line =>
            ∀ m ∈ markers, isMarkerImport (Text.lineBody line) m = false))
      ∧ stripMarkers markers (stripMarkers markers t) = stripMarkers markers t := by
  refine ⟨⟨Text.lines t, fun ls' => Text.isCut_iff, ?_⟩, ?_⟩
  · have hkeeps : (fun line => decide (∀ m ∈ markers, isMarkerImport (Text.lineBody line) m = false))
        = keepsLine markers := by
      funext line
      rw [Bool.eq_iff_iff, decide_eq_true_iff, keepsLine_iff]
    rw [hkeeps]
    rfl
  · have hall := List.filter_eq_self.2 (keepsLine_of_mem_lines markers t)
    conv_lhs => rw [stripMarkers, hall, Text.join_lines]

/-- A carriage return and a line feed become one end when the line between them goes. -/
example : stripMarkers ["types"] "a;\rimport './types';\n\nb;" = "a;\r\nb;" := by decide +kernel

end ModuleText

end ModuleBuild
