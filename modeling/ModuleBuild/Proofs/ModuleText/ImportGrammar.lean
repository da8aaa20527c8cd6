/-
  ModuleBuild.Proofs.ModuleText.ImportGrammar
  ───────────────────────────────────────────
  **THE GRAMMAR OF IMPORT LINES.**

  An import line is blanks, `import`, a clause, a specifier between two equal
  quotes, and at most one semicolon, with blanks around it.  The clause is
  blank, or it is bindings and `from`.  A line is recognised by cutting it at
  its quotes, so the specifier is what stands between the only two.

  Main results:
    * `importSpecifier?_eq_some_iff` — the lines that are recognised, with their specifier;
    * `isMarkerImport_iff` — the lines that import a marker.
-/
import ModuleBuild.Proofs.ModuleText.KeptLines
import ModuleBuild.Proofs.Specifier.Segments
import ModuleBuild.Proofs.Text.Trimming

namespace ModuleBuild

namespace ModuleText

open Text (isAllBlank)

/-- A text without quotes of either kind. -/
def Quoteless (t : Text) : Prop := ∀ c ∈ t, isQuote c = false

instance (t : Text) : Decidable (Quoteless t) :=
  inferInstanceAs (Decidable (∀ c ∈ t, isQuote c = false))

/-- What stands between `import` and the specifier: blanks, or bindings and `from` with blanks around
it.  A blank parts bindings from `import`. -/
inductive IsClause : Text → Prop
  | blank {w : Text} : isAllBlank w = true → IsClause w
  | bindings {g w w' : Text} : (∀ c, g.head? = some c → c.isBlank = true) → Quoteless g →
      isAllBlank w = true → isAllBlank w' = true → IsClause (g ++ w ++ "from" ++ w')

/-- The end of an import line: one semicolon or none, with blanks around it. -/
inductive IsEnding : Text → Prop
  | mk {w semicolon w' : Text} : isAllBlank w = true → semicolon = [] ∨ semicolon = ";" →
      isAllBlank w' = true → IsEnding (w ++ semicolon ++ w')

/-- A line that imports what a specifier names. -/
inductive Imports : Text → Text → Prop
  | mk {w clause s ending : Text} {q : CodePoint} : isAllBlank w = true → IsClause clause →
      isQuote q = true → Quoteless s → IsEnding ending →
      Imports (w ++ "import" ++ clause ++ quoted q s ++ ending) s

variable {run t line s s' marker : Text}

/-! ## §1. Blanks and quotes. -/

theorem Quoteless.append (h : Quoteless s) (h' : Quoteless s') : Quoteless (s ++ s') := by
  intro c hc
  rcases List.mem_append.1 hc with hc | hc
  · exact h c hc
  · exact h' c hc

theorem quoteless_of_isAllBlank (h : isAllBlank t = true) : Quoteless t := by
  intro c hc
  rw [Bool.eq_false_iff]
  intro hquote
  have hblank := List.all_eq_true.1 h c hc
  rw [(solid_of_isQuote hquote).1] at hblank
  cases hblank

theorem IsClause.quoteless (h : IsClause t) : Quoteless t := by
  cases h with
  | blank hw => exact quoteless_of_isAllBlank hw
  | bindings _ hg hw hw' =>
    have hfrom : Quoteless "from" := by decide
    exact ((hg.append (quoteless_of_isAllBlank hw)).append hfrom).append (quoteless_of_isAllBlank hw')

theorem IsEnding.quoteless (h : IsEnding t) : Quoteless t := by
  cases h with
  | mk hw hsemi hw' =>
    have hsemicolon : ∀ semicolon : Text, semicolon = [] ∨ semicolon = ";" → Quoteless semicolon := by
      rintro _ (rfl | rfl) <;> decide
    exact ((quoteless_of_isAllBlank hw).append (hsemicolon _ hsemi)).append (quoteless_of_isAllBlank hw')

/-! ## §2. The parts of an import line. -/

/-- What stands in front of `from`. -/
theorem take_length_sub_from (front : Text) :
    (front ++ "from").take ((front ++ "from").length - 4) = front := by
  have hlen : (front ++ ("from" : Text)).length - 4 = front.length := by
    rw [List.length_append]
    exact Nat.add_sub_cancel ..
  rw [hlen, List.take_left]

/-- A run opens a specifier when it is blank, or ends with `from` and has nothing or a blank behind
`import`. -/
theorem bindsSpecifier_eq (run : Text) :
    bindsSpecifier run = (isAllBlank run || ((Text.trimEnd run).endsWith "from"
      && ((Text.trimEnd run).take ((Text.trimEnd run).length - 4)).head?.all CodePoint.isBlank)) := by
  unfold bindsSpecifier
  dsimp only
  cases (Text.trimEnd run).take ((Text.trimEnd run).length - 4) <;> rfl

/-- **A run without quotes opens a specifier when it is a clause.** -/
theorem bindsSpecifier_iff (hrun : Quoteless run) : bindsSpecifier run = true ↔ IsClause run := by
  rw [bindsSpecifier_eq, Bool.or_eq_true, Bool.and_eq_true]
  constructor
  · rintro (hblank | ⟨hfrom, hhead⟩)
    · exact .blank hblank
    · obtain ⟨w', hw', heq⟩ := Text.exists_eq_trimEnd_append run
      obtain ⟨g, hg⟩ := List.isSuffixOf_iff_suffix.1 hfrom
      rw [← hg] at heq hhead
      rw [take_length_sub_from] at hhead
      have hquoteless : Quoteless g := fun c hc => hrun c (by rw [heq]; simp [hc])
      have hclause := IsClause.bindings (w := []) (fun c hc => by simpa [hc] using hhead) hquoteless rfl hw'
      rwa [List.append_nil, ← heq] at hclause
  · rintro (hblank | @⟨g, w, w', hhead, -, hw, hw'⟩)
    · exact .inl hblank
    · have hlast : (g ++ w ++ "from").getLast? = some fromEnd := by
        rw [List.getLast?_append, getLast?_from]
        rfl
      have htrim : Text.trimEnd (g ++ w ++ "from" ++ w') = g ++ w ++ "from" := by
        rw [Text.trimEnd_append_of_isAllBlank hw', Text.trimEnd_of_getLast? hlast (by decide)]
      rw [htrim, take_length_sub_from]
      refine .inr ⟨List.isSuffixOf_iff_suffix.2 (List.suffix_append ..), ?_⟩
      rw [Option.all_eq_true]
      intro c hc
      rw [List.head?_append, Option.or_eq_some_iff] at hc
      rcases hc with hc | ⟨-, hc⟩
      · exact hhead c hc
      · exact List.all_eq_true.1 hw c (List.mem_of_mem_head? hc)

/-- **What may stand behind the specifier.** -/
theorem endsStatement_iff : endsStatement t = true ↔ IsEnding t := by
  constructor
  · intro h
    obtain ⟨w, hw, heq⟩ := Text.exists_eq_append_trimStart t
    unfold endsStatement at h
    cases hstart : Text.trimStart t with
    | nil =>
      rw [hstart] at heq
      have hending : IsEnding (w ++ [] ++ []) := .mk hw (.inl rfl) rfl
      rwa [List.append_nil, ← heq] at hending
    | cons c rest =>
      rw [hstart] at h heq
      obtain ⟨hsemi, hrest⟩ := Bool.and_eq_true_iff.1 h
      have hending := IsEnding.mk hw (.inr rfl) hrest
      have hsemicolon : (";" : Text) = [c] := by rw [of_decide_eq_true hsemi]; rfl
      rwa [hsemicolon, List.append_assoc, List.singleton_append, ← heq] at hending
  · rintro @⟨w, _, w', hw, rfl | rfl, hw'⟩
    · have hnone : Text.trimStart w' = [] := List.dropWhile_eq_nil_iff.2 (List.all_eq_true.1 hw')
      unfold endsStatement
      rw [List.append_nil, Text.trimStart_append_of_isAllBlank hw, hnone]
    · have hstay : Text.trimStart ((";" : Text) ++ w') = CodePoint.ofChar ';' :: w' :=
        Text.trimStart_cons (by decide) w'
      unfold endsStatement
      rw [List.append_assoc, Text.trimStart_append_of_isAllBlank hw, hstay]
      simpa using hw'

/-! ## §3. Import lines. -/

/-- **The lines that are recognised as imports, and what they import.** -/
theorem importSpecifier?_eq_some_iff : importSpecifier? line = some s ↔ Imports line s := by
  unfold importSpecifier?
  dsimp only
  constructor
  · intro h
    split at h
    swap
    · cases h
    rename_i hstarts
    split at h
    swap
    · cases h
    rename_i run p p' hcut
    obtain ⟨hrun, hpieces⟩ := isQuote_cut (t := (Text.trimStart line).drop 6)
    have hglue := glue_cut ((Text.trimStart line).drop 6)
    rw [hcut] at hrun hpieces hglue
    split at h
    swap
    · cases h
    rename_i htests
    rw [Bool.and_eq_true, Bool.and_eq_true, decide_eq_true_iff, bindsSpecifier_iff hrun,
      endsStatement_iff] at htests
    obtain ⟨⟨hclause, hsame⟩, hending⟩ := htests
    -- the tests passed: the line is put together again from the pieces it was cut into
    obtain ⟨hquote, hs⟩ := hpieces p (by simp)
    obtain ⟨w, hw, heq⟩ := Text.exists_eq_append_trimStart line
    obtain ⟨rest, hrest⟩ := List.isPrefixOf_iff_prefix.1 hstarts
    have hdrop : (Text.trimStart line).drop 6 = rest := by rw [← hrest]; rfl
    have hline : line = w ++ "import" ++ run ++ quoted p.quote p.run ++ p'.run := by
      rw [heq, ← hrest, ← hdrop, ← hglue]
      simp [glue, glueAll, quoted, hsame]
    injection h with h
    rw [hline, ← h]
    exact .mk hw hclause hquote hs hending
  · rintro @⟨w, clause, _, ending, q, hw, hclause, hq, hs, hending⟩
    have hstay : Text.trimStart (("import" : Text) ++ (clause ++ quoted q s ++ ending))
        = "import" ++ (clause ++ quoted q s ++ ending) := Text.trimStart_cons (by decide) _
    have htrim : Text.trimStart (w ++ "import" ++ clause ++ quoted q s ++ ending)
        = "import" ++ (clause ++ quoted q s ++ ending) := by
      conv_rhs => rw [← hstay, ← Text.trimStart_append_of_isAllBlank hw]
      simp only [List.append_assoc]
    have hstarts : Text.startsWith ("import" ++ (clause ++ quoted q s ++ ending)) "import" = true :=
      List.isPrefixOf_iff_prefix.2 (List.prefix_append ..)
    have hdrop : (("import" : Text) ++ (clause ++ quoted q s ++ ending)).drop 6
        = clause ++ quoted q s ++ ending := rfl
    have hnone := cut_append hending.quoteless []
    rw [List.append_nil] at hnone
    have hfront : clause.any isQuote = false :=
      List.any_eq_false.2 fun c hc => by simp [hclause.quoteless c hc]
    rw [htrim, if_pos hstarts, hdrop, cut_quoted hfront hq hs, hnone]
    dsimp only [cut]
    rw [List.append_nil, (bindsSpecifier_iff hclause.quoteless).2 hclause, endsStatement_iff.2 hending]
    simp

/-- **A line imports a marker when its one specifier has a segment that is the marker**, alone or with
an extension. -/
theorem isMarkerImport_iff (hmarker : marker ≠ []) :
    (isMarkerImport line marker = true
        ↔ ∃ s, Imports line s ∧ ∃ segment ∈ Text.split CodePoint.slash s, Specifier.IsMarked marker segment)
      ∧ ∀ s s', Imports line s → Imports line s' → s = s' := by
  constructor
  · unfold isMarkerImport
    simp only [← importSpecifier?_eq_some_iff, ← Specifier.hasSegment_iff hmarker]
    cases importSpecifier? line with
    | none => simp
    | some s => simp
  · intro s s' h h'
    rw [← importSpecifier?_eq_some_iff] at h h'
    exact Option.some.inj (h.symm.trans h')

/-- An extension in capitals behind a marker that has a full stop of its own. -/
theorem isMarkerImport_capitals :
    ("types.d" : Text) ≠ []
      ∧ isMarkerImport " import * as T from'./shared/types.d.MJS' ;" "types.d" = true
      ∧ ∃ s, Imports " import * as T from'./shared/types.d.MJS' ;" s
          ∧ ∃ segment ∈ Text.split CodePoint.slash s, Specifier.IsMarked "types.d" segment := by
  have hmarker : ("types.d" : Text) ≠ [] := by decide
  have himports : isMarkerImport " import * as T from'./shared/types.d.MJS' ;" "types.d" = true := by
    decide +kernel
  exact ⟨hmarker, himports, (isMarkerImport_iff hmarker).1.1 himports⟩

/-- No blank is needed where there are no bindings, but bindings need one. -/
example : isMarkerImport "importfrom'types'" "types" = true
    ∧ isMarkerImport "import* as A from'types'" "types" = false := by
  decide +kernel

end ModuleText

end ModuleBuild
