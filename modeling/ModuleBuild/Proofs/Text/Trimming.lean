/-
  ModuleBuild.Proofs.Text.Trimming
  ────────────────────────────────
  **WHAT TRIMMING LEAVES.**

  Trimming takes blanks away from the ends of a text.  What starts with no
  blank keeps its start, what ends with none keeps its end, and blanks that
  stand outside are lost.

  Main results:
    * `trimEnd_append_of_isAllBlank`, `trimStart_append_of_isAllBlank` — blanks outside are lost;
    * `trimEnd_append`, `trimStart_cons` — what is no blank stays;
    * `trim_trim` — once is enough.
-/
import Mathlib.Data.List.DropRight
import ModuleBuild.Text.Blank

namespace ModuleBuild

namespace Text

/-! ## §1. The end of a text. -/

theorem trimEnd_eq_rdropWhile (t : Text) : trimEnd t = t.rdropWhile CodePoint.isBlank := rfl

/-- A text whose last code point is no blank loses nothing at its end. -/
theorem trimEnd_of_getLast? {t : Text} {c : CodePoint} (h : t.getLast? = some c)
    (hc : c.isBlank = false) : trimEnd t = t := by
  obtain ⟨init, rfl⟩ := List.getLast?_eq_some_iff.1 h
  rw [trimEnd_eq_rdropWhile, List.rdropWhile_concat_neg _ _ _ (by simp [hc])]

/-- Blanks behind a text are lost. -/
theorem trimEnd_append_of_isAllBlank {t space : Text} (h : isAllBlank space = true) :
    trimEnd (t ++ space) = trimEnd t := by
  have hall : ∀ c ∈ space.reverse, c.isBlank = true := by
    intro c hc
    exact List.all_eq_true.1 h c (by simpa using hc)
  unfold trimEnd dropEndWhile
  rw [List.reverse_append, List.dropWhile_append_of_pos hall]

/-- What is left of a text's end is left when something stands in front of it. -/
theorem trimEnd_append {front t : Text} (h : trimEnd t ≠ []) :
    trimEnd (front ++ t) = front ++ trimEnd t := by
  unfold trimEnd dropEndWhile at h ⊢
  rw [List.reverse_append, List.dropWhile_append, if_neg (by simpa using h),
    List.reverse_append, List.reverse_reverse]

/-- What trimming takes away from the end are blanks. -/
theorem exists_eq_trimEnd_append (t : Text) : ∃ space, isAllBlank space = true ∧ t = trimEnd t ++ space :=
  ⟨t.rtakeWhile CodePoint.isBlank, List.all_eq_true.2 fun _ => List.mem_rtakeWhile_imp,
    (List.rdropWhile_append_rtakeWhile ..).symm⟩

/-! ## §2. The start of a text. -/

/-- Blanks in front of a text are lost. -/
theorem trimStart_append_of_isAllBlank {space : Text} (h : isAllBlank space = true) (t : Text) :
    trimStart (space ++ t) = trimStart t :=
  List.dropWhile_append_of_pos fun c hc => List.all_eq_true.1 h c hc

/-- A text whose first code point is no blank loses nothing at its start. -/
theorem trimStart_cons {c : CodePoint} (hc : c.isBlank = false) (t : Text) :
    trimStart (c :: t) = c :: t :=
  List.dropWhile_cons_of_neg (by simp [hc])

/-- What trimming takes away from the start are blanks. -/
theorem exists_eq_append_trimStart (t : Text) : ∃ space, isAllBlank space = true ∧ t = space ++ trimStart t :=
  ⟨t.takeWhile CodePoint.isBlank, List.all_eq_true.2 fun _ => List.mem_takeWhile_imp,
    List.takeWhile_append_dropWhile.symm⟩

/-! ## §3. Both ends. -/

/-- Trimming a trimmed text takes nothing more away. -/
theorem trim_trim (t : Text) : trim (trim t) = trim t := by
  have hend : trimEnd (trim t) = trim t := by
    unfold trim
    rw [trimEnd_eq_rdropWhile (trimEnd _), trimEnd_eq_rdropWhile, List.rdropWhile_idempotent]
  have hstart : trimStart (trim t) = trim t := by
    unfold trim
    cases hs : trimStart t with
    | nil => rfl
    | cons c rest =>
      have hc := isBlank_head_trimStart hs
      -- what is left starts as the text did
      obtain ⟨tail, htail⟩ : trimEnd (c :: rest) <+: c :: rest := List.rdropWhile_prefix _ _
      cases hleft : trimEnd (c :: rest) with
      | nil => rfl
      | cons d left =>
        rw [hleft] at htail
        injection htail with hd
        rw [hd]
        exact trimStart_cons hc left
  show trimEnd (trimStart (trim t)) = trim t
  rw [hstart, hend]

end Text

end ModuleBuild
