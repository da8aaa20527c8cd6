/-
  ModuleBuild.ModuleText.Quotes
  ─────────────────────────────
  **A MODULE'S TEXT, CUT AT ITS QUOTES.**

  Import statements are recognised by what stands between quotes, of either
  kind, and directly before them.  Cutting a text at every quote gives a first
  run without quotes and, for each quote, the run that follows it.

  Main results:
    * `glue_cut` — cutting and gluing gives the text back;
    * `cut_glue` — runs without quotes are cut as they were glued.
-/
import ModuleBuild.Text.Basic

namespace ModuleBuild

namespace ModuleText

/-- Whether a code point is a quote of either kind. -/
def isQuote (c : CodePoint) : Bool := c = CodePoint.quote || c = CodePoint.apostrophe

/-- A quote and the run that follows it. -/
structure Piece where
  quote : CodePoint
  run : Text
  deriving DecidableEq

/-- The run before the first quote, and the pieces from it on. -/
def cut : Text → Text × List Piece
  | [] => ([], [])
  | c :: rest =>
    let p := cut rest
    if isQuote c then ([], ⟨c, p.1⟩ :: p.2) else (c :: p.1, p.2)

/-- The text of some pieces. -/
def glueAll : List Piece → Text
  | [] => []
  | p :: ps => p.quote :: p.run ++ glueAll ps

/-- The text of a first run and the pieces after it. -/
def glue (run : Text) (pieces : List Piece) : Text := run ++ glueAll pieces

theorem glue_cut (t : Text) : glue (cut t).1 (cut t).2 = t := by
  induction t with
  | nil => rfl
  | cons c rest ih =>
    unfold glue at ih ⊢
    by_cases h : isQuote c = true
    · simp [cut, h, glueAll, ih]
    · simp [cut, h, ih]

/-- The run before the first quote holds none, nor does any other. -/
theorem isQuote_cut {t : Text} :
    (∀ c ∈ (cut t).1, isQuote c = false) ∧
      ∀ p ∈ (cut t).2, isQuote p.quote = true ∧ ∀ c ∈ p.run, isQuote c = false := by
  induction t with
  | nil => simp [cut]
  | cons c rest ih =>
    by_cases h : isQuote c = true
    · simp only [cut, h, if_true]
      refine ⟨by simp, ?_⟩
      intro p hp
      rcases List.mem_cons.1 hp with rfl | hp
      · exact ⟨h, ih.1⟩
      · exact ih.2 p hp
    · simp only [cut, h]
      refine ⟨?_, ih.2⟩
      intro d hd
      rcases List.mem_cons.1 hd with rfl | hd
      · simpa using h
      · exact ih.1 d hd

theorem cut_append {run : Text} (h : ∀ c ∈ run, isQuote c = false) (t : Text) :
    cut (run ++ t) = (run ++ (cut t).1, (cut t).2) := by
  induction run with
  | nil => rfl
  | cons c cs ih =>
    have hc : isQuote c = false := h c (by simp)
    simp [cut, hc, ih fun d hd => h d (by simp [hd])]

/-- Runs without quotes are cut as they were glued. -/
theorem cut_glue {run : Text} {pieces : List Piece} (h : ∀ c ∈ run, isQuote c = false)
    (hp : ∀ p ∈ pieces, isQuote p.quote = true ∧ ∀ c ∈ p.run, isQuote c = false) :
    cut (glue run pieces) = (run, pieces) := by
  unfold glue
  rw [cut_append h]
  have hall : cut (glueAll pieces) = ([], pieces) := by
    clear h
    induction pieces with
    | nil => rfl
    | cons p ps ih =>
      have h1 := hp p (by simp)
      simp only [glueAll, List.cons_append, cut, h1.1, if_true, cut_append h1.2,
        ih fun q hq => hp q (by simp [hq])]
      simp
  simp [hall]

end ModuleText

end ModuleBuild
