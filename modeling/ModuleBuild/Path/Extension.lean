/-
  ModuleBuild.Path.Extension
  ──────────────────────────
  **THE EXTENSION OF A NAME.**

  The extension of a name is what follows its last full stop, the stop
  included, if something other than a stop stands before it: `types.ts` has
  the extension `.ts`, `.profile` and `...` have none.

  Main results:
    * `splitExtension_stem_append` — an extension added to a stem is split off again.
-/
import ModuleBuild.Text.Basic

namespace ModuleBuild

namespace Path

/-- What follows the last occurrence of a code point; all of the text if there is none. -/
def afterLast (sep : CodePoint) (t : Text) : Text :=
  (t.reverse.takeWhile (· ≠ sep)).reverse

/-- What ends with the last occurrence of a code point; nothing if there is none. -/
def throughLast (sep : CodePoint) (t : Text) : Text :=
  (t.reverse.dropWhile (· ≠ sep)).reverse

theorem throughLast_append_afterLast (sep : CodePoint) (t : Text) :
    throughLast sep t ++ afterLast sep t = t := by
  simp [throughLast, afterLast, ← List.reverse_append]

/-- The stem and the extension of a name. -/
def splitExtension (name : Text) : Text × Text :=
  let stem := (throughLast CodePoint.dot name).dropLast
  if stem.any (· ≠ CodePoint.dot) then (stem, CodePoint.dot :: afterLast CodePoint.dot name)
  else (name, [])

theorem throughLast_cons_of_not_mem {sep : CodePoint} (stem : Text) {rest : Text}
    (h : sep ∉ rest) : throughLast sep (stem ++ sep :: rest) = stem ++ [sep] := by
  have : ∀ r : Text, sep ∉ r → (r ++ sep :: stem.reverse).dropWhile (· ≠ sep)
      = sep :: stem.reverse := by
    intro r hr
    induction r with
    | nil => simp
    | cons c cs ih =>
      have hc : c ≠ sep := fun e => hr (by simp [e])
      rw [List.cons_append, List.dropWhile_cons_of_pos (by simpa using hc)]
      exact ih fun hm => hr (by simp [hm])
  simp only [throughLast, List.reverse_append, List.reverse_cons, List.append_assoc,
    List.singleton_append]
  rw [this _ (by simpa using h)]
  simp

theorem afterLast_cons_of_not_mem {sep : CodePoint} (stem : Text) {rest : Text}
    (h : sep ∉ rest) : afterLast sep (stem ++ sep :: rest) = rest := by
  have h1 := throughLast_append_afterLast sep (stem ++ sep :: rest)
  rw [throughLast_cons_of_not_mem stem h] at h1
  simpa using h1

/-- An extension added to a stem that is not made of full stops is split off again. -/
theorem splitExtension_stem_append {stem ext : Text} (h : ∃ c ∈ stem, c ≠ CodePoint.dot)
    (he : CodePoint.dot ∉ ext) :
    splitExtension (stem ++ CodePoint.dot :: ext) = (stem, CodePoint.dot :: ext) := by
  have ha : stem.any (· ≠ CodePoint.dot) = true := by simpa using h
  unfold splitExtension
  simp only [throughLast_cons_of_not_mem stem he, afterLast_cons_of_not_mem stem he,
    List.dropLast_concat]
  rw [if_pos ha]

/-- The last name of a slash-separated path; empty after a slash at the end. -/
def baseName (path : Text) : Text := afterLast CodePoint.slash path

/-- A path without the extension of its last name. -/
def withoutExtension (path : Text) : Text :=
  throughLast CodePoint.slash path ++ (splitExtension (baseName path)).1

end Path

end ModuleBuild
