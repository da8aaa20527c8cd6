/-
  ModuleBuild.Proofs.Specifier.Segments
  ─────────────────────────────────────
  **SEGMENTS THAT NAME A MARKER.**

  A segment names a marker when it is the marker, alone or with one of the
  extensions of a module behind it.  The extension of a segment is found at
  its last full stop, so the marker may have full stops of its own; and since
  a name of full stops only has no extension, such a marker stands alone.

  Main results:
    * `splitExtension_eq_iff` — when a name is cut into a stem and an extension;
    * `segmentNames_iff` — the segments that name a marker.
-/
import ModuleBuild.Proofs.Specifier.Completion
import ModuleBuild.Proofs.Text.LetterCase

namespace ModuleBuild

namespace Specifier

variable {marker segment s : Text}

/-- A full stop and something without one: what an extension is. -/
def IsExtension (ext : Text) : Prop := ∃ letters, CodePoint.dot ∉ letters ∧ ext = CodePoint.dot :: letters

/-- **A name is cut in front of an extension if the stem is not made of full stops.** -/
theorem splitExtension_eq_iff {stem ext : Text} (hext : IsExtension ext) :
    Path.splitExtension segment = (stem, ext)
      ↔ segment = stem ++ ext ∧ ∃ c ∈ stem, c ≠ CodePoint.dot := by
  obtain ⟨letters, hletters, rfl⟩ := hext
  constructor
  · intro h
    have hname := splitExtension_append segment
    rw [h] at hname
    refine ⟨hname.symm, ?_⟩
    by_contra hstem
    push Not at hstem
    have hdots : ∀ c ∈ stem ++ [CodePoint.dot], c = CodePoint.dot := by
      simpa [or_imp, forall_and] using hstem
    have hbare := splitExtension_of_dots hdots hletters
    rw [List.append_assoc, List.singleton_append, hname, h] at hbare
    exact List.cons_ne_nil _ _ (congrArg Prod.snd hbare)
  · rintro ⟨rfl, hstem⟩
    exact Path.splitExtension_stem_append hstem hletters

theorem isPlain_of_mem_segmentExtensions :
    ∀ e ∈ segmentExtensions, ∀ d ∈ e, d.isPlain = true := by
  decide

/-- An extension of a module starts with a full stop and holds no other, in any letter case. -/
theorem isExtension_of_inAnyCase {e ext : Text} (he : e ∈ segmentExtensions)
    (h : Text.InAnyCase e ext) : IsExtension ext := by
  have hall : ∀ e ∈ segmentExtensions, e.head? = some CodePoint.dot
      ∧ ∀ d ∈ e.tail, d ≠ CodePoint.dot ∧ d.capital ≠ CodePoint.dot := by
    decide
  obtain ⟨hhead, hletters⟩ := hall e he
  cases h with
  | nil => cases hhead
  | @cons d c word letters hfirst hrest =>
    injection hhead with hdot
    subst hdot
    have hstop : CodePoint.dot.capital = CodePoint.dot := by decide
    rw [hstop, or_self] at hfirst
    have hnone := Text.InAnyCase.forall_mem (P := (· ≠ CodePoint.dot)) hrest hletters
    exact ⟨letters, fun hmem => hnone _ hmem rfl, by rw [hfirst]⟩

/-- A segment is a marker, or a marker that is not made of full stops and an extension of a module
in any letter case. -/
def IsMarked (marker segment : Text) : Prop :=
  segment = marker
    ∨ (∃ c ∈ marker, c ≠ CodePoint.dot)
      ∧ ∃ e ∈ segmentExtensions, ∃ ext, Text.InAnyCase e ext ∧ segment = marker ++ ext

/-- **The segments that name a marker.** -/
theorem segmentNames_iff : segmentNames marker segment = true ↔ IsMarked marker segment := by
  unfold segmentNames IsMarked
  rw [Bool.or_eq_true, Bool.and_eq_true, decide_eq_true_iff, decide_eq_true_iff, List.contains_iff_mem]
  refine or_congr Iff.rfl ⟨?_, ?_⟩
  · rintro ⟨hstem, hext⟩
    have hcase := (Text.lower_eq_iff (isPlain_of_mem_segmentExtensions _ hext)).1 rfl
    obtain ⟨hname, hletter⟩ := (splitExtension_eq_iff (isExtension_of_inAnyCase hext hcase)).1
      (Prod.ext hstem rfl)
    exact ⟨hletter, _, hext, _, hcase, hname⟩
  · rintro ⟨hletter, e, he, ext, hcase, hname⟩
    have hsplit := (splitExtension_eq_iff (isExtension_of_inAnyCase he hcase)).2 ⟨hname, hletter⟩
    rw [hsplit]
    refine ⟨rfl, ?_⟩
    rwa [(Text.lower_eq_iff (isPlain_of_mem_segmentExtensions e he)).2 hcase]

/-- A specifier names a marker that is not empty when one of its segments does. -/
theorem hasSegment_iff (hmarker : marker ≠ []) :
    hasSegment s marker = true ↔ ∃ segment ∈ Text.split CodePoint.slash s, IsMarked marker segment := by
  simp [hasSegment, hmarker, segmentNames_iff]

end Specifier

end ModuleBuild
