/-
  ModuleBuild.Proofs.Specifier.Disguise
  ─────────────────────────────────────
  **MARKERS BEHIND AN ADDED EXTENSION.**

  Completing a specifier adds `.js` to its last segment.  Mostly the segment
  names the same markers before and after: a marker alone, or a marker with an
  extension that the loader knows.  But the loader does not know `.ts`, so a
  marker written with it gets a second extension and is not recognised any
  more; nor is a segment of full stops, which has no extension before or
  after.  The other way round, a segment without `.js` can become a marker
  that has `.js` in its name.

  Main results:
    * `segmentNames_append_iff` — when a segment names the same with `.js` behind it;
    * `hasSegment_addExtension_iff` — when a completed specifier names a marker like the specifier.
-/
import ModuleBuild.Proofs.Path.Pieces
import ModuleBuild.Proofs.Specifier.Completion

namespace ModuleBuild

namespace Specifier

variable {marker segment : Text}

/-! ## §1. One segment. -/

/-- Whether a segment names a marker, but with `.js` behind it does not: the marker with the
extension of a source, or a marker of full stops. -/
def losesMarker (marker segment : Text) : Bool :=
  if segment.all (· = CodePoint.dot) then segment = marker
  else
    let p := Path.splitExtension segment
    p.1 = marker && Text.lower p.2 = sourceExtension

/-- Whether a segment is a marker only with `.js` behind it. -/
def gainsMarker (marker segment : Text) : Bool := segment ++ moduleExtension = marker

/-- A segment of full stops has no extension, so it is a marker or names none. -/
theorem segmentNames_of_dots (h : ∀ c ∈ segment, c = CodePoint.dot) :
    segmentNames marker segment = (segment = marker : Bool)
      ∧ segmentNames marker (segment ++ moduleExtension)
        = (segment ++ moduleExtension = marker : Bool) := by
  have hnone : segmentExtensions.contains (Text.lower []) = false := by decide
  have hbare := splitExtension_of_dots h (List.not_mem_nil (a := CodePoint.dot))
  have hdots : ∀ c ∈ segment ++ [CodePoint.dot], c = CodePoint.dot := by
    intro c hc
    rcases List.mem_append.1 hc with hc | hc
    · exact h c hc
    · simpa using hc
  have hsplit := splitExtension_of_dots hdots dot_not_mem_moduleLetters
  rw [List.append_nil] at hbare
  rw [List.append_assoc, List.singleton_append, ← moduleExtension_eq] at hsplit
  unfold segmentNames
  rw [hbare, hsplit]
  dsimp only
  rw [hnone, Bool.and_false, Bool.or_false, Bool.and_false, Bool.or_false]
  exact ⟨rfl, rfl⟩

/-- With `.js` behind it, another segment names itself, and the marker that it is then. -/
theorem segmentNames_append (h : ∃ c ∈ segment, c ≠ CodePoint.dot) :
    segmentNames marker (segment ++ moduleExtension)
      = (gainsMarker marker segment || (segment = marker : Bool)) := by
  have hjs : segmentExtensions.contains (Text.lower (CodePoint.dot :: moduleLetters)) = true := by
    decide
  unfold segmentNames gainsMarker
  rw [moduleExtension_eq, Path.splitExtension_stem_append h dot_not_mem_moduleLetters]
  dsimp only
  rw [hjs, Bool.and_true]

/-- Without an extension that the loader knows, a segment names itself, and the marker that has the
extension of a source. -/
theorem segmentNames_of_bare
    (hbare : runtimeExtensions.contains (Text.lower (Path.splitExtension segment).2) = false) :
    segmentNames marker segment
      = ((segment = marker : Bool) || (Path.splitExtension segment).1 = marker
          && Text.lower (Path.splitExtension segment).2 = sourceExtension) := by
  unfold segmentNames segmentExtensions
  dsimp only
  rw [List.contains_append, hbare, Bool.false_or, List.contains_cons, List.contains_nil,
    Bool.or_false, Bool.beq_eq_decide_eq]

/-- A marker with the extension of a source is longer than the marker. -/
theorem length_lt_of_sourceExtension
    (h : Text.lower (Path.splitExtension segment).2 = sourceExtension) :
    (Path.splitExtension segment).1.length < segment.length := by
  have hne : (Path.splitExtension segment).2 ≠ [] := by
    intro hnil
    rw [hnil] at h
    exact absurd h (by decide)
  have hlen := congrArg List.length (splitExtension_append segment)
  rw [List.length_append] at hlen
  have := List.length_pos_iff.2 hne
  omega

/-- **A segment that gets `.js` names a marker like before, unless it loses or gains it.** -/
theorem segmentNames_append_iff
    (hbare : runtimeExtensions.contains (Text.lower (Path.splitExtension segment).2) = false) :
    segmentNames marker (segment ++ moduleExtension) = segmentNames marker segment
      ↔ losesMarker marker segment = false ∧ gainsMarker marker segment = false := by
  have hlonger : segment ++ moduleExtension ≠ segment := by
    intro h
    have := congrArg List.length h
    simp [moduleExtension_eq] at this
  by_cases hdots : segment.all (· = CodePoint.dot) = true
  · obtain ⟨hb, hc⟩ := @segmentNames_of_dots marker segment ((all_dots_iff segment).1 hdots)
    unfold losesMarker gainsMarker
    rw [hb, hc, if_pos hdots]
    by_cases hs : segment = marker
    · subst hs
      simp [hlonger]
    · simp [hs]
  · have hletter : ∃ c ∈ segment, c ≠ CodePoint.dot := by simpa using hdots
    unfold losesMarker
    rw [segmentNames_append hletter, segmentNames_of_bare hbare, if_neg hdots]
    dsimp only
    -- the marker is the segment, shorter than it, or longer than it
    by_cases hgain : gainsMarker marker segment = true
    · have hmarker : segment ++ moduleExtension = marker := by simpa [gainsMarker] using hgain
      have hsame : segment ≠ marker := by
        rw [← hmarker]
        exact Ne.symm hlonger
      have hstem : ¬ ((Path.splitExtension segment).1 = marker
          ∧ Text.lower (Path.splitExtension segment).2 = sourceExtension) := by
        rintro ⟨h1, h2⟩
        have hlt := length_lt_of_sourceExtension h2
        rw [h1, ← hmarker, List.length_append] at hlt
        omega
      simp only [hgain, Bool.true_or, decide_eq_false hsame, Bool.false_or]
      simpa using hstem
    · rw [Bool.not_eq_true] at hgain
      by_cases hsource : (Path.splitExtension segment).1 = marker
          ∧ Text.lower (Path.splitExtension segment).2 = sourceExtension
      · have hsame : segment ≠ marker := by
          intro h
          have hlt := length_lt_of_sourceExtension hsource.2
          rw [hsource.1, h] at hlt
          exact lt_irrefl _ hlt
        simp [hgain, hsource.1, hsource.2, hsame]
      · simp only [hgain, Bool.false_or]
        have : ((Path.splitExtension segment).1 = marker
            && Text.lower (Path.splitExtension segment).2 = sourceExtension : Bool) = false := by
          simpa using hsource
        simp [this]

/-! ## §2. A whole specifier. -/

/-- The segments of a specifier before the last. -/
def frontSegments (s : Text) : List Text := (Text.split CodePoint.slash s).dropLast

/-- What is added to a specifier is added to its last segment. -/
theorem split_append_ext (s : Text) {ext : Text} (h : CodePoint.slash ∉ ext) :
    Text.split CodePoint.slash (s ++ ext) = frontSegments s ++ [Path.baseName s ++ ext] := by
  have hall : ∃ front, ∀ ext : Text, CodePoint.slash ∉ ext →
      Text.split CodePoint.slash (s ++ ext) = front ++ [Path.baseName s ++ ext] := by
    have hs := Path.throughLast_append_afterLast CodePoint.slash s
    have hlast : CodePoint.slash ∉ Path.baseName s := by
      intro hm
      have := List.mem_takeWhile_imp (by simpa [Path.baseName, Path.afterLast] using hm)
      simp at this
    rcases Path.getLast?_throughLast CodePoint.slash s with hnil | hslash
    · have hbase : Path.baseName s = s := by
        rw [hnil] at hs
        exact hs
      rw [hbase] at hlast ⊢
      refine ⟨[], fun ext h => ?_⟩
      rw [Text.split_of_not_mem (by simp [hlast, h])]
      rfl
    · obtain ⟨front, hfront⟩ := List.getLast?_eq_some_iff.1 hslash
      refine ⟨Text.split CodePoint.slash front, fun ext h => ?_⟩
      have hsplit : s ++ ext = front ++ CodePoint.slash :: (Path.baseName s ++ ext) := by
        conv => lhs; rw [← hs, hfront]
        simp [Path.baseName]
      have hlast' : CodePoint.slash ∉ Path.baseName s ++ ext := by simp [hlast, h]
      rw [hsplit, Text.split_append_sep, Text.split_of_not_mem hlast']
  obtain ⟨front, hfront⟩ := hall
  have hself := hfront [] List.not_mem_nil
  rw [List.append_nil, List.append_nil] at hself
  rw [hfront ext h, frontSegments, hself, List.dropLast_concat]

/-- A specifier names a marker in its front or with its last segment. -/
theorem hasSegment_append (s marker : Text) {ext : Text} (h : CodePoint.slash ∉ ext) :
    hasSegment (s ++ ext) marker
      = (!marker.isEmpty && ((frontSegments s).any (segmentNames marker)
          || segmentNames marker (Path.baseName s ++ ext))) := by
  unfold hasSegment
  rw [split_append_ext s h, List.any_append]
  simp

/-- A specifier that is completed, and whose last segment alone tells whether it names a marker, and
tells so no more, or only, with `.js` behind it. -/
structure Disguised (s marker : Text) : Prop where
  isMarker : marker ≠ []
  completed : addExtension s ≠ s
  front : ∀ segment ∈ frontSegments s, segmentNames marker segment = false
  last : losesMarker marker (Path.baseName s) = true ∨ gainsMarker marker (Path.baseName s) = true

/-- **A completed specifier names a marker exactly if the specifier does, unless it is disguised.** -/
theorem hasSegment_addExtension_iff (s marker : Text) :
    hasSegment (addExtension s) marker = hasSegment s marker ↔ ¬ Disguised s marker := by
  by_cases hcomplete : addExtension s = s
  · rw [hcomplete]
    exact iff_of_true rfl fun h => h.completed hcomplete
  have hext : hasRuntimeExtension s = false ∧ s.endsWith [CodePoint.slash] = false := by
    rw [← Bool.or_eq_false_iff, Bool.eq_false_iff]
    intro h
    exact hcomplete (if_pos h)
  have hadd := addExtension_of_bare hext.1 hext.2
  have hbare := hasSegment_append s marker List.not_mem_nil
  rw [List.append_nil, List.append_nil] at hbare
  rw [hadd, hasSegment_append s marker slash_not_mem_moduleExtension, hbare]
  by_cases hmarker : marker = []
  · subst hmarker
    exact iff_of_true rfl fun h => h.isMarker rfl
  by_cases hfront : (frontSegments s).any (segmentNames marker) = true
  · rw [hfront]
    refine iff_of_true rfl fun h => ?_
    obtain ⟨segment, hmem, hnames⟩ := List.any_eq_true.1 hfront
    rw [h.front segment hmem] at hnames
    cases hnames
  have hempty : marker.isEmpty = false := by simpa using hmarker
  -- completion changes the last segment only
  have hlast := @segmentNames_append_iff marker (Path.baseName s) hext.1
  rw [Bool.not_eq_true] at hfront
  rw [hfront, hempty, Bool.not_false, Bool.true_and, Bool.true_and, Bool.false_or, Bool.false_or,
    hlast]
  constructor
  · rintro ⟨hloses, hgains⟩ h
    rcases h.last with hl | hg
    · rw [hloses] at hl
      cases hl
    · rw [hgains] at hg
      cases hg
  · intro h
    rw [← Bool.or_eq_false_iff, Bool.eq_false_iff]
    intro hlast
    exact h ⟨hmarker, hcomplete, by simpa using hfront, Bool.or_eq_true_iff.1 hlast⟩

end Specifier

end ModuleBuild
