/-
  ModuleBuild.Proofs.Specifier.Completion
  ───────────────────────────────────────
  **WHEN A COMPLETED SPECIFIER IS COMPLETE.**

  Completing a specifier a second time changes nothing, with one exception:
  a last segment made of full stops.  A name such as `...js` has nothing but
  stops before its last stop, so it has no extension, and `.js` is added to
  it once more.

  Main results:
    * `hasRuntimeExtension_append` — with `.js` behind it, another last segment has an extension;
    * `addExtension_addExtension_iff` — the exception is the only one.
-/
import ModuleBuild.ModuleText.Statement
import ModuleBuild.Proofs.Path.Written

namespace ModuleBuild

namespace Specifier

/-! ## §1. The last segment. -/

/-- Whether a specifier ends in a segment of full stops only; the empty specifier does, one that
ends with a slash does not. -/
def endsInDots (s : Text) : Bool :=
  (Path.baseName s).all (· = CodePoint.dot) && !s.endsWith [CodePoint.slash]

theorem all_dots_iff (t : Text) :
    t.all (· = CodePoint.dot) = true ↔ ∀ c ∈ t, c = CodePoint.dot := by
  simp

/-- Stem and extension are the name. -/
theorem splitExtension_append (name : Text) :
    (Path.splitExtension name).1 ++ (Path.splitExtension name).2 = name := by
  unfold Path.splitExtension
  dsimp only
  split
  · rename_i h
    rcases Path.getLast?_throughLast CodePoint.dot name with hnil | hlast
    · rw [hnil] at h
      cases h
    · obtain ⟨stem, hstem⟩ := List.getLast?_eq_some_iff.1 hlast
      calc (Path.throughLast CodePoint.dot name).dropLast
              ++ CodePoint.dot :: Path.afterLast CodePoint.dot name
          = Path.throughLast CodePoint.dot name ++ Path.afterLast CodePoint.dot name := by
            rw [hstem, List.dropLast_concat, List.append_assoc, List.singleton_append]
        _ = name := Path.throughLast_append_afterLast CodePoint.dot name
  · exact List.append_nil name

/-- The extension of a name is the end of it. -/
theorem suffix_splitExtension (name : Text) : (Path.splitExtension name).2 <:+ name :=
  ⟨_, splitExtension_append name⟩

/-- A name made of full stops has no extension, nor has one with something behind the stops that
brings no other. -/
theorem splitExtension_of_dots {name ext : Text} (h : ∀ c ∈ name, c = CodePoint.dot)
    (he : CodePoint.dot ∉ ext) :
    Path.splitExtension (name ++ ext) = (name ++ ext, []) := by
  have hstem : ((Path.throughLast CodePoint.dot (name ++ ext)).dropLast).any
      (· ≠ CodePoint.dot) = false := by
    rcases List.eq_nil_or_concat name with rfl | ⟨init, c, rfl⟩
    · rw [List.nil_append, Path.throughLast_eq_nil he]
      rfl
    · rw [List.concat_eq_append] at h ⊢
      have hc : c = CodePoint.dot := h c (by simp)
      subst hc
      rw [List.append_assoc, List.singleton_append, Path.throughLast_cons_of_not_mem init he,
        List.dropLast_concat]
      simp only [List.any_eq_false, decide_eq_true_eq, Decidable.not_not]
      intro d hd
      exact h d (by simp [hd])
  unfold Path.splitExtension
  simp only [hstem]
  rfl

/-! ## §2. Completing twice. -/

/-- The letters of the extension. -/
def moduleLetters : Text := "js"

theorem moduleExtension_eq : moduleExtension = CodePoint.dot :: moduleLetters := by decide

theorem getLast?_moduleExtension : moduleExtension.getLast? = some (CodePoint.ofChar 's') := by
  decide

theorem slash_not_mem_moduleExtension : CodePoint.slash ∉ moduleExtension := by decide

theorem dot_not_mem_moduleLetters : CodePoint.dot ∉ moduleLetters := by decide

/-- With `.js` behind it, a last segment that is not made of full stops has an extension. -/
theorem hasRuntimeExtension_append {s : Text} (h : ∃ c ∈ Path.baseName s, c ≠ CodePoint.dot) :
    hasRuntimeExtension (s ++ moduleExtension) = true := by
  have hjs : runtimeExtensions.contains (Text.lower (CodePoint.dot :: moduleLetters)) = true := by
    decide
  unfold hasRuntimeExtension
  rw [Path.baseName_append slash_not_mem_moduleExtension, moduleExtension_eq,
    Path.splitExtension_stem_append h dot_not_mem_moduleLetters]
  exact hjs

/-- With or without `.js` behind it, a last segment made of full stops has no extension. -/
theorem hasRuntimeExtension_of_dots {s : Text} (h : ∀ c ∈ Path.baseName s, c = CodePoint.dot) :
    hasRuntimeExtension s = false ∧ hasRuntimeExtension (s ++ moduleExtension) = false := by
  have hnone : runtimeExtensions.contains (Text.lower []) = false := by decide
  constructor
  · have hbare := splitExtension_of_dots h (List.not_mem_nil (a := CodePoint.dot))
    rw [List.append_nil] at hbare
    unfold hasRuntimeExtension
    rw [hbare]
    exact hnone
  · have hdots : ∀ c ∈ Path.baseName s ++ [CodePoint.dot], c = CodePoint.dot := by
      intro c hc
      rcases List.mem_append.1 hc with hc | hc
      · exact h c hc
      · simpa using hc
    have hsplit := splitExtension_of_dots hdots dot_not_mem_moduleLetters
    rw [List.append_assoc, List.singleton_append] at hsplit
    unfold hasRuntimeExtension
    rw [Path.baseName_append slash_not_mem_moduleExtension, moduleExtension_eq, hsplit]
    exact hnone

theorem not_endsWith_slash_append (s : Text) :
    (s ++ moduleExtension).endsWith [CodePoint.slash] = false := by
  rw [Bool.eq_false_iff, Ne, Path.endsWith_slash_iff, List.getLast?_append, getLast?_moduleExtension,
    Option.some_or]
  decide

theorem addExtension_of_bare {s : Text} (h : hasRuntimeExtension s = false)
    (hs : s.endsWith [CodePoint.slash] = false) : addExtension s = s ++ moduleExtension := by
  simp [addExtension, h, hs]

theorem addExtension_of_slash {s : Text} (hs : s.endsWith [CodePoint.slash] = true) :
    addExtension s = s := by
  simp [addExtension, hs]

/-- **Completing a specifier twice is completing it once, unless it ends in full stops.** -/
theorem addExtension_addExtension_iff (s : Text) :
    addExtension (addExtension s) = addExtension s ↔ endsInDots s = false := by
  by_cases hslash : s.endsWith [CodePoint.slash] = true
  · simp [addExtension_of_slash hslash, endsInDots, hslash]
  · have hslash' : s.endsWith [CodePoint.slash] = false := by simpa using hslash
    -- a base name of full stops has no extension, not even with one added
    by_cases hdots : ∀ c ∈ Path.baseName s, c = CodePoint.dot
    · obtain ⟨hbare, htwice⟩ := hasRuntimeExtension_of_dots hdots
      rw [addExtension_of_bare hbare hslash',
        addExtension_of_bare htwice (not_endsWith_slash_append s)]
      have hend : endsInDots s = true := by
        unfold endsInDots
        rw [(all_dots_iff _).2 hdots, hslash']
        rfl
      rw [hend]
      constructor
      · intro h
        have hlen := congrArg List.length h
        rw [List.length_append, moduleExtension_eq] at hlen
        simp at hlen
      · intro h
        cases h
    · have hsome : ∃ c ∈ Path.baseName s, c ≠ CodePoint.dot := by
        simpa using hdots
      have hend : endsInDots s = false := by
        unfold endsInDots
        rw [Bool.eq_false_iff.2 (mt (all_dots_iff _).1 hdots)]
        rfl
      rw [hend]
      refine iff_of_true ?_ rfl
      by_cases hext : hasRuntimeExtension s = true
      · rw [addExtension_of_hasRuntimeExtension hext, addExtension_of_hasRuntimeExtension hext]
      · rw [addExtension_of_bare (by simpa using hext) hslash']
        exact addExtension_of_hasRuntimeExtension (hasRuntimeExtension_append hsome)

end Specifier

end ModuleBuild
