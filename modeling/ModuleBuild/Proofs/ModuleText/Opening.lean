/-
  ModuleBuild.Proofs.ModuleText.Opening
  ─────────────────────────────────────
  **WHAT OPENS A STATEMENT, AND WHAT DOES NOT.**

  A run of text opens a statement when it ends, blanks aside, with `from` or
  `import`, so everything about opening is decided at the end of the run.  A
  completed specifier ends with a slash or with the last letter of an
  extension: put in front of a quote it opens nothing, whatever keywords it
  holds.

  Main results:
    * `opensBare_of_opensFrom` — no run opens both kinds of statement;
    * `closes_addExtension` — a completed specifier is closed at its end;
    * `not_opens_of_closes` — and then it opens nothing.
-/
import ModuleBuild.Proofs.Specifier.Segments
import ModuleBuild.Proofs.Text.Trimming

namespace ModuleBuild

namespace ModuleText

/-! ## §1. Words at the end. -/

theorem endsWithWord_def (word t : Text) :
    endsWithWord word t = (Text.endsWith (Text.trimEnd t) word &&
      match ((Text.trimEnd t).take ((Text.trimEnd t).length - word.length)).getLast? with
      | none => true
      | some c => !c.isWord) := rfl

/-- A text that ends with a word, blanks aside, has the word's last letter for its last code point
that is no blank. -/
theorem getLast?_trimEnd_of_endsWithWord {word t : Text} {c : CodePoint}
    (hw : word.getLast? = some c) (h : endsWithWord word t = true) :
    (Text.trimEnd t).getLast? = some c := by
  rw [endsWithWord_def, Bool.and_eq_true] at h
  obtain ⟨init, hinit⟩ := List.isSuffixOf_iff_suffix.1 h.1
  rw [← hinit, List.getLast?_append, hw]
  rfl

/-- A word at the end, with nothing but blanks behind it and no word character in front. -/
theorem endsWithWord_append {word front space : Text} {c : CodePoint}
    (hw : word.getLast? = some c) (hc : c.isBlank = false) (hspace : Text.isAllBlank space = true)
    (hfront : ∀ d, front.getLast? = some d → d.isWord = false) :
    endsWithWord word (front ++ word ++ space) = true := by
  have hlast : (front ++ word).getLast? = some c := by
    rw [List.getLast?_append, hw]
    rfl
  have htrim : Text.trimEnd (front ++ word ++ space) = front ++ word := by
    rw [Text.trimEnd_append_of_isAllBlank hspace, Text.trimEnd_of_getLast? hlast hc]
  have htake : (front ++ word).take ((front ++ word).length - word.length) = front := by
    rw [List.length_append, Nat.add_sub_cancel, List.take_left]
  rw [endsWithWord_def, htrim, htake, Bool.and_eq_true]
  refine ⟨List.isSuffixOf_iff_suffix.2 (List.suffix_append _ _), ?_⟩
  cases hf : front.getLast? with
  | none => rfl
  | some d => simp [hfront d hf]

/-- The last letter of `from`. -/
def fromEnd : CodePoint := CodePoint.ofChar 'm'

/-- The last letter of `import`. -/
def importEnd : CodePoint := CodePoint.ofChar 't'

theorem getLast?_from : ("from" : Text).getLast? = some fromEnd := by decide

theorem getLast?_import : ("import" : Text).getLast? = some importEnd := by decide

/-! ## §2. Runs that open a statement. -/

/-- What follows a keyword is an end of the text. -/
theorem suffix_of_mem_afterKeywords {t x : Text} :
    ∀ {touched : Bool}, x ∈ afterKeywords touched t → x <:+ t := by
  induction t with
  | nil =>
    intro touched h
    simp [afterKeywords] at h
  | cons c rest ih =>
    intro touched h
    unfold afterKeywords at h
    rcases List.mem_append.1 h with h | h
    · cases touched with
      | true => simp at h
      | false =>
        rw [if_neg Bool.false_ne_true] at h
        obtain ⟨k, -, rfl⟩ := List.mem_map.1 h
        exact List.drop_suffix _ _
    · exact (ih h).trans (List.suffix_cons c rest)

/-- A run that opens a from-statement has an end that is bindings. -/
theorem exists_of_opensFrom {run : Text} (h : opensFrom run = true) :
    ∃ x, x <:+ run ∧ endsWithWord "from" x = true := by
  obtain ⟨x, hx, hb⟩ := List.any_eq_true.1 h
  unfold isBindings at hb
  rw [Bool.and_eq_true] at hb
  exact ⟨x, suffix_of_mem_afterKeywords hx, hb.2⟩

theorem getLast?_trimEnd_of_opensFrom {run : Text} (h : opensFrom run = true) :
    (Text.trimEnd run).getLast? = some fromEnd := by
  obtain ⟨x, ⟨front, rfl⟩, hx⟩ := exists_of_opensFrom h
  have hlast := getLast?_trimEnd_of_endsWithWord getLast?_from hx
  have hne : Text.trimEnd x ≠ [] := by
    intro e
    simp [e] at hlast
  rw [Text.trimEnd_append hne, List.getLast?_append, hlast]
  rfl

theorem getLast?_trimEnd_of_opensBare {run : Text} (h : opensBare run = true) :
    (Text.trimEnd run).getLast? = some importEnd :=
  getLast?_trimEnd_of_endsWithWord getLast?_import h

/-- No run opens both kinds of statement. -/
theorem opensBare_of_opensFrom {run : Text} (h : opensFrom run = true) : opensBare run = false := by
  rw [Bool.eq_false_iff]
  intro hbare
  have hfrom := getLast?_trimEnd_of_opensFrom h
  rw [getLast?_trimEnd_of_opensBare hbare] at hfrom
  revert hfrom
  decide

/-! ## §3. Runs that open none. -/

/-- A text that is closed at its end: the last code point is no blank and ends no keyword. -/
def Closes (t : Text) : Prop :=
  ∃ c, t.getLast? = some c ∧ c.isBlank = false ∧ c ≠ fromEnd ∧ c ≠ importEnd

/-- A run that is closed at its end opens no statement of either kind. -/
theorem not_opens_of_closes {run : Text} (h : Closes run) :
    opensFrom run = false ∧ opensBare run = false := by
  obtain ⟨c, hlast, hblank, hfrom, himport⟩ := h
  have htrim := Text.trimEnd_of_getLast? hlast hblank
  constructor
  · rw [Bool.eq_false_iff]
    intro ho
    have := getLast?_trimEnd_of_opensFrom ho
    rw [htrim, hlast] at this
    exact hfrom (Option.some.inj this)
  · rw [Bool.eq_false_iff]
    intro ho
    have := getLast?_trimEnd_of_opensBare ho
    rw [htrim, hlast] at this
    exact himport (Option.some.inj this)

end ModuleText

/-! ## §4. The last letter of an extension. -/

namespace Specifier

/-- The extensions of the loader end with n or s. -/
theorem last_of_mem_runtimeExtensions :
    ∀ e ∈ runtimeExtensions, ∃ d, e.getLast? = some d ∧ (d.code = 0x6E ∨ d.code = 0x73) := by
  intro e he
  have hall : ∀ e ∈ runtimeExtensions,
      e.getLast? = some (CodePoint.ofChar 'n') ∨ e.getLast? = some (CodePoint.ofChar 's') := by
    decide
  rcases hall e he with h | h
  · exact ⟨_, h, .inl rfl⟩
  · exact ⟨_, h, .inr rfl⟩

theorem closes_of_code {t : Text} {c : CodePoint} (h : t.getLast? = some c)
    (hc : c.code = 0x2F ∨ c.code = 0x4E ∨ c.code = 0x53 ∨ c.code = 0x6E ∨ c.code = 0x73) :
    ModuleText.Closes t := by
  refine ⟨c, h, ?_, ?_, ?_⟩
  · unfold CodePoint.isBlank CodePoint.isWhiteSpace CodePoint.isSeparator
    rcases hc with hc | hc | hc | hc | hc <;> simp [hc]
  · rintro rfl
    revert hc
    decide
  · rintro rfl
    revert hc
    decide

/-- A specifier with an extension of the loader ends with a letter of it. -/
theorem closes_of_hasRuntimeExtension {s : Text} (h : hasRuntimeExtension s = true) :
    ModuleText.Closes s := by
  have hmem := List.contains_iff_mem.1 h
  have hplain := isPlain_of_mem_segmentExtensions _ (List.mem_append_left _ hmem)
  obtain ⟨d, hd, hcode⟩ := last_of_mem_runtimeExtensions _ hmem
  obtain ⟨c, hc, hcase⟩ := ((Text.lower_eq_iff hplain).1 rfl).getLast? hd
  have hlast : s.getLast? = some c := by
    obtain ⟨rest, hrest⟩ := (suffix_splitExtension (Path.baseName s)).trans
      ⟨_, Path.throughLast_append_afterLast CodePoint.slash s⟩
    rw [← hrest, List.getLast?_append, hc]
    rfl
  refine closes_of_code hlast ?_
  rcases hcase with rfl | rfl
  · exact .inr (.inr (.inr hcode))
  · have hcapital : d.capital.code = d.code - 0x20 := by
      rw [CodePoint.capital, if_pos (by omega), CodePoint.code_ofNat (by omega)]
    omega

/-- **A completed specifier is closed at its end.** -/
theorem closes_addExtension {s : Text} : ModuleText.Closes (addExtension s) := by
  by_cases hslash : s.endsWith [CodePoint.slash] = true
  · rw [addExtension_of_slash hslash]
    exact closes_of_code ((Path.endsWith_slash_iff s).1 hslash) (.inl rfl)
  · by_cases hext : hasRuntimeExtension s = true
    · rw [addExtension_of_hasRuntimeExtension hext]
      exact closes_of_hasRuntimeExtension hext
    · rw [addExtension_of_bare (by simpa using hext) (by simpa using hslash)]
      have hlast : (s ++ moduleExtension).getLast? = some (CodePoint.ofChar 's') := by
        rw [List.getLast?_append]
        rfl
      exact closes_of_code hlast (.inr (.inr (.inr (.inr rfl))))

end Specifier

end ModuleBuild
