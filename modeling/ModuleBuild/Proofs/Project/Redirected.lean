/-
  ModuleBuild.Proofs.Project.Redirected
  ─────────────────────────────────────
  **OVERRIDES, AND A DOCUMENT THAT SAYS THE SAME.**

  What the command line overrides could as well stand in the document.  Both
  ways lead to one configuration but for what is ignored: a configuration does
  not remember what it was asked to ignore, so an override takes the former
  output directory out of the ignored set by its name and by its path, even
  where that name or path was asked for.

  Main results:
    * `Sectioned.ofDocument_described` — the configuration of a document with both sections, field by field;
    * `mem_ignored_override_iff` — what is ignored on either way;
    * `override_redirected` — both ways agree unless the override loses a name that was asked for.
-/
import ModuleBuild.Proofs.Project.OutputDir

namespace ModuleBuild

namespace Config

/-! ## §1. The configuration of a document. -/

/-- The value of an option; what is missing is null. -/
def option (key : Text) (section' : Json.Members) : Json := (Json.lookup? key section').getD .null

/-- An option as text, or what stands for it if it does not count as set. -/
def optionText (key fallback : Text) (section' : Json.Members) : Text :=
  ((option key section').orElse (.string fallback)).plainText

/-- The configuration that the compiler options and the options of the build describe. -/
def described (projectDir : Text) (compiler options : Json.Members) : Config where
  projectDir := projectDir
  rootDir := Path.resolveAgainst projectDir (optionText "rootDir" Path.here compiler)
  outDir := Path.resolveAgainst projectDir (optionText "outDir" defaultOutDir compiler)
  outDirName := cleanOutDir (optionText "outDir" defaultOutDir compiler)
  ignoredDirs := effectiveIgnored (textsOf "ignoredDirs" (option "ignoredDirs" options)).1
    (cleanOutDir (optionText "outDir" defaultOutDir compiler))
    (some (Path.resolveAgainst projectDir (optionText "outDir" defaultOutDir compiler)))
  indexFileName := indexFile (some (optionText "indexFile" defaultIndex options))
  markerNames := (textsOf "typeFileNames" (option "typeFileNames" options)).1
  assetPaths := (textsOf "staticFiles" (option "staticFiles" options)).1
  indexPath :=
    if (option "indexPath" options).isTruthy then
      some (Path.normalize (Path.toForwardSlashes (option "indexPath" options).plainText))
    else none
  strict := (option "strict" compiler).isTruthy

/-- A document with both sections. -/
structure Sectioned (members compiler options : Json.Members) : Prop where
  compiler : Json.lookup? "compilerOptions" members = some (.object compiler)
  options : Json.lookup? "typebuild" members = some (.object options)

variable {projectDir : Text} {members compiler options : Json.Members} {o : Overrides} {n : Text}

theorem Sectioned.ofDocument_described (h : Sectioned members compiler options) (projectDir : Text) :
    ∃ warnings, ofDocument projectDir (.object members)
      = .ok (described projectDir compiler options, warnings) := by
  have hcompiler : (Json.object compiler).orElse (.object []) = .object compiler := by
    cases compiler <;> rfl
  unfold ofDocument
  simp only [Json.member, h.compiler, h.options, Option.getD_some, bind, Except.bind, hcompiler]
  exact ⟨_, rfl⟩

/-! ## §2. What is overridden, in the document. -/

/-- A section with the text of an option set, if it is given. -/
def setGiven (key : Text) (value : Option Text) (section' : Json.Members) : Json.Members :=
  match given value with
  | none => section'
  | some t => Json.setMember key (.string t) section'

/-- The document with what the command line changes. -/
def redirected (o : Overrides) (members compiler options : Json.Members) : Json.Members :=
  Json.setMember "typebuild" (.object (setGiven "indexFile" o.indexFileName options))
    (Json.setMember "compilerOptions"
      (.object (setGiven "rootDir" o.rootDir (setGiven "outDir" o.outDir compiler))) members)

theorem Sectioned.redirected (o : Overrides) (members compiler options : Json.Members) :
    Sectioned (redirected o members compiler options)
      (setGiven "rootDir" o.rootDir (setGiven "outDir" o.outDir compiler))
      (setGiven "indexFile" o.indexFileName options) where
  compiler := by
    unfold Config.redirected
    rw [Json.lookup_setMember_of_ne (by decide), Json.lookup_setMember_self]
  options := Json.lookup_setMember_self ..

theorem ne_nil_of_given {value : Option Text} {t : Text} (h : given value = some t) : t ≠ [] := by
  have h := (Option.filter_eq_some_iff.1 h).2
  simpa using h

theorem option_setGiven_of_ne {key k : Text} (h : k ≠ key) (value : Option Text)
    (section' : Json.Members) : option k (setGiven key value section') = option k section' := by
  unfold option setGiven
  cases given value with
  | none => rfl
  | some t => rw [Json.lookup_setMember_of_ne h]

theorem optionText_setGiven_of_ne {key k : Text} (h : k ≠ key) (value : Option Text) (fallback : Text)
    (section' : Json.Members) :
    optionText k fallback (setGiven key value section') = optionText k fallback section' := by
  unfold optionText
  rw [option_setGiven_of_ne h]

theorem optionText_setGiven (key : Text) (value : Option Text) (fallback : Text)
    (section' : Json.Members) :
    optionText key fallback (setGiven key value section')
      = (given value).getD (optionText key fallback section') := by
  unfold optionText option setGiven
  cases h : given value with
  | none => rfl
  | some t =>
    obtain ⟨c, t, rfl⟩ := List.exists_cons_of_ne_nil (ne_nil_of_given h)
    rw [Json.lookup_setMember_self]
    rfl

/-- Both ways lead to the same, but for what is ignored. -/
theorem override_described (projectDir : Text) (compiler options : Json.Members) (o : Overrides) :
    let config' := described projectDir
      (setGiven "rootDir" o.rootDir (setGiven "outDir" o.outDir compiler))
      (setGiven "indexFile" o.indexFileName options)
    { (described projectDir compiler options).override o with ignoredDirs := config'.ignoredDirs }
      = config' := by
  -- an option that is set is read as it was given, the others are read as before
  have hout : optionText "outDir" defaultOutDir
      (setGiven "rootDir" o.rootDir (setGiven "outDir" o.outDir compiler))
        = (given o.outDir).getD (optionText "outDir" defaultOutDir compiler) := by
    rw [optionText_setGiven_of_ne (by decide), optionText_setGiven]
  have hroot : optionText "rootDir" Path.here
      (setGiven "rootDir" o.rootDir (setGiven "outDir" o.outDir compiler))
        = (given o.rootDir).getD (optionText "rootDir" Path.here compiler) := by
    rw [optionText_setGiven, optionText_setGiven_of_ne (by decide)]
  have hindex := optionText_setGiven "indexFile" o.indexFileName defaultIndex options
  have hstrict : option "strict" (setGiven "rootDir" o.rootDir (setGiven "outDir" o.outDir compiler))
      = option "strict" compiler := by
    rw [option_setGiven_of_ne (by decide), option_setGiven_of_ne (by decide)]
  have hrest : ∀ k ∈ (["ignoredDirs", "typeFileNames", "staticFiles", "indexPath"] : List Text),
      option k (setGiven "indexFile" o.indexFileName options) = option k options := by
    intro k hk
    refine option_setGiven_of_ne ?_ _ _
    rintro rfl
    revert hk
    decide
  dsimp only
  unfold described
  rw [hout, hroot, hindex, hstrict, hrest "ignoredDirs" (by decide), hrest "typeFileNames" (by decide),
    hrest "staticFiles" (by decide), hrest "indexPath" (by decide)]
  unfold override
  cases given o.outDir <;> cases given o.rootDir <;> cases given o.indexFileName <;> rfl

/-! ## §3. What is ignored. -/

/-- The directories that the options ask to ignore, as they are compared. -/
def asked (options : Json.Members) : List Text :=
  ((textsOf "ignoredDirs" (option "ignoredDirs" options)).1.map Text.trim).filter (· ≠ [])

theorem mem_effectiveIgnored_iff {configured : List Text} {name dir : Text}
    (hdir : Path.normalize dir = dir) :
    n ∈ effectiveIgnored configured name (some dir)
      ↔ n ∈ (configured.map Text.trim).filter (· ≠ []) ∨ n ∈ alwaysIgnored ∨ n = name ∨ n = dir := by
  have hne : dir ≠ [] := hdir ▸ Path.normalize_ne_nil dir
  unfold effectiveIgnored
  dsimp only
  rw [if_neg hne, hdir, NameSet.mem_insert, NameSet.mem_insert, NameSet.mem_insertMany,
    NameSet.mem_ofList]
  constructor
  · rintro (h | h | h | h)
    · exact .inr (.inr (.inr h))
    · exact .inr (.inr (.inl h))
    · exact .inr (.inl h)
    · exact .inl h
  · rintro (h | h | h | h)
    · exact .inr (.inr (.inr h))
    · exact .inr (.inr (.inl h))
    · exact .inr (.inl h)
    · exact .inl h

theorem normalize_resolveAgainst (base raw : Text) :
    Path.normalize (Path.resolveAgainst base raw) = Path.resolveAgainst base raw := by
  unfold Path.resolveAgainst
  split <;> exact Path.normalize_normalize _

theorem mem_ignored_described :
    n ∈ (described projectDir compiler options).ignoredDirs
      ↔ n ∈ asked options ∨ n ∈ alwaysIgnored
        ∨ n = (described projectDir compiler options).outDirName
        ∨ n = (described projectDir compiler options).outDir :=
  mem_effectiveIgnored_iff (normalize_resolveAgainst ..)

/-- What was asked for is compared as it is. -/
theorem trim_of_mem_asked (h : n ∈ asked options) : Text.trim n = n ∧ n ≠ [] := by
  obtain ⟨hmem, hne⟩ := List.mem_filter.1 h
  obtain ⟨m, -, rfl⟩ := List.mem_map.1 hmem
  exact ⟨Text.trim_trim m, by simpa using hne⟩

/-- What an override of the output directory ignores, if what else is ignored is compared as it is. -/
theorem mem_ignored_withOutDir {config : Config} {dir : Text}
    (htrim : ∀ m ∈ config.ignoredDirs, m ≠ config.outDirName → m ≠ config.outDir →
      Text.trim m = m ∧ m ≠ []) :
    n ∈ (config.withOutDir dir).ignoredDirs
      ↔ (n ∈ config.ignoredDirs ∧ n ≠ config.outDirName ∧ n ≠ config.outDir)
        ∨ n ∈ alwaysIgnored ∨ n = cleanOutDir dir ∨ n = Path.resolveAgainst config.projectDir dir := by
  have hmem : ∀ m, m ∈ ((config.ignoredDirs.erase config.outDirName).erase config.outDir).toList
      ↔ m ∈ config.ignoredDirs ∧ m ≠ config.outDirName ∧ m ≠ config.outDir := by
    intro m
    rw [← NameSet.mem_def, NameSet.mem_erase, NameSet.mem_erase, and_assoc]
  unfold withOutDir
  dsimp only
  rw [mem_effectiveIgnored_iff (normalize_resolveAgainst ..), ← hmem]
  generalize ((config.ignoredDirs.erase config.outDirName).erase config.outDir).toList = kept at hmem
  -- what is kept went through the same normalisation before, which changes nothing now
  have htrim' : ∀ m ∈ kept, Text.trim m = m ∧ m ≠ [] := fun m hm =>
    have ⟨hignored, hname, hdir⟩ := (hmem m).1 hm
    htrim m hignored hname hdir
  have hmap : kept.map Text.trim = kept :=
    (List.map_congr_left fun m hm => (htrim' m hm).1).trans (List.map_id' kept)
  rw [hmap, List.filter_eq_self.2 fun m hm => by simpa using (htrim' m hm).2]

/-- An override keeps what was asked for and what always is ignored, but for the former output
directory. -/
theorem mem_ignored_withOutDir_described {dir : Text} :
    n ∈ ((described projectDir compiler options).withOutDir dir).ignoredDirs
      ↔ (n ∈ asked options ∧ n ≠ (described projectDir compiler options).outDirName
          ∧ n ≠ (described projectDir compiler options).outDir)
        ∨ n ∈ alwaysIgnored ∨ n = cleanOutDir dir ∨ n = Path.resolveAgainst projectDir dir := by
  have halways : ∀ m ∈ alwaysIgnored, Text.trim m = m ∧ m ≠ [] := by decide
  have htrim : ∀ m ∈ (described projectDir compiler options).ignoredDirs,
      m ≠ (described projectDir compiler options).outDirName →
      m ≠ (described projectDir compiler options).outDir → Text.trim m = m ∧ m ≠ [] := by
    intro m hm hname hdir
    rcases mem_ignored_described.1 hm with h | h | h | h
    · exact trim_of_mem_asked h
    · exact halways m h
    · exact absurd h hname
    · exact absurd h hdir
  rw [mem_ignored_withOutDir htrim, mem_ignored_described]
  constructor
  · rintro (⟨h | h | h | h, hname, hdir⟩ | h)
    · exact .inl ⟨h, hname, hdir⟩
    · exact .inr (.inl h)
    · exact absurd h hname
    · exact absurd h hdir
    · exact .inr h
  · rintro (⟨h, hname, hdir⟩ | h)
    · exact .inl ⟨.inl h, hname, hdir⟩
    · exact .inr h

/-- A name that is asked for and that an override loses: the former output directory has it by its
name or its path, and neither is it always ignored nor is it the new one. -/
structure Lost (projectDir : Text) (compiler options : Json.Members) (o : Overrides) (n : Text) :
    Prop where
  asked : n ∈ asked options
  former : n = (described projectDir compiler options).outDirName
    ∨ n = (described projectDir compiler options).outDir
  notAlways : n ∉ alwaysIgnored
  notNew : ∃ dir, given o.outDir = some dir ∧ n ≠ cleanOutDir dir ∧ n ≠ Path.resolveAgainst projectDir dir

/-- What is ignored when the document says it all. -/
theorem mem_ignored_redirected (projectDir : Text) (compiler options : Json.Members) (o : Overrides) :
    n ∈ (described projectDir (setGiven "rootDir" o.rootDir (setGiven "outDir" o.outDir compiler))
        (setGiven "indexFile" o.indexFileName options)).ignoredDirs
      ↔ n ∈ asked options ∨ n ∈ alwaysIgnored
        ∨ n = cleanOutDir ((given o.outDir).getD (optionText "outDir" defaultOutDir compiler))
        ∨ n = Path.resolveAgainst projectDir
            ((given o.outDir).getD (optionText "outDir" defaultOutDir compiler)) := by
  have hout : optionText "outDir" defaultOutDir
      (setGiven "rootDir" o.rootDir (setGiven "outDir" o.outDir compiler))
        = (given o.outDir).getD (optionText "outDir" defaultOutDir compiler) := by
    rw [optionText_setGiven_of_ne (by decide), optionText_setGiven]
  rw [mem_ignored_described]
  unfold described asked
  rw [hout, option_setGiven_of_ne (by decide)]

/-- What is ignored on either way. -/
theorem mem_ignored_override_iff (projectDir : Text) (compiler options : Json.Members)
    (o : Overrides) (n : Text) :
    n ∈ ((described projectDir compiler options).override o).ignoredDirs
      ↔ n ∈ (described projectDir
            (setGiven "rootDir" o.rootDir (setGiven "outDir" o.outDir compiler))
            (setGiven "indexFile" o.indexFileName options)).ignoredDirs
        ∧ ¬ Lost projectDir compiler options o n := by
  rw [ignoredDirs_override, mem_ignored_redirected]
  cases hgiven : given o.outDir with
  | none =>
    have hnot : ¬ Lost projectDir compiler options o n := by
      rintro ⟨-, -, -, dir, hdir, -⟩
      rw [hgiven] at hdir
      cases hdir
    rw [and_iff_left hnot]
    exact mem_ignored_described
  | some dir =>
    have hlost : Lost projectDir compiler options o n ↔ n ∈ asked options
        ∧ (n = (described projectDir compiler options).outDirName
          ∨ n = (described projectDir compiler options).outDir)
        ∧ n ∉ alwaysIgnored ∧ n ≠ cleanOutDir dir ∧ n ≠ Path.resolveAgainst projectDir dir := by
      constructor
      · rintro ⟨hasked, hformer, hnever, dir', hdir', hnew⟩
        rw [hgiven] at hdir'
        cases hdir'
        exact ⟨hasked, hformer, hnever, hnew⟩
      · rintro ⟨hasked, hformer, hnever, hnew⟩
        exact ⟨hasked, hformer, hnever, dir, hgiven, hnew⟩
    show n ∈ ((described projectDir compiler options).withOutDir dir).ignoredDirs ↔ _
    rw [mem_ignored_withOutDir_described, hlost, Option.getD_some]
    constructor
    · rintro (⟨hasked, hname, hdir⟩ | h)
      · exact ⟨.inl hasked, fun hlost => hlost.2.1.elim hname hdir⟩
      · exact ⟨.inr h, fun ⟨_, _, hnever, hname, hdir⟩ => h.elim hnever fun h => h.elim hname hdir⟩
    · rintro ⟨hasked | h, hkept⟩
      · -- what was asked for is kept, or the new directory or the list of all builds brings it back
        by_cases hnew : n ∈ alwaysIgnored ∨ n = cleanOutDir dir ∨ n = Path.resolveAgainst projectDir dir
        · exact .inr hnew
        · obtain ⟨hnever, hnew⟩ := not_or.1 hnew
          have hlost := fun hformer => hkept ⟨hasked, hformer, hnever, not_or.1 hnew⟩
          exact .inl ⟨hasked, fun hname => hlost (.inl hname), fun hdir => hlost (.inr hdir)⟩
      · exact .inr h

/-! ## §4. Both ways. -/

/-- **Both ways agree unless the override loses a name that was asked for**, and differ in those names
alone. -/
theorem override_redirected (h : Sectioned members compiler options) (projectDir : Text)
    (o : Overrides) :
    ∃ config warnings config' warnings',
      ofDocument projectDir (.object members) = .ok (config, warnings)
      ∧ ofDocument projectDir (.object (redirected o members compiler options))
          = .ok (config', warnings')
      ∧ { config.override o with ignoredDirs := config'.ignoredDirs } = config'
      ∧ (∀ n, n ∈ (config.override o).ignoredDirs
          ↔ n ∈ config'.ignoredDirs ∧ ¬ Lost projectDir compiler options o n)
      ∧ (config.override o = config' ↔ ∀ n, ¬ Lost projectDir compiler options o n) := by
  obtain ⟨warnings, hconfig⟩ := h.ofDocument_described projectDir
  obtain ⟨warnings', hconfig'⟩ :=
    (Sectioned.redirected o members compiler options).ofDocument_described projectDir
  have hsame := override_described projectDir compiler options o
  have hmem := mem_ignored_override_iff projectDir compiler options o
  refine ⟨_, warnings, _, warnings', hconfig, hconfig', hsame, hmem, ?_, ?_⟩
  · intro heq n hlost
    have hignored := (mem_ignored_redirected projectDir compiler options o).2 (.inl hlost.asked)
    rw [← heq] at hignored
    exact ((hmem n).1 hignored).2 hlost
  · intro hnone
    rw [← hsame]
    have hsets := NameSet.ext_mem fun n => (hmem n).trans (and_iff_left (hnone n))
    rw [← hsets]

/-- A project that ignores temporary files, and by its name the directory that is the output. -/
def shelvedCompiler : Json.Members := [("outDir", .string "./dist")]

/-- What the project asks to ignore. -/
def shelvedOptions : Json.Members := [("ignoredDirs", .array [.string "tmp", .string "dist"])]

/-- The document of the project. -/
def shelvedMembers : Json.Members :=
  [("compilerOptions", .object shelvedCompiler), ("typebuild", .object shelvedOptions)]

/-- The output directory spelled in another way: what was asked for stays ignored, under the name of
the new directory. -/
theorem override_redirected_shelved :
    Sectioned shelvedMembers shelvedCompiler shelvedOptions
      ∧ ∃ config warnings config' warnings',
        ofDocument "/p" (.object shelvedMembers) = .ok (config, warnings)
        ∧ ofDocument "/p" (.object (redirected ⟨some "dist/", some "src", none⟩ shelvedMembers
            shelvedCompiler shelvedOptions)) = .ok (config', warnings')
        ∧ config.override ⟨some "dist/", some "src", none⟩ = config' := by
  have hsections : Sectioned shelvedMembers shelvedCompiler shelvedOptions := ⟨rfl, rfl⟩
  obtain ⟨config, warnings, config', warnings', hconfig, hconfig', -, -, hiff⟩ :=
    override_redirected hsections "/p" ⟨some "dist/", some "src", none⟩
  refine ⟨hsections, config, warnings, config', warnings', hconfig, hconfig', hiff.2 ?_⟩
  rintro n ⟨hasked, hformer, -, dir, hdir, hname, -⟩
  have hdir : dir = "dist/" := (Option.some.inj hdir).symm
  subst hdir
  have hall : ∀ m ∈ asked shelvedOptions, m = "tmp" ∨ m = cleanOutDir "dist/" := by decide
  rcases hall n hasked with rfl | h
  · revert hformer
    decide
  · exact hname h

/-- **What was asked for is lost with the former output directory.**  The document that says the same
keeps it. -/
theorem override_shelved_loses_name :
    ∃ config warnings config' warnings',
      ofDocument "/p" (.object shelvedMembers) = .ok (config, warnings)
      ∧ ofDocument "/p" (.object (redirected ⟨some "build", none, none⟩ shelvedMembers shelvedCompiler
          shelvedOptions)) = .ok (config', warnings')
      ∧ ("dist" : Text) ∉ (config.override ⟨some "build", none, none⟩).ignoredDirs
      ∧ ("dist" : Text) ∈ config'.ignoredDirs
      ∧ config.override ⟨some "build", none, none⟩ ≠ config' := by
  have hsections : Sectioned shelvedMembers shelvedCompiler shelvedOptions := ⟨rfl, rfl⟩
  obtain ⟨warnings, hconfig⟩ := hsections.ofDocument_described "/p"
  obtain ⟨warnings', hconfig'⟩ :=
    (Sectioned.redirected ⟨some "build", none, none⟩ shelvedMembers shelvedCompiler
      shelvedOptions).ofDocument_described "/p"
  have hlost : Lost "/p" shelvedCompiler shelvedOptions ⟨some "build", none, none⟩ "dist" :=
    ⟨by decide, .inl (by decide), by decide, "build", rfl, by decide, by decide⟩
  have hdirect := (mem_ignored_redirected "/p" shelvedCompiler shelvedOptions
    ⟨some "build", none, none⟩).2 (.inl hlost.asked)
  have hpatched := fun h => ((mem_ignored_override_iff "/p" shelvedCompiler shelvedOptions
    ⟨some "build", none, none⟩ "dist").1 h).2 hlost
  refine ⟨_, warnings, _, warnings', hconfig, hconfig', hpatched, hdirect, ?_⟩
  intro heq
  rw [← heq] at hdirect
  exact hpatched hdirect

end Config

end ModuleBuild
