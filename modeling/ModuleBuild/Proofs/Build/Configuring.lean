/-
  ModuleBuild.Proofs.Build.Configuring
  ────────────────────────────────────
  **HOW A BUILD BEGINS.**

  Before a build does anything, it reads two documents.  What is wrong with
  the files (one is missing, is no file, is not UTF-8, is no document, holds
  no object, declares no modules) is a fault of the system or of a value, and
  ends the build with a result that tells it.

  One access is not guarded.  Compiler options that count as set and are no
  object are asked for a member, which is neither kind of fault: the build
  ends without a result.

  Main results:
    * `ofDocument_eq_error_iff` — the only documents that describe no configuration;
    * `configured_cases` — what the beginning of a build comes to;
    * `run_by_configuration` — and what the build makes of it.
-/
import ModuleBuild.Build.Run
import ModuleBuild.Proofs.Path.Normal
import ModuleBuild.Proofs.Project.Recorded
import ModuleBuild.Proofs.Run

namespace ModuleBuild

open Build (isReported)

/-! ## §1. Documents are read with reported failures only. -/

namespace FileTree

variable {t : FileTree} {p : Text} {failure : Failure}

theorem isReported_of_checkPath (h : checkPath p = .error failure) : isReported failure = true := by
  unfold checkPath at h
  split at h
  · cases h; rfl
  · split at h
    · cases h; rfl
    · cases h

theorem isReported_of_locate {aim : Aim} (h : t.locate aim p = .error failure) :
    isReported failure = true := by
  unfold locate at h
  cases hcheck : checkPath p with
  | error f =>
    rw [hcheck] at h
    cases h
    exact isReported_of_checkPath hcheck
  | ok u =>
    rw [hcheck] at h
    simp only [bind, Except.bind] at h
    split at h
    · cases h
    · cases h; rfl

theorem isReported_of_readBytes (h : t.readBytes p = .error failure) :
    isReported failure = true := by
  unfold readBytes at h
  split at h
  · rename_i hlocate
    cases h
    exact isReported_of_locate hlocate
  · cases h; rfl
  · split at h
    · cases h
    · cases h; rfl

theorem isReported_of_membersOf {v : Json} (h : v.membersOf p = .error failure) :
    isReported failure = true := by
  unfold Json.membersOf at h
  split at h
  · cases h
  · cases h
  · cases h; rfl

theorem isReported_of_readObject (h : t.readObject p = .error failure) :
    isReported failure = true := by
  unfold readObject at h
  cases hread : t.readBytes p with
  | error f =>
    rw [hread] at h
    cases h
    exact isReported_of_readBytes hread
  | ok content =>
    rw [hread] at h
    simp only [bind, Except.bind] at h
    split at h
    · cases h; rfl
    · split at h
      · cases h; rfl
      · exact isReported_of_membersOf h

end FileTree

/-- A failure that is told in the words of another is reported if the other is. -/
theorem isReported_of_retold {failure : Failure} (retold : Failure)
    (hvalue : retold.isValueFault = true) (h : isReported failure = true) :
    isReported (if failure.isValueFault then retold else failure) = true := by
  split
  · simp [isReported, hvalue]
  · exact h

theorem Config.isReported_of_readDocument {t : FileTree} {projectDir : Text} {failure : Failure}
    (h : Config.readDocument t projectDir = .error failure) : isReported failure = true := by
  unfold Config.readDocument at h
  dsimp only at h
  split at h
  · cases hread : t.readObject (Path.join projectDir Config.fileName) with
    | ok members => simp [hread] at h
    | error f =>
      rw [hread] at h
      cases h
      exact isReported_of_retold _ rfl (FileTree.isReported_of_readObject hread)
  · cases h; rfl

theorem Manifest.isReported_of_load {t : FileTree} {path : Text} {failure : Failure}
    (h : Manifest.load t path = .error failure) : isReported failure = true := by
  unfold Manifest.load at h
  split at h
  · cases hread : t.readObject path with
    | ok members => simp [hread] at h
    | error f =>
      simp only [hread] at h
      cases h
      exact isReported_of_retold _ rfl (FileTree.isReported_of_readObject hread)
  · cases h; rfl

theorem Manifest.isReported_of_loadModule {t : FileTree} {path : Text} {failure : Failure}
    (h : Manifest.loadModule t path = .error failure) : isReported failure = true := by
  unfold Manifest.loadModule at h
  cases hload : Manifest.load t path with
  | error f =>
    rw [hload] at h
    cases h
    exact Manifest.isReported_of_load hload
  | ok m =>
    rw [hload] at h
    simp only [bind, Except.bind] at h
    split at h
    · cases h
    · cases h; rfl

/-! ## §2. Which documents describe a configuration. -/

namespace Config

/-- The compiler options of a document, where they count as set and are no object. -/
def misplaced? (document : Json.Members) : Option Json :=
  (Json.lookup? "compilerOptions" document).filter fun v => v.isTruthy && v.members?.isNone

/-- Options that are not misplaced are an object, be it the one that stands for none. -/
theorem orElse_of_not_misplaced {document : Json.Members} (h : misplaced? document = none) :
    ∃ options, ((Json.lookup? "compilerOptions" document).getD .null).orElse (.object [])
      = .object options := by
  unfold misplaced? at h
  cases hlookup : Json.lookup? "compilerOptions" document with
  | none => exact ⟨[], rfl⟩
  | some v =>
    rw [hlookup] at h
    cases htruthy : v.isTruthy with
    | false => exact ⟨[], by simp [Json.orElse, htruthy]⟩
    | true =>
      cases v with
      | object options => exact ⟨options, by simp [Json.orElse, htruthy]⟩
      | _ => simp [htruthy, Json.members?] at h

/-- Misplaced options are looked at as they are, and have no members. -/
theorem orElse_of_misplaced {document : Json.Members} {v : Json} (h : misplaced? document = some v) :
    ((Json.lookup? "compilerOptions" document).getD .null).orElse (.object []) = v
      ∧ ∀ key, v.member key = .error (.noMember v.kindName) := by
  obtain ⟨hlookup, hkind⟩ := Option.filter_eq_some_iff.1 h
  obtain ⟨htruthy, hmembers⟩ := Bool.and_eq_true_iff.1 hkind
  refine ⟨by rw [hlookup, Option.getD_some, Json.orElse, if_pos htruthy], fun key => ?_⟩
  cases v with
  | object options => simp [Json.members?] at hmembers
  | _ => rfl

/-- Every option is looked up with a default, except that the compiler options have to be an object
if they are set: only then is there no configuration. -/
theorem ofDocument_eq_error_iff {projectDir : Text} {document : Json.Members} {failure : Failure} :
    ofDocument projectDir (.object document) = .error failure ↔
      ∃ v, misplaced? document = some v ∧ failure = .noMember v.kindName := by
  unfold ofDocument
  simp only [Json.member.eq_1, bind, Except.bind, pure, Except.pure]
  cases h : misplaced? document with
  | none =>
    obtain ⟨options, hoptions⟩ := orElse_of_not_misplaced h
    simp [hoptions, Json.member.eq_1]
  | some v =>
    obtain ⟨hv, hmember⟩ := orElse_of_misplaced h
    simp [hv, hmember, eq_comm]

end Config

/-! ## §3. What the beginning of a build comes to. -/

namespace Build

variable (tools : Toolchain) (request : BuildRequest) (w : World)

/-- The directory of the project that a build is asked for. -/
def projectOf : Text := w.tree.absolute request.projectDir

/-- The world in which a build looks for its configuration. -/
def begun : World :=
  { w with events := w.events ++ [.logged ⟨.info, logger, "typebuild Build Started..."⟩] }

/-- The configuration that the two documents of a project give, with its warnings. -/
def configured : Except Failure (Config × List Text) := do
  let document ← Config.readDocument w.tree (projectOf request w)
  let (config, warnings) ← Config.ofDocument (projectOf request w) (.object document)
  let _ ← Manifest.loadModule w.tree (Manifest.pathIn (projectOf request w))
  return (config.override request.overrides, warnings)

/-- Reading the configuration changes nothing. -/
theorem runOn_configure :
    (configure (projectOf request w) request.overrides).runOn (begun w)
      = (configured request w, begun w) := by
  have habs : (begun w).tree.absolute (projectOf request w) = projectOf request w :=
    FileTree.absolute_absolute w.tree request.projectDir
  have hload : (Config.load (projectOf request w)).runOn (begun w)
      = ((do
          let document ← Config.readDocument w.tree (projectOf request w)
          Config.ofDocument (projectOf request w) (.object document)), begun w) := by
    have hview : (Action.view (·.absolute (projectOf request w))).runOn (begun w)
        = (.ok ((begun w).tree.absolute (projectOf request w)), begun w) := rfl
    rw [habs] at hview
    rw [Config.load, Action.runOn_bind, hview]
    exact Action.runOn_bind_of_still (Action.runOn_ask _ _) fun _ => Action.runOn_ask _ _
  have hmanifest (r : Config × List Text) :
      ((liftM (Edit.ask (Manifest.loadModule · (Manifest.pathIn (projectOf request w)))) : Action _)
          >>= fun _ => pure (r.1.override request.overrides, r.2)).runOn (begun w)
        = (Manifest.loadModule w.tree (Manifest.pathIn (projectOf request w))
            >>= fun _ => .ok (r.1.override request.overrides, r.2), begun w) :=
    Action.runOn_bind_of_still (Action.runOn_ask _ _) fun _ => rfl
  refine (Action.runOn_bind_of_still hload hmanifest).trans ?_
  rw [bind_assoc]
  rfl

/-- What it takes for a project to be configured. -/
theorem configured_eq_ok_iff {config : Config} {warnings : List Text} :
    configured request w = .ok (config, warnings)
      ↔ ∃ document described m, Config.readDocument w.tree (projectOf request w) = .ok document
          ∧ Config.ofDocument (projectOf request w) (.object document) = .ok (described, warnings)
          ∧ Manifest.load w.tree (Manifest.pathIn (projectOf request w)) = .ok m
          ∧ m.isModule = true ∧ config = described.override request.overrides := by
  unfold configured Manifest.loadModule
  constructor
  -- whichever part fails, the whole fails with it
  · intro h
    cases hread : Config.readDocument w.tree (projectOf request w) with
    | error failure =>
      rw [hread] at h
      cases h
    | ok document =>
      rw [hread] at h
      simp only [bind, Except.bind] at h
      cases hof : Config.ofDocument (projectOf request w) (.object document) with
      | error failure =>
        rw [hof] at h
        cases h
      | ok r =>
        obtain ⟨described, warnings'⟩ := r
        rw [hof] at h
        dsimp only at h
        cases hload : Manifest.load w.tree (Manifest.pathIn (projectOf request w)) with
        | error failure =>
          rw [hload] at h
          cases h
        | ok m =>
          rw [hload] at h
          dsimp only at h
          cases hmodule : m.isModule with
          | false =>
            rw [hmodule] at h
            cases h
          | true =>
            rw [hmodule] at h
            cases h
            exact ⟨document, described, m, rfl, hof, rfl, hmodule, rfl⟩
  · rintro ⟨document, described, m, hread, hof, hload, hmodule, rfl⟩
    simp only [bind, Except.bind, hread, hof, hload, hmodule, if_pos]
    rfl

/-- The two documents give a configuration, or fail with a reported failure, or the compiler options
are out of place. -/
theorem configured_cases :
    (∃ r, configured request w = .ok r)
      ∨ (∃ failure, configured request w = .error failure ∧ isReported failure = true)
      ∨ ∃ document v, Config.readDocument w.tree (projectOf request w) = .ok document
          ∧ Config.misplaced? document = some v := by
  unfold configured
  cases hread : Config.readDocument w.tree (projectOf request w) with
  | error failure => exact .inr (.inl ⟨failure, rfl, Config.isReported_of_readDocument hread⟩)
  | ok document =>
    cases hmis : Config.misplaced? document with
    | some v => exact .inr (.inr ⟨document, v, rfl, hmis⟩)
    | none =>
      cases hof : Config.ofDocument (projectOf request w) (.object document) with
      | error failure =>
        obtain ⟨v, hv, -⟩ := Config.ofDocument_eq_error_iff.1 hof
        rw [hmis] at hv
        cases hv
      | ok r =>
        cases hload : Manifest.loadModule w.tree (Manifest.pathIn (projectOf request w)) with
        | error failure =>
          exact .inr (.inl ⟨failure, by simp [bind, Except.bind, hof],
            Manifest.isReported_of_loadModule hload⟩)
        | ok m =>
          exact .inl ⟨(r.1.override request.overrides, r.2), by simp [bind, Except.bind, hof]; rfl⟩

/-- Compiler options that are out of place are asked for a member. -/
theorem configured_of_misplaced {document : Json.Members} {v : Json}
    (hread : Config.readDocument w.tree (projectOf request w) = .ok document)
    (hv : Config.misplaced? document = some v) :
    configured request w = .error (.noMember v.kindName) := by
  have hof : Config.ofDocument (projectOf request w) (.object document)
      = .error (.noMember v.kindName) := Config.ofDocument_eq_error_iff.2 ⟨v, hv, rfl⟩
  simp [configured, bind, Except.bind, hread, hof]

/-! ## §4. What the build makes of it. -/

/-- A build goes on with its configuration, ends with a failed result, or ends without any. -/
theorem runOn_run :
    (run tools request).runOn w
      = match configured request w with
        | .ok (config, warnings) =>
          (runConfigured tools request (projectOf request w) config warnings).runOn (begun w)
        | .error failure =>
          if isReported failure then
            (fail failure.message (projectOf request w) none [] [] request.durationMs).runOn (begun w)
          else (.error failure, begun w) := by
  have hview : (Action.view (·.absolute request.projectDir)).runOn w
      = (.ok (projectOf request w), w) := rfl
  rw [run, Action.runOn_bind, hview]
  dsimp only
  rw [Action.runOn_bind, Action.runOn_log]
  dsimp only
  rw [← begun, Action.runOn_bind, Action.runOn_tryCatch, Action.runOn_bind, runOn_configure]
  cases configured request w with
  | ok r => rfl
  | error failure =>
    dsimp only
    cases isReported failure <;> rfl

/-- A failed result leaves the tree as it was. -/
theorem runOn_fail (error projectDir : Text) (config : Option Config)
    (warnings entryPoints : List Text) (durationMs : Int) (u : World) :
    ∃ events, (fail error projectDir config warnings entryPoints durationMs).runOn u
      = (.ok (.failed error projectDir config warnings entryPoints durationMs), ⟨u.tree, events⟩) :=
  ⟨_, rfl⟩

/-- **A build begins with a configuration or ends with a result.**  Unless the compiler options
count as set and are no object, the configuration phase succeeds or fails as the system or a value
does, and then the build returns a failed result with the words of the failure and has changed
nothing.  Options out of place end the phase, and the build with it, without a result. -/
theorem run_by_configuration :
    ((∀ document, Config.readDocument w.tree (projectOf request w) = .ok document →
        Config.misplaced? document = none) →
      (∃ config warnings,
        (configure (projectOf request w) request.overrides).runOn (begun w)
            = (.ok (config, warnings), begun w)
          ∧ (run tools request).runOn w
            = (runConfigured tools request (projectOf request w) config warnings).runOn (begun w))
      ∨ ∃ failure r events,
        (configure (projectOf request w) request.overrides).runOn (begun w)
            = (.error failure, begun w)
          ∧ (failure.isSystemFault = true ∨ failure.isValueFault = true)
          ∧ (run tools request).runOn w = (.ok r, ⟨w.tree, events⟩)
          ∧ r.ok = false ∧ r.exitCode = BuildResult.exitFailure ∧ r.error = failure.message)
    ∧ ∀ document v, Config.readDocument w.tree (projectOf request w) = .ok document →
        Config.misplaced? document = some v →
        (configure (projectOf request w) request.overrides).runOn (begun w)
            = (.error (.noMember v.kindName), begun w)
          ∧ (run tools request).runOn w = (.error (.noMember v.kindName), begun w) := by
  rw [runOn_configure, runOn_run]
  constructor
  · intro hplaced
    obtain ⟨⟨config, warnings⟩, hok⟩ | ⟨failure, herror, hreported⟩ | ⟨document, v, hread, hv⟩ :=
      configured_cases request w
    · exact .inl ⟨config, warnings, by rw [hok], by rw [hok]⟩
    -- a failure that is reported ends the build with a result
    · obtain ⟨events, hfail⟩ := runOn_fail failure.message (projectOf request w) none [] []
        request.durationMs (begun w)
      refine .inr ⟨failure, .failed failure.message (projectOf request w) none [] []
        request.durationMs, events, by rw [herror], Bool.or_eq_true_iff.1 hreported, ?_,
        rfl, rfl, rfl⟩
      rw [herror]
      dsimp only
      rw [if_pos hreported, hfail]
      rfl
    · rw [hplaced document hread] at hv
      cases hv
  · intro document v hread hv
    rw [configured_of_misplaced request w hread hv]
    exact ⟨rfl, rfl⟩

/-- A configuration whose compiler options are a list. -/
def listedOptions : Json.Members := [("compilerOptions", .array [.string "strict"])]

/-- A project with this configuration. -/
def listedProject : FileTree :=
  ⟨[("tsconfig.json",
      .file ("\x7b\n  \"compilerOptions\": [\n    \"strict\"\n  ]\n\x7d\n".toUTF8.toList)),
    ("package.json", .file ("\x7b\n  \"type\": \"module\"\n\x7d\n".toUTF8.toList))], [], .closed⟩

/-- A plain build of it. -/
def plainRequest : BuildRequest := ⟨"/", ⟨none, none, none⟩, false, none, 0⟩

/-- The build returns no result, and no failure that it could have told in one. -/
theorem run_listedProject :
    ∃ failure, ((run .builtIn plainRequest).runOn ⟨listedProject, []⟩).1 = .error failure
      ∧ failure.isSystemFault = false ∧ failure.isValueFault = false := by
  have hwritable : Json.Writable (.object listedOptions) := by
    refine .object (by simp [listedOptions]) fun m hm => ?_
    rw [List.mem_singleton.1 hm]
    exact .array fun v hv => by rw [List.mem_singleton.1 hv]; exact .string _
  have hencode : Utf8.encode (Json.render (.object listedOptions) ++ [CodePoint.lineFeed])
      = .ok ("\x7b\n  \"compilerOptions\": [\n    \"strict\"\n  ]\n\x7d\n".toUTF8.toList) := by cbv
  have hread : listedProject.readObject "/tsconfig.json" = .ok listedOptions :=
    FileTree.readObject_saved hwritable hencode (by cbv)
  have hproject : projectOf plainRequest ⟨listedProject, []⟩ = "/" := by decide
  have hpath : Path.join "/" Config.fileName = "/tsconfig.json" := by decide
  have hfile : listedProject.namesFile "/tsconfig.json" = true := by cbv
  have hdocument : Config.readDocument listedProject (projectOf plainRequest ⟨listedProject, []⟩)
      = .ok listedOptions := by
    rw [hproject, Config.readDocument, hpath, if_pos hfile, hread]
  refine ⟨.noMember "list", ?_, rfl, rfl⟩
  rw [runOn_run, configured_of_misplaced plainRequest ⟨listedProject, []⟩ hdocument rfl]
  rfl

end Build

end ModuleBuild
