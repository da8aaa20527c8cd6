/-
  ModuleBuild.Proofs.Project.Started
  ──────────────────────────────────
  **WHAT THE START SCRIPT RUNS.**

  The start script names the entry module from the project's directory: it
  puts the names that lead there from the output behind the name of the
  output directory.  Both that name and the directory's path come from one
  text, but each in its own way.  The name has forward slashes, which the
  path has not, and a name of which nothing is left stands for the project's
  directory, where the path stands for the root.  Where the text has neither
  backslashes nor slashes alone, the script runs the module that was found.

  Main results:
    * `NamedBy.override` — the output directory and its name come from one text, by one step of overrides;
    * `resolveAgainst_cleanOutDir` — where the name leads to the directory;
    * `startScript_runs_entry` — the script runs the module that was found just where the name leads to
      the directory.
-/
import ModuleBuild.Build.Run
import ModuleBuild.Proofs.Output.EntryFound
import ModuleBuild.Proofs.Path.Resolving
import ModuleBuild.Proofs.Project.OutputDir

namespace ModuleBuild

open FileTree

namespace Config

variable {config : Config} {base raw : Text}

/-! ## §1. The text behind the output directory. -/

/-- The output directory of a project and its name are those of a text. -/
structure NamedBy (base raw : Text) (config : Config) : Prop where
  projectDir : config.projectDir = base
  outDir : config.outDir = Path.resolveAgainst base raw
  outDirName : config.outDirName = cleanOutDir raw

/-- The text that a document gives for the output directory. -/
def documentOutDir (members : Json.Members) : Text :=
  let compiler := ((Json.lookup? "compilerOptions" members).getD .null).members?.getD []
  (((Json.lookup? "outDir" compiler).getD .null).orElse (.string defaultOutDir)).plainText

/-- The text for the output directory that the last of some overrides gives, or that there was. -/
def lastOutDir (raw : Text) (os : List Overrides) : Text :=
  os.foldl (fun raw o => (given o.outDir).getD raw) raw

theorem NamedBy.ofDocument {members : Json.Members} {warnings : List Text}
    (h : ofDocument base (.object members) = .ok (config, warnings)) :
    NamedBy base (documentOutDir members) config := by
  unfold Config.ofDocument at h
  simp only [Json.member, bind, Except.bind] at h
  unfold documentOutDir
  generalize (Json.lookup? "compilerOptions" members).getD .null = compiler at h
  cases htruthy : compiler.isTruthy with
  | false =>
    -- what does not count as set stands for no options
    have hnone : compiler.members?.getD [] = [] := by
      cases compiler with
      | object options =>
        cases options with
        | nil => rfl
        | cons m ms => cases htruthy
      | _ => rfl
    have hoptions : compiler.orElse (.object []) = .object [] := by
      unfold Json.orElse
      rw [htruthy]
      rfl
    rw [hoptions] at h
    cases h
    rw [hnone]
    exact ⟨rfl, rfl, rfl⟩
  | true =>
    have hoptions : compiler.orElse (.object []) = compiler := by
      unfold Json.orElse
      rw [htruthy]
      rfl
    rw [hoptions] at h
    cases compiler with
    | object options =>
      cases h
      exact ⟨rfl, rfl, rfl⟩
    | _ => cases h

/-- The output directory and its name come from one text, by one step of overrides. -/
theorem NamedBy.override (h : NamedBy base raw config) (o : Overrides) :
    NamedBy base ((given o.outDir).getD raw) (config.override o) := by
  have hout : NamedBy base ((given o.outDir).getD raw)
      (((given o.outDir).map config.withOutDir).getD config) := by
    cases given o.outDir with
    | none => exact h
    | some dir =>
      refine ⟨h.projectDir, ?_, rfl⟩
      show Path.resolveAgainst config.projectDir dir = _
      rw [h.projectDir]
      rfl
  unfold Config.override
  cases given o.rootDir <;> cases given o.indexFileName <;>
    exact ⟨hout.projectDir, hout.outDir, hout.outDirName⟩

/-- So they do after any overrides. -/
theorem NamedBy.overrides (h : NamedBy base raw config) (os : List Overrides) :
    NamedBy base (lastOutDir raw os) (os.foldl Config.override config) := by
  induction os generalizing config raw with
  | nil => exact h
  | cons o os ih => exact ih (h.override o)

/-! ## §2. The name of the output directory, resolved. -/

/-- **The name leads to the directory**, unless it is absolute, if the text has no backslash and does
not consist of slashes alone. -/
theorem resolveAgainst_cleanOutDir (hbase : Path.Straight base) (hraw : CodePoint.backslash ∉ raw)
    (hnamed : Path.isAbsolute raw = true → ∃ c ∈ raw, c ≠ CodePoint.slash) :
    Path.isAbsolute (cleanOutDir raw) = true
      ∨ Path.resolveAgainst base (cleanOutDir raw) = Path.resolveAgainst base raw := by
  obtain ⟨k, hk⟩ := exists_names_dropHere raw
  have hclean : cleanOutDir raw
      = if (dropHere raw).dropEndWhile (· = CodePoint.slash) = [] then Path.here
        else (dropHere raw).dropEndWhile (· = CodePoint.slash) := by
    unfold cleanOutDir
    rw [Path.toForwardSlashes_of_not_mem hraw]
  have hnames := Path.names_dropEndWhile_slash (dropHere raw)
  cases hrelative : Path.isAbsolute (cleanOutDir raw) with
  | true => exact .inl rfl
  | false =>
    right
    cases habs : Path.isAbsolute raw with
    | false =>
      -- what is taken off in front and behind leads nowhere
      refine hbase.resolveAgainst_congr hrelative habs fun start => ?_
      rw [hk, Path.foldl_pushName_here, ← hnames, hclean]
      split
      · rename_i hnil
        rw [hnil]
        exact Path.foldl_pushName_here true 1 [] start
      · rfl
    | true =>
      -- the slash in front stays, so the name is absolute
      obtain ⟨rest, rfl⟩ : ∃ rest, raw = CodePoint.slash :: rest :=
        List.head?_eq_some_iff.1 (of_decide_eq_true habs)
      have hkept : dropHere (CodePoint.slash :: rest) = CodePoint.slash :: rest := by
        cases rest with
        | nil => rfl
        | cons d rest => exact if_neg fun h => absurd h.1 (by decide)
      obtain ⟨c, hc, hne⟩ := hnamed habs
      have hsome : Text.dropEndWhile (· = CodePoint.slash) (CodePoint.slash :: rest) ≠ [] := by
        intro hnil
        exact hne (by simpa using List.rdropWhile_eq_nil_iff.1 hnil c hc)
      obtain ⟨tail, htail⟩ := List.rdropWhile_prefix (fun c => decide (c = CodePoint.slash))
        (CodePoint.slash :: rest : Text)
      rw [hclean, hkept, if_neg hsome] at hrelative
      obtain ⟨d, front, hfront⟩ := List.exists_cons_of_ne_nil hsome
      have hslash : d = CodePoint.slash := by
        have hcons := (congrArg (· ++ tail) hfront).symm.trans htail
        exact (List.cons.inj hcons).1
      rw [hfront, hslash] at hrelative
      cases hrelative

end Config

namespace Build

open Config

variable {config : Config} {base raw : Text}

/-! ## §3. The script. -/

/-- A path behind which names stand can be told from what stands with them. -/
theorem join_written_inj {p q : Text} {ns : List Text} (hp : Path.Straight p) (hq : Path.Straight q)
    (hns : ∀ n ∈ ns, Path.IsName n) (hne : ns ≠ []) :
    Path.join p (Path.written [] ns) = Path.join q (Path.written [] ns) ↔ p = q := by
  constructor
  · intro h
    have hparts : ∀ {r : Text}, Path.Straight r → ∀ n ∈ Path.names r ++ ns, Path.IsPart n := fun hr n hn =>
      (List.mem_append.1 hn).elim (fun hn => (hr.isName n hn).1) fun hn => (hns n hn).1
    rw [hp.join_written hns hne, hq.join_written hns hne] at h
    refine hp.ext hq ?_ ?_
    · have hroots := congrArg Path.rootOf h
      rwa [Path.rootOf_written (Path.isRoot_rootOf p) (hparts hp),
        Path.rootOf_written (Path.isRoot_rootOf q) (hparts hq)] at hroots
    · have hnames := congrArg Path.names h
      rw [Path.names_written (Path.isRoot_rootOf p) (hparts hp),
        Path.names_written (Path.isRoot_rootOf q) (hparts hq)] at hnames
      exact List.append_cancel_right hnames
  · rintro rfl
    rfl

/-- Names behind a straight path are in normal form. -/
theorem normalize_join_written {p : Text} {ns : List Text} (hp : Path.Straight p)
    (hns : ∀ n ∈ ns, Path.IsName n) (hne : ns ≠ []) :
    Path.normalize (Path.join p (Path.written [] ns)) = Path.join p (Path.written [] ns) := by
  obtain ⟨root, hroot, habs, heq⟩ := hp.written
  have hall : ∀ n ∈ Path.names p ++ ns, Path.IsName n := List.forall_mem_append.2 ⟨hp.isName, hns⟩
  have hrootOf : Path.rootOf p ≠ [] := by
    rw [heq, Path.rootOf_written hroot fun n hn => (hp.isName n hn).1]
    exact habs
  rw [hp.join_written hns hne]
  exact (Path.straight_written (Path.isRoot_rootOf p) hrootOf hall).normalize

/-- Where the script leads to, and where the module lies. -/
theorem reached_iff (h : NamedBy base raw config) (hbase : Path.Straight base) {ns : List Text}
    (hns : ∀ n ∈ ns, Path.IsName n) (hne : ns ≠ [])
    (hout : Path.isAbsolute config.outDirName = true → CodePoint.backslash ∉ config.outDir) :
    Path.resolveAgainst base (Path.normalize (Path.join
        (Path.toForwardSlashes (outDirReference config)) (Path.written [] ns)))
        = Path.normalize (Path.join config.outDir (Path.written [] ns))
      ↔ Path.isAbsolute config.outDirName = true
        ∨ Path.resolveAgainst base config.outDirName = config.outDir := by
  have hdir : Path.Straight config.outDir := by
    rw [h.outDir]
    exact Path.straight_resolveAgainst hbase.isAbsolute raw
  unfold outDirReference
  -- an absolute name is the directory itself; a relative one is resolved from the project
  cases hname : Path.isAbsolute config.outDirName with
  | true =>
    have habs : Path.isAbsolute (Path.normalize (Path.join config.outDir (Path.written [] ns))) = true :=
      Path.isAbsolute_normalize (Path.isAbsolute_join hdir.isAbsolute _)
    rw [if_pos rfl, Path.toForwardSlashes_of_not_mem (hout hname), Path.resolveAgainst_of_isAbsolute habs,
      Path.normalize_normalize]
    exact iff_of_true rfl (.inl rfl)
  | false =>
    have hslashes : Path.toForwardSlashes config.outDirName = config.outDirName := by
      rw [h.outDirName]
      exact Path.toForwardSlashes_of_not_mem (backslash_not_mem_cleanOutDir raw)
    have hrelative : Path.isAbsolute (Path.written [] ns) = false :=
      Path.isAbsolute_written (.inl rfl) fun n hn => (hns n hn).1
    rw [if_neg Bool.false_ne_true, hslashes,
      hbase.resolveAgainst_normalize (Path.isAbsolute_join_of_relative hname hrelative),
      hbase.resolveAgainst_join hname hns hne, normalize_join_written hdir hns hne,
      join_written_inj (Path.straight_resolveAgainst hbase.isAbsolute _) hdir hns hne]
    simp

/-- **The script runs the module that was found** just where the name of the output directory leads to
the directory; so it does if the text that gives both has no backslash and does not consist of
slashes alone. -/
theorem startScript_runs_entry {members : Json.Members} {described : Config} {warnings : List Text}
    {w w' : World} {index e : Text} {ignored : NameSet} (hbase : Path.isAbsolute base = true)
    (hnormal : Path.normalize base = base)
    (hdescribed : ofDocument base (.object members) = .ok (described, warnings)) (os : List Overrides)
    (hconfig : config = os.foldl Config.override described) (hproper : w.tree.Proper)
    (hnames : ∀ k, w.tree.entryAt? k ≠ none → ∀ n ∈ k, CodePoint.backslash ∉ n)
    (hfind : (Entry.find config.outDir index ignored).runOn w = (.ok (some e), w')) :
    ∃ p, startScript (outDirReference config) e = runCommand ++ p
      ∧ (Path.resolveAgainst base p = Path.normalize (Path.join config.outDir e)
          ↔ Path.isAbsolute config.outDirName = true
            ∨ Path.resolveAgainst base config.outDirName = config.outDir)
      ∧ (CodePoint.backslash ∉ lastOutDir (documentOutDir members) os →
          (Path.isAbsolute (lastOutDir (documentOutDir members) os) = true →
            ∃ c ∈ lastOutDir (documentOutDir members) os, c ≠ CodePoint.slash) →
          Path.resolveAgainst base p = Path.normalize (Path.join config.outDir e)) := by
  have hstraight : Path.Straight base := by
    have h := Path.straight_resolveAgainst hbase base
    rwa [Path.resolveAgainst_of_isAbsolute hbase, hnormal] at h
  have hnamed := (NamedBy.ofDocument hdescribed).overrides os
  rw [← hconfig] at hnamed
  have hdir : Path.Straight config.outDir := by
    rw [hnamed.outDir]
    exact Path.straight_resolveAgainst hbase _
  obtain ⟨l, ns, hopen, hne, hpresent, hns, rfl⟩ := Entry.names_of_find hproper hfind
  rw [absolute_straight w.tree hdir] at hopen
  -- the names that were found have no backslash
  have hbare : Path.toForwardSlashes (Path.written [] ns) = Path.written [] ns := by
    refine Path.toForwardSlashes_of_not_mem fun hmem => ?_
    obtain ⟨n, hn, hbackslash⟩ := Path.exists_mem_names (by decide) hmem
    rw [Path.names_written (.inl rfl) fun n hn => (hns n hn).1] at hn
    exact hnames _ hpresent n (List.mem_append_right _ hn) hbackslash
  rw [hbare]
  -- nor has the path of the directory in which they were found
  have hout : CodePoint.backslash ∉ config.outDir := by
    intro hmem
    obtain ⟨k, hk, n, hn, hbackslash⟩ := exists_backslash_of_openDirectory hopen hdir.isName hmem
    exact hnames k hk n hn hbackslash
  have hiff := reached_iff hnamed hstraight hns hne fun _ => hout
  refine ⟨_, rfl, hiff, fun hraw hslashes => hiff.2 ?_⟩
  rw [hnamed.outDirName, hnamed.outDir]
  exact resolveAgainst_cleanOutDir hstraight hraw hslashes

/-- A project with an entry module in its output. -/
def startedTree : FileTree :=
  ⟨[("p", .directory [("dist", .directory [("index.js", .file [])])])], [], .closed⟩

/-- Nothing in the project has a backslash in its name. -/
theorem startedTree_bare :
    startedTree.Proper ∧ ∀ k, startedTree.entryAt? k ≠ none → ∀ n ∈ k, CodePoint.backslash ∉ n := by
  have hnames : startedTree.top.allNames = ["p", "dist", "index.js"] := by
    simp [startedTree, Forest.allNames_cons, Forest.allNames, Node.children]
  have hall : ∀ n ∈ startedTree.top.allNames, Path.IsName n ∧ CodePoint.backslash ∉ n := by
    rw [hnames]
    decide
  constructor
  · exact proper_of_allNames (fun n hn => (hall n hn).1) (fun m hm => (List.not_mem_nil hm).elim)
  · exact fun k hk n hn => (hall n (mem_allNames hk hn)).2

theorem find_startedTree (ignored : NameSet) :
    ∃ w', (Entry.find "/p/dist" "index.js" ignored).runOn ⟨startedTree, []⟩
      = (.ok (some "index.js"), w') := by
  obtain ⟨events, hrun⟩ := Entry.runOn_find "/p/dist" "index.js" ignored ⟨startedTree, []⟩
  have hdir : startedTree.namesDirectory "/p/dist" = true := by cbv
  have hwalk : startedTree.walk "/p/dist" ignored = .ok [.listed "/p/dist/index.js" false] := by cbv
  have hentry : ([Sighting.listed "/p/dist/index.js" false].filterMap Sighting.listed?).find?
      (Entry.isEntry "index.js") = some (("/p/dist/index.js" : Text), false) := by decide
  have hrelative : relativePath (startedTree.absolute "/p/dist") "/p/dist/index.js" = "index.js" := by
    decide
  rw [if_pos hdir, hwalk] at hrun
  refine ⟨⟨startedTree, events⟩, hrun.trans ?_⟩
  show (Except.ok (Option.map _ (List.find? _ _)), _) = _
  rw [hentry, Option.map_some, hrelative]

/-- A document that gives the output directory with names and slashes that lead nowhere. -/
def dottedMembers : Json.Members := [("compilerOptions", .object [("outDir", .string "././dist//")])]

theorem startScript_runs_entry_dotted :
    ∃ config warnings w', ofDocument "/p" (.object dottedMembers) = .ok (config, warnings)
      ∧ (Entry.find config.outDir "index.js" config.ignoredDirs).runOn ⟨startedTree, []⟩
          = (.ok (some "index.js"), w')
      ∧ ∃ p, startScript (outDirReference config) "index.js" = runCommand ++ p
        ∧ Path.resolveAgainst "/p" p = Path.normalize (Path.join config.outDir "index.js") := by
  obtain ⟨config, warnings, hdescribed⟩ : ∃ config warnings,
      ofDocument "/p" (.object dottedMembers) = .ok (config, warnings) := ⟨_, _, rfl⟩
  have hout : config.outDir = "/p/dist" := by
    cases hdescribed
    decide
  obtain ⟨w', hfind⟩ := find_startedTree config.ignoredDirs
  rw [← hout] at hfind
  obtain ⟨p, hscript, -, hreached⟩ := startScript_runs_entry (by decide) (by decide) hdescribed []
    rfl startedTree_bare.1 startedTree_bare.2 hfind
  have hrelative : Path.isAbsolute (lastOutDir (documentOutDir dottedMembers) []) = false := by decide
  refine ⟨config, warnings, w', hdescribed, hfind, p, hscript, hreached (by decide) fun habs => ?_⟩
  rw [hrelative] at habs
  cases habs

/-- A document that gives the output directory with a name that is taken back, and a backslash in it. -/
def backslashedMembers : Json.Members :=
  [("compilerOptions", .object [("outDir", .string "a\\b/../dist")])]

/-- **A backslash in the text makes two names of one, and one of them is not taken back.**  The
script runs another file than the one that was found. -/
theorem startScript_backslashed :
    ∃ config warnings w', ofDocument "/p" (.object backslashedMembers) = .ok (config, warnings)
      ∧ startedTree.Proper
      ∧ (∀ k, startedTree.entryAt? k ≠ none → ∀ n ∈ k, CodePoint.backslash ∉ n)
      ∧ (Entry.find config.outDir config.indexFileName config.ignoredDirs).runOn ⟨startedTree, []⟩
          = (.ok (some "index.js"), w')
      ∧ startScript (outDirReference config) "index.js" = runCommand ++ "a/dist/index.js"
      ∧ Path.normalize (Path.join config.outDir "index.js") = "/p/dist/index.js"
      ∧ Path.resolveAgainst "/p" "a/dist/index.js" ≠ "/p/dist/index.js" := by
  obtain ⟨config, warnings, hdescribed⟩ : ∃ config warnings,
      ofDocument "/p" (.object backslashedMembers) = .ok (config, warnings) := ⟨_, _, rfl⟩
  obtain ⟨hout, hindex, hreference⟩ : config.outDir = "/p/dist" ∧ config.indexFileName = "index.js"
      ∧ outDirReference config = "a/b/../dist" := by
    cases hdescribed
    exact ⟨by decide, by decide, by decide⟩
  obtain ⟨w', hfind⟩ := find_startedTree config.ignoredDirs
  refine ⟨config, warnings, w', hdescribed, startedTree_bare.1, startedTree_bare.2, ?_, ?_, ?_, ?_⟩
  · rw [hout, hindex]
    exact hfind
  · rw [hreference]
    decide
  · rw [hout]
    decide
  · decide

end Build

end ModuleBuild
