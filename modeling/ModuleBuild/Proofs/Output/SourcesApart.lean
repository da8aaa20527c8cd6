/-
  ModuleBuild.Proofs.Output.SourcesApart
  ──────────────────────────────────────
  **NO SOURCE FROM THE OUTPUT.**

  Whatever the command line changes, and however often, the directories that
  no walk enters, and the output directory by its name and by its path, stay
  in the ignored set.  A walk asks for every directory on its way by its
  absolute path.  So nothing that is listed below the sources has the path of
  the output directory in front, but where the sources lie in the output.

  Main results:
    * `Shielded.override` — what the ignored set keeps, by one step of overrides;
    * `Listed.not_above` — a walk does not pass a directory that is ignored by its path;
    * `listed_apart` — no overrides bring a file of the output among the sources.
-/
import ModuleBuild.Proofs.Project.KeptOut

namespace ModuleBuild

/-! ## §1. What the ignored set keeps. -/

namespace Config

/-- A configuration whose ignored set has the directories that no walk enters, and the output
directory by its name and by its path. -/
structure Shielded (config : Config) : Prop extends Placed config where
  always : ∀ name ∈ alwaysIgnored, name ∈ config.ignoredDirs
  outDirName : config.outDirName ∈ config.ignoredDirs

variable {config : Config} {projectDir : Text} {members : Json.Members}

/-- What is no object under the options of the compiler is the only thing a document is refused for. -/
theorem exists_ofDocument
    (hcompiler : ∀ v, Json.lookup? "compilerOptions" members = some v → ∃ ms, v = .object ms)
    (projectDir : Text) :
    ∃ config warnings, ofDocument projectDir (.object members) = .ok (config, warnings) := by
  have hobject : ∃ ms, ((Json.lookup? "compilerOptions" members).getD .null).orElse (.object [])
      = .object ms := by
    cases hfound : Json.lookup? "compilerOptions" members with
    | none => exact ⟨[], rfl⟩
    | some v =>
      obtain ⟨ms, rfl⟩ := hcompiler v hfound
      cases ms with
      | nil => exact ⟨[], rfl⟩
      | cons m ms => exact ⟨m :: ms, rfl⟩
  obtain ⟨ms, hms⟩ := hobject
  unfold ofDocument
  simp only [Json.member, bind, Except.bind, hms]
  exact ⟨_, _, rfl⟩

theorem Shielded.ofDocument {document : Json} {warnings : List Text}
    (hproject : Path.isAbsolute projectDir = true)
    (h : ofDocument projectDir document = .ok (config, warnings)) : Shielded config := by
  obtain ⟨-, -, raw, -, hname, hignored⟩ := directories_of_ofDocument h
  refine ⟨Placed.ofDocument hproject h, fun name halways => ?_, ?_⟩
  · rw [hignored]
    exact mem_effectiveIgnored_of_always halways _ _ _
  · rw [hignored, hname]
    exact mem_effectiveIgnored_outDirName _ _ _

theorem Shielded.withOutDir (h : Shielded config) (dir : Text) : Shielded (config.withOutDir dir) :=
  ⟨h.toPlaced.withOutDir dir, fun _ hname => mem_effectiveIgnored_of_always hname _ _ _,
    mem_effectiveIgnored_outDirName _ _ _⟩

/-- **What the ignored set keeps**, by one step of overrides. -/
theorem Shielded.override (h : Shielded config) (o : Overrides) : Shielded (config.override o) := by
  have hout : Shielded (((given o.outDir).map config.withOutDir).getD config) := by
    cases given o.outDir with
    | none => exact h
    | some dir => exact h.withOutDir dir
  refine ⟨h.toPlaced.override o, ?_, ?_⟩
  · rw [ignoredDirs_override]
    exact hout.always
  · rw [ignoredDirs_override, outDirName_override]
    exact hout.outDirName

/-- So it is kept by any overrides, one after another. -/
theorem Shielded.overrides (h : Shielded config) (os : List Overrides) :
    Shielded (os.foldl Config.override config) := by
  induction os generalizing config with
  | nil => exact h
  | cons o os ih => exact ih (h.override o)

end Config

/-! ## §2. Paths below a directory. -/

namespace Path

/-- A directory lies above a path: the path has the names of the directory in front, and more. -/
def Above (dir p : Text) : Prop := rootOf dir = rootOf p ∧ ∃ ms, ms ≠ [] ∧ names p = names dir ++ ms

variable {dir start : Text} {ns : List Text}

theorem below_straight (hstart : Straight start) (hns : ∀ m ∈ ns, IsPart m) :
    below start ns = written (rootOf start) (names start ++ ns) := by
  conv_lhs => rw [hstart.eq_written]
  exact below_written (isRoot_rootOf start) (fun m hm => (hstart.isName m hm).1) hns

/-- What lies above something below a directory lies above the directory, is it, or lies below it on
the way. -/
theorem Above.below_cases (h : Above dir (below start ns)) (hdir : Straight dir)
    (hstart : Straight start) (hns : ∀ m ∈ ns, IsPart m) :
    (dir = start ∨ Above dir start) ∨ ∃ k, k ≠ [] ∧ k <+: ns ∧ k ≠ ns ∧ dir = below start k := by
  have hparts : ∀ m ∈ names start ++ ns, IsPart m := fun m hm =>
    (List.mem_append.1 hm).elim (fun hm => (hstart.isName m hm).1) (hns m)
  obtain ⟨hroot, ms, hne, hnames⟩ := h
  rw [below_straight hstart hns] at hroot hnames
  rw [rootOf_written (isRoot_rootOf start) hparts] at hroot
  rw [names_written (isRoot_rootOf start) hparts] at hnames
  rcases List.append_eq_append_iff.1 hnames with ⟨k, hk, hms⟩ | ⟨k, hk, hms⟩
  · -- the directory goes on below the start
    by_cases hnil : k = []
    · rw [hnil, List.append_nil] at hk
      refine .inl (.inl ?_)
      rw [hdir.eq_written, hstart.eq_written, hroot, hk]
    · refine .inr ⟨k, hnil, ⟨ms, hms.symm⟩, ?_, ?_⟩
      · rintro rfl
        exact hne (List.append_right_eq_self.1 hms.symm)
      · rw [below_straight hstart fun m hm => hns m (hms ▸ List.mem_append_left _ hm), ← hroot, ← hk]
        exact hdir.eq_written
  · -- the start goes on below the directory, or is it
    by_cases hnil : k = []
    · rw [hnil, List.append_nil] at hk
      refine .inl (.inl ?_)
      rw [hdir.eq_written, hstart.eq_written, hroot, hk]
    · exact .inl (.inr ⟨hroot, k, hnil, hk⟩)

end Path

/-! ## §3. The walk. -/

namespace FileTree

variable {t : FileTree} {l : Location} {start dir : Text} {ignored : NameSet} {ns : List Text} {d : Bool}

/-- **A walk does not pass a directory that is ignored by its path**, if it does not start below it. -/
theorem Listed.not_above (ht : t.Proper) (h : Listed t l start ignored ns d)
    (hstart : Path.Straight start) (hdir : Path.Straight dir) (hignored : dir ∈ ignored)
    (hapart : ¬ (dir = start ∨ Path.Above dir start)) : ¬ Path.Above dir (Path.below start ns) := by
  intro habove
  rcases habove.below_cases hdir hstart (h.isPart ht) with hin | ⟨k, hk, hpre, hne, heq⟩
  · exact hapart hin
  · -- the directory is on the way, so the walk has entered it
    refine (h.opens k hk hpre hne).2 ⟨dir, .inr (.inr ?_), .inl hignored⟩
    rw [List.nil_append, ← heq, hdir.normalize]

end FileTree

namespace Listing

open FileTree

/-- So no file that is listed lies below it. -/
theorem not_above_of_mem_files {w w' : World} (hw : w.tree.Proper) {root dir p : Text}
    {ignored : NameSet} {endings excluded ps : List Text} (hroot : Path.Straight root)
    (hdir : Path.Straight dir) (hignored : dir ∈ ignored)
    (hapart : ¬ (dir = root ∨ Path.Above dir root))
    (hrun : (files root endings ignored excluded).runOn w = (.ok ps, w')) (hp : p ∈ ps) :
    ¬ Path.Above dir p := by
  obtain ⟨events, hfiles⟩ := runOn_files root endings ignored excluded w
  rw [hfiles] at hrun
  cases hwalk : w.tree.walk root ignored with
  | error failure =>
    rw [hwalk] at hrun
    cases hrun
  | ok sightings =>
    rw [hwalk] at hrun
    cases hrun
    obtain ⟨⟨q, b⟩, hmem, rfl⟩ := List.mem_map.1 hp
    have hlisted := (List.mem_filter.1 hmem).1
    rcases lists_of_walk hw hwalk with hnone | ⟨l, entries, hentries, hiff, -⟩
    · rw [hnone] at hlisted
      cases hlisted
    · rw [absolute_straight w.tree hroot] at hentries hiff
      rw [hentries] at hlisted
      obtain ⟨⟨ns, d⟩, hentry, heq⟩ := List.mem_map.1 hlisted
      cases heq
      exact ((hiff ns d).1 hentry).not_above hw hroot hdir hignored hapart

end Listing

/-! ## §4. The sources. -/

namespace Config

/-- **No overrides bring a file of the output among the sources**, unless the output directory is that
of the sources or above it. -/
theorem listed_apart {projectDir : Text} {members : Json.Members}
    (hproject : Path.isAbsolute projectDir = true)
    (hcompiler : ∀ v, Json.lookup? "compilerOptions" members = some v → ∃ ms, v = .object ms)
    (os : List Overrides) :
    ∃ described warnings config,
      ofDocument projectDir (.object members) = .ok (described, warnings)
      ∧ config = os.foldl Config.override described
      ∧ (".git" : Text) ∈ config.ignoredDirs ∧ ("node_modules" : Text) ∈ config.ignoredDirs
      ∧ config.outDirName ∈ config.ignoredDirs ∧ config.outDir ∈ config.ignoredDirs
      ∧ Path.isAbsolute config.outDir = true ∧ Path.normalize config.outDir = config.outDir
      ∧ (¬ (config.outDir = config.rootDir ∨ Path.Above config.outDir config.rootDir) →
          ∀ (w w' : World) (endings excluded ps : List Text), w.tree.Proper →
            (Listing.files config.rootDir endings config.ignoredDirs excluded).runOn w = (.ok ps, w') →
            ∀ p ∈ ps, ¬ Path.Above config.outDir p) := by
  obtain ⟨described, warnings, hdescribed⟩ := exists_ofDocument hcompiler projectDir
  have h := (Shielded.ofDocument hproject hdescribed).overrides os
  refine ⟨described, warnings, _, hdescribed, rfl, h.always _ (by decide), h.always _ (by decide),
    h.outDirName, h.ignored, h.outDir.isAbsolute, h.outDir.normalize, ?_⟩
  intro hapart w w' endings excluded ps hw hrun p hp
  exact Listing.not_above_of_mem_files hw h.rootDir h.outDir h.ignored hapart hrun hp

/-- A document that says where the sources are. -/
def nestedMembers : Json.Members := [("compilerOptions", .object [("rootDir", .string "src")])]

/-- Overrides that put the output in a directory no walk enters, and then among the sources. -/
def nestedOverrides : List Overrides := [⟨some ".git", none, none⟩, ⟨some "src/out", none, none⟩]

/-- A source, and another in the output. -/
def nestedTree : FileTree :=
  ⟨[("p", .directory [("src", .directory [("a.ts", .file []),
    ("out", .directory [("b.ts", .file [])])])])], [], .closed⟩

theorem listed_apart_nested :
    ∃ described warnings config,
      ofDocument "/p" (.object nestedMembers) = .ok (described, warnings)
      ∧ config = nestedOverrides.foldl Config.override described
      ∧ config.rootDir = "/p/src" ∧ config.outDir = "/p/src/out" ∧ (".git" : Text) ∈ config.ignoredDirs
      ∧ ∃ w', (Listing.files config.rootDir [".ts"] config.ignoredDirs [".d.ts"]).runOn ⟨nestedTree, []⟩
          = (.ok ["/p/src/a.ts"], w')
        ∧ ∀ p ∈ (["/p/src/a.ts"] : List Text), ¬ Path.Above config.outDir p := by
  have hcompiler : ∀ v, Json.lookup? "compilerOptions" nestedMembers = some v → ∃ ms, v = .object ms := by
    intro v hv
    have hfound : Json.lookup? "compilerOptions" nestedMembers
        = some (.object [("rootDir", .string "src")]) := rfl
    rw [hfound] at hv
    exact ⟨_, (Option.some.inj hv).symm⟩
  have hproper : nestedTree.Proper := by
    refine FileTree.proper_of_allNames ?_ fun m hm => by cases hm
    have hnames : nestedTree.top.allNames = ["p", "src", "a.ts", "out", "b.ts"] := by
      simp [nestedTree, Forest.allNames_cons, Forest.allNames, Node.children]
    rw [hnames]
    decide
  obtain ⟨described, warnings, config, hdescribed, hconfig, hgit, -, -, -, -, -, hlisted⟩ :=
    @listed_apart "/p" nestedMembers (by decide) hcompiler nestedOverrides
  obtain ⟨hroot, hout, hignored⟩ : config.rootDir = "/p/src" ∧ config.outDir = "/p/src/out"
      ∧ config.ignoredDirs = NameSet.ofList [".git", "node_modules", "src/out", "/p/src/out"] := by
    rw [hconfig]
    cases hdescribed
    exact ⟨by decide, by decide, by decide⟩
  refine ⟨described, warnings, config, hdescribed, hconfig, hroot, hout, hgit, ?_⟩
  rw [hroot, hout, hignored] at hlisted ⊢
  have hwalk : (nestedTree.walk "/p/src" (NameSet.ofList [".git", "node_modules", "src/out",
      "/p/src/out"])).map (Listing.paths [".ts"] [".d.ts"]) = .ok ["/p/src/a.ts"] := by cbv
  obtain ⟨events, hrun⟩ := Listing.runOn_files "/p/src" [".ts"] (NameSet.ofList [".git",
    "node_modules", "src/out", "/p/src/out"]) [".d.ts"] ⟨nestedTree, []⟩
  rw [hwalk] at hrun
  have hapart : ¬ (("/p/src/out" : Text) = "/p/src" ∨ Path.Above "/p/src/out" "/p/src") := by
    rintro (h | ⟨-, ms, -, h⟩)
    · exact absurd h (by decide)
    · have hlength := congrArg List.length h
      rw [List.length_append] at hlength
      have htwo : (Path.names "/p/src").length = 2 := by decide
      have hthree : (Path.names "/p/src/out").length = 3 := by decide
      omega
  exact ⟨_, hrun, hlisted hapart _ _ _ _ _ hproper hrun⟩

end Config

end ModuleBuild
