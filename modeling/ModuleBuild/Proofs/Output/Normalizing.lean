/-
  ModuleBuild.Proofs.Output.Normalizing
  ─────────────────────────────────────
  **MAKING MODULES RUNNABLE, TOLD IN FULL.**

  The two passes go over the same files: those below the output directory that
  a walk comes to and that have the extension of modules.  Each of them is
  revised by one pass and then by the other, and nothing else changes.  In a
  tree whose names are as the system lists them neither pass fails.

  Which places are meant is a matter of names alone, and what is left there
  depends on the bytes that were there; so where two trees have the same file,
  the same file is left.

  Main results:
    * `run_treated` — one pass over the modules of a directory;
    * `normalizeModules_treated` — both passes.
-/
import ModuleBuild.Build.Run
import ModuleBuild.Proofs.Output.Reached
import ModuleBuild.Proofs.Output.Revising

namespace ModuleBuild

open FileTree Listing

/-! ## §1. Names as the system lists them. -/

/-- A tree whose names are as the system lists them. -/
def FileTree.Genuine (t : FileTree) : Prop :=
  ∀ k, t.entryAt? k ≠ none → ∀ n ∈ k, Utf8.nameForm n = n ∧ Nameable n

/-- Whether the names of a tree are as the system lists them can be checked. -/
theorem FileTree.genuine_of_allNames {t : FileTree}
    (h : ∀ m ∈ t.top.allNames, Utf8.nameForm m = m ∧ Nameable m) : Genuine t :=
  fun _ hk m hm => h m (mem_allNames hk hm)

/-! ## §2. One pass. -/

namespace Modules

variable {f : Text → Text} {root start : Text} {l : Location} {ignored : NameSet}
  {t t' t'' u u' : FileTree} {ns : List Text} {g g' : Text → Bytes → Bytes}

/-- The names below a directory at which a pass meets a module, if it meets a file. -/
def Met (start : Text) (ignored : NameSet) (ns : List Text) : Prop :=
  Reached ignored start ns ∧ Picked [Specifier.moduleExtension] [] (Path.below start ns)

/-- What a pass over a directory leaves of a tree, `g` being what it leaves of each file.  The directory
is told by the path at which the pass starts, and by its location. -/
structure Treated (g : Text → Bytes → Bytes) (start : Text) (l : Location) (ignored : NameSet)
    (t t' : FileTree) : Prop where
  workingDir : t'.workingDir = t.workingDir
  met : ∀ ns content, Met start ignored ns → t.entryAt? (l ++ ns) = some (.file content) →
    t'.entryAt? (l ++ ns) = some (.file (g (Path.below start ns) content))
  kept : ∀ k, (∀ ns, k = l ++ ns → ¬ Met start ignored ns) ∨ ¬ HasFile t k →
    t'.entryAt? k = t.entryAt? k

/-- A pass changes nothing outside the directory. -/
theorem Treated.outside (h : Treated g start l ignored t t') {k : Location} (hk : ¬ l <+: k) :
    t'.entryAt? k = t.entryAt? k :=
  h.kept k (.inl fun _ hns => absurd (hns ▸ List.prefix_append ..) hk)

theorem Treated.refl (hg : ∀ ns content, Met start ignored ns →
    t.entryAt? (l ++ ns) = some (.file content) → g (Path.below start ns) content = content) :
    Treated g start l ignored t t where
  workingDir := rfl
  met ns content hmet he := by rw [he, hg ns content hmet he]
  kept _ _ := rfl

/-- A pass changes the bytes of files only. -/
theorem Treated.cases (h : Treated g start l ignored t t') (k : Location) :
    (t'.entryAt? k = t.entryAt? k
        ∧ ((∀ ns, k = l ++ ns → ¬ Met start ignored ns) ∨ ¬ HasFile t k))
      ∨ ∃ ns content, k = l ++ ns ∧ Met start ignored ns ∧ t.entryAt? k = some (.file content)
          ∧ t'.entryAt? k = some (.file (g (Path.below start ns) content)) := by
  by_cases hmet : ∃ ns, k = l ++ ns ∧ Met start ignored ns
  · by_cases hfile : HasFile t k
    · obtain ⟨ns, rfl, hmet⟩ := hmet
      obtain ⟨content, he⟩ := hfile
      exact .inr ⟨ns, content, rfl, hmet, he, h.met ns content hmet he⟩
    · exact .inl ⟨h.kept k (.inr hfile), .inr hfile⟩
  · have hnot : ∀ ns, k = l ++ ns → ¬ Met start ignored ns := fun ns hk hns => hmet ⟨ns, hk, hns⟩
    exact .inl ⟨h.kept k (.inl hnot), .inl hnot⟩

theorem Treated.alike (h : Treated g start l ignored t t') : Alike t t' := by
  refine ⟨h.workingDir.symm, fun k => ?_⟩
  show (t.entryAt? k).map Entry.shape = (t'.entryAt? k).map Entry.shape
  rcases h.cases k with ⟨hsame, -⟩ | ⟨ns, content, -, -, he, he'⟩
  · rw [hsame]
  · rw [he, he']
    rfl

theorem Treated.present (h : Treated g start l ignored t t') {k : Location} :
    t'.entryAt? k ≠ none ↔ t.entryAt? k ≠ none := by
  rcases h.cases k with ⟨hsame, -⟩ | ⟨ns, content, -, -, he, he'⟩
  · rw [hsame]
  · rw [he, he']
    simp

theorem Treated.hasFile (h : Treated g start l ignored t t') {k : Location} :
    HasFile t' k ↔ HasFile t k := by
  unfold HasFile
  rcases h.cases k with ⟨hsame, -⟩ | ⟨ns, content, -, -, he, he'⟩
  · rw [hsame]
  · rw [he, he']
    simp

theorem Treated.proper (h : Treated g start l ignored t t') (ht : Proper t) : Proper t' where
  names k hk := ht.names k (h.present.1 hk)
  workingDir := by
    rw [h.workingDir]
    exact ht.workingDir

theorem Treated.genuine (h : Treated g start l ignored t t') (ht : Genuine t) : Genuine t' :=
  fun k hk => ht k (h.present.1 hk)

theorem Treated.linkFreeAt (h : Treated g start l ignored t t') {D : Location} (ht : LinkFreeAt t D) :
    LinkFreeAt t' D := by
  intro k path hk he'
  rcases h.cases k with ⟨hsame, -⟩ | ⟨ns, content, -, -, -, hfile⟩
  · exact ht k path hk (hsame ▸ he')
  · rw [hfile] at he'
    cases he'

theorem Treated.linkFree (h : Treated g start l ignored t t') (ht : LinkFree t) : LinkFree t' :=
  fun k path => h.linkFreeAt (ht.at []) k path List.nil_prefix

/-- Where two trees have the same, a pass leaves the same: it is settled by what is left of each file. -/
theorem Treated.entryAt?_congr (h : Treated g start l ignored t t') (h' : Treated g start l ignored u u')
    {k : Location} (hk : u.entryAt? k = t.entryAt? k) : u'.entryAt? k = t'.entryAt? k := by
  rcases h.cases k with ⟨hsame, hout⟩ | ⟨ns, content, rfl, hmet, he, he'⟩
  · have hout' : (∀ ns, k = l ++ ns → ¬ Met start ignored ns) ∨ ¬ HasFile u k := by
      unfold HasFile at hout ⊢
      rwa [hk]
    rw [hsame, h'.kept k hout', hk]
  · rw [he', h'.met ns content hmet (hk.trans he)]

/-- **The places that a pass changes**: the modules of which it leaves other bytes. -/
theorem Treated.ne_iff (h : Treated g start l ignored t t') {k : Location} :
    t'.entryAt? k ≠ t.entryAt? k
      ↔ ∃ ns content, k = l ++ ns ∧ Met start ignored ns ∧ t.entryAt? k = some (.file content)
          ∧ g (Path.below start ns) content ≠ content := by
  constructor
  · intro hne
    rcases h.cases k with ⟨hsame, -⟩ | ⟨ns, content, hk, hmet, he, he'⟩
    · exact absurd hsame hne
    · refine ⟨ns, content, hk, hmet, he, fun hsame => hne ?_⟩
      rw [he', he, hsame]
  · rintro ⟨ns, content, rfl, hmet, he, hne⟩ hsame
    rw [h.met ns content hmet he, he] at hsame
    exact hne (Entry.file.inj (Option.some.inj hsame))

/-- One pass after the other. -/
theorem Treated.trans (h : Treated g start l ignored t t') (h' : Treated g' start l ignored t' t'') :
    Treated (fun p content => g' p (g p content)) start l ignored t t'' where
  workingDir := h'.workingDir.trans h.workingDir
  met ns content hmet he := h'.met ns _ hmet (h.met ns content hmet he)
  kept k hk := by
    rw [← h.kept k hk]
    refine h'.kept k (hk.imp_right ?_)
    rw [h.hasFile]
    exact id

/-- The location of a path below a directory. -/
def placeUnder (start : Text) (l : Location) (p : Text) : Location :=
  l ++ (Path.names p).drop (Path.names start).length

theorem placeUnder_below (hstart : Path.Straight start) (hns : ∀ n ∈ ns, Path.IsName n) :
    placeUnder start l (Path.below start ns) = l ++ ns := by
  unfold placeUnder
  rw [(below_straight hstart hns).2, List.drop_left]

/-- Each listed module is a file with names that the system lists. -/
theorem names_of_hasFile (hproper : Proper t) (hgenuine : Genuine t) (h : HasFile t (l ++ ns)) :
    ∀ n ∈ ns, Path.IsName n ∧ Utf8.nameForm n = n ∧ Nameable n := by
  intro n hn
  obtain ⟨content, he⟩ := h
  have hsome : t.entryAt? (l ++ ns) ≠ none := by
    rw [he]
    simp
  exact ⟨hproper.names _ hsome n (List.mem_append_right _ hn),
    hgenuine _ hsome n (List.mem_append_right _ hn)⟩

/-- Modules at different names have different places. -/
theorem nodup_placeUnder {nss : List (List Text)} (hnodup : nss.Nodup)
    (hplace : ∀ ns ∈ nss, placeUnder start l (Path.below start ns) = l ++ ns) :
    ((nss.map (Path.below start)).map (placeUnder start l)).Nodup := by
  have hlocations : (nss.map (Path.below start)).map (placeUnder start l) = nss.map (l ++ ·) := by
    rw [List.map_map]
    exact List.map_congr_left hplace
  rw [hlocations]
  exact hnodup.map fun _ _ e => List.append_cancel_left e

/-- The modules of a directory, each listed once: the files at which a pass meets a module. -/
theorem exists_listed (hproper : Proper t) (hopen : t.openDirectory (t.absolute root) = .ok l)
    (hfree : LinkFreeAt t l) (ignored : NameSet) :
    ∃ nss : List (List Text), listed t root ignored = .ok (nss.map (Path.below (t.absolute root)))
      ∧ nss.Nodup ∧ ∀ ns, ns ∈ nss ↔ Met (t.absolute root) ignored ns ∧ HasFile t (l ++ ns) := by
  obtain ⟨nss, hwalk, hsorted, hmem⟩ :=
    walk_opened hproper hopen hfree ignored [Specifier.moduleExtension] []
  refine ⟨nss, hwalk, List.Pairwise.imp ?_ hsorted, fun ns => ?_⟩
  · rintro ns ms hlt rfl
    exact List.lt_irrefl ns hlt
  · rw [hmem ns]
    exact ⟨fun h => ⟨⟨h.1, h.2.2⟩, h.2.1⟩, fun h => ⟨h.1.1, h.2, h.1.2⟩⟩

/-- Where the modules of a directory were revised, in whatever order, a pass has treated it. -/
theorem RevisedAll.treated {nss : List (List Text)} {ps : List Text}
    (hmem : ∀ ns, ns ∈ nss ↔ Met start ignored ns ∧ HasFile t (l ++ ns))
    (hplace : ∀ ns ∈ nss, placeUnder start l (Path.below start ns) = l ++ ns)
    (hperm : ps.Perm (nss.map (Path.below start)))
    (h : RevisedAll f (placeUnder start l) ps t t') :
    Treated (Modules.revised f) start l ignored t t' where
  workingDir := h.alike.workingDir.symm
  met := by
    intro ns content hmet he
    have hns : ns ∈ nss := (hmem ns).2 ⟨hmet, content, he⟩
    have hp := hperm.mem_iff.2 (List.mem_map_of_mem hns)
    have hat := h.revised _ hp content (by rw [hplace ns hns]; exact he)
    rwa [hplace ns hns] at hat
  kept := by
    intro k hk
    refine h.kept k fun hin => ?_
    obtain ⟨p, hp, rfl⟩ := List.mem_map.1 hin
    obtain ⟨ns, hns, rfl⟩ := List.mem_map.1 (hperm.mem_iff.1 hp)
    obtain ⟨hmet, hfile⟩ := (hmem ns).1 hns
    rw [hplace ns hns] at hk
    rcases hk with hnot | hnofile
    · exact hnot ns rfl hmet
    · exact hnofile hfile

/-- **One pass over the modules of a directory**, in whatever order it takes them.  It does not fail, and
returns for each module whether its bytes change. -/
theorem run_treated {task : Text → Action Bool} (htask : Performs task f)
    (hwrites : ModuleText.Writes f) (hproper : Proper t) (hgenuine : Genuine t)
    (hopen : t.openDirectory (t.absolute root) = .ok l) (hfree : LinkFreeAt t l) (ignored : NameSet) :
    ∃ nss : List (List Text), listed t root ignored = .ok (nss.map (Path.below (t.absolute root)))
      ∧ nss.Nodup
      ∧ (∀ ns, ns ∈ nss ↔ Met (t.absolute root) ignored ns ∧ HasFile t (l ++ ns))
      ∧ (nss.map (Path.below (t.absolute root))).Nodup
      ∧ (∀ ns ∈ nss, placeUnder (t.absolute root) l (Path.below (t.absolute root) ns) = l ++ ns)
      ∧ ∀ ps, ps.Perm (nss.map (Path.below (t.absolute root))) → ∀ events, ∃ w',
          (Tasks.run ps task).runOn ⟨t, events⟩
              = (.ok (ps.map fun p => revises f t p (placeUnder (t.absolute root) l p)), w')
            ∧ Treated (revised f) (t.absolute root) l ignored t w'.tree := by
  obtain ⟨nss, hlisted, hnodup, hmem⟩ := exists_listed hproper hopen hfree ignored
  have hstart : Path.Straight (t.absolute root) := straight_absolute t root
  have hnames : ∀ ns ∈ nss, ∀ n ∈ ns, Path.IsName n ∧ Utf8.nameForm n = n ∧ Nameable n :=
    fun ns hns => names_of_hasFile hproper hgenuine ((hmem ns).1 hns).2
  have hplace : ∀ ns ∈ nss,
      placeUnder (t.absolute root) l (Path.below (t.absolute root) ns) = l ++ ns :=
    fun ns hns => placeUnder_below hstart fun n hn => (hnames ns hns n hn).1
  have hplaces := nodup_placeUnder hnodup hplace
  refine ⟨nss, hlisted, hnodup, hmem, List.Nodup.of_map _ hplaces, hplace, fun ps hperm events => ?_⟩
  -- the tasks take the modules in any order; each has its own place
  have hspots : ∀ p ∈ ps, Spot t p (placeUnder (t.absolute root) l p)
      ∧ ∃ content, t.entryAt? (placeUnder (t.absolute root) l p) = some (.file content) := by
    intro p hp
    obtain ⟨ns, hns, rfl⟩ := List.mem_map.1 (hperm.mem_iff.1 hp)
    obtain ⟨hmet, content, he⟩ := (hmem ns).1 hns
    rw [hplace ns hns]
    exact ⟨Spot.of_below hstart hopen hmet.1.below (hnames ns hns) he, content, he⟩
  obtain ⟨w', hrun, hrevised⟩ := runFrom_revised htask hwrites (placeUnder (t.absolute root) l) ps.length 0
    ⟨t, events⟩ hspots ((hperm.map _).nodup_iff.2 hplaces)
  exact ⟨w', hrun, hrevised.treated hmem hplace hperm⟩

/-- So many places of a tree have something else in another tree. -/
def Differ (t t' : FileTree) (n : Nat) : Prop :=
  ∃ ks : List Location, ks.Nodup ∧ ks.length = n ∧ ∀ k, k ∈ ks ↔ t'.entryAt? k ≠ t.entryAt? k

/-- As many files are counted as have other bytes. -/
theorem differ_of_treated {nss : List (List Text)} (hnodup : nss.Nodup)
    (hmem : ∀ ns, ns ∈ nss ↔ Met start ignored ns ∧ HasFile t (l ++ ns))
    (hplace : ∀ ns ∈ nss, placeUnder start l (Path.below start ns) = l ++ ns)
    (h : Treated (revised f) start l ignored t t') :
    Differ t t' (Tasks.countChanged
      ((nss.map (Path.below start)).map fun p => revises f t p (placeUnder start l p))) := by
  -- the flags are those of the places, whatever path they are reached by
  have hflags : ((nss.map (Path.below start)).map fun p => revises f t p (placeUnder start l p))
      = nss.map fun ns => revises f t (Path.below start ns) (l ++ ns) := by
    rw [List.map_map]
    exact List.map_congr_left fun ns hns => by rw [Function.comp_apply, hplace ns hns]
  refine ⟨(nss.filter fun ns => revises f t (Path.below start ns) (l ++ ns)).map (l ++ ·), ?_, ?_, ?_⟩
  · exact (hnodup.filter _).map fun _ _ e => List.append_cancel_left e
  · rw [hflags]
    unfold Tasks.countChanged
    rw [List.filter_map, List.length_map, List.length_map]
    rfl
  · intro k
    rw [h.ne_iff, List.mem_map]
    constructor
    · rintro ⟨ns, hns, rfl⟩
      obtain ⟨hin, hflag⟩ := List.mem_filter.1 hns
      obtain ⟨hmet, content, he⟩ := (hmem ns).1 hin
      refine ⟨ns, content, rfl, hmet, he, ?_⟩
      unfold revises at hflag
      rw [he] at hflag
      exact of_decide_eq_true hflag
    · rintro ⟨ns, content, rfl, hmet, he, hne⟩
      refine ⟨ns, List.mem_filter.2 ⟨(hmem ns).2 ⟨hmet, content, he⟩, ?_⟩, rfl⟩
      unfold revises
      rw [he]
      exact decide_eq_true hne

/-! ## §3. Both passes. -/

/-- What both passes leave of a module. -/
def finished (markerNames : List Text) (p : Text) (content : Bytes) : Bytes :=
  revised (ModuleText.stripMarkers (Specifier.markerStems markerNames)) p
    (revised ModuleText.complete p content)

section Opened

variable {w : World} (hproper : Proper w.tree) (hgenuine : Genuine w.tree)
  (hopen : w.tree.openDirectory (w.tree.absolute root) = .ok l) (hfree : LinkFreeAt w.tree l)

include hproper hgenuine hopen hfree

theorem completeAll_treated (ignored : NameSet) :
    ∃ n w', (completeAll root ignored).runOn w = (.ok n, w') ∧ Differ w.tree w'.tree n
      ∧ Treated (revised ModuleText.complete) (w.tree.absolute root) l ignored w.tree w'.tree := by
  obtain ⟨nss, hlisted, hnodup, hmem, -, hplace, hrun⟩ := run_treated performs_completeFile
    ModuleText.writes_complete hproper hgenuine hopen hfree ignored
  obtain ⟨events, hlist⟩ := runOn_list root ignored w
  unfold completeAll
  rw [Action.runOn_bind, hlist, hlisted]
  dsimp only
  rw [Action.runOn_bind, Action.runOn_log]
  dsimp only
  obtain ⟨w', hrun, htreated⟩ := hrun _ (.refl _) _
  rw [Action.runOn_bind, hrun]
  dsimp only
  rw [Action.runOn_bind, Action.runOn_log]
  exact ⟨_, _, rfl, differ_of_treated hnodup hmem hplace htreated, htreated⟩

theorem stripAll_treated (markerNames : List Text) (ignored : NameSet) :
    ∃ n w', (stripAll root markerNames ignored).runOn w = (.ok n, w') ∧ Differ w.tree w'.tree n
      ∧ Treated (revised (ModuleText.stripMarkers (Specifier.markerStems markerNames)))
          (w.tree.absolute root) l ignored w.tree w'.tree := by
  unfold stripAll
  by_cases hnone : Specifier.markerStems markerNames = []
  · rw [hnone]
    dsimp only
    rw [if_pos rfl, Action.runOn_bind, Action.runOn_log]
    refine ⟨_, _, rfl, ⟨[], List.nodup_nil, rfl, by simp⟩, Treated.refl fun ns content _ _ => ?_⟩
    rw [show ModuleText.stripMarkers [] = id from funext ModuleText.stripMarkers_nil]
    exact revised_id _ content
  · dsimp only
    obtain ⟨nss, hlisted, hnodup, hmem, -, hplace, hrun⟩ := run_treated
      (performs_stripFile (Specifier.markerStems markerNames)) (ModuleText.writes_stripMarkers _) hproper
      hgenuine hopen hfree ignored
    obtain ⟨events, hlist⟩ := runOn_list root ignored w
    rw [if_neg hnone, Action.runOn_bind, hlist, hlisted]
    dsimp only
    obtain ⟨w', hrun, htreated⟩ := hrun _ (.refl _) _
    rw [Action.runOn_bind, hrun]
    dsimp only
    rw [Action.runOn_bind, Action.runOn_log]
    exact ⟨_, _, rfl, differ_of_treated hnodup hmem hplace htreated, htreated⟩

end Opened

end Modules

namespace Build

open Modules

/-- Results that say the same, as far as a caller looks at them: whether the build succeeded, what
became of the assets, and how the program is started. -/
structure Agrees (r r' : BuildResult) : Prop where
  ok : r'.ok = r.ok
  placedAssets : r'.placedAssets = r.placedAssets
  skippedAssets : r'.skippedAssets = r.skippedAssets
  entryPath : r'.entryPath = r.entryPath
  startScript : r'.startScript = r.startScript

theorem Agrees.symm {r r' : BuildResult} (h : Agrees r r') : Agrees r' r :=
  ⟨h.ok.symm, h.placedAssets.symm, h.skippedAssets.symm, h.entryPath.symm, h.startScript.symm⟩

theorem Agrees.trans {r r' r'' : BuildResult} (h : Agrees r r') (h' : Agrees r' r'') : Agrees r r'' :=
  ⟨h'.ok.trans h.ok, h'.placedAssets.trans h.placedAssets, h'.skippedAssets.trans h.skippedAssets,
    h'.entryPath.trans h.entryPath, h'.startScript.trans h.startScript⟩

/-- A warning is added to a result and to the log. -/
theorem runOn_warn (r : BuildResult) (words : Text) (w : World) :
    ∃ r' events, (warn r words).runOn w = (.ok r', ⟨w.tree, events⟩) ∧ Agrees r r' :=
  ⟨_, _, rfl, rfl, rfl, rfl, rfl, rfl⟩

/-- Without markers the second pass leaves what the first has left. -/
theorem finished_nil : finished [] = Modules.revised ModuleText.complete := by
  funext p content
  unfold finished
  rw [show ModuleText.stripMarkers (Specifier.markerStems []) = id from
    funext ModuleText.stripMarkers_nil, revised_id]

/-- Where the output is no directory that the system finds, there is no file that a pass would change:
a file below it would make it a directory, so the system does not take the path of that file. -/
theorem treated_unopened (config : Config) {t : FileTree} (hproper : Proper t) (hfree : LinkFree t)
    (hout : Path.Straight config.outDir) (hspelled : Path.Spelled config.outDir)
    (hdir : t.namesDirectory config.outDir = false) :
    Treated (finished config.markerNames) config.outDir (Path.names config.outDir)
      config.ignoredDirs t t := by
  refine Treated.refl fun ns content hmet he => ?_
  have hisName : ∀ n ∈ ns, Path.IsName n := fun n hn =>
    hproper.names _ (by rw [he]; simp) n (List.mem_append_right _ hn)
  have hunfit : ¬ Replaceable (Path.below config.outDir ns) := by
    intro hreplaceable
    have hfits := fits_of_fits_below hout hisName hreplaceable.1
    have hopen : t.namesDirectory config.outDir = true := by
      rw [namesDirectory_iff hfree hout, placeOf_of_spelled hspelled]
      exact ⟨hfits, isDirectory_of_below (by rw [he]; simp) (List.prefix_append _ ns) fun e =>
        hmet.1.below (List.append_cancel_left (e.symm.trans (List.append_nil _).symm))⟩
    rw [hdir] at hopen
    cases hopen
  unfold finished
  rw [revised_of_not_replaceable hunfit, revised_of_not_replaceable hunfit]

/-- What is done where the output is there. -/
def normalizeOpened (config : Config) (r : BuildResult) : Action BuildResult := do
  Action.note (.stageBegan "Fixing import paths:")
  let completed ← completeAll config.outDir config.ignoredDirs
  let r := { r with completedModules := completed }
  if config.markerNames = [] then warn r "You didn't specify the type files."
  else
    Action.note (.stageBegan "Checking type imports:")
    let stripped ← stripAll config.outDir config.markerNames config.ignoredDirs
    return { r with strippedModules := stripped }

theorem runOn_normalizeModules (config : Config) (r : BuildResult) (w : World) :
    (normalizeModules config r).runOn w
      = if w.tree.namesDirectory config.outDir then (normalizeOpened config r).runOn w
        else (warn r (Text.join
          ["Output directory ", config.outDir, " was not created by the compiler."])).runOn w := by
  have hview : (normalizeModules config r).runOn w
      = (if !w.tree.namesDirectory config.outDir then
          warn r (Text.join
            ["Output directory ", config.outDir, " was not created by the compiler."])
        else normalizeOpened config r : Action BuildResult).runOn w := by
    unfold normalizeModules
    rfl
  rw [hview]
  cases w.tree.namesDirectory config.outDir <;> rfl

/-- Both passes over the modules of an output that is there. -/
theorem normalizeOpened_treated (config : Config) (r : BuildResult) {w : World}
    (hproper : Proper w.tree) (hfree : LinkFree w.tree) (hgenuine : Genuine w.tree)
    (hout : Path.Straight config.outDir)
    (hopen : w.tree.openDirectory config.outDir = .ok (Path.names config.outDir)) :
    ∃ r' w', (normalizeOpened config r).runOn w = (.ok r', w') ∧ Agrees r r'
      ∧ Treated (finished config.markerNames) config.outDir (Path.names config.outDir)
          config.ignoredDirs w.tree w'.tree := by
  have habs : ∀ u : FileTree, u.absolute config.outDir = config.outDir := fun u =>
    absolute_straight u hout
  obtain ⟨n, w1, hcomplete, -, htreated⟩ := completeAll_treated
    (w := ⟨w.tree, w.events ++ [.stageBegan "Fixing import paths:"]⟩) hproper hgenuine
    ((congrArg _ (habs w.tree)).trans hopen) (hfree.at _) config.ignoredDirs
  dsimp only at htreated
  rw [habs] at htreated
  unfold normalizeOpened
  rw [Action.runOn_bind, Action.runOn_note]
  dsimp only
  rw [Action.runOn_bind, hcomplete]
  dsimp only
  by_cases hmarkers : config.markerNames = []
  · rw [if_pos hmarkers, hmarkers, finished_nil]
    obtain ⟨r', events, hwarn, hagrees⟩ :=
      runOn_warn { r with completedModules := n } "You didn't specify the type files." w1
    exact ⟨r', _, hwarn, ⟨hagrees.1, hagrees.2, hagrees.3, hagrees.4, hagrees.5⟩, htreated⟩
  · rw [if_neg hmarkers, Action.runOn_bind, Action.runOn_note]
    dsimp only
    -- the first pass leaves the directories as they were, so the second finds the same modules
    have hopen' : w1.tree.openDirectory (w1.tree.absolute config.outDir)
        = .ok (Path.names config.outDir) := by
      rw [habs, ← openDirectory_alike htreated.alike]
      exact hopen
    obtain ⟨n', w2, hstrip, -, htreated'⟩ := stripAll_treated
      (w := ⟨w1.tree, w1.events ++ [.stageBegan "Checking type imports:"]⟩)
      (htreated.proper hproper) (htreated.genuine hgenuine) hopen' (htreated.linkFreeAt (hfree.at _))
      config.markerNames config.ignoredDirs
    dsimp only at htreated'
    rw [habs] at htreated'
    rw [Action.runOn_bind, hstrip]
    exact ⟨_, _, rfl, ⟨rfl, rfl, rfl, rfl, rfl⟩, htreated.trans htreated'⟩

/-- **Both passes over the modules of the output.**  Where there is no output nothing is done. -/
theorem normalizeModules_treated (config : Config) (r : BuildResult) {w : World}
    (hproper : Proper w.tree) (hfree : LinkFree w.tree) (hgenuine : Genuine w.tree)
    (hout : Path.Straight config.outDir) (hspelled : Path.Spelled config.outDir) :
    ∃ r' w', (normalizeModules config r).runOn w = (.ok r', w') ∧ Agrees r r'
      ∧ Treated (finished config.markerNames) config.outDir (Path.names config.outDir)
          config.ignoredDirs w.tree w'.tree := by
  rw [runOn_normalizeModules]
  by_cases hdir : w.tree.namesDirectory config.outDir = true
  · obtain ⟨hfits, hopened⟩ := (namesDirectory_iff hfree hout).1 hdir
    rw [if_pos hdir]
    exact normalizeOpened_treated config r hproper hfree hgenuine hout
      ((openDirectory_eq_ok_iff hfree hout).2 ⟨hfits, (placeOf_of_spelled hspelled).symm, hopened⟩)
  · rw [if_neg hdir]
    obtain ⟨r', events, hwarn, hagrees⟩ := runOn_warn r
      (Text.join ["Output directory ", config.outDir, " was not created by the compiler."]) w
    exact ⟨r', _, hwarn, hagrees,
      treated_unopened config hproper hfree hout hspelled (Bool.not_eq_true _ ▸ hdir)⟩

end Build

end ModuleBuild
