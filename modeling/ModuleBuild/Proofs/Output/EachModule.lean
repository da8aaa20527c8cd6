/-
  ModuleBuild.Proofs.Output.EachModule
  ────────────────────────────────────
  **A PASS TREATS EACH MODULE BY ITSELF.**

  A pass lists the modules below a directory and gives each of them a task of
  its own.  A task reads one file, and at most replaces that file; so the tasks
  do not meet, whatever their order.  The files that are replaced are those
  that the walk comes to, that are text, and of which the pass makes another
  text, as long as the system takes their paths.  Everything else in the tree
  stays: other files, ignored directories, and no file is left over.

  A module may be listed and yet be too far down: beside it there is no room
  for the file in which the new text is prepared, since its path would be
  longer than paths may be.  The task of that module is reported as failed, and
  the module stays as it is.

  Main results:
    * `passes_by_module` — what a pass replaces, keeps, counts, and in which orders;
    * `completeAll_deepModule` — a module that is too far down.
-/
import ModuleBuild.Proofs.FileTree.Checking
import ModuleBuild.Proofs.Output.Normalizing

namespace ModuleBuild

open FileTree

/-! ## §1. Passes. -/

namespace Modules

/-- A pass over modules. -/
inductive Pass
  /-- Completes relative specifiers. -/
  | completing
  /-- Deletes the imports of some markers. -/
  | stripping (markerNames : List Text)

namespace Pass

/-- What a pass makes of the text of a module. -/
def change : Pass → Text → Text
  | completing => ModuleText.complete
  | stripping markerNames => ModuleText.stripMarkers (Specifier.markerStems markerNames)

/-- The task of one module. -/
def task : Pass → Text → Action Bool
  | completing => completeFile
  | stripping markerNames => stripFile (Specifier.markerStems markerNames)

/-- A pass over the modules below a directory. -/
def run (root : Text) (ignored : NameSet) : Pass → Action Nat
  | completing => completeAll root ignored
  | stripping markerNames => stripAll root markerNames ignored

theorem performs (pass : Pass) : Performs pass.task pass.change := by
  cases pass with
  | completing => exact performs_completeFile
  | stripping markerNames => exact performs_stripFile _

theorem writes (pass : Pass) : ModuleText.Writes pass.change := by
  cases pass with
  | completing => exact ModuleText.writes_complete
  | stripping markerNames => exact ModuleText.writes_stripMarkers _

theorem run_treated (pass : Pass) {root : Text} {l : Location} {w : World} (hproper : Proper w.tree)
    (hgenuine : Genuine w.tree) (hopen : w.tree.openDirectory (w.tree.absolute root) = .ok l)
    (hfree : LinkFreeAt w.tree l) (ignored : NameSet) :
    ∃ n w', (pass.run root ignored).runOn w = (.ok n, w') ∧ Differ w.tree w'.tree n
      ∧ Treated (revised pass.change) (w.tree.absolute root) l ignored w.tree w'.tree := by
  cases pass with
  | completing => exact completeAll_treated hproper hgenuine hopen hfree ignored
  | stripping markerNames => exact stripAll_treated hproper hgenuine hopen hfree markerNames ignored

end Pass

variable {f : Text → Text} {start : Text} {l : Location} {ignored : NameSet} {t t' : FileTree}
  {ns : List Text} {text : Text}

/-- A module that a pass has to replace: the walk comes to it, the system lets it be read and replaced,
it is text, and the pass makes another text of it. -/
structure Due (f : Text → Text) (t : FileTree) (start : Text) (l : Location) (ignored : NameSet)
    (ns : List Text) (text : Text) : Prop where
  met : Met start ignored ns
  replaceable : Replaceable (Path.below start ns)
  reads : ∃ content, t.entryAt? (l ++ ns) = some (.file content) ∧ Utf8.decode content = .ok text
  differs : f text ≠ text

/-- The modules that are due are replaced by what the pass makes of them, and nothing else changes: no
file but those, no directory, and no file is left over. -/
structure Replaced (f : Text → Text) (start : Text) (l : Location) (ignored : NameSet)
    (t t' : FileTree) : Prop where
  workingDir : t'.workingDir = t.workingDir
  due : ∀ ns text, Due f t start l ignored ns text →
    ∃ bytes, Utf8.encode (f text) = .ok bytes ∧ t'.entryAt? (l ++ ns) = some (.file bytes)
  kept : ∀ k, (∀ ns text, k = l ++ ns → ¬ Due f t start l ignored ns text) →
    t'.entryAt? k = t.entryAt? k

/-- What a pass leaves of a module that is due. -/
theorem Due.revised_eq (hwrites : ModuleText.Writes f) (h : Due f t start l ignored ns text)
    {content : Bytes} (he : t.entryAt? (l ++ ns) = some (.file content)) :
    ∃ bytes, Utf8.encode (f text) = .ok bytes ∧ revised f (Path.below start ns) content = bytes := by
  obtain ⟨content', he', hdecode⟩ := h.reads
  rw [he] at he'
  cases he'
  have hencode := Utf8.encode_of_scalar (hwrites text (Utf8.isSurrogate_of_decode hdecode))
  refine ⟨_, hencode, ?_⟩
  unfold revised
  rw [hdecode]
  dsimp only
  rw [if_pos ⟨h.replaceable, h.differs⟩, hencode]

/-- The modules of which a pass leaves other bytes are those that are due. -/
theorem exists_due_iff (hwrites : ModuleText.Writes f) (hmet : Met start ignored ns) {content : Bytes}
    (he : t.entryAt? (l ++ ns) = some (.file content)) :
    revised f (Path.below start ns) content ≠ content ↔ ∃ text, Due f t start l ignored ns text := by
  rw [revised_ne_iff hwrites]
  constructor
  · rintro ⟨hroom, text, hdecode, hne⟩
    exact ⟨text, hmet, hroom, ⟨content, he, hdecode⟩, hne⟩
  · rintro ⟨text, hdue⟩
    obtain ⟨content', he', hdecode⟩ := hdue.reads
    rw [he] at he'
    cases he'
    exact ⟨hdue.replaceable, text, hdecode, hdue.differs⟩

theorem replaced_of_treated (hwrites : ModuleText.Writes f)
    (h : Treated (revised f) start l ignored t t') : Replaced f start l ignored t t' where
  workingDir := h.workingDir
  due ns text hdue := by
    obtain ⟨content, he, -⟩ := hdue.reads
    obtain ⟨bytes, hbytes, hrevised⟩ := hdue.revised_eq hwrites he
    exact ⟨bytes, hbytes, by rw [h.met ns content hdue.met he, hrevised]⟩
  kept k hk := by
    by_contra hne
    obtain ⟨ns, content, rfl, hmet, he, hchanged⟩ := h.ne_iff.1 hne
    obtain ⟨text, hdue⟩ := (exists_due_iff hwrites hmet he).1 hchanged
    exact hk ns text rfl hdue

/-! ## §2. All modules of a directory. -/

/-- **What a pass over the modules of a directory does**, if there are no links in it.  It lists the
modules to which the walk comes, replaces those that are due and nothing else, and returns how many
places have changed.  The tasks of the listed modules leave the same in whatever order they run, and each
returns the same: whether its module has changed. -/
theorem passes_by_module (pass : Pass) (root : Text) (ignored : NameSet) {w : World} {l : Location}
    (hproper : Proper w.tree) (hgenuine : Genuine w.tree)
    (hopen : w.tree.openDirectory (w.tree.absolute root) = .ok l) (hfree : LinkFreeAt w.tree l) :
    ∃ (modules : List Text) (n : Nat) (w' : World),
      (listed w.tree root ignored = .ok modules ∧ modules.Nodup
        ∧ ∀ p, p ∈ modules ↔ ∃ ns, p = Path.below (w.tree.absolute root) ns
            ∧ Met (w.tree.absolute root) ignored ns ∧ HasFile w.tree (l ++ ns))
      ∧ (pass.run root ignored).runOn w = (.ok n, w')
      ∧ Replaced pass.change (w.tree.absolute root) l ignored w.tree w'.tree
      ∧ Differ w.tree w'.tree n
      ∧ ∃ changes : Text → Bool,
          (∀ ns, Met (w.tree.absolute root) ignored ns → HasFile w.tree (l ++ ns) →
            (changes (Path.below (w.tree.absolute root) ns) = true
              ↔ w'.tree.entryAt? (l ++ ns) ≠ w.tree.entryAt? (l ++ ns)))
          ∧ ∀ ps, ps.Perm modules → ∀ events, ∃ w'',
              (Tasks.run ps pass.task).runOn ⟨w.tree, events⟩ = (.ok (ps.map changes), w'')
                ∧ w''.tree.workingDir = w'.tree.workingDir
                ∧ ∀ k, w''.tree.entryAt? k = w'.tree.entryAt? k := by
  obtain ⟨n, w', hrun, hdiffer, htreated⟩ := pass.run_treated hproper hgenuine hopen hfree ignored
  obtain ⟨nss, hlisted, -, hmem, hnodup, hplace, htasks⟩ :=
    run_treated pass.performs pass.writes hproper hgenuine hopen hfree ignored
  -- what a task returns can be read off the tree before the pass, so it is a function of the path
  refine ⟨_, n, w', ⟨hlisted, hnodup, fun p => ?_⟩, hrun, replaced_of_treated pass.writes htreated, hdiffer,
    fun p => revises pass.change w.tree p (placeUnder (w.tree.absolute root) l p), ?_, ?_⟩
  · rw [List.mem_map]
    constructor
    · rintro ⟨ns, hns, rfl⟩
      exact ⟨ns, rfl, (hmem ns).1 hns⟩
    · rintro ⟨ns, rfl, hns⟩
      exact ⟨ns, (hmem ns).2 hns, rfl⟩
  · rintro ns hmet ⟨content, he⟩
    dsimp only
    rw [hplace ns ((hmem ns).2 ⟨hmet, content, he⟩), htreated.met ns content hmet he, he]
    unfold revises
    rw [he]
    simp
  · intro ps hperm events
    obtain ⟨w'', hrun', htreated'⟩ := htasks ps hperm events
    exact ⟨w'', hrun', htreated'.workingDir.trans htreated.workingDir.symm,
      fun _ => htreated.entryAt?_congr htreated' rfl⟩

/-- A walk comes to what lies in the directory from which it starts. -/
theorem reached_name (ignored : NameSet) (start n : Text) : Reached ignored start [n] where
  below := List.cons_ne_nil _ _
  way k hk hpre hne := by
    rcases List.prefix_cons_iff.1 hpre with rfl | ⟨rest, rfl, hrest⟩
    · exact absurd rfl hk
    · rw [List.prefix_nil.1 hrest] at hne
      exact absurd rfl hne

/-- An output with a module that lacks an extension, one that is not text, and one in a directory that is
ignored.  A link leads to the output, but none is in it. -/
def mixedModules : FileTree where
  top := [("out", .directory [("a.js", .file "import \"./b\";".toUTF8.toList), ("b.js", .file [255]),
      ("skip", .directory [("c.js", .file "import \"./b\";".toUTF8.toList)])]),
    ("away", .link "out")]
  workingDir := []

theorem passes_by_module_mixedModules :
    Proper mixedModules ∧ Genuine mixedModules
      ∧ mixedModules.openDirectory (mixedModules.absolute "out") = .ok ["out"]
      ∧ LinkFreeAt mixedModules ["out"]
      ∧ ∃ n w', (completeAll "out" (.ofList ["skip"])).runOn ⟨mixedModules, []⟩ = (.ok n, w')
        ∧ w'.tree.entryAt? ["out", "a.js"] = some (.file "import \"./b.js\";".toUTF8.toList)
        ∧ w'.tree.entryAt? ["out", "b.js"] = some (.file [255])
        ∧ w'.tree.entryAt? ["out", "skip", "c.js"] = some (.file "import \"./b\";".toUTF8.toList) := by
  have hnames : mixedModules.top.allNames
      = (["out", "a.js", "b.js", "skip", "c.js", "away"] : List Text) := by
    simp [mixedModules, Forest.allNames_cons, Forest.allNames, Node.children]
  have hproper : Proper mixedModules := proper_of_allNames (by rw [hnames]; decide) (by decide)
  have hgenuine : Genuine mixedModules := genuine_of_allNames (by rw [hnames]; decide)
  have hroot : mixedModules.absolute "out" = "/out" := by cbv
  have hopen : mixedModules.openDirectory (mixedModules.absolute "out") = .ok ["out"] := by cbv
  have hfree : LinkFreeAt mixedModules ["out"] :=
    linkFreeAt_of_hasNoLink rfl (by simp [Forest.hasNoLink])
  obtain ⟨modules, n, w', -, hrun, hreplaced, -⟩ :=
    passes_by_module .completing "out" (.ofList ["skip"]) (w := ⟨mixedModules, []⟩) hproper hgenuine hopen
      hfree
  rw [hroot] at hreplaced
  refine ⟨hproper, hgenuine, hopen, hfree, n, w', hrun, ?_, ?_, ?_⟩
  · have ha : mixedModules.entryAt? ["out", "a.js"] = some (.file "import \"./b\";".toUTF8.toList) := rfl
    have hdue : Due ModuleText.complete mixedModules "/out" ["out"] (.ofList ["skip"]) ["a.js"]
        "import \"./b\";" := by
      refine ⟨⟨reached_name _ _ _, by decide, by decide⟩, by decide, ⟨_, ha, ?_⟩, by decide +kernel⟩
      cbv
    obtain ⟨bytes, hbytes, he⟩ := hreplaced.due _ _ hdue
    have hcomplete : ModuleText.complete "import \"./b\";" = "import \"./b.js\";" := by decide +kernel
    have hencode : Utf8.encode "import \"./b.js\";" = .ok "import \"./b.js\";".toUTF8.toList := by cbv
    rw [show Pass.change .completing = ModuleText.complete from rfl, hcomplete, hencode] at hbytes
    cases hbytes
    exact he
  · have hb : mixedModules.entryAt? ["out", "b.js"] = some (.file [255]) := rfl
    refine (hreplaced.kept _ fun ns text hns hdue => ?_).trans hb
    obtain ⟨content, he, hdecode⟩ := hdue.reads
    rw [← hns, hb] at he
    cases he
    exact absurd hdecode (by cbv; simp)
  · refine (hreplaced.kept _ fun ns text hns hdue => ?_).trans rfl
    obtain rfl : ns = ["skip", "c.js"] := by simpa using hns.symm
    exact hdue.met.1.way ["skip"] (by decide) (by decide) (by decide)
      ⟨"skip", .inl rfl, .inl (NameSet.mem_ofList.2 (List.mem_singleton.2 rfl))⟩

/-! ## §3. A module that is too far down. -/

/-- The names of an output directory. -/
def outputNames : List Text := ["sbox", "workspace", "out"]

/-- The names of a module that is sixteen directories down. -/
def deepNames : List Text := List.replicate 16 longName ++ [("a.js" : Text)]

/-- An output with one module in it, far down. -/
def deepModule : FileTree where
  top := Forest.nested outputNames
    (Forest.nested (List.replicate 16 longName) [("a.js", .file "import \"./b\";".toUTF8.toList)])
  workingDir := ["sbox", "workspace"]

/-- No directory on the way is ignored. -/
theorem not_ignored_replicate {start : Text} (hstart : Path.Straight start) {j : Nat} (hj : j ≠ 0) :
    ¬ Ignored .empty start (List.replicate j longName) := by
  have halways : ∀ a ∈ alwaysIgnored, a.length < longName.length ∧ Path.isAbsolute a = false := by
    decide +kernel
  rintro ⟨form, hform, hempty | hin⟩
  · cases hempty
  obtain ⟨hshort, hrelative⟩ := halways form hin
  obtain ⟨i, rfl⟩ := Nat.exists_eq_succ_of_ne_zero hj
  rcases hform with rfl | rfl | rfl
  · -- the last name is longer than what is always ignored
    rw [List.getLast?_replicate, if_neg hj] at hshort
    exact Nat.lt_irrefl _ hshort
  · -- so is the path, which begins with that name
    refine Nat.lt_irrefl _ (Nat.lt_of_le_of_lt ?_ hshort)
    unfold Path.toForwardSlashes Text.substitute
    rw [List.length_map, Nat.succ_eq_add_one, List.replicate_succ]
    cases List.replicate i longName with
    | nil => simp [Text.joinWith, List.intercalate]
    | cons n more =>
      rw [Text.joinWith_cons_cons, List.append_assoc, List.length_append]
      exact Nat.le_add_right _ _
  · -- and the absolute path is no relative one
    have hisName : ∀ n ∈ List.replicate i.succ longName, Path.IsName n := fun n hn => by
      rw [List.eq_of_mem_replicate hn]
      exact isName_longName.1
    have hstraight := (below_straight hstart hisName).1
    rw [hstraight.normalize, hstraight.isAbsolute] at hrelative
    cases hrelative

theorem isName_deepNames :
    ∀ n ∈ deepNames, Path.IsName n ∧ Utf8.nameForm n = n ∧ Nameable n := by
  intro n hn
  rcases List.mem_append.1 hn with hn | hn
  · rw [List.eq_of_mem_replicate hn]
    exact isName_longName
  · rw [List.mem_singleton.1 hn]
    decide

/-- The prepared path would have 4100 bytes, and some more that are not shown. -/
theorem not_hasRoom_deepNames {start : Text} (hstart : Path.Straight start)
    (hnames : Path.names start = outputNames) :
    ¬ HasRoom (Path.below start deepNames) := by
  obtain ⟨hstraight, hbelow⟩ := below_straight hstart fun n hn => (isName_deepNames n hn).1
  have hsplit : Path.names (Path.below start deepNames)
      = (outputNames ++ List.replicate 16 longName) ++ [("a.js" : Text)] := by
    rw [hbelow, hnames, List.append_assoc]
    rfl
  refine not_hasRoom_of_sum hstraight hsplit ?_
  rw [List.map_append, List.sum_append, List.map_replicate, byteCount_longName]
  decide

/-- **A module that is too far down** is listed, is text, lacks an extension, and is left as it is. -/
theorem completeAll_deepModule :
    ∃ w', listed deepModule "out" .empty = .ok [Path.below "/sbox/workspace/out" deepNames]
      ∧ deepModule.entryAt? (outputNames ++ deepNames)
          = some (.file "import \"./b\";".toUTF8.toList)
      ∧ Utf8.decode "import \"./b\";".toUTF8.toList = .ok "import \"./b\";"
      ∧ ModuleText.complete "import \"./b\";" = "import \"./b.js\";"
      ∧ (completeAll "out" .empty).runOn ⟨deepModule, []⟩ = (.ok 0, w')
      ∧ ∀ k, w'.tree.entryAt? k = deepModule.entryAt? k := by
  have hroot : deepModule.absolute "out" = "/sbox/workspace/out" := by decide
  have hstart : Path.Straight "/sbox/workspace/out" := hroot ▸ straight_absolute deepModule "out"
  have hnames : deepModule.top.allNames = outputNames ++ deepNames := by
    unfold deepModule
    rw [Forest.allNames_nested, Forest.allNames_nested, Forest.allNames, Forest.allNames]
    rfl
  have hall : ∀ m ∈ deepModule.top.allNames, Path.IsName m ∧ Utf8.nameForm m = m ∧ Nameable m := by
    rw [hnames, List.forall_mem_append]
    exact ⟨by decide, isName_deepNames⟩
  have hproper : Proper deepModule := proper_of_allNames (fun m hm => (hall m hm).1) (by decide)
  have hgenuine : Genuine deepModule := genuine_of_allNames fun m hm => (hall m hm).2
  have hfree : LinkFree deepModule := linkFree_of_hasNoLink (by
    unfold deepModule
    rw [Forest.hasNoLink_nested, Forest.hasNoLink_nested, Forest.hasNoLink, Forest.hasNoLink])
  have hdir : deepModule.entryAt? outputNames = some .directory :=
    (@Forest.entryAt?_nested outputNames _ []).trans rfl
  have hfile : deepModule.entryAt? (outputNames ++ deepNames)
      = some (.file "import \"./b\";".toUTF8.toList) :=
    (Forest.entryAt?_nested _).trans ((Forest.entryAt?_nested _).trans rfl)
  -- it is the only file
  have honly : ∀ ns, HasFile deepModule (outputNames ++ ns) → ns = deepNames := by
    rintro ns ⟨content, he⟩
    obtain ⟨below, hbelow, he⟩ := Forest.eq_append_of_file he
    obtain ⟨last, hlast, he⟩ := Forest.eq_append_of_file he
    have hone : last = [("a.js" : Text)] := Forest.eq_singleton_of_file he
    rw [List.append_cancel_left hbelow, hlast, hone]
    rfl
  have hopen : deepModule.openDirectory (deepModule.absolute "out") = .ok outputNames := by
    rw [hroot]
    exact (openDirectory_eq_ok_iff hfree hstart).2 ⟨by decide, rfl, hdir⟩
  have hmet : Met "/sbox/workspace/out" .empty deepNames := by
    refine ⟨⟨List.concat_ne_nil _ _, fun k hk hpre hne => ?_⟩, by decide +kernel, by decide +kernel⟩
    have hk' : k <+: List.replicate 16 longName := by
      rcases List.prefix_concat_iff.1 hpre with rfl | hk'
      · exact absurd rfl hne
      · exact hk'
    rw [List.prefix_replicate_iff] at hk'
    rw [hk'.2]
    exact not_ignored_replicate hstart (by simpa using hk)
  obtain ⟨nss, hlisted, hnodup, hmem, -⟩ := run_treated performs_completeFile ModuleText.writes_complete
    hproper hgenuine hopen (hfree.at _) .empty
  obtain ⟨n, w', hrun, hdiffer, htreated⟩ :=
    completeAll_treated (w := ⟨deepModule, []⟩) hproper hgenuine hopen (hfree.at _) .empty
  rw [hroot] at hlisted hmem htreated
  have hkept : ∀ k, w'.tree.entryAt? k = deepModule.entryAt? k := by
    intro k
    by_contra hne
    obtain ⟨ns, content, rfl, -, he, hrevised⟩ := htreated.ne_iff.1 hne
    obtain rfl := honly ns ⟨content, he⟩
    exact hrevised (revised_of_not_replaceable fun h => not_hasRoom_deepNames hstart (by decide) h.2)
  have hone : nss = [deepNames] := by
    refine List.perm_singleton.1 ((List.perm_ext_iff_of_nodup hnodup (List.nodup_singleton _)).2 fun ns => ?_)
    rw [hmem, List.mem_singleton]
    refine ⟨fun h => honly ns h.2, ?_⟩
    rintro rfl
    exact ⟨hmet, _, hfile⟩
  have hzero : n = 0 := by
    obtain ⟨ks, -, rfl, hks⟩ := hdiffer
    rw [List.eq_nil_iff_forall_not_mem.2 fun k hk => (hks k).1 hk (hkept k)]
    rfl
  rw [hone] at hlisted
  rw [hzero] at hrun
  exact ⟨w', hlisted, hfile, by cbv, by decide +kernel, hrun, hkept⟩

end Modules

end ModuleBuild
