/-
  ModuleBuild.Proofs.Output.BuiltOver
  ───────────────────────────────────
  **A BUILD OVER WHAT A BUILD HAS LEFT.**

  A second build begins with the tree that the first has left: the output is
  there, with runnable modules and with assets, and the manifest has a start
  script.  Outside the output everything else is as it was, so the compiler
  is given the same and makes the same files again.

  From there the two builds are followed side by side.  Whatever the first
  has at some place after its modules are runnable, the second has too; what
  only the second has is an asset of the first build, and the first will have
  it again when its assets are placed.

  Main results:
    * `Prepared.outside_placed`, `Course.outside` — what a build changes outside its output;
    * `Course.walk_sources`, `Course.readBytes_source` — the sources are found again, as they were;
    * `Course.accepts` — what it leaves does not stand in the way of the compiler;
    * `Course.restocked` — the second build, when its modules are runnable, beside the first.
-/
import ModuleBuild.Build.Toolchain
import ModuleBuild.Proofs.Output.Normalizing
import ModuleBuild.Proofs.Output.PlacedAgain
import ModuleBuild.Proofs.Project.KeptOut

namespace ModuleBuild

open FileTree

/-! ## §1. Plain trees. -/

/-- A tree with names as the system lists them, and without links. -/
structure FileTree.Plain (t : FileTree) : Prop where
  proper : Proper t
  genuine : Genuine t
  linkFree : LinkFree t

/-- Whether a tree is plain can be checked. -/
theorem FileTree.plain_of_allNames {t : FileTree}
    (h : ∀ m ∈ t.top.allNames, Path.IsName m ∧ Utf8.nameForm m = m ∧ Nameable m)
    (hdir : ∀ m ∈ t.workingDir, Path.IsName m ∧ Utf8.nameForm m = m) (hfree : t.top.hasNoLink = true) :
    Plain t :=
  ⟨proper_of_allNames (fun m hm => (h m hm).1) hdir, genuine_of_allNames fun m hm => (h m hm).2,
    linkFree_of_hasNoLink hfree⟩

theorem FileTree.Plain.of_alike {t t' : FileTree} (h : Alike t t') (ht : Plain t) : Plain t' := by
  have hpresent : ∀ k, t'.entryAt? k ≠ none → t.entryAt? k ≠ none := by
    intro k hk
    rcases h.entryAt? k with hsame | ⟨content, -, hfile, -⟩
    · rwa [hsame]
    · exact ne_none_of_eq_some hfile
  refine ⟨⟨fun k hk => ht.proper.names k (hpresent k hk), ?_⟩, fun k hk => ht.genuine k (hpresent k hk),
    ht.linkFree.of_alike h.top⟩
  rw [← h.workingDir]
  exact ht.proper.workingDir

/-! ## §2. What a compiler makes. -/

/-- What a compiler makes, by location. -/
abbrev Makings := Location → Option Entry

/-- A tree has room for what a compiler makes: at each place nothing, or something of the same kind. -/
def Accepts (made : Makings) (t : FileTree) : Prop :=
  ∀ k e, made k = some e → t.entryAt? k = none ∨ (t.entryAt? k).map Entry.shape = some e.shape

/-- A tree with what a compiler makes put into it. -/
structure Laid (made : Makings) (t t' : FileTree) : Prop where
  workingDir : t'.workingDir = t.workingDir
  entry : ∀ k, t'.entryAt? k = (made k).or (t.entryAt? k)

/-- Everything that is made lies below the output, but for directories on the way to it. -/
def BelowOutput (out : Location) (made : Makings) : Prop :=
  ∀ k e, made k = some e → (∃ ns, ns ≠ [] ∧ k = out ++ ns) ∨ e = .directory ∧ k <+: out

/-- **What is asked of a compiler**: each time the inputs are the same it succeeds and makes the same
below the output, unless something of another kind stands in the way.  Without inputs it is not
run. -/
structure Compiles (tools : Toolchain) (c : Compilation) (t : FileTree) (made : Makings) : Prop where
  below : BelowOutput (Path.names c.outDir) made
  accepts : Accepts made t
  again : ∀ u : FileTree, Plain u → (∀ f ∈ c.inputs, u.readBytes f = t.readBytes f) →
    Accepts made u →
    ∃ u', (if c.inputs = [] then u' = u else (tools.compile c).runOn u = (.ok 0, u'))
      ∧ Plain u' ∧ Laid made u u'

variable {made : Makings} {t t' : FileTree} {out k m : Location}

theorem Laid.of_made {e : Entry} (h : Laid made t t') (hk : made k = some e) : t'.entryAt? k = some e := by
  rw [h.entry, hk, Option.some_or]

theorem Laid.of_not_made (h : Laid made t t') (hk : made k = none) : t'.entryAt? k = t.entryAt? k := by
  rw [h.entry, hk, Option.none_or]

/-- A plain tree stays plain when what is made is. -/
theorem FileTree.Plain.of_laid (ht : Plain t) (h : Laid made t t')
    (hnames : ∀ k e, made k = some e → ∀ n ∈ k, Path.IsName n ∧ Utf8.nameForm n = n ∧ Nameable n)
    (hlinks : ∀ k path, made k ≠ some (.link path)) : Plain t' := by
  have hall : ∀ k, t'.entryAt? k ≠ none → ∀ n ∈ k, Path.IsName n ∧ Utf8.nameForm n = n ∧ Nameable n := by
    intro k hk n hn
    cases hmade : made k with
    | some e => exact hnames k e hmade n hn
    | none =>
      rw [h.of_not_made hmade] at hk
      exact ⟨ht.proper.names k hk n hn, ht.genuine k hk n hn⟩
  refine ⟨⟨fun k hk n hn => (hall k hk n hn).1, ?_⟩, fun k hk n hn => (hall k hk n hn).2, fun k path hk => ?_⟩
  · rw [h.workingDir]
    exact ht.proper.workingDir
  · have hentry : t'.entryAt? k = some (.link path) := hk
    cases hmade : made k with
    | some e =>
      rw [h.of_made hmade] at hentry
      exact hlinks k path (hmade.trans hentry)
    | none =>
      rw [h.of_not_made hmade] at hentry
      exact ht.linkFree k path hentry

/-- Outside the output a compiler makes directories on the way to it, and no more. -/
theorem Laid.outside (h : Laid made t t') (hbelow : BelowOutput out made) (haccepts : Accepts made t)
    (hk : ¬ out <+: k) :
    t'.entryAt? k = t.entryAt? k
      ∨ t.entryAt? k = none ∧ t'.entryAt? k = some .directory ∧ k <+: out := by
  cases hmade : made k with
  | none => exact .inl (h.of_not_made hmade)
  | some e =>
    rcases hbelow k e hmade with ⟨ns, -, rfl⟩ | ⟨rfl, hway⟩
    · exact absurd (List.prefix_append ..) hk
    · rw [h.of_made hmade]
      rcases haccepts k _ hmade with hnone | hshape
      · exact .inr ⟨hnone, rfl, hway⟩
      · exact .inl (Entry.eq_directory_of_shape hshape).symm

/-! ## §3. The trees of a build. -/

/-- The places of assets do not change what kind of thing lies where the compiler makes something: at
or below them the sources have nothing there, or something of that kind. -/
def Yields (made : Makings) (source output : Text) (t : FileTree) (asset : Text) : Prop :=
  ∀ j e, Assets.pieces asset <+: j → made (Path.names output ++ j) = some e →
    t.entryAt? (Path.names source ++ j) = none
      ∨ (t.entryAt? (Path.names source ++ j)).map Entry.shape = some e.shape

/-- The last name below a directory is that of the path. -/
theorem baseName_below {start : Text} {ns : List Text} {n : Text} (hstart : Path.Straight start)
    (hns : ∀ m ∈ ns ++ [n], Path.IsName m) : Path.baseName (Path.below start (ns ++ [n])) = n := by
  obtain ⟨hstraight, hnames⟩ := below_straight hstart hns
  obtain ⟨root, hroot, -, hwritten⟩ := hstraight.written
  rw [hwritten, hnames, ← List.append_assoc,
    Path.baseName_written hroot (hns n (List.mem_append_right _ (List.mem_singleton_self _))).1]

/-- The manifest is no source. -/
theorem not_picked_manifest {start : Text} {ns : List Text} (hstart : Path.Straight start)
    (hns : ∀ n ∈ ns ++ [Manifest.fileName], Path.IsName n) (excluded : List Text) :
    ¬ Listing.Picked [Specifier.sourceExtension] excluded (Path.below start (ns ++ [Manifest.fileName])) := by
  rintro ⟨hending, -⟩
  rw [baseName_below hstart hns] at hending
  exact absurd hending (by decide)

/-- The trees of a build up to its manifest: as it finds the project, with the sources compiled, with
runnable modules, and with assets.  The manifest lies at `m`. -/
structure Prepared (config : Config) (m : Location) (made : Makings) (t0 t1 t2 t3 : FileTree) : Prop where
  plain : Plain t0
  vacant : t0.entryAt? (Path.names config.outDir) = none
  manifest : HasFile t0 m
  named : ∃ init, m = init ++ [Manifest.fileName]
  below : BelowOutput (Path.names config.outDir) made
  room : Accepts made t0
  compiled : Plain t1
  laid : Laid made t0 t1
  treated : Modules.Treated (Modules.finished config.markerNames) config.outDir (Path.names config.outDir)
    config.ignoredDirs t1 t2
  stocked : Assets.Stocked config.rootDir config.outDir t2 t3
  moved : Assets.Moved config.rootDir config.outDir config.assetPaths t2 t3

/-- The trees of a build: those up to its manifest, and the last, with the start script in the
manifest. -/
structure Course (config : Config) (m : Location) (made : Makings) (t0 t1 t2 t3 t4 : FileTree) : Prop
    extends Prepared config m made t0 t1 t2 t3 where
  workingDir : t4.workingDir = t3.workingDir
  recorded : HasFile t4 m
  others : ∀ k, k ≠ m → t4.entryAt? k = t3.entryAt? k

namespace Prepared

variable {config : Config} {t0 t1 t2 t3 : FileTree} (h : Prepared config m made t0 t1 t2 t3)

include h

theorem manifest_outside : ¬ Path.names config.outDir <+: m := by
  obtain ⟨content, hfile⟩ := h.manifest
  exact fun hpre => ne_none_of_eq_some hfile (entryAt?_eq_none_of_below h.vacant hpre)

theorem made_manifest : made m = none := by
  obtain ⟨content, hfile⟩ := h.manifest
  cases hmade : made m with
  | none => rfl
  | some e =>
    rcases h.below m e hmade with ⟨ns, -, hm⟩ | ⟨rfl, -⟩
    · exact absurd (hm ▸ List.prefix_append ..) h.manifest_outside
    · -- where a directory is made, there was no file
      rcases h.room m _ hmade with hnone | hshape
      · exact absurd hnone (ne_none_of_eq_some hfile)
      · rw [Entry.eq_directory_of_shape hshape] at hfile
        cases hfile

/-- What has changed outside the output before the assets are placed. -/
theorem outside_runnable (hk : ¬ Path.names config.outDir <+: k) :
    t2.entryAt? k = t0.entryAt? k
      ∨ t0.entryAt? k = none ∧ t2.entryAt? k = some .directory ∧ k <+: Path.names config.outDir := by
  rw [h.treated.outside hk]
  exact h.laid.outside h.below h.room hk

/-- What has changed outside the output when the assets are placed. -/
theorem outside_placed (hk : ¬ Path.names config.outDir <+: k) :
    t3.entryAt? k = t0.entryAt? k
      ∨ t0.entryAt? k = none ∧ t3.entryAt? k = some .directory ∧ k <+: Path.names config.outDir := by
  rcases h.stocked.outside k hk with hsame | ⟨hnone, hmade, hway⟩
  · rw [hsame]
    exact h.outside_runnable hk
  · rcases h.outside_runnable hk with hsame | ⟨-, hdir, -⟩
    · exact .inr ⟨hsame.symm.trans hnone, hmade, hway⟩
    · rw [hnone] at hdir
      cases hdir

/-- Everything on the way to a file that was there before is as it was. -/
theorem same_way_placed (hfile : HasFile t0 k) {j : Location} (hj : j <+: k) :
    t0.entryAt? j = t3.entryAt? j := by
  obtain ⟨content, hfile⟩ := hfile
  have hpresent : t0.entryAt? j ≠ none := fun hnone =>
    ne_none_of_eq_some hfile (entryAt?_eq_none_of_below hnone hj)
  have hout : ¬ Path.names config.outDir <+: j := fun hpre =>
    hpresent (entryAt?_eq_none_of_below h.vacant hpre)
  rcases h.outside_placed hout with hsame | ⟨hnone, -⟩
  · exact hsame.symm
  · exact absurd hnone hpresent

theorem manifest_placed : t3.entryAt? m = t0.entryAt? m :=
  (h.same_way_placed h.manifest List.prefix_rfl).symm

theorem plain_placed (hspelled : Path.Spelled config.outDir) : Plain t3 := by
  have hplain := h.compiled.of_alike h.treated.alike
  refine ⟨h.stocked.proper, fun k hk n hn => ?_, h.stocked.free⟩
  -- if anything was placed the output has names that the system takes
  rcases h.stocked.named with hall | hcheck
  · exact hplain.genuine k (hall k ▸ hk) n hn
  · have hout : ∀ n ∈ Path.names config.outDir, Utf8.nameForm n = n ∧ Nameable n := by
      rw [checkPath_eq_ok_iff, nameable_iff_names] at hcheck
      exact fun n hn => ⟨hspelled n hn, hcheck n hn⟩
    by_cases hcone : Path.names config.outDir <+: k
    · obtain ⟨j, rfl⟩ := hcone
      rcases List.mem_append.1 hn with hn | hn
      · exact hout n hn
      · rcases h.stocked.inside j with hnone | hkept | hsource
        · exact absurd hnone hk
        · exact hplain.genuine _ (hkept ▸ hk) n (List.mem_append_right _ hn)
        · exact hplain.genuine _ (hsource ▸ hk) n (List.mem_append_right _ hn)
    · rcases h.outside_placed hcone with hsame | ⟨-, -, hway⟩
      · exact h.plain.genuine k (hsame ▸ hk) n hn
      · exact hout n (hway.subset hn)

end Prepared

namespace Course

variable {config : Config} {t0 t1 t2 t3 t4 u1 u2 : FileTree} (h : Course config m made t0 t1 t2 t3 t4)

include h

/-- **What a build changes outside its output**: it makes directories on the way there, and writes the
manifest. -/
theorem outside (hk : ¬ Path.names config.outDir <+: k) (hne : k ≠ m) :
    t4.entryAt? k = t0.entryAt? k
      ∨ t0.entryAt? k = none ∧ t4.entryAt? k = some .directory ∧ k <+: Path.names config.outDir := by
  rw [h.others k hne]
  exact h.outside_placed hk

theorem workingDir_eq : t4.workingDir = t0.workingDir := by
  rw [h.workingDir, h.stocked.workingDir, h.treated.workingDir, h.laid.workingDir]

/-- Recording the start script changes the bytes of the manifest only. -/
theorem alike_recorded : Alike t3 t4 := by
  obtain ⟨content, hfile⟩ := h.manifest
  obtain ⟨content', hfile'⟩ := h.recorded
  exact alike_of_file h.workingDir (h.manifest_placed.trans hfile) hfile' h.others

theorem plain_recorded (hspelled : Path.Spelled config.outDir) : Plain t4 :=
  (h.plain_placed hspelled).of_alike h.alike_recorded

/-! ## §4. The sources, found again. -/

/-- Everything on the way to a file other than the manifest is as it was. -/
theorem same_way (hfile : HasFile t0 k) (hne : k ≠ m) {j : Location} (hj : j <+: k) :
    t0.entryAt? j = t4.entryAt? j := by
  have hm : j ≠ m := by
    rintro rfl
    obtain ⟨content, hfile⟩ := hfile
    obtain ⟨content', hmanifest⟩ := h.manifest
    rw [isDirectory_of_below (ne_none_of_eq_some hfile) hj fun e => hne e.symm] at hmanifest
    cases hmanifest
  exact (h.same_way_placed hfile hj).trans (h.others j hm).symm

/-- The output directory itself is no file. -/
theorem not_hasFile_output : ¬ HasFile t4 (Path.names config.outDir) := by
  have hmade : ∀ e, made (Path.names config.outDir) = some e → e = .directory := by
    intro e hmade
    rcases h.below _ e hmade with ⟨ns, hns, hout⟩ | ⟨hdir, -⟩
    · exact absurd (List.append_right_eq_self.1 hout.symm) hns
    · exact hdir
  have hfirst : ¬ HasFile t1 (Path.names config.outDir) := by
    rintro ⟨content, hfile⟩
    rw [h.laid.entry, h.vacant, Option.or_none] at hfile
    cases hmade _ hfile
  rintro ⟨content, hfile⟩
  rw [h.others _ fun e => h.manifest_outside (e ▸ List.prefix_rfl)] at hfile
  rcases h.stocked.root with hsame | hdir
  · exact hfirst (h.treated.hasFile.1 ⟨content, hsame.symm.trans hfile⟩)
  · rw [hdir] at hfile
    cases hfile

variable (hroot : Path.Straight config.rootDir)

include hroot

theorem ne_manifest_of_picked {ns excluded : List Text} (hne : ns ≠ [])
    (hpicked : Listing.Picked [Specifier.sourceExtension] excluded (Path.below config.rootDir ns)) :
    Path.names config.rootDir ++ ns ≠ m := by
  obtain ⟨init, hinit⟩ := h.named
  obtain ⟨content, hfile⟩ := h.manifest
  intro hm
  obtain ⟨ns, n, rfl⟩ := (List.eq_nil_or_concat ns).resolve_left hne
  rw [List.concat_eq_append] at hm hpicked
  rw [hinit, ← List.append_assoc] at hm
  obtain ⟨-, hn⟩ := List.append_inj' hm rfl
  cases hn
  refine not_picked_manifest hroot (fun n hn => ?_) excluded hpicked
  refine h.plain.proper.names m (ne_none_of_eq_some hfile) n ?_
  rw [hinit, ← hm, List.append_assoc]
  exact List.mem_append_right _ hn

variable (hspelled : Path.Spelled config.rootDir)

include hspelled

/-- **The same sources are found again**, if the walk of the sources does not come into the output. -/
theorem walk_sources (hout : Path.Spelled config.outDir) (hkeeps : config.KeepsOut)
    (hapart : ¬ Path.names config.outDir <+: Path.names config.rootDir) (excluded : List Text) :
    (t4.walk config.rootDir config.ignoredDirs).map (Listing.paths [Specifier.sourceExtension] excluded)
      = (t0.walk config.rootDir config.ignoredDirs).map
          (Listing.paths [Specifier.sourceExtension] excluded) := by
  have hrecorded := h.plain_recorded hout
  refine Listing.walk_files_congr hrecorded.proper h.plain.proper hrecorded.linkFree h.plain.linkFree hroot
    fun ns hreached hpicked => ?_
  rw [placeOf_of_spelled hspelled]
  by_cases hcone : Path.names config.outDir <+: Path.names config.rootDir ++ ns
  · -- the walk ends at the output, which holds no source and is none
    rcases List.prefix_or_prefix_of_prefix hcone (List.prefix_append ..) with hpre | ⟨ms, hms⟩
    · exact absurd hpre hapart
    · rw [← hms] at hcone
      have hms' : ms <+: ns := (List.prefix_append_right_inj _).1 hcone
      obtain ⟨k, hk, hpre, hignored⟩ := hkeeps ms hms.symm
      have hlast : ms = ns := by
        by_contra hne
        refine hreached.way k hk (hpre.trans hms') (fun e => hne ?_) hignored
        exact hms'.eq_of_length (le_antisymm hms'.length_le (e ▸ hpre.length_le))
      rw [← hlast, hms]
      refine iff_of_false h.not_hasFile_output ?_
      rintro ⟨content, hfile⟩
      rw [h.vacant] at hfile
      cases hfile
  · have hne := h.ne_manifest_of_picked hroot hreached.below hpicked
    unfold HasFile
    rcases h.outside hcone hne with hsame | ⟨hnone, hdir, -⟩
    · rw [hsame]
    · rw [hnone, hdir]
      simp

/-- The sources hold what they held. -/
theorem readBytes_source {inputs excluded : List Text}
    (hinputs : (t0.walk config.rootDir config.ignoredDirs).map
      (Listing.paths [Specifier.sourceExtension] excluded) = .ok inputs) {f : Text} (hf : f ∈ inputs) :
    t4.readBytes f = t0.readBytes f := by
  obtain ⟨ns, rfl, hreached, hfile, hpicked⟩ :=
    Listing.exists_of_mem_walk_files h.plain.proper h.plain.linkFree hroot hinputs hf
  rw [placeOf_of_spelled hspelled] at hfile
  have hpresent : t0.entryAt? (Path.names config.rootDir ++ ns) ≠ none := by
    obtain ⟨content, hfile⟩ := hfile
    exact ne_none_of_eq_some hfile
  have hnames : ∀ n ∈ ns, Path.IsName n := fun n hn =>
    h.plain.proper.names _ hpresent n (List.mem_append_right _ hn)
  have hforms : ∀ n ∈ ns, Utf8.nameForm n = n := fun n hn =>
    (h.plain.genuine _ hpresent n (List.mem_append_right _ hn)).1
  refine (readBytes_congr h.plain.linkFree (below_straight hroot hnames).1 fun j hj => ?_).symm
  rw [placeOf_below hroot hspelled hnames hforms] at hj
  exact h.same_way hfile (h.ne_manifest_of_picked hroot hreached.below hpicked) hj

omit hroot hspelled

/-! ## §5. The second build. -/

/-- **What a build leaves does not stand in the way of the compiler.** -/
theorem accepts
    (hassets : ∀ asset ∈ config.assetPaths, Path.isAbsolute asset = false →
      Assets.Admissible config.rootDir config.outDir m asset
        ∧ Yields made config.rootDir config.outDir t0 asset) : Accepts made t4 := by
  intro k e hmade
  have hne : k ≠ m := by
    rintro rfl
    rw [h.made_manifest] at hmade
    cases hmade
  have hshape : (t2.entryAt? k).map Entry.shape = some e.shape := by
    rw [show (t2.entryAt? k).map Entry.shape = (t1.entryAt? k).map Entry.shape from
      (h.treated.alike.top k).symm, h.laid.of_made hmade]
    rfl
  rw [h.others k hne]
  rcases h.moved k with hsame | ⟨hnone, -⟩ | ⟨asset, hmem, habs, hapart, hplace⟩
  · rw [hsame]
    exact .inr hshape
  · rw [hnone] at hshape
    cases hshape
  · -- at or below an asset lies what the sources have, if it is not what was there before
    obtain ⟨hadm, hyields⟩ := hassets asset hmem habs
    obtain ⟨q, rfl⟩ := hplace
    rw [List.append_assoc] at hmade hshape ⊢
    have hpieces : Assets.pieces asset <+: Assets.pieces asset ++ q := List.prefix_append ..
    have hsource : Assets.sourcePlace config.rootDir asset
        <+: Path.names config.rootDir ++ (Assets.pieces asset ++ q) :=
      (List.prefix_append_right_inj _).2 hpieces
    rcases h.stocked.inside (Assets.pieces asset ++ q) with hnone | hkept | hcopied
    · exact .inl hnone
    · rw [hkept]
      exact .inr hshape
    · have hout : ¬ Path.names config.outDir
          <+: Path.names config.rootDir ++ (Assets.pieces asset ++ q) := by
        intro hpre
        rcases List.prefix_or_prefix_of_prefix hpre hsource with hcone | hcone
        · exact hapart (hadm.apart hcone ▸ List.prefix_rfl)
        · exact hapart hcone
      rw [hcopied]
      rcases h.outside_runnable hout with hsame | ⟨-, -, hway⟩
      · rw [hsame]
        exact hyields _ e hpieces hmade
      · exact absurd (hsource.trans hway) hapart

variable (hlaid : Laid made t4 u1)
  (htreated : Modules.Treated (Modules.finished config.markerNames) config.outDir
    (Path.names config.outDir) config.ignoredDirs u1 u2)

include hlaid htreated

/-- What only the second build has when its modules are runnable, the first has in the end. -/
theorem only_second (hk : t2.entryAt? k = none) (hu : u2.entryAt? k ≠ none) :
    k ≠ m ∧ u1.entryAt? k = t3.entryAt? k ∧ t3.entryAt? k ≠ none := by
  have hnone : t1.entryAt? k = none := by
    by_contra hsome
    exact h.treated.present.2 hsome hk
  have hmade : made k = none := by
    cases hmade : made k with
    | none => rfl
    | some e =>
      rw [h.laid.of_made hmade] at hnone
      cases hnone
  have hne : k ≠ m := by
    rintro rfl
    obtain ⟨content, hfile⟩ := h.manifest
    rw [h.laid.of_not_made hmade, hfile] at hnone
    cases hnone
  have hlater : u1.entryAt? k = t3.entryAt? k := (hlaid.of_not_made hmade).trans (h.others k hne)
  exact ⟨hne, hlater, hlater ▸ htreated.present.1 hu⟩

/-- **The second build beside the first**, when its modules are runnable. -/
theorem restocked (hplain : Plain u1) :
    Assets.Restocked config.outDir m (t4.entryAt? m) t3 t2 t2 u2 where
  free := htreated.linkFree hplain.linkFree
  workingDir := by
    rw [htreated.workingDir, hlaid.workingDir, h.workingDir, h.stocked.workingDir]
  kept k hk := by
    cases hmade : made k with
    | some e =>
      -- the compiler has made the same, and the same becomes of it
      have hsame : u1.entryAt? k = t1.entryAt? k := (hlaid.of_made hmade).trans (h.laid.of_made hmade).symm
      exact .inl (h.treated.entryAt?_congr htreated hsame).symm
    | none =>
      have hbefore : t0.entryAt? k ≠ none := by
        rw [← h.laid.of_not_made hmade]
        exact h.treated.present.1 hk
      have hout : ¬ Path.names config.outDir <+: k := fun hpre =>
        hbefore (entryAt?_eq_none_of_below h.vacant hpre)
      have hfirst : t2.entryAt? k = t0.entryAt? k := by
        rcases h.outside_runnable hout with hsame | ⟨hnone, -⟩
        · exact hsame
        · exact absurd hnone hbefore
      have hsecond := (htreated.outside hout).trans (hlaid.of_not_made hmade)
      by_cases hm : k = m
      · subst hm
        obtain ⟨content, hfile⟩ := h.manifest
        obtain ⟨content', hfile'⟩ := h.recorded
        exact .inr ⟨rfl, content, content', hfirst.trans hfile, hsecond.trans hfile'⟩
      · rcases h.outside hout hm with hsame | ⟨hnone, -⟩
        · exact .inl (hfirst.trans (hsecond.trans hsame).symm)
        · exact absurd hnone hbefore
  left k hk hu := by
    obtain ⟨-, hlater, hthird⟩ := h.only_second hlaid htreated hk hu
    refine ⟨?_, hk, ?_⟩
    · by_cases hcone : Path.names config.outDir <+: k
      · exact .inl hcone
      · rcases h.stocked.outside k hcone with hsame | ⟨-, -, hway⟩
        · exact absurd (hsame.trans hk) hthird
        · exact .inr hway
    · rw [← hlater]
      exact htreated.alike.top k
  named := h.stocked.named.imp_left fun hall k hk => by
    by_contra hu
    exact (h.only_second hlaid htreated hk hu).2.2 ((hall k).trans hk)
  manifest := (htreated.outside h.manifest_outside).trans (hlaid.of_not_made h.made_manifest)

end Course

end ModuleBuild
