/-
  ModuleBuild.Proofs.Output.SecondRun
  ───────────────────────────────────
  **GOING OVER MODULES A SECOND TIME.**

  A pass over modules lists them, and then reads, changes and replaces one
  after another.  In a tree without links no step of a pass changes what is
  listed or where a path leads: it only gives one file other bytes.  So a
  second run meets the same paths, each in the state in which the first run
  has left it: with a text that the function keeps, unreadable, or refused.

  Main results:
    * `runOn_guarded` — what one task leaves and returns;
    * `settled_runFrom` — after a run every module of it is settled;
    * `completeAll_twice` — a second run over settled modules changes nothing.
-/
import Mathlib
import ModuleBuild.Output.Modules
import ModuleBuild.Proofs.FileTree.Shape
import ModuleBuild.Proofs.ModuleText.SecondPass
import ModuleBuild.Proofs.Path.Normal
import ModuleBuild.Proofs.Run
import ModuleBuild.Proofs.Text.RoundTrip

namespace ModuleBuild

/-! ## §1. What is listed. -/

namespace Listing

/-- The files of a walk whose names have one of some endings, and none of others. -/
def paths (endings excluded : List Text) (sightings : List FileTree.Sighting) : List Text :=
  ((sightings.filterMap FileTree.Sighting.listed?).filter fun e =>
    !e.2 && hasEnding endings (Path.baseName e.1) && !hasEnding excluded (Path.baseName e.1)).map
      (·.1)

/-- A listing returns what its walk lists, and leaves the tree as it is. -/
theorem runOn_all (root : Text) (ignored : NameSet) (w : World) :
    ∃ events, (all root ignored).runOn w
      = ((w.tree.walk root ignored).map (·.filterMap FileTree.Sighting.listed?),
          ⟨w.tree, events⟩) := by
  unfold all
  cases hwalk : w.tree.walk root ignored with
  | error failure =>
    refine ⟨w.events, ?_⟩
    simp only [Action.runOn_bind, Action.runOn_ask, hwalk]
    rfl
  | ok sightings =>
    obtain ⟨events, hnotes⟩ := Action.tree_forIn_note Event.logged (sightings.filterMap recordOf) w
    refine ⟨events, ?_⟩
    simp only [Action.runOn_bind, Action.runOn_ask, hwalk]
    rw [hnotes]
    rfl

/-- A root that does not open has nothing below it, unless its path has no form in the system. -/
theorem listed_of_not_opened {t : FileTree} {root : Text} (ignored : NameSet) {failure : Failure}
    (h : t.openDirectory (t.absolute root) = .error failure) :
    (t.walk root ignored).map (·.filterMap FileTree.Sighting.listed?)
      = if failure.isSystemFault then .ok [] else .error failure := by
  unfold FileTree.walk
  dsimp only
  rw [h]
  dsimp only
  split <;> rfl

/-- What is listed as files is picked from what is listed. -/
theorem runOn_files (root : Text) (endings : List Text) (ignored : NameSet) (excluded : List Text)
    (w : World) :
    ∃ events, (files root endings ignored excluded).runOn w
      = ((w.tree.walk root ignored).map (paths endings excluded), ⟨w.tree, events⟩) := by
  obtain ⟨events, hall⟩ := runOn_all root ignored w
  refine ⟨events, ?_⟩
  unfold files
  rw [Action.runOn_bind, hall]
  cases w.tree.walk root ignored <;> rfl

end Listing

namespace FileTree

/-- Below an absolute path everything that is listed has one. -/
theorem isAbsolute_of_mem_sightAll {t : FileTree} {root : Text} {ignored : NameSet} {path : Text}
    {cs : Forest} (h : Path.isAbsolute path = true) {s : Sighting}
    (hs : s ∈ sightAll t root ignored path cs) {q : Text} {d : Bool} (hq : s.listed? = some (q, d)) :
    Path.isAbsolute q = true := by
  have hlink : ∀ name p, s ∈ sightLink t root ignored name p → s.listed? = some (q, d) → q = p := by
    intro name p hs hq
    unfold sightLink at hs
    split at hs
    · split at hs
      · split at hs
        · cases hs
        · rw [List.mem_singleton] at hs
          subst hs
          cases hq
          rfl
      · rw [List.mem_singleton] at hs
        subst hs
        cases hq
        rfl
    · rw [List.mem_singleton] at hs
      subst hs
      cases hq
  rw [sightAll] at hs
  obtain ⟨name, -, hs⟩ := List.mem_flatMap.1 hs
  have hjoin := Path.isAbsolute_join h name
  dsimp only at hs
  split at hs
  · cases hs
  · rw [List.mem_singleton] at hs
    subst hs
    cases hq
    exact hjoin
  · rw [hlink name _ hs hq]
    exact hjoin
  · rename_i ds hds
    split at hs
    · rw [List.mem_singleton] at hs
      subst hs
      cases hq
    · rcases List.mem_cons.1 hs with rfl | hs
      · cases hq
        exact hjoin
      · have hlt := sizeOf_lt_of_lookup hds
        have hsmaller : sizeOf ds < sizeOf cs := by
          simp only [Node.directory.sizeOf_spec] at hlt
          omega
        exact isAbsolute_of_mem_sightAll hjoin hs hq
  termination_by sizeOf cs

theorem isAbsolute_of_mem_walk {t : FileTree} {root : Text} {ignored : NameSet}
    {sightings : List Sighting} (h : t.walk root ignored = .ok sightings) {s : Sighting}
    (hs : s ∈ sightings) {q : Text} {d : Bool} (hq : s.listed? = some (q, d)) :
    Path.isAbsolute q = true := by
  unfold walk at h
  dsimp only at h
  split at h
  · cases h
    exact isAbsolute_of_mem_sightAll (isAbsolute_absolute t root) hs hq
  · split at h
    · cases h
      rw [List.mem_singleton] at hs
      subst hs
      cases hq
    · cases h

end FileTree

theorem Listing.isAbsolute_of_mem_paths {t : FileTree} {root : Text} {ignored : NameSet}
    {sightings : List FileTree.Sighting} (h : t.walk root ignored = .ok sightings)
    {endings excluded : List Text} {p : Text} (hp : p ∈ Listing.paths endings excluded sightings) :
    Path.isAbsolute p = true := by
  obtain ⟨⟨q, d⟩, hq, rfl⟩ := List.mem_map.1 hp
  obtain ⟨s, hs, hlisted⟩ := List.mem_filterMap.1 (List.mem_filter.1 hq).1
  exact FileTree.isAbsolute_of_mem_walk h hs hlisted

/-! ## §2. One task. -/

namespace Modules

variable {f : Text → Text} {t t' : FileTree} {p : Text}

/-- What changing the text of a module returns, and the tree it leaves. -/
def changed (f : Text → Text) (p : Text) (t : FileTree) : Except Failure Bool × FileTree :=
  match t.readText p with
  | .error failure => (.error failure, t)
  | .ok text =>
    if f text = text then (.ok false, t)
    else
      match t.replaceText p (f text) with
      | .error failure => (.error failure, t)
      | .ok t' => (.ok true, t')

theorem runOn_changeFile (f : Text → Text) (p : Text) (w : World) :
    (changeFile f p).runOn w = ((changed f p w.tree).1, ⟨(changed f p w.tree).2, w.events⟩) := by
  unfold changeFile changed
  rw [Action.runOn_bind, Action.runOn_ask]
  cases w.tree.readText p with
  | error failure => rfl
  | ok text =>
    simp only [Action.runOn_lift, Edit.replaceIfChanged]
    by_cases hf : f text = text
    · rw [if_pos hf, if_pos hf]
      rfl
    · rw [if_neg hf, if_neg hf]
      simp only [Edit.runOn_bind, Edit.run_change]
      cases w.tree.replaceText p (f text) <;> rfl

/-- Whether a task is that of a function, whatever it logs. -/
def Performs (task : Text → Action Bool) (f : Text → Text) : Prop :=
  ∀ p w, ∃ events, (task p).runOn w = ((changed f p w.tree).1, ⟨(changed f p w.tree).2, events⟩)

theorem performs_completeFile : Performs completeFile ModuleText.complete := by
  intro p w
  unfold completeFile
  rw [Action.runOn_bind, runOn_changeFile]
  cases (changed ModuleText.complete p w.tree).1 with
  | error failure => exact ⟨w.events, rfl⟩
  | ok b =>
    cases b with
    | false => exact ⟨w.events, rfl⟩
    | true =>
      exact ⟨_, rfl⟩

/-- What is left of a result when contained failures count as no change. -/
def contain : Except Failure Bool → Except Failure Bool
  | .ok b => .ok b
  | .error failure => if Tasks.isContained failure then .ok false else .error failure

theorem runOn_guarded {task : Text → Action Bool} (htask : Performs task f) (p : Text) (w : World) :
    ∃ events, (Tasks.guarded task p).runOn w
      = (contain (changed f p w.tree).1, ⟨(changed f p w.tree).2, events⟩) := by
  obtain ⟨events, h⟩ := htask p w
  unfold Tasks.guarded
  rw [Action.runOn_bind, Action.runOn_tryCatch, Action.runOn_bind, h]
  cases (changed f p w.tree).1 with
  | ok b => exact ⟨events, rfl⟩
  | error failure =>
    by_cases hc : Tasks.isContained failure = true
    · simp only [contain, if_pos hc]
      exact ⟨_, rfl⟩
    · simp only [contain, if_neg hc]
      exact ⟨_, rfl⟩

/-! ## §3. Settled modules. -/

/-- Whether the task of a module changes nothing: its text is kept, or it is reported. -/
def Settled (f : Text → Text) (p : Text) (t : FileTree) : Prop :=
  contain (changed f p t).1 = .ok false

theorem changed_cases (f : Text → Text) (p : Text) (t : FileTree) :
    ((changed f p t).2 = t ∧ (changed f p t).1 ≠ .ok true)
      ∨ ∃ text t', t.readText p = .ok text ∧ f text ≠ text ∧ t.replaceText p (f text) = .ok t' ∧
          changed f p t = (.ok true, t') := by
  unfold changed
  cases ht : t.readText p with
  | error failure => simp
  | ok text =>
    by_cases hf : f text = text
    · simp [hf]
    · simp only [if_neg hf]
      cases hr : t.replaceText p (f text) with
      | error failure => simp
      | ok t' => exact .inr ⟨text, t', rfl, hf, hr, rfl⟩

theorem tree_of_settled (h : Settled f p t) : (changed f p t).2 = t := by
  rcases changed_cases f p t with ⟨ht, -⟩ | ⟨text, t', -, -, -, hc⟩
  · exact ht
  · unfold Settled at h
    rw [hc] at h
    cases h

theorem settled_of_eq {text : Text} (h : t.readText p = .ok text) (hf : f text = text) :
    Settled f p t := by
  unfold Settled changed
  simp only [h, if_pos hf]
  rfl

/-- A task that ends settles its module, unless it replaces the text. -/
theorem settled_of_contain {b : Bool} (hne : (changed f p t).1 ≠ .ok true)
    (h : contain (changed f p t).1 = .ok b) : Settled f p t := by
  unfold Settled
  cases hc : (changed f p t).1 with
  | ok c =>
    cases c with
    | true => exact absurd hc hne
    | false => rfl
  | error failure =>
    rw [hc] at h
    unfold contain at h ⊢
    dsimp only at h ⊢
    split at h
    · rename_i hcont
      rw [if_pos hcont]
    · cases h

/-- The texts of some modules need no second change. -/
def Stable (f : Text → Text) (paths : List Text) (t : FileTree) : Prop :=
  ∀ p ∈ paths, ∀ text, t.readText p = .ok text → f (f text) = f text

end Modules

namespace FileTree

variable {t t' : FileTree} {p q : Text}

/-- A text that is read is that of a file which the path leads to. -/
theorem exists_of_readText {text : Text} (h : t.readText p = .ok text) :
    ∃ l content, t.locate .target p = .ok (.occupied l) ∧ t.entryAt? l = some (.file content) ∧
      Utf8.decode content = .ok text := by
  unfold readText at h
  cases hread : t.readBytes p with
  | error failure =>
    rw [hread] at h
    cases h
  | ok content =>
    obtain ⟨l, hl, hfile⟩ := exists_of_readBytes hread
    refine ⟨l, content, hl, hfile, ?_⟩
    rw [hread] at h
    simp only [bind, Except.bind] at h
    split at h
    · rename_i text' htext
      cases h
      exact htext
    · cases h

theorem readText_of_file {l : Location} {content : Bytes} {text : Text}
    (h : t.locate .target p = .ok (.occupied l)) (hl : t.entryAt? l = some (.file content))
    (hc : Utf8.decode content = .ok text) : t.readText p = .ok text := by
  unfold readText
  rw [readBytes_of_locate h hl]
  simp only [bind, Except.bind, hc]

/-- Two trees read alike where a path leads to the same entry. -/
theorem readText_congr (h : t.locate .target p = t'.locate .target p)
    (he : ∀ l, t.locate .target p = .ok (.occupied l) → t.entryAt? l = t'.entryAt? l) :
    t.readText p = t'.readText p := by
  unfold readText
  rw [readBytes_congr_of_locate h he]

/-- What is read after one file was replaced. -/
theorem readText_replaceText (hfree : LinkFree t) (hp : Path.isAbsolute p = true) {old new : Text}
    (h : t.readText p = .ok old) (hr : t.replaceText p new = .ok t') :
    Alike t t' ∧ t'.readText p = .ok new ∧
      ∀ q, t'.readText q = t.readText q ∨ (t.readText q = .ok old ∧ t'.readText q = .ok new) := by
  obtain ⟨l, content, hl, hcontent, hold⟩ := exists_of_readText h
  obtain ⟨bytes, hbytes, hdir, hself, hother⟩ := replaceText_file hfree hp hl hcontent hr
  have halike := alike_of_file hdir hcontent hself hother
  have hnew := Utf8.decode_encode hbytes
  have hat : ∀ q, t.locate .target q = .ok (.occupied l) → t'.readText q = .ok new := by
    intro q hq
    exact readText_of_file (by rw [← locate_alike halike, hq]) hself hnew
  refine ⟨halike, hat p hl, ?_⟩
  intro q
  by_cases hq : t.locate .target q = .ok (.occupied l)
  · exact .inr ⟨readText_of_file hq hcontent hold, hat q hq⟩
  · left
    refine readText_congr (locate_alike halike .target q).symm ?_
    intro k hk
    have hne : k ≠ l := by
      rintro rfl
      exact hq (by rw [locate_alike halike, hk])
    exact hother k hne

end FileTree

/-! ## §4. Runs of tasks. -/

namespace Modules

variable {f : Text → Text} {paths : List Text} {t t' : FileTree}

/-- What a run keeps: the shape of the tree, that texts need no second change, and what is
settled. -/
structure Keeps (f : Text → Text) (paths : List Text) (t t' : FileTree) : Prop where
  alike : t.Alike t'
  stable : Stable f paths t'
  settled : ∀ q ∈ paths, Settled f q t → Settled f q t'

theorem Keeps.refl (h : Stable f paths t) : Keeps f paths t t := ⟨.refl t, h, fun _ _ hq => hq⟩

theorem Keeps.trans {t'' : FileTree} (h : Keeps f paths t t') (h' : Keeps f paths t' t'') :
    Keeps f paths t t'' :=
  ⟨h.alike.trans h'.alike, h'.stable, fun q hq hs => h'.settled q hq (h.settled q hq hs)⟩

/-- Where a module reads as before, its task returns what it did before. -/
theorem changed_alike (h : t.Alike t') {p : Text} (hread : t'.readText p = t.readText p) :
    (changed f p t').1 = (changed f p t).1 := by
  unfold changed
  rw [hread]
  cases t.readText p with
  | error failure => rfl
  | ok text =>
    by_cases hf : f text = text
    · simp only [if_pos hf]
    · simp only [if_neg hf]
      have hreplace := t.replaceText_alike h p (f text)
      cases hl : t.replaceText p (f text) with
      | error failure =>
        rw [hl] at hreplace
        cases hr : t'.replaceText p (f text) with
        | error failure' =>
          rw [hr] at hreplace
          cases hreplace
          rfl
        | ok u =>
          rw [hr] at hreplace
          cases hreplace
      | ok u =>
        rw [hl] at hreplace
        cases hr : t'.replaceText p (f text) with
        | error failure' =>
          rw [hr] at hreplace
          cases hreplace
        | ok u' => rfl

/-- **One task keeps what a run keeps, and settles its module.** -/
theorem keeps_changed (hfree : t.LinkFree) (habs : ∀ p ∈ paths, Path.isAbsolute p = true)
    (hstable : Stable f paths t) {p : Text} (hp : p ∈ paths) {b : Bool}
    (h : contain (changed f p t).1 = .ok b) :
    Keeps f paths t (changed f p t).2 ∧ Settled f p (changed f p t).2 := by
  rcases changed_cases f p t with ⟨htree, hne⟩ | ⟨text, t', htext, hf, hr, hc⟩
  · rw [htree]
    exact ⟨.refl hstable, settled_of_contain hne h⟩
  · rw [hc]
    obtain ⟨halike, hself, hother⟩ := t.readText_replaceText hfree (habs p hp) htext hr
    have hkept : f (f text) = f text := hstable p hp text htext
    refine ⟨⟨halike, ?_, ?_⟩, settled_of_eq hself hkept⟩
    · intro q hq text' hq'
      rcases hother q with he | ⟨-, he⟩
      · exact hstable q hq text' (by rw [← he, hq'])
      · rw [he] at hq'
        cases hq'
        rw [hkept, hkept]
    · intro q hq hs
      rcases hother q with he | ⟨-, he⟩
      · show contain (changed f q t').1 = .ok false
        rw [changed_alike halike he]
        exact hs
      · exact settled_of_eq he hkept

/-- **A run keeps what each task keeps, and settles every module of it.** -/
theorem settled_runFrom {task : Text → Action Bool} (htask : Performs task f)
    (habs : ∀ p ∈ paths, Path.isAbsolute p = true) (total : Nat) :
    ∀ (ps : List Text) (done : Nat) (w w' : World) (flags : List Bool), (∀ p ∈ ps, p ∈ paths) →
      w.tree.LinkFree → Stable f paths w.tree →
      (Tasks.runFrom task total done ps).runOn w = (.ok flags, w') →
      Keeps f paths w.tree w'.tree ∧ ∀ p ∈ ps, Settled f p w'.tree
  | [], done, w, w', flags, _, _, hstable, h => by
    cases h
    exact ⟨.refl hstable, fun p hp => by cases hp⟩
  | p :: ps, done, w, w', flags, hps, hfree, hstable, h => by
    have hp := hps p (List.mem_cons_self ..)
    obtain ⟨events, hguarded⟩ := runOn_guarded htask p w
    rw [Tasks.runFrom, Action.runOn_bind, hguarded] at h
    cases hc : contain (changed f p w.tree).1 with
    | error failure =>
      rw [hc] at h
      cases h
    | ok b =>
      -- a module that is settled stays so while the others are treated
      obtain ⟨hkeeps, hsettled⟩ := keeps_changed hfree habs hstable hp hc
      rw [hc] at h
      simp only [Action.runOn_bind, Action.runOn_note] at h
      split at h
      · rename_i rest w'' hrest
        obtain ⟨hkeeps', hsettled'⟩ := settled_runFrom htask habs total ps (done + 1) _ w'' rest
          (fun q hq => hps q (List.mem_cons_of_mem p hq)) (hfree.of_alike hkeeps.alike.top)
          hkeeps.stable hrest
        cases h
        refine ⟨hkeeps.trans hkeeps', ?_⟩
        intro q hq
        rcases List.mem_cons.1 hq with rfl | hq
        · exact hkeeps'.settled q hp hsettled
        · exact hsettled' q hq
      · cases h

/-- A run over settled modules changes nothing. -/
theorem runFrom_of_settled {task : Text → Action Bool} (htask : Performs task f) (total : Nat) :
    ∀ (ps : List Text) (done : Nat) (w : World), (∀ p ∈ ps, Settled f p w.tree) →
      ∃ events, (Tasks.runFrom task total done ps).runOn w
        = (.ok (List.replicate ps.length false), ⟨w.tree, events⟩)
  | [], done, w, _ => ⟨w.events, rfl⟩
  | p :: ps, done, w, hps => by
    have hp := hps p (List.mem_cons_self ..)
    obtain ⟨events, hguarded⟩ := runOn_guarded htask p w
    rw [tree_of_settled hp, show contain (changed f p w.tree).1 = .ok false from hp] at hguarded
    obtain ⟨events', hrest⟩ := runFrom_of_settled htask total ps (done + 1)
      ⟨w.tree, events ++ [.stageAdvanced (Binary64.percentOf (done + 1) total)]⟩
      fun q hq => hps q (List.mem_cons_of_mem p hq)
    refine ⟨events', ?_⟩
    rw [Tasks.runFrom, Action.runOn_bind, hguarded]
    simp only [Action.runOn_bind, Action.runOn_note, hrest]
    rfl

theorem countChanged_replicate (n : Nat) :
    Tasks.countChanged (List.replicate n false) = 0 := by
  unfold Tasks.countChanged
  rw [List.filter_replicate_of_neg (by simp)]
  rfl

/-! ## §5. Two runs over a tree. -/

/-- The modules below a directory of a tree. -/
def listed (t : FileTree) (root : Text) (ignored : NameSet) : Except Failure (List Text) :=
  (t.walk root ignored).map (Listing.paths [Specifier.moduleExtension] [])

theorem runOn_list (root : Text) (ignored : NameSet) (w : World) :
    ∃ events, (list root ignored).runOn w = (listed w.tree root ignored, ⟨w.tree, events⟩) :=
  Listing.runOn_files root _ ignored [] w

theorem isAbsolute_of_mem_listed {root : Text} {ignored : NameSet}
    (h : listed t root ignored = .ok paths) : ∀ p ∈ paths, Path.isAbsolute p = true := by
  unfold listed at h
  cases hwalk : t.walk root ignored with
  | error failure =>
    rw [hwalk] at h
    cases h
  | ok sightings =>
    rw [hwalk] at h
    cases h
    intro p hp
    exact Listing.isAbsolute_of_mem_paths hwalk hp

/-- A completion that ends has listed its modules and run their tasks. -/
theorem exists_of_completeAll {root : Text} {ignored : NameSet} {w w' : World} {n : Nat}
    (h : (completeAll root ignored).runOn w = (.ok n, w')) :
    ∃ paths flags events w'', listed w.tree root ignored = .ok paths ∧
      (Tasks.run paths completeFile).runOn ⟨w.tree, events⟩ = (.ok flags, w'') ∧
      w'.tree = w''.tree := by
  obtain ⟨events, hlist⟩ := runOn_list root ignored w
  unfold completeAll at h
  rw [Action.runOn_bind, hlist] at h
  cases hpaths : listed w.tree root ignored with
  | error failure =>
    rw [hpaths] at h
    cases h
  | ok paths =>
    rw [hpaths] at h
    simp only [Action.runOn_bind, Action.runOn_log] at h
    split at h
    · rename_i flags w'' hrun
      cases h
      exact ⟨paths, flags, _, w'', rfl, hrun, rfl⟩
    · cases h

/-- A completion whose tasks change nothing returns zero and changes nothing. -/
theorem completeAll_of_settled {root : Text} {ignored : NameSet} {w : World}
    (hpaths : listed w.tree root ignored = .ok paths)
    (h : ∀ p ∈ paths, Settled ModuleText.complete p w.tree) :
    ∃ events, (completeAll root ignored).runOn w = (.ok 0, ⟨w.tree, events⟩) := by
  obtain ⟨events, hlist⟩ := runOn_list root ignored w
  have hrun : ∀ events, ∃ events', (Tasks.run paths completeFile).runOn ⟨w.tree, events⟩
      = (.ok (List.replicate paths.length false), ⟨w.tree, events'⟩) := fun events =>
    runFrom_of_settled performs_completeFile paths.length paths 0 ⟨w.tree, events⟩ h
  unfold completeAll
  rw [Action.runOn_bind, hlist, hpaths]
  simp only [Action.runOn_bind, Action.runOn_log]
  obtain ⟨events', hrun⟩ := hrun (events ++ [_])
  rw [hrun]
  simp only [countChanged_replicate]
  exact ⟨_, rfl⟩

/-- **Completing twice is completing once**, over a tree without links whose modules have texts that
need no second change: the second run returns zero and leaves the tree as it is. -/
theorem completeAll_twice {root : Text} {ignored : NameSet} {w w' : World} {n : Nat}
    (hfree : w.tree.LinkFree)
    (hstable : ∀ paths, listed w.tree root ignored = .ok paths →
      Stable ModuleText.complete paths w.tree)
    (h : (completeAll root ignored).runOn w = (.ok n, w')) :
    ∃ events, (completeAll root ignored).runOn w' = (.ok 0, ⟨w'.tree, events⟩) := by
  obtain ⟨paths, flags, events, w'', hpaths, hrun, htree⟩ := exists_of_completeAll h
  obtain ⟨hkeeps, hsettled⟩ := settled_runFrom performs_completeFile
    (isAbsolute_of_mem_listed hpaths) paths.length paths 0 ⟨w.tree, events⟩ w'' flags
    (fun _ hp => hp) hfree (hstable paths hpaths) hrun
  rw [← htree] at hkeeps hsettled
  refine completeAll_of_settled ?_ hsettled
  unfold listed at hpaths ⊢
  rw [← w.tree.walk_alike hkeeps.alike hfree]
  exact hpaths

/-- **When a second run changes nothing.**  A text is completed once and for all exactly if no
specifier made of full stops is met again; and over a tree without links whose modules have such
texts, a second run returns zero and leaves every file as it is. -/
theorem completing_twice (text root : Text) (ignored : NameSet) (w : World) :
    (ModuleText.complete (ModuleText.complete text) = ModuleText.complete text
      ↔ ¬ ModuleText.MeetsDotsAgain text)
    ∧ (w.tree.LinkFree →
      (∀ paths, listed w.tree root ignored = .ok paths → ∀ p ∈ paths, ∀ text,
        w.tree.readText p = .ok text → ¬ ModuleText.MeetsDotsAgain text) →
      ∀ n w', (completeAll root ignored).runOn w = (.ok n, w') →
        ∃ events, (completeAll root ignored).runOn w' = (.ok 0, ⟨w'.tree, events⟩)) := by
  refine ⟨ModuleText.complete_complete_iff text, fun hfree hdots n w' h => ?_⟩
  refine completeAll_twice hfree ?_ h
  intro paths hpaths p hp text htext
  exact (ModuleText.complete_complete_iff text).2 (hdots paths hpaths p hp text htext)

/-- A tree of one module, which imports its neighbour. -/
def oneModule : FileTree :=
  ⟨[("a.js", .file ("import \"./b.js\";\n".toUTF8.toList))], [], .closed⟩

theorem completing_twice_oneModule :
    ∃ n w', (completeAll "/" .empty).runOn ⟨oneModule, []⟩ = (.ok n, w') ∧
      ∃ events, (completeAll "/" .empty).runOn w' = (.ok 0, ⟨w'.tree, events⟩) := by
  have hread : oneModule.readText "/a.js" = .ok "import \"./b.js\";\n" := by cbv
  have hlist : listed oneModule "/" .empty = .ok ["/a.js"] := by cbv
  have hkept : ModuleText.complete "import \"./b.js\";\n" = "import \"./b.js\";\n" := by
    decide +kernel
  have hfree : oneModule.LinkFree := by
    rintro (_ | ⟨name, rest⟩) path
    · simp
    · simp only [oneModule, Forest.entryAt?, Forest.nodeAt?_cons, List.lookup_cons, List.lookup_nil]
      by_cases hname : (name == ("a.js" : Text)) = true
      · rw [hname]
        cases rest <;> simp [Node.entry, Node.children, Forest.nodeAt?]
      · rw [Bool.eq_false_iff.2 hname]
        simp
  have hone : ∀ paths, listed oneModule "/" .empty = .ok paths → ∀ p ∈ paths, p = "/a.js" := by
    intro paths hpaths p hp
    rw [hlist] at hpaths
    cases hpaths
    exact List.mem_singleton.1 hp
  obtain ⟨events, hfirst⟩ := completeAll_of_settled (w := ⟨oneModule, []⟩) hlist fun p hp => by
    rw [hone _ hlist p hp]
    exact settled_of_eq hread hkept
  refine ⟨0, _, hfirst, (completing_twice [] "/" .empty ⟨oneModule, []⟩).2 hfree ?_ 0 _ hfirst⟩
  intro paths hpaths p hp text htext
  rw [hone paths hpaths p hp, hread] at htext
  cases htext
  rw [← ModuleText.complete_complete_iff, hkept, hkept]

end Modules

end ModuleBuild
