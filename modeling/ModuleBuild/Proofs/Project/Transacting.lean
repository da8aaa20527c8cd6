/-
  ModuleBuild.Proofs.Project.Transacting
  ──────────────────────────────────────
  **A TRANSACTION GOES THROUGH OR CHANGES NOTHING.**

  What is done to a manifest in a transaction is a list of steps, each of
  which may fail.  A step works on the loaded manifest and keeps its hands off
  the tree, so all that a transaction does to the tree is done when the
  manifest is saved, after the last step.  A way of saving that stores the
  whole manifest or leaves every place as it was makes such a transaction.

  There are two such ways: a manifest is saved at once, or in steps that put
  a new file beside the old one first.

  Main results:
    * `isStep_inTurn` — steps in turn are a step;
    * `saves_save`, `saves_saveInSteps` — both ways of saving store the whole or nothing;
    * `transactionWith_cases` — so a transaction goes through or changes nothing;
    * `transaction_whole_or_nothing` — whichever way is taken.
-/
import ModuleBuild.Proofs.FileTree.Preparing
import ModuleBuild.Proofs.Project.SavedAndLoaded
import ModuleBuild.Project.Scripts

namespace ModuleBuild

open ModuleBuild.Action

namespace Manifest

variable {α β : Type} {m m' : Manifest} {w u : World} {path : Text}

/-! ## §1. Steps. -/

/-- What is done to a manifest; it may fail. -/
abbrev Step (α : Type) := Manifest → Action (Manifest × α)

/-- A step leaves the tree as it is, whether it fails or not, and keeps the path of the manifest. -/
structure IsStep (step : Step α) : Prop where
  tree : ∀ m w, ((step m).runOn w).2.tree = w.tree
  path : ∀ {m w m' x u}, (step m).runOn w = (.ok (m', x), u) → m'.path = m.path

/-- Steps one after the other, as long as none fails. -/
def inTurn : List (Step α) → Step (List α)
  | [], m => return (m, [])
  | step :: steps, m => do
    let r ← step m
    let rest ← inTurn steps r.1
    return (rest.1, r.2 :: rest.2)

/-- What does nothing but change the manifest is a step. -/
theorem isStep_pure {f : Manifest → Manifest × α} (hf : ∀ m, (f m).1.path = m.path) :
    IsStep fun m => (pure (f m) : Action (Manifest × α)) where
  tree _ _ := rfl
  path {m w m' x u} h := by
    rw [runOn_pure] at h
    obtain ⟨hr, -⟩ := Prod.mk.inj h
    rw [← hf m, Except.ok.inj hr]

/-- What fails at once is a step. -/
theorem isStep_throw (failure : Failure) : IsStep fun _ => (throw failure : Action (Manifest × α)) where
  tree _ _ := rfl
  path h := by cases h

/-- A step and what depends on its result are a step. -/
theorem IsStep.bind {step : Step α} {next : α → Step β} (h : IsStep step) (hnext : ∀ x, IsStep (next x)) :
    IsStep fun m => step m >>= fun r => next r.2 r.1 where
  tree m w := by
    rw [runOn_bind]
    have htree := h.tree m w
    rcases hrun : (step m).runOn w with ⟨failure | ⟨m', x⟩, u⟩
    · rw [hrun] at htree
      exact htree
    · rw [hrun] at htree
      exact ((hnext x).tree m' u).trans htree
  path := by
    intro m w m'' y v hrun
    obtain ⟨⟨m', x⟩, u, hfirst, hlast⟩ := exists_of_runOn_bind hrun
    exact ((hnext x).path hlast).trans (h.path hfirst)

/-- **Steps in turn are a step.** -/
theorem isStep_inTurn : ∀ steps : List (Step α), (∀ step ∈ steps, IsStep step) → IsStep (inTurn steps)
  | [], _ => isStep_pure fun _ => rfl
  | step :: steps, h =>
    (h step (List.mem_cons_self ..)).bind fun x =>
      (isStep_inTurn steps fun s hs => h s (List.mem_cons_of_mem _ hs)).bind fun xs =>
        isStep_pure (f := fun m => (m, x :: xs)) fun _ => rfl

/-- Recording the entry module is a step. -/
theorem isStep_recordEntry (outDir entry : Text) : IsStep (recordEntry · outDir entry) where
  tree _ _ := rfl
  path h := by
    obtain ⟨hr, -⟩ := Prod.mk.inj h
    exact (congrArg (·.1.path) (Except.ok.inj hr)).symm

/-- Recording an answer is a step. -/
theorem isStep_recordChoice (answer : Option Text) : IsStep (recordChoice · answer) where
  tree _ _ := rfl
  path {m _ _ _ _} h := by
    obtain ⟨hr, -⟩ := Prod.mk.inj h
    exact (congrArg (·.1.path) (Except.ok.inj hr)).symm.trans (path_withChoice m _)

/-! ## §2. Ways of saving. -/

/-- Two trees with the same in all places but some. -/
structure SameBut (away : Location → Prop) (t t' : FileTree) : Prop where
  workingDir : t'.workingDir = t.workingDir
  entries : ∀ j, ¬ away j → t'.entryAt? j = t.entryAt? j

/-- A manifest is stored whole: its path holds its bytes, and no place has changed but the one that
the path names. -/
structure Stored (m : Manifest) (t t' : FileTree) : Prop where
  held : ∃ bytes, Utf8.encode (Json.render (.object m.members) ++ [CodePoint.lineFeed]) = .ok bytes
    ∧ t'.Holds m.path bytes
  elsewhere : ∃ k, t.lastLocation m.path (fun _ => .busy) = .ok k ∧ SameBut (· = k) t t'

/-- Some text can take the place of the manifest, and there are bytes for this one. -/
def CanStore (m : Manifest) (t : FileTree) : Prop :=
  t.Storable m.path ∧ ∃ bytes, Utf8.encode m.content = .ok bytes

/-- A way of saving stores the whole manifest or fails and leaves every place as it was.  It does not
fail where the manifest can be stored and `ready` holds. -/
def Saves (ready : FileTree → Text → Prop) (way : Manifest → Action Unit) : Prop :=
  ∀ m w, w.tree.TakesFile m.path →
    (∃ u, (way m).runOn w = (.ok (), u) ∧ Stored m w.tree u.tree)
      ∨ ∃ failure u, (way m).runOn w = (.error failure, u) ∧ SameBut (fun _ => False) w.tree u.tree
          ∧ (ready w.tree m.path → ¬ CanStore m w.tree)

/-- A tree that is what the replacement at once leaves, place by place, has stored the manifest. -/
theorem stored_of_replaceText {t t' s : FileTree} (htakes : t.TakesFile m.path)
    (hreplace : t.replaceText m.path m.content = .ok t') (hdir : s.workingDir = t'.workingDir)
    (hsame : ∀ j, s.entryAt? j = t'.entryAt? j) : Stored m t s := by
  obtain ⟨init, n, d, bytes, hnames, hn, hleads, hlast, hencode, hex⟩ :=
    FileTree.exchanged_replaceText htakes hreplace
  have hex' : FileTree.Exchanged t (d ++ [Utf8.nameForm n]) bytes s :=
    { workingDir := hdir.trans hex.workingDir
      self := (hsame _).trans hex.self
      other := fun j hj => (hsame j).trans (hex.other j hj)
      leaf := hex.leaf
      link := hex.link }
  obtain ⟨place, hlocate, -⟩ := htakes
  obtain ⟨-, -, hslash, -⟩ := FileTree.replaceText_eq_ok_iff.1 hreplace
  exact ⟨⟨bytes, hencode, hex'.holds hnames hn hslash hleads rfl hlocate⟩, _, hlast, hex'.workingDir,
    hex'.other⟩

theorem not_canStore {t : FileTree} {failure : Failure}
    (h : t.replaceText m.path m.content = .error failure) : ¬ CanStore m t := by
  rintro ⟨hstorable, bytes, hencode⟩
  obtain ⟨t', hok⟩ := hstorable.exists_replaceText hencode
  rw [h] at hok
  cases hok

/-- **Saving at once** stores the whole or nothing, and stores what can be stored. -/
theorem saves_save : Saves (fun _ _ => True) save := by
  intro m w htakes
  obtain ⟨events, hrun⟩ := runOn_save m w
  cases hreplace : w.tree.replaceText m.path m.content with
  | ok t' =>
    rw [hreplace] at hrun
    exact .inl ⟨⟨t', events⟩, hrun, stored_of_replaceText htakes hreplace rfl fun _ => rfl⟩
  | error failure =>
    rw [hreplace] at hrun
    exact .inr ⟨failure, w, hrun, ⟨rfl, fun _ _ => rfl⟩, fun _ => not_canStore hreplace⟩

/-- Writes a manifest step by step: to a new file first, under the first of the drawn letters that are
free.  Of a text without bytes `partly` is written. -/
def saveInSteps (drawn : List Text) (partly : Bytes) (m : Manifest) : Action Unit := do
  FileTree.replaceInSteps drawn partly m.path m.content
  Action.log .debug logger (Text.join ["Manifest saved to ", m.path])

/-- A new file can be made beside a path under one of the drawn letters. -/
def HasFreeName (drawn : List Text) (t : FileTree) (p : Text) : Prop :=
  ∃ letters ∈ drawn, ∃ d, FileTree.Fresh t (Path.dirName (t.absolute p)) letters d

theorem runOn_saveInSteps (drawn : List Text) (partly : Bytes) (m : Manifest) (w : World) :
    (saveInSteps drawn partly m).runOn w
      = match (FileTree.replaceInSteps drawn partly m.path m.content).runOn w.tree with
        | (.ok (), t') => (.ok (), ⟨t', w.events ++
            [.logged ⟨.debug, logger, Text.join ["Manifest saved to ", m.path]⟩]⟩)
        | (.error failure, t') => (.error failure, ⟨t', w.events⟩) := by
  unfold saveInSteps
  rw [runOn_bind, runOn_lift]
  rcases (FileTree.replaceInSteps drawn partly m.path m.content).runOn w.tree with ⟨_ | _, _⟩ <;> rfl

/-- **Saving in steps** stores the whole or nothing, whichever step fails; with a free name it stores
what can be stored. -/
theorem saves_saveInSteps {drawn : List Text} (hdrawn : ∀ letters ∈ drawn, FileTree.IsDraw letters)
    (partly : Bytes) : Saves (HasFreeName drawn) (saveInSteps drawn partly) := by
  intro m w htakes
  rw [runOn_saveInSteps]
  rcases FileTree.replaceInSteps_cases hdrawn htakes partly m.content with
    ⟨s, t', hsteps, hreplace, hdir, hsame⟩ | ⟨failure, s, hsteps, hdir, hsame, hrefused⟩
  · rw [hsteps]
    exact .inl ⟨_, rfl, stored_of_replaceText htakes hreplace hdir hsame⟩
  · rw [hsteps]
    refine .inr ⟨failure, _, rfl, ⟨hdir, fun j _ => hsame j⟩, fun hfree => ?_⟩
    obtain ⟨failure', hreplace⟩ := hrefused hfree
    exact not_canStore hreplace

/-! ## §3. Transactions. -/

/-- Loads a manifest, changes it, and saves it in some way; a change that fails is not saved. -/
def transactionWith (way : Manifest → Action Unit) (path : Text) (change : Step α) : Action α := do
  let m ← Edit.ask (load · path)
  let r ← change m
  way r.1
  return r.2

theorem transactionWith_save (path : Text) (change : Step α) :
    transactionWith save path change = transaction path change := rfl

/-- A transaction has gone through: the manifest was loaded, its changes returned, and what they have
made of it is stored whole. -/
def Committed (path : Text) (change : Step α) (w : World) (outcome : Except Failure α × World) : Prop :=
  ∃ m m' x u, load w.tree path = .ok m ∧ (change m).runOn w = (.ok (m', x), u) ∧ m'.path = path
    ∧ outcome.1 = .ok x ∧ Stored m' w.tree outcome.2.tree

/-- A transaction has failed, and every place is as it was. -/
def RolledBack (w : World) (outcome : Except Failure α × World) : Prop :=
  ∃ failure, outcome.1 = .error failure ∧ SameBut (fun _ => False) w.tree outcome.2.tree

/-- The manifest can be loaded and changed, and what is made of it can be stored. -/
def CanCommit (path : Text) (change : Step α) (w : World) : Prop :=
  ∃ m m' x u, load w.tree path = .ok m ∧ (change m).runOn w = (.ok (m', x), u) ∧ CanStore m' w.tree

/-- **A transaction goes through or changes nothing**, if the way of saving does; it goes through where
it can. -/
theorem transactionWith_cases {way : Manifest → Action Unit} {ready : FileTree → Text → Prop}
    (hway : Saves ready way) {change : Step α} (hchange : IsStep change) (path : Text) (w : World) :
    (Committed path change w ((transactionWith way path change).runOn w)
        ∨ RolledBack w ((transactionWith way path change).runOn w))
      ∧ (CanCommit path change w → ready w.tree path →
          Committed path change w ((transactionWith way path change).runOn w)) := by
  unfold transactionWith
  rw [runOn_bind, runOn_ask]
  cases hload : load w.tree path with
  | error failure =>
    refine ⟨.inr ⟨failure, rfl, rfl, fun _ _ => rfl⟩, ?_⟩
    rintro ⟨m, m', x, u, hload', -⟩
    rw [hload] at hload'
    cases hload'
  | ok m =>
    dsimp only
    rw [runOn_bind]
    have htree := hchange.tree m w
    rcases hrun : (change m).runOn w with ⟨failure | ⟨m', x⟩, u⟩
    · rw [hrun] at htree
      dsimp only at htree
      refine ⟨.inr ⟨failure, rfl, ?_⟩, ?_⟩
      · rw [htree]
        exact ⟨rfl, fun _ _ => rfl⟩
      · rintro ⟨m₁, m', x, v, hload', hrun', -⟩
        rw [hload] at hload'
        cases hload'
        rw [hrun] at hrun'
        cases hrun'
    · rw [hrun] at htree
      dsimp only at htree ⊢
      have hpath : m'.path = path := (hchange.path hrun).trans (load_eq_ok hload).1
      have htakes : u.tree.TakesFile m'.path := by
        rw [htree, hpath]
        exact takesFile_of_load hload
      rw [runOn_bind]
      -- the steps have changed no place, so what is true of the tree at the save was true at the start
      rcases hway m' u htakes with ⟨v, hsave, hstored⟩ | ⟨failure, v, hsave, hsame, hrefused⟩
      · rw [htree] at hstored
        rw [hsave]
        have hcommitted : Committed path change w (.ok x, v) :=
          ⟨m, m', x, u, hload, hrun, hpath, rfl, hstored⟩
        exact ⟨.inl hcommitted, fun _ _ => hcommitted⟩
      · rw [htree] at hsame hrefused
        rw [hsave]
        refine ⟨.inr ⟨failure, rfl, hsame⟩, ?_⟩
        rintro ⟨m₁, m₂, y, v', hload', hrun', hcan⟩ hready
        rw [hload] at hload'
        cases hload'
        rw [hrun] at hrun'
        cases hrun'
        exact absurd hcan (hrefused (hpath.symm ▸ hready))

/-- **A transaction goes through or changes nothing.**  Whatever its steps are, whichever of them fails
and whatever they have made of the manifest by then, and in whichever way the manifest is saved:
either the transaction returns, the manifest's path holds the bytes of what the steps have made of it,
and no other place has changed; or it fails, and every place is as it was, so no file is left beside
the manifest.  Where the manifest can be loaded, changed and stored, it goes through. -/
theorem transaction_whole_or_nothing {steps : List (Step α)} (hsteps : ∀ step ∈ steps, IsStep step)
    {drawn : List Text} (hdrawn : ∀ letters ∈ drawn, FileTree.IsDraw letters) (partly : Bytes)
    (path : Text) (w : World) :
    ((Committed path (inTurn steps) w ((transaction path (inTurn steps)).runOn w)
        ∨ RolledBack w ((transaction path (inTurn steps)).runOn w))
      ∧ (CanCommit path (inTurn steps) w →
          Committed path (inTurn steps) w ((transaction path (inTurn steps)).runOn w)))
    ∧ (Committed path (inTurn steps) w
          ((transactionWith (saveInSteps drawn partly) path (inTurn steps)).runOn w)
        ∨ RolledBack w ((transactionWith (saveInSteps drawn partly) path (inTurn steps)).runOn w))
      ∧ (CanCommit path (inTurn steps) w → HasFreeName drawn w.tree path →
          Committed path (inTurn steps) w
            ((transactionWith (saveInSteps drawn partly) path (inTurn steps)).runOn w)) := by
  have hchange : IsStep (inTurn steps) := isStep_inTurn steps hsteps
  obtain ⟨hcases, hgoes⟩ := transactionWith_cases saves_save hchange path w
  rw [transactionWith_save] at hcases hgoes
  exact ⟨⟨hcases, fun hcan => hgoes hcan trivial⟩,
    transactionWith_cases (saves_saveInSteps hdrawn partly) hchange path w⟩

/-- A manifest without members, and its bytes. -/
def bareManifest : Manifest := ⟨"/package.json", []⟩

def bareContent : Bytes := "\x7b\x7d\n".toUTF8.toList

/-- A start script is recorded, and a new file can be made beside the manifest: both ways of saving go
through.  When a step that follows fails, nothing is changed. -/
theorem transaction_whole_or_nothing_bare :
    Committed "/package.json" (inTurn [(recordEntry · "./dist" "index.js")]) ⟨manifestAlone bareContent, []⟩
        ((transaction "/package.json" (inTurn [(recordEntry · "./dist" "index.js")])).runOn
          ⟨manifestAlone bareContent, []⟩)
      ∧ Committed "/package.json" (inTurn [(recordEntry · "./dist" "index.js")])
        ⟨manifestAlone bareContent, []⟩
        ((transactionWith (saveInSteps ["abcdefgh"] []) "/package.json"
          (inTurn [(recordEntry · "./dist" "index.js")])).runOn ⟨manifestAlone bareContent, []⟩)
      ∧ RolledBack ⟨manifestAlone bareContent, []⟩
        ((transactionWith (saveInSteps ["abcdefgh"] []) "/package.json"
          (inTurn [(recordEntry · "./dist" "index.js"), fun _ => throw .notModule])).runOn
            ⟨manifestAlone bareContent, []⟩) := by
  have hread : (manifestAlone bareContent).readBytes "/package.json" = .ok bareContent := by cbv
  have hself : (manifestAlone []).absolute "/package.json" = "/package.json" := by decide
  have hstraight : Path.Straight "/package.json" := hself ▸ FileTree.straight_absolute _ _
  have hload : load (manifestAlone bareContent) "/package.json" = .ok bareManifest := by
    have hencode : Utf8.encode (Json.render (.object []) ++ [CodePoint.lineFeed]) = .ok bareContent := by
      cbv
    rw [load, if_pos (FileTree.namesFile_of_readBytes hread),
      FileTree.readObject_saved Json.writable_empty hencode hread]
    rfl
  have hexact : Json.Exact (.object (bareManifest.withStart (startScript "./dist" "index.js")).members) :=
    Json.exact_cons.2 ⟨⟨by decide, Json.exact_cons.2 ⟨⟨by decide, .string (by decide)⟩, Json.exact_empty⟩⟩,
      Json.exact_empty⟩
  have hcan : CanCommit "/package.json" (inTurn [(recordEntry · "./dist" "index.js")])
      ⟨manifestAlone bareContent, []⟩ :=
    ⟨bareManifest, _, _, _, hload, rfl, (FileTree.storable_iff_hasRoom hstraight hread).2 (by decide),
      exists_encode_content hexact⟩
  have hfree : HasFreeName ["abcdefgh"] (manifestAlone bareContent) "/package.json" :=
    ⟨_, List.mem_singleton_self _, [], by decide, by cbv, by cbv, by cbv⟩
  have hdrawn : ∀ letters ∈ (["abcdefgh"] : List Text), FileTree.IsDraw letters := by decide
  have hrecord : ∀ step ∈ [(recordEntry · "./dist" "index.js")], IsStep step :=
    List.forall_mem_singleton.2 (isStep_recordEntry _ _)
  have hfail : ∀ step ∈ [(recordEntry · "./dist" "index.js"), fun _ => throw .notModule], IsStep step :=
    List.forall_mem_cons.2 ⟨isStep_recordEntry _ _, List.forall_mem_singleton.2 (isStep_throw _)⟩
  obtain ⟨⟨-, honce⟩, -, hgoes⟩ := transaction_whole_or_nothing hrecord hdrawn [] "/package.json"
    ⟨manifestAlone bareContent, []⟩
  obtain ⟨-, hcases, -⟩ := transaction_whole_or_nothing hfail hdrawn [] "/package.json"
    ⟨manifestAlone bareContent, []⟩
  refine ⟨honce hcan, hgoes hcan hfree, hcases.resolve_left ?_⟩
  rintro ⟨m, m', x, u, -, hrun, -⟩
  cases hrun

end Manifest

end ModuleBuild
