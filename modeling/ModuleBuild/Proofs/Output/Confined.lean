/-
  ModuleBuild.Proofs.Output.Confined
  ──────────────────────────────────
  **WHAT PLACING ASSETS DEPENDS ON.**

  An asset is placed if its real path lies in the sources.  What is copied
  then is everything below it, links on the way followed, and nothing asks
  where these lead: a link in a directory that is an asset takes in what lies
  anywhere.

  If each link in the sources and in the output leads by ways inside, and
  stays inside, nothing else matters.  Two trees that agree on both and on
  the ways to them get the same report, and agree afterwards.

  Main results:
    * `fenced_grounds` — then the sources and the output are fenced;
    * `placeFrom_kept_inside` — assets are placed in step, one after the other;
    * `place_confined` — placing assets depends on the sources and the output only;
    * `place_leaks` — a link that leads out of the sources lets what lies outside decide.
-/
import ModuleBuild.Proofs.FileTree.ByName
import ModuleBuild.Proofs.FileTree.KeptEdits
import ModuleBuild.Proofs.FileTree.RealAlike
import ModuleBuild.Proofs.Output.PlacedAgain

namespace ModuleBuild

open FileTree Edit

/-! ## §1. Actions that keep step. -/

namespace Action

section

variable {α β : Type} {R : World → World → Prop}

/-- In related worlds an action returns the same and leaves related worlds. -/
def InStep (R : World → World → Prop) (a : Action α) : Prop :=
  ∀ w w', R w w' → (a.runOn w).1 = (a.runOn w').1 ∧ R (a.runOn w).2 (a.runOn w').2

theorem inStep_pure (x : α) : InStep R (pure x : Action α) := fun _ _ h => ⟨rfl, h⟩

theorem inStep_throw (failure : Failure) : InStep R (throw failure : Action α) := fun _ _ h => ⟨rfl, h⟩

/-- What follows may use that its argument was returned in a related world. -/
theorem InStep.bind {a : Action α} {f : α → Action β} (ha : InStep R a)
    (hf : ∀ w w' x, R w w' → (a.runOn w).1 = .ok x → InStep R (f x)) : InStep R (a >>= f) := by
  intro w w' h
  obtain ⟨hsame, hleft⟩ := ha w w' h
  rw [runOn_bind, runOn_bind]
  rcases hw : a.runOn w with ⟨x, v⟩
  rcases hw' : a.runOn w' with ⟨y, v'⟩
  rw [hw, hw'] at hsame hleft
  cases hsame
  cases x with
  | error failure => exact ⟨rfl, hleft⟩
  | ok x => exact hf w w' x h (by rw [hw]) v v' hleft

theorem InStep.tryCatch {a : Action α} {handler : Failure → Action α} (ha : InStep R a)
    (hhandler : ∀ failure, InStep R (handler failure)) : InStep R (tryCatch a handler) := by
  intro w w' h
  obtain ⟨hsame, hleft⟩ := ha w w' h
  rw [runOn_tryCatch, runOn_tryCatch]
  rcases hw : a.runOn w with ⟨x, v⟩
  rcases hw' : a.runOn w' with ⟨y, v'⟩
  rw [hw, hw'] at hsame hleft
  cases hsame
  cases x with
  | error failure => exact hhandler failure v v' hleft
  | ok x => exact ⟨rfl, hleft⟩

/-- Two worlds whose trees agree on some grounds, in which the same has happened since. -/
structure Beside (g : Grounds) (before before' w w' : World) : Prop where
  trees : Agreeing g before.tree w.tree w'.tree
  events : ∃ since, w.events = before.events ++ since ∧ w'.events = before'.events ++ since

variable {g : Grounds} {before before' : World}

theorem inStep_lift {e : Edit α} (he : Lockstep (Agreeing g before.tree) e) :
    InStep (Beside g before before') (liftM e : Action α) := by
  intro w w' h
  rw [runOn_lift, runOn_lift]
  obtain ⟨hsame, hleft⟩ := he w.tree w'.tree h.trees
  exact ⟨hsame, hleft, h.events⟩

theorem inStep_note (event : Event) : InStep (Beside g before before') (note event) := by
  intro w w' h
  rw [runOn_note, runOn_note]
  obtain ⟨since, hw, hw'⟩ := h.events
  refine ⟨rfl, h.trees, since ++ [event], ?_, ?_⟩
  · rw [hw, List.append_assoc]
  · rw [hw', List.append_assoc]

/-- A message is logged last. -/
theorem inStep_log_return (level : Level) (logger message : Text) (x : α) :
    InStep (Beside g before before') (do log level logger message; return x) :=
  (inStep_note _).bind fun _ _ _ _ _ => inStep_pure x

end

end Action

namespace Assets

variable {t u : FileTree} {source output dir asset : Text} {before before' : World}

/-! ## §2. The sources and the output. -/

/-- What two directories pass by the names of their paths, and the working directory. -/
def ways (t : FileTree) (source output : Text) : List Location :=
  t.workingDir ::
    (passed (t.startOf source) (Path.names source) ++ passed (t.startOf output) (Path.names output))

/-- What lies in two directories; around it is what lies on the ways there. -/
def grounds (t : FileTree) (source output : Text) : Grounds where
  home l := t.endOf source <+: l ∨ t.endOf output <+: l
  seen l := (t.endOf source <+: l ∨ t.endOf output <+: l) ∨ ∃ k ∈ ways t source output, l <+: k

/-- Two trees that agree on what lies in two directories, which are reached without links: on the ways
there they agree too. -/
structure SameInside (source output : Text) (t u : FileTree) : Prop where
  proper : Proper t
  workingDir : u.workingDir = t.workingDir
  inside : ∀ l, t.endOf source <+: l ∨ t.endOf output <+: l → t.entryAt? l = u.entryAt? l
  ways : ∀ k ∈ ways t source output, ∀ l, l <+: k →
    t.entryAt? l = u.entryAt? l ∧ ∀ path, t.entryAt? l ≠ some (.link path)

/-- Every link in two directories leads by ways that do not leave them, the ways to them aside, and
ends in one of them. -/
def LinksInside (source output : Text) (t : FileTree) : Prop :=
  ∀ l path, (grounds t source output).home l → t.entryAt? l = some (.link path) →
    Path.Spelled path ∧
      Keeps t (grounds t source output) (grounds t source output).home (linkStart l path) (Path.names path)

/-- Directories that are there in both trees, with all that lies on the ways to them, are reached
alike. -/
theorem sameInside_of_directories (ht : Proper t) (hdir : u.workingDir = t.workingDir)
    (hinside : ∀ l, t.endOf source <+: l ∨ t.endOf output <+: l → t.entryAt? l = u.entryAt? l)
    (hways : ∀ k ∈ ways t source output, t.entryAt? k = some .directory ∧ u.entryAt? k = some .directory) :
    SameInside source output t u where
  proper := ht
  workingDir := hdir
  inside := hinside
  ways k hk l hl := by
    have hleft := isDirectory_of_above (hways k hk).1 hl
    have hright := isDirectory_of_above (hways k hk).2 hl
    rw [hleft, hright]
    exact ⟨rfl, nofun⟩

theorem endOf_mem_ways (hdir : dir = source ∨ dir = output) : t.endOf dir ∈ ways t source output := by
  refine List.mem_cons_of_mem _ (List.mem_append.2 ?_)
  rcases hdir with rfl | rfl
  · exact .inl (foldl_mem_passed ..)
  · exact .inr (foldl_mem_passed ..)

theorem home_of_behind (hdir : dir = source ∨ dir = output) {l : Location} (hl : t.endOf dir <+: l) :
    (grounds t source output).home l := by
  rcases hdir with rfl | rfl
  · exact .inl hl
  · exact .inr hl

/-- **Directories that are reached without links are fenced**, if no link in them leads out. -/
theorem fenced_grounds (hlinks : LinksInside source output t) :
    Fenced t (grounds t source output) where
  below l n hl := by
    rcases hl with hl | hl
    · exact .inl (hl.trans (List.prefix_append ..))
    · exact .inr (hl.trans (List.prefix_append ..))
  near l hl := .inl hl
  above l n hl := by
    have hcut : ∀ dir, dir = source ∨ dir = output → t.endOf dir <+: l ++ [n] →
        (grounds t source output).seen l := by
      intro dir hdir hpre
      rcases List.prefix_concat_iff.1 hpre with heq | hpre
      · exact .inr ⟨_, endOf_mem_ways hdir, heq ▸ List.prefix_append ..⟩
      · exact .inl (home_of_behind hdir hpre)
    rcases hl with (hl | hl) | ⟨k, hk, hl⟩
    · exact hcut source (.inl rfl) hl
    · exact hcut output (.inr rfl) hl
    · exact .inr ⟨k, hk, (List.prefix_append ..).trans hl⟩
  base := .inr ⟨_, List.mem_cons_self .., List.prefix_rfl⟩
  links l path hl hlink := (hlinks l path hl hlink).2
  spelled l path hl hlink := (hlinks l path hl hlink).1

theorem agreeing_start (h : SameInside source output t u) : Agreeing (grounds t source output) t t u where
  proper := h.proper
  dirLeft := rfl
  dirRight := h.workingDir
  same l hl := by
    rcases hl with hl | ⟨k, hk, hl⟩
    · exact h.inside l hl
    · exact (h.ways k hk l hl).1
  links _ _ := id

/-! ## §3. The paths of an asset. -/

section Paths

variable (h : SameInside source output t u) (hdir : dir = source ∨ dir = output)

include h hdir

/-- The path of one of the directories keeps to the grounds. -/
theorem keepsPath_dir : KeepsPath t (grounds t source output) (grounds t source output).home dir := by
  have hpassed : ∀ k ∈ passed (t.startOf dir) (Path.names dir), k ∈ ways t source output := by
    intro k hk
    refine List.mem_cons_of_mem _ (List.mem_append.2 ?_)
    rcases hdir with rfl | rfl
    · exact .inl hk
    · exact .inr hk
  refine keeps_of_passed (fun k hk => ⟨.inr ⟨k, hpassed k hk, List.prefix_rfl⟩, ?_⟩)
    (home_of_behind hdir List.prefix_rfl)
  exact (h.ways k (hpassed k hk) k List.prefix_rfl).2

/-- What lies on the way to a place in one of them is seen, and is at home if it is a link. -/
theorem seen_of_way {l k : Location} (hl : t.endOf dir <+: l) (hk : k <+: l) :
    (grounds t source output).seen k
      ∧ ((∃ path, t.entryAt? k = some (.link path)) → (grounds t source output).home k) := by
  rcases List.prefix_or_prefix_of_prefix hk hl with habove | hbelow
  · -- a directory on the way, and no link
    have hway := h.ways _ (endOf_mem_ways hdir) k habove
    exact ⟨.inr ⟨_, endOf_mem_ways hdir, habove⟩, fun ⟨path, hpath⟩ => absurd hpath (hway.2 path)⟩
  · have hhome := home_of_behind hdir hbelow
    exact ⟨.inl hhome, fun _ => hhome⟩

variable (habs : Path.isAbsolute asset = false) (hup : Path.up ∉ Path.names asset)

include habs hup

omit h hdir in
/-- An asset ends behind the directory that it is seen from. -/
theorem endOf_join_asset (dir : Text) :
    t.endOf (Path.join dir asset) = t.endOf dir ++ (pieces asset).map Utf8.nameForm := by
  rw [endOf_join habs, foldl_stepFrom_of_ne_up _ hup]
  rfl

theorem keepsPath_pathIn :
    KeepsPath t (grounds t source output) (grounds t source output).home (pathIn dir asset) := by
  have hend : t.endOf dir <+: t.endOf (Path.join dir asset) := by
    rw [endOf_join_asset habs hup]
    exact List.prefix_append ..
  exact keepsPath_normalize (fun k hk => .inr ⟨_, List.mem_cons_self .., hk⟩)
    (fun k hk => seen_of_way h hdir hend hk) (home_of_behind hdir hend)

/-- The directory above an asset's path is seen. -/
theorem keepsPath_above (hne : pieces asset ≠ []) :
    KeepsPath t (grounds t source output) (grounds t source output).seen
      (Path.dirName (t.absolute (pathIn dir asset))) := by
  have hend := endOf_join_asset (t := t) habs hup dir
  have hbehind : t.endOf dir <+: t.endOf (Path.join dir asset) := hend ▸ List.prefix_append ..
  obtain ⟨q, hq, hqend⟩ := exists_absolute_normalize h.proper (pathIn dir asset)
  rw [pathIn, endOf_normalize] at hqend
  refine KeepsPath.dirName_absolute ?_
  rw [hq]
  refine keepsPath_normalize (fun k hk => .inr ⟨_, List.mem_cons_self .., hk⟩)
    (fun k hk => seen_of_way h hdir hbehind (hqend ▸ hk)) ?_
  rw [hqend, hend]
  simp [hne]

end Paths

/-! ## §4. Placing in step. -/

/-- In worlds that agree on the sources and the output an action returns the same, and leaves such
worlds. -/
abbrev StepsInside {α : Type} (source output : Text) (before before' : World) (a : Action α) : Prop :=
  Action.InStep (Action.Beside (grounds before.tree source output) before before') a

/-- What is attempted in step is. -/
theorem attempt_kept {α : Type} {step : Action α} (hstep : StepsInside source output before before' step) :
    StepsInside source output before before' (attempt step) := by
  unfold attempt
  refine (hstep.bind fun _ _ _ _ _ => Action.inStep_pure _).tryCatch fun failure => ?_
  split
  · exact Action.inStep_pure _
  · exact Action.inStep_throw _

section Steps

variable (h : SameInside source output before.tree before'.tree)
  (hlinks : LinksInside source output before.tree) (hup : Path.up ∉ Path.names asset)

include h hlinks hup

/-- **An asset is judged alike.** -/
theorem judge_kept (hagree : Agreeing (grounds before.tree source output) before.tree t u) :
    judge t source output asset = judge u source output asset := by
  have hf := fenced_grounds hlinks
  have hsource := keepsPath_dir h (.inl rfl)
  have houtput := keepsPath_dir h (.inr rfl)
  unfold judge
  dsimp only
  cases habs : Path.isAbsolute asset with
  | true => rfl
  | false =>
    have hfrom := keepsPath_pathIn h (.inl rfl) habs hup
    rw [isWithin_kept hf (fun _ => id) hagree hfrom hsource,
      (seenAlike_kept hf (fun _ => id) hfrom).pathExists hagree,
      isWithin_kept hf (fun _ => id) hagree houtput hfrom]

variable (habs : Path.isAbsolute asset = false)

include habs

/-- The destination of an asset is cleared in step. -/
theorem clear_kept :
    StepsInside source output before before' (clear (pathIn output asset)) := by
  have hf := fenced_grounds hlinks
  have hdest := keepsPath_pathIn h (.inr rfl) habs hup
  have hview : StepsInside source output before before' (Action.view (·.pathOccupied (pathIn output asset))) :=
    Action.inStep_lift (lockstep_view fun t u hagree => (seenAlike_kept hf (fun _ => id) hdest).pathOccupied hagree)
  unfold clear
  refine hview.bind fun _ _ there _ _ => ?_
  split
  · refine (Action.inStep_lift (removePath_kept hf hdest)).bind fun _ _ _ _ _ => ?_
    exact Action.inStep_log_return _ _ _ _
  · exact Action.inStep_pure _

/-- **An asset is copied in step**, in place of what lies at its destination. -/
theorem copy_kept (hne : pieces asset ≠ []) (r : Report) :
    StepsInside source output before before' (copy source output asset r) := by
  have hf := fenced_grounds hlinks
  have hfrom := keepsPath_pathIn h (.inl rfl) habs hup
  have hto := keepsPath_pathIn h (.inr rfl) habs hup
  have habove := keepsPath_above h (.inr rfl) habs hup hne
  have hlast : Path.IsName (Path.baseName (pathIn source asset)) := by
    obtain ⟨root, init, n, hwritten, hroot, -, hn⟩ := ended_pathIn habs hup hne source
    rw [hwritten, Path.baseName_written hroot hn.1]
    exact hn
  -- the destination ends with the last name of the asset, so it can be made and written
  obtain ⟨root, init, n, hwritten, hroot, htidy, -⟩ := ended_pathIn habs hup hne output
  have hparts : ∀ m ∈ init ++ [n], Path.IsPart m ∧ m ≠ Path.here := fun m hm =>
    ⟨htidy.isPart m hm, htidy.ne_here m hm⟩
  have hcopied : StepsInside source output before before'
      (liftM (copyPath (pathIn source asset) (pathIn output asset))) := by
    rw [hwritten] at hto habove ⊢
    exact Action.inStep_lift (copyPath_kept hf hfrom hlast hroot hparts hto habove)
  have hrefuse : ∀ (r : Report) (failure : Failure),
      StepsInside source output before before' (refuse source asset r failure) :=
    fun _ _ => Action.inStep_log_return _ _ _ _
  unfold copy
  refine (attempt_kept (clear_kept h hlinks hup habs)).bind fun _ _ cleared _ _ => ?_
  cases cleared with
  | error failure => exact hrefuse r failure
  | ok removed =>
    refine (attempt_kept hcopied).bind fun _ _ copied _ _ => ?_
    cases copied with
    | error failure => exact hrefuse _ failure
    | ok _ => exact Action.inStep_log_return _ _ _ _

omit habs in
/-- **One asset is placed in step.** -/
theorem placeOne_kept_inside (r : Report) :
    StepsInside source output before before' (placeOne source output asset r) := by
  have hjudge : StepsInside source output before before'
      (liftM (Edit.ask (judge · source output asset))) :=
    Action.inStep_lift (lockstep_ask fun t u hagree => judge_kept h hlinks hup hagree)
  unfold placeOne
  refine hjudge.bind fun w w' verdict _ hverdict => ?_
  cases hwords : warningFor source output asset verdict with
  | some words => exact Action.inStep_log_return _ _ _ _
  | none =>
    -- an asset that is allowed is not the source itself
    rw [Action.runOn_ask, warningFor_eq_none_iff.1 hwords] at hverdict
    obtain ⟨habs, -, hproper, -⟩ := judge_eq_allowed_iff.1 hverdict
    exact copy_kept h hlinks hup habs
      (fun hnil => hproper (pathIn_of_pieces_nil habs hup hnil source)) r

end Steps

/-- **Assets are placed in step**, one after the other. -/
theorem placeFrom_kept_inside (h : SameInside source output before.tree before'.tree)
    (hlinks : LinksInside source output before.tree) (total : Nat) :
    ∀ (assets : List Text) (done : Nat) (r : Report), (∀ asset ∈ assets, Path.up ∉ Path.names asset) →
      StepsInside source output before before' (placeFrom source output total done r assets)
  | [], _, _, _ => Action.inStep_pure _
  | asset :: assets, done, r, hup => by
    unfold placeFrom
    refine (placeOne_kept_inside h hlinks (hup asset (List.mem_cons_self ..)) r).bind
      fun _ _ r _ _ => ?_
    refine (Action.inStep_note _).bind fun _ _ _ _ _ => ?_
    exact placeFrom_kept_inside h hlinks total assets (done + 1) r fun a ha =>
      hup a (List.mem_cons_of_mem _ ha)

/-- **Placing assets depends on the sources and the output only**, if both are reached without links and
no link in them leads out: in trees that agree there the result is the same, the same happens, and they
agree there afterwards. -/
theorem place_confined (assets : List Text) (source output : Text) (w w' : World)
    (hup : ∀ asset ∈ assets, Path.up ∉ Path.names asset) (h : SameInside source output w.tree w'.tree)
    (hlinks : LinksInside source output w.tree) :
    ((place assets source output).runOn w).1 = ((place assets source output).runOn w').1
      ∧ (∃ since, ((place assets source output).runOn w).2.events = w.events ++ since
          ∧ ((place assets source output).runOn w').2.events = w'.events ++ since)
      ∧ ∀ l, w.tree.endOf source <+: l ∨ w.tree.endOf output <+: l →
          ((place assets source output).runOn w).2.tree.entryAt? l
            = ((place assets source output).runOn w').2.tree.entryAt? l := by
  have hstep : StepsInside source output w w' (place assets source output) := by
    unfold place
    split
    · exact Action.inStep_log_return _ _ _ _
    · refine (placeFrom_kept_inside h hlinks _ assets 0 .empty hup).bind fun _ _ r _ _ => ?_
      exact Action.inStep_log_return _ _ _ _
  obtain ⟨hsame, hleft⟩ := hstep w w' ⟨agreeing_start h, [], by simp⟩
  exact ⟨hsame, hleft.events, fun l hl => hleft.trees.same l (.inl hl)⟩

/-! ## §5. Links that stay inside, and links that do not. -/

/-- A directory of assets with a link in it, and what else there is. -/
def linkedAssets (path : Text) (others : Forest) : FileTree where
  top := ("src", .directory [("assets", .directory [("a.txt", .file [65]), ("l", .link path)])])
    :: ("dist", .directory []) :: others
  workingDir := []

/-- What else there is makes no difference to the sources and the output. -/
theorem sameInside_linkedAssets (path : Text) (others : Forest) :
    SameInside "src" "dist" (linkedAssets path []) (linkedAssets path others) := by
  have hproper : Proper (linkedAssets path []) := by
    refine proper_of_allNames ?_ nofun
    have hnames : (linkedAssets path []).top.allNames = ["src", "assets", "a.txt", "l", "dist"] := by
      simp [linkedAssets, Forest.allNames_cons, Forest.allNames, Node.children]
    rw [hnames]
    decide
  have hways : ways (linkedAssets path []) "src" "dist"
      = ([[], [], ["src"], [], ["dist"]] : List (List Text)) := rfl
  refine sameInside_of_directories hproper rfl ?_ ?_
  · rintro l (⟨rest, rfl⟩ | ⟨rest, rfl⟩)
    · rfl
    · rfl
  · rw [hways]
    simp only [List.mem_cons, List.not_mem_nil, or_false]
    rintro k (rfl | rfl | rfl | rfl | rfl) <;> exact ⟨rfl, rfl⟩

/-- The link of the assets is the only one; one to the file beside it stays inside. -/
theorem linksInside_linkedAssets : LinksInside "src" "dist" (linkedAssets "a.txt" []) := by
  intro l path hhome hlink
  have hplaces : (linkedAssets "a.txt" []).top.linkPlaces
      = ([["src", "assets", "l"]] : List (List Text)) := by
    simp [linkedAssets, Forest.linkPlaces]
  have hl := Forest.mem_linkPlaces _ hlink
  rw [hplaces, List.mem_singleton] at hl
  subst hl
  obtain rfl : ("a.txt" : Text) = path := by
    have hsome : (linkedAssets "a.txt" []).entryAt? ["src", "assets", "l"] = some (.link "a.txt") := rfl
    rw [hsome] at hlink
    cases hlink
    rfl
  have hbeside : ∀ l : Location, (["src"] : Location) <+: l →
      (grounds (linkedAssets "a.txt" []) "src" "dist").home l := fun l hl => .inl hl
  refine ⟨by unfold Path.Spelled; decide, .inl (hbeside _ (by decide)), fun _ _ _ => ?_, ?_⟩
  · exact ⟨hbeside _ (by decide), by simp⟩
  · exact ⟨.inl (hbeside _ (by decide)), hbeside _ (by decide)⟩

/-- Assets with a link inside are placed alike, be there a file outside or not. -/
theorem place_confined_linkedAssets :
    (∀ asset ∈ (["assets"] : List Text), Path.up ∉ Path.names asset)
      ∧ SameInside "src" "dist" (linkedAssets "a.txt" []) (linkedAssets "a.txt" [("secret.txt", .file [83])])
      ∧ LinksInside "src" "dist" (linkedAssets "a.txt" [])
      ∧ ((place ["assets"] "src" "dist").runOn ⟨linkedAssets "a.txt" [], []⟩).1
        = ((place ["assets"] "src" "dist").runOn
            ⟨linkedAssets "a.txt" [("secret.txt", .file [83])], []⟩).1 := by
  have hup : ∀ asset ∈ (["assets"] : List Text), Path.up ∉ Path.names asset := by decide
  have hsame := sameInside_linkedAssets "a.txt" [("secret.txt", .file [83])]
  exact ⟨hup, hsame, linksInside_linkedAssets,
    (place_confined ["assets"] "src" "dist" ⟨linkedAssets "a.txt" [], []⟩
      ⟨linkedAssets "a.txt" [("secret.txt", .file [83])], []⟩ hup hsame linksInside_linkedAssets).1⟩

/-- What is reported on one asset that goes to a vacant place is what the copy comes to. -/
theorem result_place_vacant {w : World} (hjudge : judge w.tree source output asset = .ok .allowed)
    (hvacant : w.tree.pathOccupied (pathIn output asset) = false) :
    ((place [asset] source output).runOn w).1
      = reported .empty asset ((copyPath (pathIn source asset) (pathIn output asset)).runOn w.tree).1 := by
  have hclear : (clear (pathIn output asset)).runOn w = (.ok false, w) := by
    rcases tree_clear (pathIn output asset) w with ⟨-, hrun⟩ | ⟨hocc, -⟩
    · exact hrun
    · rw [hvacant] at hocc
      cases hocc
  obtain ⟨events, hcopy⟩ := runOn_copy_of_clear source .empty hclear
  rw [(place_singleton source output asset w).1, placeOne_of_allowed .empty hjudge, hcopy]
  rfl

/-- **A link that leads out of the sources lets what lies outside decide**: the file that it leads to is
copied if it is there, and without it the asset is skipped. -/
theorem place_leaks :
    (∀ asset ∈ (["assets"] : List Text), Path.up ∉ Path.names asset)
      ∧ SameInside "src" "dist" (linkedAssets "../../secret.txt" [])
          (linkedAssets "../../secret.txt" [("secret.txt", .file [83])])
      ∧ ((place ["assets"] "src" "dist").runOn ⟨linkedAssets "../../secret.txt" [], []⟩).1
        = .ok ⟨[], [], ["assets"]⟩
      ∧ ((place ["assets"] "src" "dist").runOn
          ⟨linkedAssets "../../secret.txt" [("secret.txt", .file [83])], []⟩).1 = .ok ⟨["assets"], [], []⟩ := by
  have hsource : pathIn "src" "assets" = "src/assets" := by decide
  have hdest : pathIn "dist" "assets" = "dist/assets" := by decide
  refine ⟨by decide, sameInside_linkedAssets .., ?_, ?_⟩
  · have hjudge : judge (linkedAssets "../../secret.txt" []) "src" "dist" "assets" = .ok .allowed := by
      rw [judge_eq_allowed_iff, hsource]
      exact ⟨by decide, by cbv, by decide, by cbv, by cbv⟩
    rw [result_place_vacant hjudge (by rw [hdest]; cbv), hsource, hdest]
    -- the link in the directory dangles
    have hrefused : isRefusal ((copyPath "src/assets" "dist/assets").runOn
        (linkedAssets "../../secret.txt" [])).1 = true := by cbv
    rw [reported_of_isRefusal _ _ hrefused]
    rfl
  · have hjudge : judge (linkedAssets "../../secret.txt" [("secret.txt", .file [83])]) "src" "dist" "assets"
        = .ok .allowed := by
      rw [judge_eq_allowed_iff, hsource]
      exact ⟨by decide, by cbv, by decide, by cbv, by cbv⟩
    -- it leads to a file that is no part of the sources
    have hcopied : ((copyPath "src/assets" "dist/assets").runOn
        (linkedAssets "../../secret.txt" [("secret.txt", .file [83])])).1 = .ok () := by cbv
    rw [result_place_vacant hjudge (by rw [hdest]; cbv), hsource, hdest, hcopied]
    rfl

end Assets

end ModuleBuild
