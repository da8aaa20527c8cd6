/-
  ModuleBuild.Proofs.Build.Question
  ─────────────────────────────────
  **THE WAY TO THE AUTOMATION QUESTION.**

  A build puts its question in one place, after it has looked at the manifest
  as it is then.  Before that it may end early, quietly and without a choice.
  What the stages on the way do to the tree is told by a relation: the build's
  own stages are known, and its tools and assets are taken to keep it.

  Main results:
    * `run_comes` — a build ends quietly, or comes to its question;
    * `conclude_cases` — the question is put only without an answer.
-/
import ModuleBuild.Proofs.Build.Configuring
import ModuleBuild.Proofs.Build.Stages
import ModuleBuild.Proofs.Project.Answered

namespace ModuleBuild

open ModuleBuild.Action

namespace Build

/-! ## §1. The way to the question. -/

/-- The path of a project's manifest. -/
theorem straight_pathIn (request : BuildRequest) (w : World) :
    Path.Straight (Manifest.pathIn (projectOf request w))
      ∧ Path.names (Manifest.pathIn (projectOf request w))
        = Path.names (projectOf request w) ++ [Manifest.fileName] :=
  (FileTree.straight_absolute w.tree request.projectDir).join (by decide)

/-- In a build, the stages that are not its own keep a relation between trees: what the tools do up to
the compiled sources, and what the placing of assets does. -/
def Spares (K : FileTree → FileTree → Prop) (tools : Toolchain) (request : BuildRequest) (w : World) :
    Prop :=
  ∀ config warnings, configured request w = .ok (config, warnings) →
    ∀ result u, (compileAll tools request (projectOf request w) config warnings).runOn (begun w)
        = (result, u) →
      K w.tree u.tree ∧
        ∀ r r' v, result = .ok (.ok r) → (normalizeModules config r).runOn u = (.ok r', v) →
          K v.tree ((placeAssets config r').runOn v).2.tree

theorem Spares.mono {K K' : FileTree → FileTree → Prop} {tools : Toolchain} {request : BuildRequest}
    {w : World} (h : Spares K' tools request w) (hK : ∀ t t', K' t t' → K t t') :
    Spares K tools request w := by
  intro config warnings hconfigured result u hcompile
  obtain ⟨hkept, hassets⟩ := h config warnings hconfigured result u hcompile
  exact ⟨hK _ _ hkept, fun r r' v hr hrun => hK _ _ (hassets r r' v hr hrun)⟩

/-- How a build that began in a world ends: quietly and without a choice, or as it ends from its
question on. -/
def Comes (K : FileTree → FileTree → Prop) (manifest : Text) (prompt : Option Prompt) (w : World)
    (outcome : Except Failure BuildResult × World) : Prop :=
  (Quiet w.events outcome.2.events ∧ K w.tree outcome.2.tree
      ∧ ∀ r, outcome.1 = .ok r → r.automationChoice = none)
    ∨ ∃ r u, Quiet w.events u.events ∧ K w.tree u.tree
        ∧ outcome = (conclude manifest prompt r).runOn u

/-- Up to its compiled sources a build ends with a failed result that tells of no more, or begins a
successful one. -/
theorem compileAll_cases {tools : Toolchain} {request : BuildRequest} {projectDir : Text}
    {config : Config} {warnings : List Text} {w u : World} {result : Except BuildResult BuildResult}
    (h : (compileAll tools request projectDir config warnings).runOn w = (.ok result, u)) :
    (∃ error inputs, result
        = .error (.failed error projectDir (some config) warnings inputs request.durationMs))
      ∨ ∃ r, result = .ok r ∧ r.ok = true := by
  obtain ⟨_, _, -, h⟩ := exists_of_runOn_bind h
  obtain ⟨typeFault, _, -, h⟩ := exists_of_runOn_bind h
  unfold compileChecked at h
  cases typeFault with
  | some fault =>
    obtain ⟨_, _, hfail, h⟩ := exists_of_runOn_bind h
    cases h
    cases hfail
    exact .inl ⟨_, _, rfl⟩
  | none =>
    obtain ⟨inputs, _, -, h⟩ := exists_of_runOn_bind h
    obtain ⟨_, _, -, h⟩ := exists_of_runOn_bind h
    obtain ⟨fault, _, -, h⟩ := exists_of_runOn_bind h
    cases fault with
    | some fault =>
      obtain ⟨_, _, hfail, h⟩ := exists_of_runOn_bind h
      cases h
      cases hfail
      exact .inl ⟨_, _, rfl⟩
    | none =>
      cases h
      exact .inr ⟨_, rfl, rfl⟩

/-- A build that fails up to the compiled sources records no choice. -/
theorem automationChoice_of_compileAll {tools : Toolchain} {request : BuildRequest}
    {projectDir : Text} {config : Config} {warnings : List Text} {w u : World} {r : BuildResult}
    (h : (compileAll tools request projectDir config warnings).runOn w = (.ok (.error r), u)) :
    r.automationChoice = none := by
  rcases compileAll_cases h with ⟨error, inputs, hr⟩ | ⟨r', hr, -⟩
  · cases hr
    rfl
  · cases hr

variable {K : FileTree → FileTree → Prop} [IsPreorder FileTree K]

/-- A stage ends the build quietly, or leaves a world for the next. -/
theorem comes_bind {α : Type} {a : Action α} {f : α → Action BuildResult} {manifest : Text}
    {prompt : Option Prompt} {w u : World} (hw : Quiet w.events u.events ∧ K w.tree u.tree)
    (ha : Quiet u.events (a.runOn u).2.events ∧ K u.tree (a.runOn u).2.tree)
    (hf : ∀ x v, a.runOn u = (.ok x, v) → Quiet w.events v.events ∧ K w.tree v.tree →
      Comes K manifest prompt w ((f x).runOn v)) :
    Comes K manifest prompt w ((a >>= f).runOn u) := by
  rw [runOn_bind]
  rcases hrun : a.runOn u with ⟨failure | x, v⟩
  · rw [hrun] at ha
    exact .inl ⟨hw.1.trans ha.1, trans_of K hw.2 ha.2, fun r hr => by cases hr⟩
  · rw [hrun] at ha
    exact hf x v hrun ⟨hw.1.trans ha.1, trans_of K hw.2 ha.2⟩

/-- **A build ends quietly, or comes to its question.** -/
theorem run_comes {tools : Toolchain} {request : BuildRequest} {w : World}
    (hmodules : Modules.KeptByModules K) (hspares : Spares K tools request w)
    (hstart : ∀ config r u, K u.tree
      ((recordStart config (Manifest.pathIn (projectOf request w)) r).runOn u).2.tree) :
    Comes K (Manifest.pathIn (projectOf request w)) request.prompt w ((run tools request).runOn w) := by
  have hbegun : Quiet w.events (begun w).events ∧ K w.tree (begun w).tree :=
    ⟨quiet_note w.events fun _ => Event.noConfusion, refl_of K w.tree⟩
  rw [runOn_run]
  cases hconfigured : configured request w with
  | error failure =>
    left
    dsimp only
    split
    · have hfail := calm_fail (K := K) failure.message (projectOf request w) none [] []
        request.durationMs (begun w)
      refine ⟨hbegun.1.trans hfail.1, hfail.2, fun r hr => ?_⟩
      cases hr
      rfl
    · exact ⟨hbegun.1, hbegun.2, fun r hr => by cases hr⟩
  | ok configuration =>
    obtain ⟨config, warnings⟩ := configuration
    have hcalm : Calm AnyTree (compileAll tools request (projectOf request w) config warnings) :=
      calm_compileAll (fun _ => trivial) (fun _ _ => trivial) _ _ _ _
    have hall := hspares config warnings hconfigured
    dsimp only
    rw [runConfigured_eq]
    -- from here on stage by stage: what a stage has kept is kept for the next
    refine comes_bind hbegun ⟨(hcalm _).1, (hall _ _ rfl).1⟩ fun compiled u hcompile hu => ?_
    cases compiled with
    | error r =>
      refine .inl ⟨hu.1, hu.2, fun r' hr => ?_⟩
      cases hr
      exact automationChoice_of_compileAll hcompile
    | ok r =>
      dsimp only
      rw [finish_eq]
      refine comes_bind hu (calm_normalizeModules hmodules config r u) fun r1 u1 hrun hu1 => ?_
      have hplace := (hall _ _ hcompile).2 r r1 u1 rfl hrun
      refine comes_bind hu1 ⟨(calm_placeAssets config r1 u1).1, hplace⟩ fun r2 u2 _ hu2 => ?_
      have hrecord := (calm_recordStart config (Manifest.pathIn (projectOf request w)) r2 u2).1
      refine comes_bind hu2 ⟨hrecord, hstart config r2 u2⟩ fun r3 u3 _ hu3 => ?_
      exact .inr ⟨r3, u3, hu3.1, hu3.2, rfl⟩

/-! ## §2. The question. -/

/-- Without an answer, someone who is there is asked. -/
theorem runOn_askAutomation {manifest : Text} {u : World} {m : Manifest}
    (hload : Manifest.load u.tree manifest = .ok m) (hasked : m.askedUser = false) (p : Prompt) :
    (askAutomation manifest (some p)).runOn u
      = (match p.answer with
          | none => return none
          | some answer => do return some (← Manifest.persistChoice manifest (some answer))
          : Action (Option Choice)).runOn ⟨u.tree, u.events ++ [.asked p.shown]⟩ := by
  have hneeds : m.needsPrompt = true := by
    rw [Manifest.needsPrompt, hasked]
    rfl
  unfold askAutomation
  rw [runOn_bind, runOn_ask, hload]
  dsimp only
  rw [hneeds, if_neg (by simp)]
  cases p.answer <;> rfl

/-- **The question is put only without an answer.**  Either nothing is asked and nothing recorded, or
the manifest was loaded and had no answer, someone was there to ask, and the one question was put; a
choice that is returned was then saved with the manifest. -/
theorem askAutomation_cases (manifest : Text) (prompt : Option Prompt) (u : World) :
    (∃ result v, (askAutomation manifest prompt).runOn u = (result, v) ∧ Quiet u.events v.events
        ∧ v.tree = u.tree ∧ ∀ choice, result = .ok choice → choice = none)
      ∨ ∃ m p result v, Manifest.load u.tree manifest = .ok m ∧ m.askedUser = false
          ∧ prompt = some p ∧ (askAutomation manifest prompt).runOn u = (result, v)
          ∧ Quiet (u.events ++ [.asked p.shown]) v.events
          ∧ ∀ c, result = .ok (some c) →
              u.tree.replaceText manifest (m.withChoice c).content = .ok v.tree := by
  have hlogged : ∀ events record, Quiet events (events ++ [.logged record]) := fun events record =>
    quiet_note events fun _ => Event.noConfusion
  cases hload : Manifest.load u.tree manifest with
  | error failure =>
    left
    unfold askAutomation
    rw [runOn_bind, runOn_ask, hload]
    exact ⟨_, _, rfl, .refl _, rfl, fun choice h => by cases h⟩
  | ok m =>
    cases hasked : m.askedUser with
    | true =>
      have hneeds : m.needsPrompt = false := by
        rw [Manifest.needsPrompt, hasked]
        rfl
      left
      unfold askAutomation
      rw [runOn_bind, runOn_ask, hload]
      dsimp only
      rw [hneeds]
      exact ⟨_, _, rfl, hlogged _ _, rfl, fun choice h => by cases h; rfl⟩
    | false =>
      cases prompt with
      | none =>
        have hneeds : m.needsPrompt = true := by
          rw [Manifest.needsPrompt, hasked]
          rfl
        left
        unfold askAutomation
        rw [runOn_bind, runOn_ask, hload]
        dsimp only
        rw [hneeds]
        exact ⟨_, _, rfl, hlogged _ _, rfl, fun choice h => by cases h; rfl⟩
      | some p =>
        right
        rw [runOn_askAutomation hload hasked]
        -- someone is there to ask, and there is no answer yet
        cases p.answer with
        | none => exact ⟨m, p, _, _, rfl, hasked, rfl, rfl, .refl _, fun c h => by cases h⟩
        | some answer =>
          obtain ⟨record, saved, hsaved⟩ := Manifest.runOn_persistChoice
            (w := ⟨u.tree, u.events ++ [.asked p.shown]⟩) hload (some answer)
          dsimp only
          rw [runOn_bind, hsaved]
          cases hreplace : u.tree.replaceText manifest (m.withChoice (.ofAnswer (some answer))).content with
          | error failure =>
            exact ⟨m, p, _, _, rfl, hasked, rfl, rfl, hlogged _ _, fun c h => by cases h⟩
          | ok t' =>
            refine ⟨m, p, _, _, rfl, hasked, rfl, rfl, (hlogged _ _).trans (hlogged _ _), fun c h => ?_⟩
            cases h
            exact hreplace

/-- A build that fails to ask fails. -/
theorem conclude_of_refused {manifest : Text} {prompt : Option Prompt} {u v : World} {failure : Failure}
    (h : (askAutomation manifest prompt).runOn u = (.error failure, v)) (r : BuildResult) :
    (conclude manifest prompt r).runOn u = (.error failure, v) := by
  unfold conclude recordAutomation
  rw [runOn_bind, runOn_bind, h]

/-- A build that has asked, or had no need to, ends with the choice in its result. -/
theorem conclude_of_ask {manifest : Text} {prompt : Option Prompt} {u v : World}
    {choice : Option Choice} (h : (askAutomation manifest prompt).runOn u = (.ok choice, v))
    (r : BuildResult) :
    ∃ r' events, (conclude manifest prompt r).runOn u = (.ok r', ⟨v.tree, events⟩)
      ∧ r'.automationChoice = choice.map Choice.letter ∧ Quiet v.events events := by
  have hlogged : ∀ events record, Quiet events (events ++ [.logged record]) := fun events record =>
    quiet_note events fun _ => Event.noConfusion
  unfold conclude recordAutomation
  rw [runOn_bind, runOn_bind, h]
  by_cases hinvalid : choice = some .invalid
  · simp only [if_pos hinvalid]
    exact ⟨_, _, rfl, rfl, (hlogged _ _).trans (hlogged _ _)⟩
  · simp only [if_neg hinvalid]
    exact ⟨_, _, rfl, rfl, hlogged _ _⟩

/-- The end of a build is quiet, leaves the tree as it is and records nothing; or it puts the
question. -/
theorem conclude_cases (manifest : Text) (prompt : Option Prompt) (r : BuildResult) (u : World) :
    (Quiet u.events ((conclude manifest prompt r).runOn u).2.events
        ∧ ((conclude manifest prompt r).runOn u).2.tree = u.tree
        ∧ ∀ r', ((conclude manifest prompt r).runOn u).1 = .ok r' → r'.automationChoice = none)
      ∨ ∃ m p, Manifest.load u.tree manifest = .ok m ∧ m.askedUser = false ∧ prompt = some p
          ∧ Quiet (u.events ++ [.asked p.shown]) ((conclude manifest prompt r).runOn u).2.events
          ∧ ∀ r', ((conclude manifest prompt r).runOn u).1 = .ok r' → r'.automationChoice ≠ none →
              ∃ c : Choice, u.tree.replaceText manifest (m.withChoice c).content
                = .ok ((conclude manifest prompt r).runOn u).2.tree := by
  rcases askAutomation_cases manifest prompt u with ⟨result, v, hask, hquiet, htree, hnone⟩
    | ⟨m, p, result, v, hload, hasked, hprompt, hask, hquiet, hsaved⟩
  · cases result with
    | error failure =>
      rw [conclude_of_refused hask r]
      exact .inl ⟨hquiet, htree, fun r' hr => by cases hr⟩
    | ok choice =>
      obtain ⟨r', events, hrun, hletter, hevents⟩ := conclude_of_ask hask r
      rw [hrun]
      refine .inl ⟨hquiet.trans hevents, htree, fun r'' hr => ?_⟩
      cases hr
      rw [hletter, hnone choice rfl]
      rfl
  · cases result with
    | error failure =>
      rw [conclude_of_refused hask r]
      exact .inr ⟨m, p, hload, hasked, hprompt, hquiet, fun r' hr => by cases hr⟩
    | ok choice =>
      obtain ⟨r', events, hrun, hletter, hevents⟩ := conclude_of_ask hask r
      rw [hrun]
      refine .inr ⟨m, p, hload, hasked, hprompt, hquiet.trans hevents, fun r'' hr hne => ?_⟩
      cases hr
      cases choice with
      | none => exact absurd hletter hne
      | some c => exact ⟨c, hsaved c rfl⟩

end Build

end ModuleBuild
