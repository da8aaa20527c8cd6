/-
  ModuleBuild.Proofs.Log.Ledger
  ─────────────────────────────
  **THE LEDGER OF A LOG.**

  A program starts its log, writes records and stops it, as often as it likes
  and in any order; a start may be forced on a log that runs, may fail, and
  may find nothing to write to.  A ledger is kept of it: how the log is kept
  at the moment, which its configuration and the tree say, and which records
  belong into which file.

  After each step the signs that a log runs agree with each other and with
  the ledger.  When the log is stopped in the end, and no file is rotated,
  each file holds what it held before, and behind it the lines of its records
  in the ledger: of those that its layout can write and that have bytes.

  Main results:
    * `regimeOf` — how a log is kept that is started;
    * `openSinks_regimeOf` — its sinks are those that it should have;
    * `follows_step`, `balanced_step` — what a step preserves;
    * `ledger_balanced` — the signs of a log, and what its files hold in the end;
    * `ledger_unwritten` — a record of which no line is written.
-/
import ModuleBuild.Proofs.Log.Writing

namespace ModuleBuild

open FileTree

/-- What a program does with its log. -/
inductive LogStep
  | configure (c : LogConfig) (force : Bool)
  | log (r : Record)
  | stop

namespace Journal

variable {now : Moment} {c : LogConfig} {path : Text} {w w₀ u : LogWorld} {force : Bool}
  {sinks : List Sink} {r : Record} {l k : Location}

/-! ## §1. The ledger. -/

/-- What a step makes of the world; a start that fails is a step as well. -/
def step (now : Moment) (w : LogWorld) : LogStep → LogWorld
  | .configure c force => (configure now c force w).2
  | .log r => log r w
  | .stop => stop now w

/-- What is there after some steps. -/
def runFrom (now : Moment) (w : LogWorld) (steps : List LogStep) : LogWorld :=
  steps.foldl (step now) w

/-- How a log is kept: from which level on, and in which file, if there is one. -/
structure Regime where
  level : Nat
  file : Option (Location × LogFile)

/-- A record that belongs into a file. -/
structure LedgerEntry where
  place : Location
  file : LogFile
  record : Record

/-- How the log is kept, if it runs, and what belongs into its files, the oldest first. -/
structure Ledger where
  regime : Option Regime
  entries : List LedgerEntry

/-- The ledger before the log is first started. -/
def Ledger.empty : Ledger := ⟨none, []⟩

/-- The location of an open file, if it has one. -/
def location? : OpenFile → Option Location
  | .named l => some l
  | _ => none

/-- Where a log file lies when it is opened and its directory is made.  What the system refuses lies
nowhere; what else goes wrong is a failure. -/
def placeOf (path : Text) (t : FileTree) : Except Failure (Option Location) :=
  match (Edit.tryMakeDirectories (Path.dirName path)).runOn t with
  | (.error failure, _) => .error failure
  | (.ok (some _), _) => .ok none
  | (.ok none, t) =>
    match t.openToAppend path with
    | .ok t => .ok (location? t.openFile)
    | .error failure => if failure.isSystemFault then .ok none else .error failure

/-- How a log is kept that is started in a tree: on the console, in its file, or both.  It is not
started if one of its layouts names no field, if there is a failure, or if it has neither. -/
def regimeOf (c : LogConfig) (t : FileTree) : Option Regime :=
  let level := (Level.ofText c.level).number
  let consoleOnly : Option Regime := if c.console then some ⟨level, none⟩ else none
  if c.console && !Layout.namesField (Layout.orPlain c.consoleLayout) then none
  else
    match c.file.filter (· ≠ []) with
    | none => consoleOnly
    | some path =>
      if Layout.namesField (Layout.orPlain c.fileLayout) then
        match placeOf (t.absolute path) t with
        | .error _ => none
        | .ok none => consoleOnly
        | .ok (some l) => some ⟨level, some (l, logFile c (t.absolute path))⟩
      else none

/-- What a record adds to the ledger: nothing unless it is serious enough. -/
def Regime.entries (g : Regime) (r : Record) : List LedgerEntry :=
  match g.file with
  | some (l, f) => if g.level ≤ r.level.number then [⟨l, f, r⟩] else []
  | none => []

/-- A record that is not serious enough adds nothing. -/
theorem Regime.entries_of_not (g : Regime) {r : Record} (hlevel : ¬ g.level ≤ r.level.number) :
    g.entries r = [] := by
  unfold Regime.entries
  cases g.file with
  | none => rfl
  | some place => exact if_neg hlevel

/-- The ledger after a step that is made in a world. -/
def Ledger.after (now : Moment) (w : LogWorld) (b : Ledger) : LogStep → Ledger
  | .configure c force =>
    if b.regime.isSome && !force then b
    else { b with regime := regimeOf c (cleared now c w).tree }
  | .log r => { b with entries := b.entries ++ (b.regime.map (·.entries r)).getD [] }
  | .stop => { b with regime := none }

/-- The ledger after some steps, the first of which is made in a world. -/
def ledgerFrom (now : Moment) : LogWorld → Ledger → List LogStep → Ledger
  | _, b, [] => b
  | w, b, s :: steps => ledgerFrom now (step now w s) (b.after now w s) steps

/-- The lines that belong into the file at a location, one for each of its records that has one. -/
def Ledger.linesAt (b : Ledger) (now : Moment) (l : Location) : Bytes :=
  (b.entries.filter (·.place = l)).flatMap fun e => (e.file.lineOf? now e.record).getD []

theorem linesAt_append (regime : Option Regime) (es es' : List LedgerEntry) :
    Ledger.linesAt ⟨regime, es ++ es'⟩ now k
      = Ledger.linesAt ⟨regime, es⟩ now k ++ Ledger.linesAt ⟨regime, es'⟩ now k := by
  unfold Ledger.linesAt
  rw [List.filter_append, List.flatMap_append]

/-! ## §2. What the sinks of a log have opened. -/

/-- Nothing is logged and nothing written. -/
structure Untouched (w u : LogWorld) : Prop where
  journal : u.journal = w.journal
  bytesAt : ∀ k, u.tree.bytesAt k = w.tree.bytesAt k

theorem Untouched.refl (w : LogWorld) : Untouched w w := ⟨rfl, fun _ => rfl⟩

/-- A log file that is opened is open at its place; nothing is written to it yet. -/
theorem openFile_placeOf (c : LogConfig) (path : Text) (w : LogWorld) :
    Untouched w (openFile c path w).2
      ∧ match placeOf (w.tree.absolute path) w.tree with
        | .error failure => (openFile c path w).1 = .error failure
        | .ok none => (openFile c path w).1 = .ok none
        | .ok (some l) => (openFile c path w).1 = .ok (some (logFile c (w.tree.absolute path)))
          ∧ OpenAt (openFile c path w).2.tree l := by
  have hmade := Edit.tryMakeDirectories_unwritten (Path.dirName (w.tree.absolute path)) w.tree
  unfold openFile placeOf
  dsimp only
  -- the system may refuse to make the directories, or to open the file: then there is no file, and no
  -- failure
  generalize (Edit.tryMakeDirectories (Path.dirName (w.tree.absolute path))).runOn w.tree = made
    at hmade
  obtain ⟨failure | _ | fault, t⟩ := made
  · exact ⟨⟨rfl, hmade.bytesAt⟩, rfl⟩
  · dsimp only
    cases hopen : t.openToAppend (w.tree.absolute path) with
    | ok t' =>
      obtain ⟨l, hopened, hbytes⟩ := openToAppend_openAt (isAbsolute_absolute w.tree path) hopen
      have hplace : location? t'.openFile = some l := by
        rw [hopened.openFile]
        rfl
      dsimp only
      rw [hplace]
      exact ⟨⟨rfl, fun k => (hbytes k).trans (hmade.bytesAt k)⟩, rfl, hopened⟩
    | error failure =>
      dsimp only
      cases failure.isSystemFault with
      | true => exact ⟨⟨rfl, hmade.bytesAt⟩, rfl⟩
      | false => exact ⟨⟨rfl, hmade.bytesAt⟩, rfl⟩
  · exact ⟨⟨rfl, hmade.bytesAt⟩, rfl⟩

/-- The sinks that were opened are those of the regime; without a regime there are none. -/
def Fit (c : LogConfig) (opened : Except Failure (List Sink)) (t : FileTree) :
    Option Regime → Prop
  | none => opened = .ok [] ∨ ∃ failure, opened = .error failure
  | some g => g.level = (Level.ofText c.level).number
    ∧ (∀ l f, g.file = some (l, f) → OpenAt t l ∧ f.maxBytes = c.maxBytes)
    ∧ ∃ sink sinks, opened = .ok (sink :: sinks)
      ∧ (sink :: sinks).filterMap Sink.file? = (g.file.map Prod.snd).toList

theorem orPlain_orPlain (layout : Text) :
    Layout.orPlain (Layout.orPlain layout) = Layout.orPlain layout := by
  unfold Layout.orPlain
  split
  · rfl
  · rfl

theorem checkLayout_eq (layout : Text) : checkLayout layout
    = if Layout.namesField (Layout.orPlain layout) then .ok () else .error (.badLogLayout layout) :=
  rfl

/-- A log without a file is kept on the console, or not at all. -/
theorem fit_consoleOnly (c : LogConfig) (t : FileTree) :
    Fit c (.ok (consoleSinks c)) t
      (if c.console then some ⟨(Level.ofText c.level).number, none⟩ else none) := by
  unfold consoleSinks
  cases c.console with
  | true => exact ⟨rfl, (fun l f h => by cases h), _, _, rfl, rfl⟩
  | false => exact .inl rfl

/-- A log with a file, beside the console or not. -/
theorem fit_file (c : LogConfig) {t : FileTree} {l : Location} (path : Text) (h : OpenAt t l) :
    Fit c (.ok (consoleSinks c ++ [.file (logFile c path)])) t
      (some ⟨(Level.ofText c.level).number, some (l, logFile c path)⟩) := by
  have hplace : ∀ k f, some (l, logFile c path) = some (k, f) →
      OpenAt t k ∧ f.maxBytes = c.maxBytes := by
    intro k f hf
    cases hf
    exact ⟨h, rfl⟩
  unfold consoleSinks
  cases c.console with
  | true => exact ⟨rfl, hplace, _, _, rfl, rfl⟩
  | false => exact ⟨rfl, hplace, _, _, rfl, rfl⟩

/-- **The sinks of a log are those of its regime**, and nothing is written yet. -/
theorem openSinks_regimeOf (c : LogConfig) (w : LogWorld) :
    Untouched w (openSinks c w).2
      ∧ Fit c (openSinks c w).1 (openSinks c w).2.tree (regimeOf c w.tree) := by
  -- the layout of the console is only checked if the console is in use
  have hconsole : (if c.console then checkLayout (Layout.orPlain c.consoleLayout) else .ok ())
      = if c.console && !Layout.namesField (Layout.orPlain c.consoleLayout) then
        .error (.badLogLayout (Layout.orPlain c.consoleLayout)) else .ok () := by
    rw [checkLayout_eq, orPlain_orPlain]
    cases c.console with
    | false => rfl
    | true =>
      cases Layout.namesField (Layout.orPlain c.consoleLayout) with
      | false => rfl
      | true => rfl
  unfold openSinks regimeOf
  dsimp only
  rw [hconsole]
  cases c.console && !Layout.namesField (Layout.orPlain c.consoleLayout) with
  | true => exact ⟨.refl w, .inr ⟨_, rfl⟩⟩
  | false =>
    rw [if_neg Bool.false_ne_true, if_neg Bool.false_ne_true]
    dsimp only
    cases c.file.filter (· ≠ []) with
    | none => exact ⟨.refl w, fit_consoleOnly c w.tree⟩
    | some path =>
      dsimp only
      rw [checkLayout_eq]
      cases Layout.namesField (Layout.orPlain c.fileLayout) with
      | false => exact ⟨.refl w, .inr ⟨_, rfl⟩⟩
      | true =>
        rw [if_pos rfl, if_pos rfl]
        dsimp only
        obtain ⟨huntouched, hplace⟩ := openFile_placeOf c path w
        refine ⟨huntouched, ?_⟩
        rcases hplaceOf : placeOf (w.tree.absolute path) w.tree with failure | _ | l
        · rw [hplaceOf] at hplace
          rw [hplace]
          exact .inr ⟨_, rfl⟩
        · rw [hplaceOf] at hplace
          rw [hplace]
          show Fit c (.ok (consoleSinks c ++ [])) _ _
          rw [List.append_nil]
          exact fit_consoleOnly c _
        · rw [hplaceOf] at hplace
          rw [hplace.1]
          exact fit_file c _ hplace.2

/-! ## §3. The signs that a log runs. -/

/-- No log runs. -/
structure Idle (w : LogWorld) : Prop where
  configured : w.journal.configured = false
  listener : w.journal.listener = none
  handlers : w.journal.handlers = 0
  queue : w.journal.queue = []

/-- A log runs, and is kept as it should. -/
structure Running (w : LogWorld) (g : Regime) : Prop where
  configured : w.journal.configured = true
  handlers : w.journal.handlers = 1
  level : w.journal.level = g.level
  listener : ∃ sinks, w.journal.listener = some ⟨g.level, sinks⟩
    ∧ sinks.filterMap Sink.file? = (g.file.map Prod.snd).toList
  queue : ∀ r ∈ w.journal.queue, g.level ≤ r.level.number

/-- The log is as the ledger says. -/
def Follows (w : LogWorld) : Option Regime → Prop
  | none => Idle w
  | some g => Running w g

theorem Follows.configured {regime : Option Regime} (h : Follows w regime) :
    w.journal.configured = regime.isSome := by
  cases regime with
  | none => exact Idle.configured h
  | some g => exact Running.configured h

theorem idle_stop (now : Moment) (w : LogWorld) : Idle (stop now w) := ⟨rfl, rfl, rfl, rfl⟩

theorem idle_cleared (now : Moment) (c : LogConfig) (w : LogWorld) : Idle (cleared now c w) :=
  idle_stop now _

theorem Idle.of_untouched (h : Idle w) (hu : Untouched w u) : Idle u := by
  obtain ⟨hconfigured, hlistener, hhandlers, hqueue⟩ := h
  rw [← hu.journal] at hconfigured hlistener hhandlers hqueue
  exact ⟨hconfigured, hlistener, hhandlers, hqueue⟩

/-- A log that runs queues a record that is serious enough. -/
theorem Running.log {g : Regime} (h : Running w g) (r : Record) :
    Journal.log r w = if g.level ≤ r.level.number then
      { w with journal := { w.journal with queue := w.journal.queue ++ [r] } } else w := by
  unfold Journal.log
  rw [h.handlers, h.level]
  simp only [Nat.zero_lt_one, true_and]

/-- A log that does not run takes no record. -/
theorem Idle.log (h : Idle w) (r : Record) : Journal.log r w = w := by
  unfold Journal.log
  rw [h.handlers, if_neg (by simp)]

theorem follows_log {regime : Option Regime} (h : Follows w regime) (r : Record) :
    Follows (log r w) regime := by
  cases regime with
  | none =>
    rw [Idle.log h]
    exact h
  | some g =>
    rw [Running.log h]
    split
    · rename_i hlevel
      obtain ⟨hconfigured, hhandlers, hlevels, hlistener, hqueue⟩ : Running w g := h
      refine ⟨hconfigured, hhandlers, hlevels, hlistener, fun r' hr' => ?_⟩
      rcases List.mem_append.1 hr' with hold | hnew
      · exact hqueue r' hold
      · rw [List.mem_singleton.1 hnew]
        exact hlevel
    · exact h

theorem level_cleared (now : Moment) (c : LogConfig) (w : LogWorld) :
    (cleared now c w).journal.level = (Level.ofText c.level).number := by
  unfold cleared stop
  cases hlistener : w.journal.listener with
  | none => rfl
  | some listener =>
    dsimp only
    rw [journal_drained]

/-- A log that is not kept opens its sinks when the one before is stopped. -/
theorem configure_new (now : Moment) (c : LogConfig)
    (hnew : (w.journal.configured && !force) = false) :
    (configure now c force w).2
      = match openSinks c (cleared now c w) with
        | (.error _, u) => u
        | (.ok sinks, u) => start (Level.ofText c.level).number sinks u := by
  unfold configure cleared
  rw [hnew, if_neg Bool.false_ne_true]
  dsimp only
  rcases openSinks c _ with ⟨failure | sinks, u⟩
  · rfl
  · rfl

/-- A start in a world leaves a log as its regime says, with nothing on its queue and nothing
written. -/
structure Anew (c : LogConfig) (w u : LogWorld) (regime : Option Regime) : Prop where
  follows : Follows u regime
  queue : u.journal.queue = []
  bytesAt : ∀ k, u.tree.bytesAt k = w.tree.bytesAt k
  place : ∀ l f, regime.bind Regime.file = some (l, f) → OpenAt u.tree l ∧ f.maxBytes = c.maxBytes

/-- **A log that is not kept starts anew.** -/
theorem configure_anew (now : Moment) (c : LogConfig)
    (hnew : (w.journal.configured && !force) = false) :
    Anew c (cleared now c w) (configure now c force w).2 (regimeOf c (cleared now c w).tree) := by
  obtain ⟨huntouched, hfit⟩ := openSinks_regimeOf c (cleared now c w)
  have hstill := (idle_cleared now c w).of_untouched huntouched
  rw [configure_new now c hnew]
  generalize openSinks c (cleared now c w) = opened at huntouched hfit hstill
  obtain ⟨result, u⟩ := opened
  dsimp only at huntouched hfit hstill ⊢
  cases hregime : regimeOf c (cleared now c w).tree with
  | none =>
    rw [hregime] at hfit
    -- without sinks, or if they cannot be opened, nothing is started
    have hunstarted : (match (result, u) with
        | (.error _, u) => u
        | (.ok sinks, u) => start (Level.ofText c.level).number sinks u) = u := by
      rcases hfit with rfl | ⟨failure, rfl⟩
      · rfl
      · rfl
    rw [hunstarted]
    exact ⟨hstill, hstill.queue, huntouched.bytesAt, fun l f h => by cases h⟩
  | some g =>
    rw [hregime] at hfit
    obtain ⟨hlevel, hplace, sink, sinks, rfl, hfiles⟩ := hfit
    have hjournal : u.journal.level = g.level := by
      rw [huntouched.journal, level_cleared, hlevel]
    refine ⟨⟨rfl, ?_, hjournal, ⟨_, ?_, hfiles⟩, fun r hr => ?_⟩, hstill.queue,
      huntouched.bytesAt, hplace⟩
    · show u.journal.handlers + 1 = 1
      rw [hstill.handlers]
    · rw [hlevel]
      rfl
    · have hqueue : (start (Level.ofText c.level).number (sink :: sinks) u).journal.queue = [] :=
        hstill.queue
      dsimp only at hr
      rw [hqueue] at hr
      cases hr

/-- A log that is kept stays as it is. -/
theorem configure_kept {regime : Option Regime} (h : Follows w regime) (now : Moment)
    (c : LogConfig) (hkept : (regime.isSome && !force) = true) :
    (configure now c force w).2 = w := by
  unfold configure
  rw [h.configured, hkept, if_pos rfl]

/-- **Each step leaves the log as the ledger says.** -/
theorem follows_step {b : Ledger} (h : Follows w b.regime) (s : LogStep) :
    Follows (step now w s) (b.after now w s).regime := by
  cases s with
  | configure c force =>
    show Follows (configure now c force w).2 (if b.regime.isSome && !force then b
      else { b with regime := regimeOf c (cleared now c w).tree }).regime
    cases hkept : b.regime.isSome && !force with
    | true =>
      rw [if_pos rfl, configure_kept h now c hkept]
      exact h
    | false =>
      rw [if_neg Bool.false_ne_true]
      exact (configure_anew now c (by rw [h.configured, hkept])).follows
  | log r => exact follows_log h r
  | stop => exact idle_stop now w

theorem follows_runFrom {b : Ledger} (h : Follows w b.regime) (steps : List LogStep) :
    Follows (runFrom now w steps) (ledgerFrom now w b steps).regime := by
  induction steps generalizing w b with
  | nil => exact h
  | cons s steps ih => exact ih (follows_step h s)

/-! ## §4. What the files hold. -/

/-- What the files hold, and behind it what is on the queue for them, is what they held at first, and
behind it the lines of the ledger. -/
structure Balanced (now : Moment) (w₀ w : LogWorld) (b : Ledger) : Prop where
  kept : KeptOpen w.tree (b.regime.bind Regime.file)
  bytesAt : ∀ k, w.tree.bytesAt k ++ pendingAt now (b.regime.bind Regime.file) w.journal.queue k
    = w₀.tree.bytesAt k ++ b.linesAt now k

theorem pendingAt_nil (now : Moment) (file : Option (Location × LogFile)) (k : Location) :
    pendingAt now file [] k = [] := by
  cases file with
  | none => rfl
  | some place => exact ite_self []

/-- What a record adds to the queue is what it adds to the ledger. -/
theorem pendingAt_queued {g : Regime} (hlevel : g.level ≤ r.level.number) (queue : List Record)
    (regime : Option Regime) :
    pendingAt now g.file (queue ++ [r]) k
      = pendingAt now g.file queue k ++ Ledger.linesAt ⟨regime, g.entries r⟩ now k := by
  unfold Regime.entries Ledger.linesAt
  cases g.file with
  | none => rfl
  | some place =>
    obtain ⟨l, f⟩ := place
    dsimp only [pendingAt]
    rw [if_pos hlevel]
    by_cases hk : k = l
    · subst hk
      rw [if_pos rfl, if_pos rfl, List.filter_cons_of_pos (by simp)]
      unfold LogFile.linesOf
      rw [List.flatMap_append]
      rfl
    · rw [if_neg hk, if_neg hk, List.filter_cons_of_neg (by simpa using Ne.symm hk)]
      rfl

/-- A log that is stopped writes what is on the queue, whatever its level has become. -/
theorem bytesAt_stopped {regime : Option Regime} (hfollows : Follows w regime)
    (hkept : KeptOpen w.tree (regime.bind Regime.file)) (level : Nat) (k : Location) :
    (stop now { w with journal := { w.journal with level := level } }).tree.bytesAt k
      = w.tree.bytesAt k ++ pendingAt now (regime.bind Regime.file) w.journal.queue k := by
  cases regime with
  | none =>
    have hstop : (stop now { w with journal := { w.journal with level := level } }).tree
        = w.tree.close := by
      unfold stop
      dsimp only
      rw [Idle.listener hfollows]
    rw [hstop, bytesAt_close]
    exact (List.append_nil _).symm
  | some g =>
    obtain ⟨-, -, -, ⟨sinks, hlistener, hsinks⟩, hqueue⟩ : Running w g := hfollows
    exact bytesAt_stop (w := { w with journal := { w.journal with level := level } }) hlistener
      hsinks hqueue hkept k

/-- So a log that is stopped in balance has written all lines of the ledger. -/
theorem Balanced.stopped {b : Ledger} (h : Balanced now w₀ w b) (hfollows : Follows w b.regime)
    (level : Nat) (k : Location) :
    (stop now { w with journal := { w.journal with level := level } }).tree.bytesAt k
      = w₀.tree.bytesAt k ++ b.linesAt now k := by
  rw [bytesAt_stopped hfollows h.kept, h.bytesAt]

theorem balanced_configure {b : Ledger} (hfollows : Follows w b.regime)
    (h : Balanced now w₀ w b) (force : Bool) (hrotation : c.maxBytes ≤ 0) :
    Balanced now w₀ (configure now c force w).2 (b.after now w (.configure c force)) := by
  show Balanced now w₀ (configure now c force w).2 (if b.regime.isSome && !force then b
    else { b with regime := regimeOf c (cleared now c w).tree })
  cases hkept : b.regime.isSome && !force with
  | true =>
    rw [if_pos rfl, configure_kept hfollows now c hkept]
    exact h
  | false =>
    rw [if_neg Bool.false_ne_true]
    have hanew := @configure_anew w force now c (by rw [hfollows.configured, hkept])
    refine ⟨?_, fun k => ?_⟩
    · show KeptOpen _ ((regimeOf c (cleared now c w).tree).bind Regime.file)
      cases hfile : (regimeOf c (cleared now c w).tree).bind Regime.file with
      | none => exact True.intro
      | some place =>
        obtain ⟨hopen, hmax⟩ := hanew.place _ _ hfile
        exact ⟨hopen, hmax ▸ hrotation⟩
    · -- the start writes nothing, so what is there is what the stop before it left
      rw [hanew.queue, pendingAt_nil, List.append_nil, hanew.bytesAt]
      exact h.stopped hfollows _ k

theorem balanced_log {b : Ledger} (hfollows : Follows w b.regime) (h : Balanced now w₀ w b)
    (r : Record) : Balanced now w₀ (log r w) (b.after now w (.log r)) := by
  show Balanced now w₀ (log r w)
    { b with entries := b.entries ++ (b.regime.map (·.entries r)).getD [] }
  obtain ⟨regime, entries⟩ := b
  cases regime with
  | none =>
    rw [Idle.log hfollows]
    refine ⟨h.kept, fun k => ?_⟩
    show _ = _ ++ Ledger.linesAt ⟨none, entries ++ []⟩ now k
    rw [List.append_nil]
    exact h.bytesAt k
  | some g =>
    rw [Running.log hfollows]
    split
    · rename_i hlevel
      refine ⟨h.kept, fun k => ?_⟩
      show w.tree.bytesAt k ++ pendingAt now g.file (w.journal.queue ++ [r]) k
        = _ ++ Ledger.linesAt ⟨some g, entries ++ g.entries r⟩ now k
      rw [pendingAt_queued hlevel _ (some g), linesAt_append, ← List.append_assoc,
        ← List.append_assoc, ← h.bytesAt]
      rfl
    · rename_i hlevel
      refine ⟨h.kept, fun k => ?_⟩
      show _ = _ ++ Ledger.linesAt ⟨some g, entries ++ g.entries r⟩ now k
      rw [g.entries_of_not hlevel, List.append_nil]
      exact h.bytesAt k

/-- **Each step keeps the files in balance with the ledger**, when no file is rotated. -/
theorem balanced_step {b : Ledger} (hfollows : Follows w b.regime) (h : Balanced now w₀ w b)
    (s : LogStep) (hrotation : ∀ c force, s = .configure c force → c.maxBytes ≤ 0) :
    Balanced now w₀ (step now w s) (b.after now w s) := by
  cases s with
  | configure c force => exact balanced_configure hfollows h force (hrotation c force rfl)
  | log r => exact balanced_log hfollows h r
  | stop =>
    refine ⟨True.intro, fun k => ?_⟩
    show (stop now w).tree.bytesAt k ++ [] = w₀.tree.bytesAt k ++ b.linesAt now k
    rw [List.append_nil]
    exact h.stopped hfollows w.journal.level k

theorem balanced_runFrom {b : Ledger} (hfollows : Follows w b.regime) (h : Balanced now w₀ w b)
    (steps : List LogStep)
    (hrotation : ∀ c force, .configure c force ∈ steps → c.maxBytes ≤ 0) :
    Balanced now w₀ (runFrom now w steps) (ledgerFrom now w b steps) := by
  induction steps generalizing w b with
  | nil => exact h
  | cons s steps ih =>
    have hs : ∀ c force, s = .configure c force → c.maxBytes ≤ 0 := fun c force hs =>
      hrotation c force (hs ▸ List.mem_cons_self)
    exact ih (follows_step hfollows s) (balanced_step hfollows h s hs) fun c force hc =>
      hrotation c force (List.mem_cons_of_mem _ hc)

/-! ## §5. The end. -/

/-- The signs that a log runs agree: it is said to run, it has a listener, and one handler. -/
structure SignsAgree (j : Journal) : Prop where
  listener : j.listener.isSome = j.configured
  handlers : j.handlers = if j.configured then 1 else 0

theorem Follows.signsAgree {regime : Option Regime} (h : Follows w regime) :
    SignsAgree w.journal := by
  cases regime with
  | none =>
    obtain ⟨hconfigured, hlistener, hhandlers, -⟩ : Idle w := h
    exact ⟨by rw [hlistener, hconfigured]; rfl, by rw [hhandlers, hconfigured]; rfl⟩
  | some g =>
    obtain ⟨hconfigured, hhandlers, -, ⟨sinks, hlistener, -⟩, -⟩ : Running w g := h
    exact ⟨by rw [hlistener, hconfigured]; rfl, by rw [hhandlers, hconfigured]; rfl⟩

/-- When no file is rotated, the files hold in the end what they held, and the lines of the ledger. -/
theorem bytesAt_ended (hidle : Idle w) {steps : List LogStep}
    (hrotation : ∀ c force, .configure c force ∈ steps → c.maxBytes ≤ 0) (l : Location) :
    (stop now (runFrom now w steps)).tree.bytesAt l
      = w.tree.bytesAt l ++ (ledgerFrom now w .empty steps).linesAt now l := by
  have hempty : Follows w Ledger.empty.regime := hidle
  have hbalanced : Balanced now w w .empty := ⟨True.intro, fun _ => rfl⟩
  exact (balanced_runFrom hempty hbalanced steps hrotation).stopped
    (follows_runFrom hempty steps) (runFrom now w steps).journal.level l

/-! ## §6. A log in one file. -/

/-- A tree with one file, which may be open. -/
def shelf (content : Bytes) (openFile : OpenFile) : FileTree :=
  ⟨[("a.log", .file content)], [], openFile⟩

/-- A world with that tree, in which no log runs. -/
def atRest (content : Bytes) : LogWorld := ⟨shelf content .closed, .initial, [], []⟩

theorem idle_atRest (content : Bytes) : Idle (atRest content) := ⟨rfl, rfl, rfl, rfl⟩

/-- A log in that file and nowhere else, which is never rotated. -/
def fileLog : LogConfig := { console := false, file := some ("/a.log" : Text), maxBytes := 0 }

/-- It can be started. -/
theorem regimeOf_fileLog (content : Bytes) :
    regimeOf fileLog (shelf content .closed)
      = some ⟨20, some (["a.log"], logFile fileLog "/a.log")⟩ := by
  have hlevel : (Level.ofText fileLog.level).number = 20 := by decide
  have hfield : Layout.namesField (Layout.orPlain fileLog.fileLayout) = true := by decide
  have habsolute : (shelf content .closed).absolute "/a.log" = "/a.log" := by cbv
  have hmade : (Edit.tryMakeDirectories (Path.dirName "/a.log")).runOn (shelf content .closed)
      = (.ok none, shelf content .closed) := by cbv
  have hopened : (shelf content .closed).openToAppend "/a.log"
      = .ok (shelf content (.named ["a.log"])) := by cbv
  have hplace : placeOf "/a.log" (shelf content .closed) = .ok (some ["a.log"]) := by
    unfold placeOf
    rw [hmade]
    dsimp only
    rw [hopened]
    rfl
  have hfile : fileLog.file.filter (· ≠ []) = some ("/a.log" : Text) := by decide
  unfold regimeOf
  rw [hfile, hlevel]
  dsimp only
  rw [hfield, habsolute, hplace]
  rfl

/-- The moment at which it writes. -/
def newYear : Moment := ⟨2000, 1, 1, 0, 0, 0⟩

/-- A message that names a file by a byte that belongs to no character. -/
def nameless : Record := ⟨.info, [], [CodePoint.ofNat 0xDCFF]⟩

/-- A program that starts this log and writes one record. -/
def oneRecord (r : Record) : List LogStep := [.configure fileLog false, .log r]

theorem unrotated_oneRecord (r : Record) (c : LogConfig) (force : Bool)
    (h : .configure c force ∈ oneRecord r) : c.maxBytes ≤ 0 := by
  rcases List.mem_cons.1 h with h | h
  · cases h
    exact Int.le_refl 0
  · cases List.mem_singleton.1 h

/-- A record that is serious enough is in the ledger. -/
theorem ledgerFrom_oneRecord (now : Moment) (content : Bytes) {r : Record}
    (hlevel : 20 ≤ r.level.number) :
    ledgerFrom now (atRest content) .empty (oneRecord r)
      = ⟨some ⟨20, some (["a.log"], logFile fileLog "/a.log")⟩,
        [⟨["a.log"], logFile fileLog "/a.log", r⟩]⟩ := by
  have hregime : regimeOf fileLog (cleared now fileLog (atRest content)).tree = _ :=
    regimeOf_fileLog content
  have hentries : Regime.entries ⟨20, some (["a.log"], logFile fileLog "/a.log")⟩ r
      = [⟨["a.log"], logFile fileLog "/a.log", r⟩] := if_pos hlevel
  show (⟨regimeOf fileLog (cleared now fileLog (atRest content)).tree,
    [] ++ ((regimeOf fileLog (cleared now fileLog (atRest content)).tree).map
      (·.entries r)).getD []⟩ : Ledger) = _
  rw [hregime, Option.map_some, hentries]
  rfl

/-- So its line belongs into the file, if it has one. -/
theorem linesAt_oneRecord (now : Moment) (content : Bytes) {r : Record}
    (hlevel : 20 ≤ r.level.number) :
    (ledgerFrom now (atRest content) .empty (oneRecord r)).linesAt now ["a.log"]
      = if (r.loggerName ++ r.message).IsUnicode then
        (standardLine now r).flatMap Utf8.encodeOne else [] := by
  have hline := lineOf?_standard (f := logFile fileLog "/a.log") rfl rfl now r
  rw [ledgerFrom_oneRecord now content hlevel]
  show ((logFile fileLog "/a.log").lineOf? now r).getD [] ++ [] = _
  rw [hline, List.append_nil]
  split
  · rfl
  · rfl

/-! ## §7. The log, step by step. -/

/-- **After each step the signs that the log runs agree with each other and with the ledger; and when
the log is stopped in the end and no file is rotated, each file holds what it held before and behind it
the lines of its records in the ledger**, in their order: no line is lost, and none is there twice. -/
theorem ledger_balanced (hidle : Idle w) (steps : List LogStep) :
    (∀ made, made <+: steps → SignsAgree (runFrom now w made).journal
        ∧ (runFrom now w made).journal.configured
          = (ledgerFrom now w .empty made).regime.isSome)
      ∧ ((∀ c force, .configure c force ∈ steps → c.maxBytes ≤ 0) → ∀ l,
        (stop now (runFrom now w steps)).tree.bytesAt l
          = w.tree.bytesAt l ++ (ledgerFrom now w .empty steps).linesAt now l) := by
  refine ⟨fun made _ => ?_, fun hrotation l => bytesAt_ended hidle hrotation l⟩
  have hfollows : Follows (runFrom now w made) (ledgerFrom now w .empty made).regime :=
    follows_runFrom (b := .empty) hidle made
  exact ⟨hfollows.signsAgree, hfollows.configured⟩

/-- A message goes behind what the file held. -/
theorem ledger_balanced_oneRecord :
    Idle (atRest [0x2D, 0x0A])
      ∧ (∀ c force, .configure c force ∈ oneRecord ⟨.info, [], "ready"⟩ → c.maxBytes ≤ 0)
      ∧ (runFrom newYear (atRest [0x2D, 0x0A])
        (oneRecord ⟨.info, [], "ready"⟩)).journal.configured = true
      ∧ (stop newYear (runFrom newYear (atRest [0x2D, 0x0A])
        (oneRecord ⟨.info, [], "ready"⟩))).tree.bytesAt ["a.log"]
        = (Text.ofString "-\n[2000-01-01T00:00:00] - INFO - root - ready\n").flatMap
          Utf8.encodeOne := by
  have hidle := idle_atRest [0x2D, 0x0A]
  obtain ⟨hsigns, hfiles⟩ := @ledger_balanced newYear _ hidle (oneRecord ⟨.info, [], "ready"⟩)
  refine ⟨hidle, unrotated_oneRecord _, ?_, ?_⟩
  · rw [(hsigns _ (List.prefix_refl _)).2, ledgerFrom_oneRecord _ _ (by decide)]
    rfl
  · rw [hfiles (unrotated_oneRecord _), linesAt_oneRecord _ _ (by decide), if_pos (by decide)]
    decide

/-- A message of one line is logged while a log with that file runs, and its layout can write it; but
there is a surrogate in the message, as in the name of a file that is no text, and the file gets
nothing. -/
theorem ledger_unwritten :
    Idle (atRest []) ∧ (∀ c force, .configure c force ∈ oneRecord nameless → c.maxBytes ≤ 0)
      ∧ (ledgerFrom newYear (atRest []) .empty (oneRecord nameless)).entries
        = [⟨["a.log"], logFile fileLog "/a.log", nameless⟩]
      ∧ CodePoint.lineFeed ∉ nameless.message
      ∧ (Layout.fill? (logFile fileLog "/a.log").layout
        (newYear.format? (logFile fileLog "/a.log").dateLayout) nameless).isSome = true
      ∧ (stop newYear (runFrom newYear (atRest []) (oneRecord nameless))).tree.bytesAt ["a.log"]
        = [] := by
  have hfilled : Layout.fill? Layout.file (some (newYear.format Moment.fileLayout)) nameless
      = some _ := Layout.fill_file _ nameless
  refine ⟨idle_atRest [], unrotated_oneRecord _, ?_, by decide, ?_, ?_⟩
  · rw [ledgerFrom_oneRecord _ _ (by decide)]
  · show (Layout.fill? Layout.file (some (newYear.format Moment.fileLayout)) nameless).isSome = true
    rw [hfilled]
    rfl
  · rw [bytesAt_ended (idle_atRest []) (unrotated_oneRecord _), linesAt_oneRecord _ _ (by decide),
      if_neg (by decide)]
    rfl

end Journal

end ModuleBuild
