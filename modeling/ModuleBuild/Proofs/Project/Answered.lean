/-
  ModuleBuild.Proofs.Project.Answered
  ───────────────────────────────────
  **MANIFESTS THAT KEEP AN ANSWER.**

  Recording a choice leaves a manifest that says so, and whatever is recorded
  later leaves the note and the scripts that run the build.  A manifest goes
  through its file between any two steps; the values that it was read with
  once are read again from what is written of them.

  Main results:
    * `load_saved` — a manifest that was saved is loaded again;
    * `answered_withChoice`, `Answered.withStart` — a recorded choice is an answer, and a start script
      that is recorded keeps it;
    * `answerAt_withChoice`, `keepsAnswer_persistEntry` — the same of the file that holds the manifest.
-/
import ModuleBuild.Proofs.FileTree.Holding
import ModuleBuild.Proofs.Project.Writes
import ModuleBuild.Proofs.Run

namespace ModuleBuild

open ModuleBuild.Action

namespace Manifest

variable {t t' : FileTree} {path : Text} {m : Manifest}

/-! ## §1. Through the file. -/

theorem load_eq_ok (h : load t path = .ok m) :
    m.path = path ∧ t.readObject path = .ok m.members := by
  unfold load at h
  split at h
  · cases hread : t.readObject path with
    | ok members =>
      rw [hread] at h
      cases h
      exact ⟨rfl, rfl⟩
    | error failure =>
      rw [hread] at h
      cases h
  · cases h

theorem exists_readBytes_of_load (h : load t path = .ok m) : ∃ old, t.readBytes path = .ok old := by
  have hobject := (load_eq_ok h).2
  unfold FileTree.readObject at hobject
  cases hread : t.readBytes path with
  | ok old => exact ⟨old, rfl⟩
  | error failure =>
    rw [hread] at hobject
    cases hobject

theorem takesFile_of_load (h : load t path = .ok m) : t.TakesFile path := by
  obtain ⟨old, hread⟩ := exists_readBytes_of_load h
  exact FileTree.takesFile_of_readBytes hread

theorem writable_of_load (h : load t path = .ok m) : Json.Writable (.object m.members) :=
  FileTree.writable_of_readObject (load_eq_ok h).2

variable {bytes : Bytes}

theorem load_of_holds (h : t.Holds path bytes) (h' : t'.Holds path bytes) :
    load t' path = load t path := by
  unfold load FileTree.readObject
  rw [h.namesFile, h'.namesFile, h.readBytes, h'.readBytes]

/-- **A manifest that was saved is loaded again**, as it is read back. -/
theorem load_saved (hpath : m.path = path) (hm : Json.Writable (.object m.members))
    (htakes : t.TakesFile path) (h : t.replaceText path m.content = .ok t') :
    (∃ bytes, t'.Holds path bytes) ∧ load t' path = .ok m.saved := by
  obtain ⟨bytes, hencode, hholds⟩ := FileTree.holds_replaceText htakes h
  refine ⟨⟨bytes, hholds⟩, ?_⟩
  unfold load saved
  rw [if_pos hholds.namesFile, FileTree.readObject_saved hm hencode hholds.readBytes, hpath]

theorem saved_saved (m : Manifest) : m.saved.saved = m.saved := by
  unfold saved
  dsimp only
  rw [Json.rereadMembers_reread]

/-! ## §2. Answers. -/

/-- A manifest as it was read, with the note that the automation question was answered. -/
structure Answered (m : Manifest) : Prop where
  noted : Json.lookup? "askedUser" (m.sectionOf ownKey) = some (.bool true)
  settled : m.saved = m

theorem Answered.askedUser (h : Answered m) : m.askedUser = true := by
  unfold Manifest.askedUser
  rw [h.noted]
  rfl

/-- The scripts that run a build are set alike. -/
def SameAutomation (m m' : Manifest) : Prop :=
  ∀ key ∈ Choice.all.scripts,
    Json.lookup? key (m'.sectionOf scriptsKey) = Json.lookup? key (m.sectionOf scriptsKey)

theorem SameAutomation.refl (m : Manifest) : SameAutomation m m := fun _ _ => rfl

theorem SameAutomation.trans {m' m'' : Manifest} (h : SameAutomation m m')
    (h' : SameAutomation m' m'') : SameAutomation m m'' :=
  fun key hkey => (h' key hkey).trans (h key hkey)

theorem writable_withChoice (h : Json.Writable (.object m.members)) (c : Choice) :
    Json.Writable (.object (m.withChoice c).members) := by
  rw [withChoice_eq_apply]
  exact writable_apply h (writable_choiceWrites c)

theorem path_withChoice (m : Manifest) (c : Choice) : (m.withChoice c).path = m.path := by
  rw [withChoice_eq_apply, path_apply]

/-- **A recorded choice is an answer.** -/
theorem answered_withChoice (m : Manifest) (c : Choice) : Answered (m.withChoice c).saved where
  noted := by
    rw [sectionOf_saved, Json.lookup_reread, withChoice, sectionOf_setIn_self,
      Json.lookup_setMember_self]
    rfl
  settled := saved_saved _

/-- **Recording a start script keeps the answer**, and the scripts that run the build. -/
theorem Answered.withStart (h : Answered m) (command : Text) :
    Answered (m.withStart command).saved ∧ SameAutomation m (m.withStart command).saved := by
  have hown : (m.withStart command).sectionOf ownKey = m.sectionOf ownKey :=
    sectionOf_setIn_of_ne (by decide) m _ _
  refine ⟨⟨?_, saved_saved _⟩, fun key hkey => ?_⟩
  · rw [sectionOf_saved, Json.lookup_reread, hown, h.noted]
    rfl
  · have hne : key ≠ "start" := by
      rintro rfl
      exact absurd hkey (by decide)
    -- the manifest was read, so its values are read back as they are
    have hread : Json.lookup? key (m.sectionOf scriptsKey)
        = (Json.lookup? key (m.sectionOf scriptsKey)).map Json.reread := by
      rw [← Json.lookup_reread, ← sectionOf_saved, h.settled]
    rw [sectionOf_saved, Json.lookup_reread, Manifest.withStart, sectionOf_setIn_self,
      Json.lookup_setMember_of_ne hne, ← hread]

/-! ## §3. Transactions. -/

/-- A transaction whose change returns ends with what saving comes to. -/
theorem runOn_transaction {α : Type} {change : Manifest → Action (Manifest × α)} {w u : World}
    {m' : Manifest} {x : α} (hload : load w.tree path = .ok m)
    (hchange : (change m).runOn w = (.ok (m', x), u)) :
    (transaction path change).runOn w
      = match u.tree.replaceText m'.path m'.content with
        | .error failure => (.error failure, u)
        | .ok t' => (.ok x, ⟨t', u.events ++
            [.logged ⟨.debug, logger, Text.join ["Manifest saved to ", m'.path]⟩]⟩) := by
  unfold transaction
  rw [runOn_bind, runOn_ask, hload]
  dsimp only
  rw [runOn_bind, hchange]
  dsimp only
  unfold save
  rw [runOn_bind, runOn_bind, runOn_lift, Edit.run_change]
  cases u.tree.replaceText m'.path m'.content <;> rfl

/-- Recording a choice ends with what saving the manifest comes to. -/
theorem runOn_persistChoice {w : World} (hload : load w.tree path = .ok m) (answer : Option Text) :
    ∃ record saved, (persistChoice path answer).runOn w
      = match w.tree.replaceText path (m.withChoice (.ofAnswer answer)).content with
        | .error failure => (.error failure, ⟨w.tree, w.events ++ [.logged record]⟩)
        | .ok t' => (.ok (.ofAnswer answer), ⟨t', w.events ++ [.logged record] ++ [.logged saved]⟩) := by
  have hchange : (recordChoice m answer).runOn w
      = (.ok (m.withChoice (.ofAnswer answer), .ofAnswer answer), ⟨w.tree, _⟩) := rfl
  have hrun : (transaction path (recordChoice · answer)).runOn w = _ := runOn_transaction hload hchange
  rw [path_withChoice, (load_eq_ok hload).1] at hrun
  exact ⟨_, _, hrun⟩

/-- Recording a start script ends with what saving the manifest comes to. -/
theorem runOn_persistEntry {w : World} (hload : load w.tree path = .ok m) (outDir entry : Text) :
    ∃ record saved, (persistEntry path outDir entry).runOn w
      = match w.tree.replaceText path (m.withStart (startScript outDir entry)).content with
        | .error failure => (.error failure, ⟨w.tree, w.events ++ [.logged record]⟩)
        | .ok t' => (.ok (startScript outDir entry),
            ⟨t', w.events ++ [.logged record] ++ [.logged saved]⟩) := by
  have hchange : (recordEntry m outDir entry).runOn w
      = (.ok (m.withStart (startScript outDir entry), startScript outDir entry), ⟨w.tree, _⟩) := rfl
  have hrun : (transaction path (recordEntry · outDir entry)).runOn w = _ :=
    runOn_transaction hload hchange
  have hpath : (m.withStart (startScript outDir entry)).path = path := (load_eq_ok hload).1
  rw [hpath] at hrun
  exact ⟨_, _, hrun⟩

/-! ## §4. Answers in a tree. -/

/-- A path holds a manifest with an answer. -/
structure AnswerAt (path : Text) (t : FileTree) (m : Manifest) : Prop where
  held : ∃ bytes, t.Holds path bytes
  loaded : load t path = .ok m
  answered : Answered m

/-- An answer that is held in one tree is held in the other, with the same scripts that run the
build. -/
def KeepsAnswer (path : Text) (t t' : FileTree) : Prop :=
  ∀ m, AnswerAt path t m → ∃ m', AnswerAt path t' m' ∧ SameAutomation m m'

instance (path : Text) : IsPreorder FileTree (KeepsAnswer path) where
  refl _ m h := ⟨m, h, .refl m⟩
  trans _ _ _ h h' m hm := by
    obtain ⟨m', hm', hsame⟩ := h m hm
    obtain ⟨m'', hm'', hsame'⟩ := h' m' hm'
    exact ⟨m'', hm'', hsame.trans hsame'⟩

theorem keepsAnswer_of_holds (h : ∀ bytes, t.Holds path bytes → t'.Holds path bytes) : KeepsAnswer path t t' := by
  rintro m ⟨⟨bytes, hheld⟩, hload, hanswered⟩
  refine ⟨m, ⟨⟨bytes, h bytes hheld⟩, ?_, hanswered⟩, .refl m⟩
  rw [load_of_holds hheld (h bytes hheld), hload]

/-- A recorded choice is an answer that its path holds. -/
theorem answerAt_withChoice (hload : load t path = .ok m) {c : Choice}
    (h : t.replaceText path (m.withChoice c).content = .ok t') :
    AnswerAt path t' (m.withChoice c).saved := by
  have hwithPath : (m.withChoice c).path = path := (path_withChoice m c).trans (load_eq_ok hload).1
  obtain ⟨hheld, hloaded⟩ := load_saved hwithPath
    (writable_withChoice (writable_of_load hload) c) (takesFile_of_load hload) h
  exact ⟨hheld, hloaded, answered_withChoice m c⟩

/-- Recording a start script keeps an answer. -/
theorem keepsAnswer_persistEntry (path outDir entry : Text) (w : World) :
    KeepsAnswer path w.tree ((persistEntry path outDir entry).runOn w).2.tree := by
  rintro m ⟨hheld, hload, hanswered⟩
  obtain ⟨record, saved, hrun⟩ := runOn_persistEntry (w := w) hload outDir entry
  rw [hrun]
  cases hreplace : w.tree.replaceText path (m.withStart (startScript outDir entry)).content with
  | error failure => exact ⟨m, ⟨hheld, hload, hanswered⟩, .refl m⟩
  | ok t' =>
    obtain ⟨hheld', hloaded⟩ := load_saved (m := m.withStart (startScript outDir entry))
      (load_eq_ok hload).1 (writable_withStart (writable_of_load hload) _) (takesFile_of_load hload)
      hreplace
    obtain ⟨hanswered', hsame⟩ := hanswered.withStart (startScript outDir entry)
    exact ⟨_, ⟨hheld', hloaded, hanswered'⟩, hsame⟩

end Manifest

end ModuleBuild
