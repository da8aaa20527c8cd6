/-
  ModuleBuild.Proofs.Output.Revising
  ──────────────────────────────────
  **WHAT BECOMES OF EACH MODULE.**

  A pass over the modules of a directory treats each file by itself: what it
  leaves of a file depends on the file's path and its bytes, and on nothing
  else in the tree.  Files that the system does not let the pass read or
  replace, and files that are not UTF-8, are left as they are; a text that was
  read can be written after either pass, so no other failure is met.

  Main results:
    * `revised_ne_iff` — the files whose bytes a pass changes;
    * `changed_spot` — one file: the tree that is left, entry by entry;
    * `runFrom_revised` — all files of a pass.
-/
import ModuleBuild.Proofs.FileTree.Spot
import ModuleBuild.Proofs.Output.SecondRun

namespace ModuleBuild

/-! ## §1. Texts that can be written. -/

namespace ModuleText

variable {P : CodePoint → Prop}

theorem forall_glueAll_passPieces {opens : Text → Bool} {f : Text → Text}
    (hf : ∀ s, (∀ c ∈ s, P c) → ∀ c ∈ f s, P c) (run : Text) (pieces : List Piece)
    (h : ∀ c ∈ glueAll pieces, P c) : ∀ c ∈ glueAll (passPieces opens f run pieces), P c := by
  have hcons : ∀ (p : Piece) (ps : List Piece), (∀ c ∈ glueAll (p :: ps), P c)
      ↔ P p.quote ∧ (∀ c ∈ p.run, P c) ∧ ∀ c ∈ glueAll ps, P c := by
    intro p ps
    show (∀ c ∈ p.quote :: (p.run ++ glueAll ps), P c) ↔ _
    rw [List.forall_mem_cons, List.forall_mem_append]
  fun_induction passPieces opens f run pieces with
  | case1 => exact h
  | case2 => exact h
  | case3 run p p' rest hreplaced ih =>
    rw [hcons, hcons] at h ⊢
    exact ⟨h.1, hf _ h.2.1, h.2.2.1, h.2.2.2.1, ih h.2.2.2.2⟩
  | case4 run p p' rest hkept ih =>
    rw [hcons] at h ⊢
    exact ⟨h.1, h.2.1, ih h.2.2⟩

/-- A pass brings in no code points but those of the specifiers that it writes. -/
theorem forall_pass {opens : Text → Bool} {f : Text → Text}
    (hf : ∀ s, (∀ c ∈ s, P c) → ∀ c ∈ f s, P c) {t : Text} (h : ∀ c ∈ t, P c) :
    ∀ c ∈ pass opens f t, P c := by
  rw [← glue_cut t] at h
  unfold glue at h
  unfold pass glue
  rw [List.forall_mem_append] at h ⊢
  exact ⟨h.1, forall_glueAll_passPieces hf _ _ h.2⟩

/-- Completing specifiers brings in no code points but those of the extension. -/
theorem forall_complete (hext : ∀ c ∈ Specifier.moduleExtension, P c) {t : Text}
    (h : ∀ c ∈ t, P c) : ∀ c ∈ complete t, P c := by
  have hadd : ∀ s, (∀ c ∈ s, P c) → ∀ c ∈ Specifier.addExtension s, P c := by
    intro s hs
    unfold Specifier.addExtension
    split
    · exact hs
    · rw [List.forall_mem_append]
      exact ⟨hs, hext⟩
  rw [complete_eq]
  exact forall_pass hadd (forall_pass hadd h)

/-- Deleting lines brings in nothing. -/
theorem mem_of_mem_stripMarkers {markers : List Text} {t : Text} {c : CodePoint}
    (h : c ∈ stripMarkers markers t) : c ∈ t := by
  rw [stripMarkers_eq, List.mem_flatten] at h
  obtain ⟨line, hline, hc⟩ := h
  rw [← Text.join_lines t]
  exact List.mem_flatten.2 ⟨line, (List.mem_filter.1 hline).1, hc⟩

/-- A change of texts after which a text that could be written still can. -/
def Writes (f : Text → Text) : Prop :=
  ∀ t : Text, (∀ c ∈ t, c.isSurrogate = false) → ∀ c ∈ f t, c.isSurrogate = false

theorem writes_complete : Writes complete := fun _ => forall_complete (by decide)

theorem writes_stripMarkers (markers : List Text) : Writes (stripMarkers markers) :=
  fun _ h c hc => h c (mem_of_mem_stripMarkers hc)

end ModuleText

/-! ## §2. One file. -/

namespace FileTree

variable {t : FileTree} {p : Text} {content : Bytes}

instance (p : Text) : Decidable (Fits p) :=
  decidable_of_iff ((checkPath p).toOption = some () ∧ Utf8.byteCount p < pathBytesLimit
      ∧ ∀ m ∈ Path.names p, Utf8.byteCount m ≤ maxNameBytes) <| by
    constructor
    · rintro ⟨hcheck, hshort, hnames⟩
      refine ⟨?_, hshort, hnames⟩
      cases h : checkPath p with
      | ok u => rfl
      | error failure =>
        rw [h] at hcheck
        cases hcheck
    · rintro ⟨hcheck, hshort, hnames⟩
      rw [hcheck]
      exact ⟨rfl, hshort, hnames⟩

/-- A path at which the system lets a file be replaced. -/
def Replaceable (p : Text) : Prop := Fits p ∧ HasRoom p

instance (p : Text) : Decidable (Replaceable p) := inferInstanceAs (Decidable (Fits p ∧ HasRoom p))

end FileTree

namespace Modules

open FileTree

variable {f : Text → Text} {t t' : FileTree} {p : Text} {k : Location} {content : Bytes}

/-- What a pass leaves of a file at a path. -/
def revised (f : Text → Text) (p : Text) (content : Bytes) : Bytes :=
  match Utf8.decode content with
  | .error _ => content
  | .ok text =>
    if Replaceable p ∧ f text ≠ text then
      match Utf8.encode (f text) with
      | .ok bytes => bytes
      | .error _ => content
    else content

theorem revised_of_not_replaceable (h : ¬ Replaceable p) : revised f p content = content := by
  unfold revised
  split
  · rfl
  · exact if_neg fun hreplaced => h hreplaced.1

theorem revised_id (p : Text) (content : Bytes) : revised id p content = content := by
  unfold revised
  split
  · rfl
  · exact if_neg fun hreplaced => hreplaced.2 rfl

/-- **Which files a pass revises**: those at a path where the system lets them be replaced, with a text
that the pass changes. -/
theorem revised_ne_iff (hwrites : ModuleText.Writes f) :
    revised f p content ≠ content
      ↔ Replaceable p ∧ ∃ text, Utf8.decode content = .ok text ∧ f text ≠ text := by
  unfold revised
  cases hdecode : Utf8.decode content with
  | error fault => simp
  | ok text =>
    dsimp only
    by_cases hreplaced : Replaceable p ∧ f text ≠ text
    · obtain ⟨bytes, hbytes⟩ : ∃ bytes, Utf8.encode (f text) = .ok bytes :=
        ⟨_, Utf8.encode_of_scalar (hwrites text (Utf8.isSurrogate_of_decode hdecode))⟩
      rw [if_pos hreplaced, hbytes]
      refine iff_of_true ?_ ⟨hreplaced.1, text, rfl, hreplaced.2⟩
      -- the bytes of two texts differ, since each is what its bytes are decoded to
      intro hbytesSame
      have hdecoded := Utf8.decode_encode hbytes
      rw [show bytes = content from hbytesSame, hdecode] at hdecoded
      exact hreplaced.2 (Except.ok.inj hdecoded).symm
    · rw [if_neg hreplaced]
      refine iff_of_false (fun h => h rfl) ?_
      rintro ⟨hroom, text', htext, hne⟩
      cases htext
      exact hreplaced ⟨hroom, hne⟩

/-- What is left of one file of a tree when it was revised. -/
structure RevisedAt (f : Text → Text) (p : Text) (k : Location) (content : Bytes) (t t' : FileTree) :
    Prop where
  workingDir : t'.workingDir = t.workingDir
  entry : ∀ j, t'.entryAt? j = if j = k then some (.file (revised f p content)) else t.entryAt? j

theorem RevisedAt.alike (h : RevisedAt f p k content t t') (hfile : t.entryAt? k = some (.file content)) :
    Alike t t' :=
  alike_of_file h.workingDir hfile ((h.entry k).trans (if_pos rfl)) fun j hj =>
    (h.entry j).trans (if_neg hj)

theorem revisedAt_self (hfile : t.entryAt? k = some (.file content)) (h : revised f p content = content) :
    RevisedAt f p k content t t where
  workingDir := rfl
  entry j := by
    split
    · rename_i hj
      rw [hj, hfile, h]
    · rfl

/-- A file that the pass leaves. -/
theorem revisedAt_kept (hwrites : ModuleText.Writes f) (hfile : t.entryAt? k = some (.file content))
    (h : ¬ (Replaceable p ∧ ∃ text, Utf8.decode content = .ok text ∧ f text ≠ text)) :
    (.ok false : Except Failure Bool) = .ok (decide (revised f p content ≠ content))
      ∧ RevisedAt f p k content t t := by
  rw [← revised_ne_iff hwrites, not_not] at h
  exact ⟨by simp [h], revisedAt_self hfile h⟩

/-- A file at a path that the system does not take is not read, which is reported. -/
theorem changed_unfit (f : Text → Text) (hspot : Spot t p k) (hfits : ¬ Fits p) :
    (contain (changed f p t).1, (changed f p t).2) = (.ok false, t) := by
  obtain ⟨failure, hlocate⟩ : ∃ failure, t.locate .target p = .error failure := by
    cases hplace : t.locate .target p with
    | ok place => exact absurd (fits_of_locate hspot.straight hplace) hfits
    | error failure => exact ⟨failure, rfl⟩
  have hread : t.readText p = .error failure := by
    unfold readText readBytes
    rw [hlocate]
    rfl
  have hcontained : Tasks.isContained failure = true := by
    unfold Tasks.isContained
    rw [isSystemFault_of_locate hspot.check hlocate]
    rfl
  unfold changed
  rw [hread]
  exact Prod.ext (if_pos hcontained) rfl

/-- A file that is no text is not read either. -/
theorem changed_undecodable (f : Text → Text) (hspot : Spot t p k) (hfits : Fits p)
    (hfile : t.entryAt? k = some (.file content)) {fault : Utf8.DecodeFault}
    (hdecode : Utf8.decode content = .error fault) :
    (contain (changed f p t).1, (changed f p t).2) = (.ok false, t) := by
  have htext : t.readText p = .error (.undecodable fault) := by
    unfold readText
    rw [readBytes_of_locate (hspot.taken hfits) hfile]
    simp only [bind, Except.bind, hdecode]
  unfold changed
  rw [htext]
  rfl

/-- A text of which the pass makes another is replaced, if there is room beside the file. -/
theorem changed_differing (hwrites : ModuleText.Writes f) (hspot : Spot t p k) (hfits : Fits p)
    (hfile : t.entryAt? k = some (.file content)) {text : Text}
    (hdecode : Utf8.decode content = .ok text) (hdiffers : f text ≠ text) :
    (HasRoom p → (changed f p t).1 = .ok true ∧ RevisedAt f p k content t (changed f p t).2)
      ∧ (¬ HasRoom p → (contain (changed f p t).1, (changed f p t).2) = (.ok false, t)) := by
  have hencode := Utf8.encode_of_scalar (hwrites text (Utf8.isSurrogate_of_decode hdecode))
  have hreplace := replaceText_spot hspot hfits hfile (f text)
  rw [hencode] at hreplace
  unfold changed
  rw [readText_of_file (hspot.taken hfits) hfile hdecode]
  dsimp only
  rw [if_neg hdiffers]
  constructor
  · intro hroom
    rw [if_pos hroom] at hreplace
    dsimp only at hreplace
    obtain ⟨bytes, hbytes, hdir, hself, hother⟩ := replaceText_at (hspot.last hfits) hfile hreplace
    have hrevised : revised f p content = bytes := by
      unfold revised
      rw [hdecode]
      dsimp only
      rw [if_pos ⟨⟨hfits, hroom⟩, hdiffers⟩, hbytes]
    rw [hreplace]
    dsimp only
    refine ⟨rfl, hdir, fun j => ?_⟩
    split
    · rename_i hj
      rw [hj, hrevised]
      exact hself
    · rename_i hj
      exact hother j hj
  · intro hroom
    rw [if_neg hroom] at hreplace
    rw [hreplace]
    rfl

/-- **What a pass does to one file.**  It returns whether the bytes of the file change, and no failure
but one that is reported is met. -/
theorem changed_spot (hwrites : ModuleText.Writes f) (hspot : Spot t p k)
    (hfile : t.entryAt? k = some (.file content)) :
    contain (changed f p t).1 = .ok (decide (revised f p content ≠ content))
      ∧ RevisedAt f p k content t (changed f p t).2 := by
  have hkept : (contain (changed f p t).1, (changed f p t).2) = (.ok false, t) →
      ¬ (Replaceable p ∧ ∃ text, Utf8.decode content = .ok text ∧ f text ≠ text) →
      contain (changed f p t).1 = .ok (decide (revised f p content ≠ content))
        ∧ RevisedAt f p k content t (changed f p t).2 := by
    intro hrun h
    rw [(Prod.mk.inj hrun).1, (Prod.mk.inj hrun).2]
    exact revisedAt_kept hwrites hfile h
  by_cases hfits : Fits p
  · cases hdecode : Utf8.decode content with
    | error fault => exact hkept (changed_undecodable f hspot hfits hfile hdecode) (by simp [hdecode])
    | ok text =>
      by_cases hsame : f text = text
      · refine hkept ?_ (by simp [hdecode, hsame])
        unfold changed
        rw [readText_of_file (hspot.taken hfits) hfile hdecode]
        dsimp only
        rw [if_pos hsame]
        rfl
      · obtain ⟨hreplaced, hleft⟩ := changed_differing hwrites hspot hfits hfile hdecode hsame
        by_cases hroom : HasRoom p
        · have hne := (revised_ne_iff hwrites).2 ⟨⟨hfits, hroom⟩, text, hdecode, hsame⟩
          obtain ⟨hflag, hrevised⟩ := hreplaced hroom
          rw [hflag, decide_eq_true hne]
          exact ⟨rfl, hrevised⟩
        · exact hkept (hleft hroom) fun h => hroom h.1.2
  · exact hkept (changed_unfit f hspot hfits) fun h => hfits h.1.1

/-! ## §3. All files of a pass. -/

theorem performs_stripFile (markers : List Text) :
    Performs (stripFile markers) (ModuleText.stripMarkers markers) := by
  intro p w
  unfold stripFile
  rw [Action.runOn_bind, runOn_changeFile]
  rcases changed (ModuleText.stripMarkers markers) p w.tree with ⟨failure | b, t'⟩
  · exact ⟨_, rfl⟩
  · cases b with
    | true => exact ⟨_, rfl⟩
    | false => exact ⟨_, rfl⟩

/-- Whether a pass changes the bytes of the file at a path and a location. -/
def revises (f : Text → Text) (t : FileTree) (p : Text) (k : Location) : Bool :=
  match t.entryAt? k with
  | some (.file content) => decide (revised f p content ≠ content)
  | _ => false

/-- What is left of a tree when the files at some paths, each at its location, were revised. -/
structure RevisedAll (f : Text → Text) (place : Text → Location) (ps : List Text) (t t' : FileTree) :
    Prop where
  alike : Alike t t'
  revised : ∀ p ∈ ps, ∀ content, t.entryAt? (place p) = some (.file content) →
    t'.entryAt? (place p) = some (.file (revised f p content))
  kept : ∀ k, k ∉ ps.map place → t'.entryAt? k = t.entryAt? k

/-- **All files of a pass**, each at its own location: no task looks at the file of another, so each
returns whether it changes the bytes that the tree had at first. -/
theorem runFrom_revised {task : Text → Action Bool} (htask : Performs task f)
    (hwrites : ModuleText.Writes f) (place : Text → Location) (total : Nat) :
    ∀ {ps : List Text} (done : Nat) (w : World),
      (∀ p ∈ ps, Spot w.tree p (place p)
        ∧ ∃ content, w.tree.entryAt? (place p) = some (.file content)) →
      (ps.map place).Nodup →
      ∃ w', (Tasks.runFrom task total done ps).runOn w
          = (.ok (ps.map fun p => revises f w.tree p (place p)), w')
        ∧ RevisedAll f place ps w.tree w'.tree
  | [], done, w, _, _ => ⟨w, rfl, .refl _, fun p hp => absurd hp List.not_mem_nil, fun _ _ => rfl⟩
  | p :: ps, done, w, hps, hnodup => by
    obtain ⟨hspot, content, hfile⟩ := hps p (List.mem_cons_self ..)
    obtain ⟨hcontain, hone⟩ := changed_spot hwrites hspot hfile
    have halike := hone.alike hfile
    obtain ⟨events, hguarded⟩ := runOn_guarded htask p w
    rw [List.map_cons, List.nodup_cons] at hnodup
    have hapart : ∀ q ∈ ps, place q ≠ place p := fun q hq e => hnodup.1 (e ▸ List.mem_map_of_mem hq)
    -- the first task changes its own file only, so the others find theirs as they were
    have hsame : ∀ k, k ≠ place p → (changed f p w.tree).2.entryAt? k = w.tree.entryAt? k :=
      fun k hk => (hone.entry k).trans (if_neg hk)
    obtain ⟨w', hrest, hrevised⟩ := runFrom_revised htask hwrites place total (done + 1)
      ⟨(changed f p w.tree).2, events ++ [.stageAdvanced (Binary64.percentOf (done + 1) total)]⟩
      (fun q hq => by
        obtain ⟨hqspot, hqfile⟩ := hps q (List.mem_cons_of_mem p hq)
        exact ⟨hqspot.alike halike, by rwa [hsame _ (hapart q hq)]⟩)
      hnodup.2
    refine ⟨w', ?_, halike.trans hrevised.alike, ?_, ?_⟩
    · have hflags : (ps.map fun q => revises f (changed f p w.tree).2 q (place q))
          = ps.map fun q => revises f w.tree q (place q) := by
        refine List.map_congr_left fun q hq => ?_
        unfold revises
        rw [hsame _ (hapart q hq)]
      have hflag : revises f w.tree p (place p) = decide (Modules.revised f p content ≠ content) := by
        unfold revises
        rw [hfile]
      unfold Tasks.runFrom
      rw [Action.runOn_bind, hguarded, hcontain]
      dsimp only
      rw [Action.runOn_bind, Action.runOn_note]
      dsimp only
      rw [Action.runOn_bind, hrest]
      dsimp only
      rw [hflags, List.map_cons, hflag]
      rfl
    · intro q hq old hold
      rcases List.mem_cons.1 hq with rfl | hq
      · rw [hfile] at hold
        cases hold
        rw [hrevised.kept _ hnodup.1]
        exact (hone.entry _).trans (if_pos rfl)
      · exact hrevised.revised q hq old ((hsame _ (hapart q hq)).trans hold)
    · intro k hk
      rw [List.map_cons, List.mem_cons, not_or] at hk
      rw [hrevised.kept k hk.2]
      exact hsame k hk.1

end Modules

end ModuleBuild
