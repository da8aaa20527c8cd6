/-
  ModuleBuild.Proofs.Project.BothRecorded
  ───────────────────────────────────────
  **THE START SCRIPT AND THE ANSWER, IN EITHER ORDER.**

  The start script and the answer to the automation question are recorded in
  transactions of their own, and set different keys.  So it does not matter
  which of them is recorded first: both orders return the same and leave the
  same members, and what else the manifest holds stays as it is.  Between the
  two the manifest goes through its file; without doubles and surrogates it is
  stored and read back as it is, wherever its file can be replaced.

  A manifest that is loaded need not be one that can be saved.  There may be
  no bytes for one of its keys, and there may be no room beside it for the
  file that is to take its place.

  Main results:
    * `load_persisted` — what is written to a manifest is read back;
    * `Differs.of_apply` — what is left of a manifest in which both are recorded;
    * `persist_either_order` — both orders return the same and leave the same;
    * `persist_refused` — manifests that are loaded and cannot be saved.
-/
import ModuleBuild.Proofs.FileTree.Checking
import ModuleBuild.Proofs.Project.SavedAndLoaded

namespace ModuleBuild

open ModuleBuild.Action

namespace Manifest

/-! ## §1. Writes that a file gives back. -/

variable {m : Manifest} {ws : List Write}

/-- A write that can be stored and is read back as it is. -/
structure Write.Exact (w : Write) : Prop where
  sectionKey : w.sectionKey.IsUnicode
  key : w.key.IsUnicode
  value : Json.Exact w.value

theorem exact_sectionOf (h : Json.Exact (.object m.members)) (section' : Text) :
    Json.Exact (.object (m.sectionOf section')) := by
  unfold sectionOf
  cases hlookup : Json.lookup? section' m.members with
  | none => exact Json.exact_empty
  | some v =>
    have hv := h.lookup hlookup
    cases v with
    | object ms => exact hv
    | _ => exact Json.exact_empty

theorem exact_apply (h : Json.Exact (.object m.members)) (hws : ∀ w ∈ ws, w.Exact) :
    Json.Exact (.object (m.apply ws).members) := by
  induction ws generalizing m with
  | nil => exact h
  | cons w ws ih =>
    have hw := hws w (List.mem_cons_self ..)
    refine ih ?_ fun v hv => hws v (List.mem_cons_of_mem w hv)
    exact h.setMember hw.sectionKey ((exact_sectionOf h _).setMember hw.key hw.value)

/-- **What is written to a manifest is read back**, from where the manifest was loaded. -/
theorem load_persisted {t : FileTree} {path : Text} (hload : load t path = .ok m)
    (hexact : Json.Exact (.object m.members)) (hstore : t.Storable path) (hws : ∀ w ∈ ws, w.Exact)
    (hvalues : ∀ w ∈ ws, Json.Writable w.value) :
    ∃ t', t.replaceText path (m.apply ws).content = .ok t' ∧ load t' path = .ok (m.apply ws)
      ∧ t'.Storable path := by
  have hpath : (m.apply ws).path = path := (path_apply m ws).trans (load_eq_ok hload).1
  obtain ⟨bytes, t', -, hreplace, -, hloaded, hstore'⟩ :=
    exists_saved (t := t) (exact_apply hexact hws) (writable_apply (writable_of_load hload) hvalues)
      (hpath ▸ takesFile_of_load hload) (hpath ▸ hstore)
  rw [hpath] at hreplace hloaded hstore'
  exact ⟨t', hreplace, hloaded, hstore'⟩

/-! ## §2. The start script and the answer. -/

variable {command : Text} {c : Choice}

theorem exact_startWrites (h : command.IsUnicode) : ∀ w ∈ startWrites command, w.Exact := by
  have hkeys : scriptsKey.IsUnicode ∧ Text.IsUnicode "start" := by decide
  intro w hw
  rw [List.mem_singleton.1 hw]
  exact ⟨hkeys.1, hkeys.2, .string h⟩

theorem exact_choiceWrites (c : Choice) : ∀ w ∈ choiceWrites c, w.Exact := by
  have hnames : ∀ name ∈ c.scripts, name.IsUnicode := by cases c <;> decide
  intro w hw
  rcases List.mem_append.1 hw with hw | hw
  · obtain ⟨name, hname, rfl⟩ := List.mem_map.1 hw
    exact ⟨(by decide : scriptsKey.IsUnicode), hnames name hname, .string (by decide)⟩
  · rw [List.mem_singleton.1 hw]
    exact ⟨by decide, by decide, .bool true⟩

/-- The start script is no script that a choice sets. -/
theorem apart_startWrites_choiceWrites (command : Text) (c : Choice) (section' key : Text) :
    (∀ w ∈ startWrites command, ¬ w.To section' key) ∨ ∀ w ∈ choiceWrites c, ¬ w.To section' key := by
  by_cases hstart : scriptsKey = section' ∧ ("start" : Text) = key
  · obtain ⟨rfl, rfl⟩ := hstart
    refine .inr ?_
    cases c <;> decide
  · refine .inl fun w hw => ?_
    rw [List.mem_singleton.1 hw]
    exact hstart

/-- A manifest in which a start script and a choice are recorded, and what is left of the manifest it
was. -/
structure Differs (m m' : Manifest) (command : Text) (c : Choice) : Prop where
  /-- Both sections are there, as objects. -/
  sections : ∀ section', section' = scriptsKey ∨ section' = ownKey →
    Json.lookup? section' m'.members = some (.object (m'.sectionOf section'))
  /-- All other members are as they were. -/
  others : ∀ key, key ≠ scriptsKey → key ≠ ownKey →
    Json.lookup? key m'.members = Json.lookup? key m.members
  start : Json.lookup? "start" (m'.sectionOf scriptsKey) = some (.string command)
  chosen : ∀ name : Text, name ∈ c.scripts →
    Json.lookup? name (m'.sectionOf scriptsKey) = some (.string automationCommand)
  /-- All other scripts are as they were. -/
  scripts : ∀ name : Text, name ≠ "start" → name ∉ c.scripts →
    Json.lookup? name (m'.sectionOf scriptsKey) = Json.lookup? name (m.sectionOf scriptsKey)
  asked : Json.lookup? "askedUser" (m'.sectionOf ownKey) = some (.bool true)
  /-- So is the rest of what the build keeps for itself. -/
  own : ∀ key : Text, key ≠ "askedUser" →
    Json.lookup? key (m'.sectionOf ownKey) = Json.lookup? key (m.sectionOf ownKey)
  /-- New keys stand behind those that were there. -/
  keys : m.members.map (·.1) <+: m'.members.map (·.1)
    ∧ ∀ section', (m.sectionOf section').map (·.1) <+: (m'.sectionOf section').map (·.1)

theorem lastWrite_choiceWrites {name : Text} (hname : name ∈ c.scripts) (found : Option Json) :
    lastWrite (choiceWrites c) scriptsKey name found = some (.string automationCommand) := by
  cases c with
  | all => rcases List.mem_pair.1 hname with rfl | rfl <;> rfl
  | prestart =>
    rw [List.mem_singleton.1 hname]
    rfl
  | buildOnly =>
    rw [List.mem_singleton.1 hname]
    rfl
  | nothing => cases hname
  | invalid => cases hname

/-- Where both are written, to which keys each write goes. -/
theorem to_of_mem {w : Write} (hw : w ∈ startWrites command ∨ w ∈ choiceWrites c) :
    (w.sectionKey = scriptsKey ∧ (w.key = "start" ∨ w.key ∈ c.scripts))
      ∨ (w.sectionKey = ownKey ∧ w.key = "askedUser") := by
  rcases hw with hw | hw
  · rw [List.mem_singleton.1 hw]
    exact .inl ⟨rfl, .inl rfl⟩
  · rcases List.mem_append.1 hw with hw | hw
    · obtain ⟨name, hname, rfl⟩ := List.mem_map.1 hw
      exact .inl ⟨rfl, .inr hname⟩
    · rw [List.mem_singleton.1 hw]
      exact .inr ⟨rfl, rfl⟩

/-- No key is written to by both, so the order has no part in what a key is set to. -/
theorem lookup_apply_either
    (hws : ws = startWrites command ++ choiceWrites c ∨ ws = choiceWrites c ++ startWrites command)
    (m : Manifest) (section' key : Text) :
    Json.lookup? key ((m.apply ws).sectionOf section')
      = lastWrite (choiceWrites c) section' key
          (lastWrite (startWrites command) section' key (Json.lookup? key (m.sectionOf section'))) := by
  rw [lookup_apply, ← lastWrite_append]
  rcases hws with rfl | rfl
  · rfl
  · rw [lastWrite_append_comm (apart_startWrites_choiceWrites command c section' key)]

/-- **What is left of a manifest** in which a start script and a choice are recorded, in whatever
order. -/
theorem Differs.of_apply
    (hws : ws = startWrites command ++ choiceWrites c ∨ ws = choiceWrites c ++ startWrites command)
    (m : Manifest) : Differs m (m.apply ws) command c := by
  have hmem : ∀ w, w ∈ ws ↔ w ∈ startWrites command ∨ w ∈ choiceWrites c := fun w => by
    rcases hws with rfl | rfl
    · exact List.mem_append
    · exact List.mem_append.trans or_comm
  have hstart : ⟨scriptsKey, "start", .string command⟩ ∈ ws :=
    (hmem _).2 (.inl (List.mem_singleton_self _))
  have hasked : ⟨ownKey, "askedUser", .bool true⟩ ∈ ws :=
    (hmem _).2 (.inr (List.mem_append_right _ (List.mem_singleton_self _)))
  have hkept : ∀ section' key, (∀ w ∈ ws, ¬ w.To section' key) →
      Json.lookup? key ((m.apply ws).sectionOf section') = Json.lookup? key (m.sectionOf section') :=
    fun section' key h => by rw [lookup_apply, lastWrite_of_not h]
  have hsections : scriptsKey ≠ ownKey := by decide
  refine
    { sections := ?_, others := fun key hscripts hown => ?_, start := ?_, chosen := fun name hname => ?_,
      scripts := fun name hne hnot => ?_, asked := ?_, own := fun key hne => ?_,
      keys := keys_prefix_apply ws m }
  · rintro section' (rfl | rfl)
    · exact isSection_apply (.inl ⟨_, hstart, rfl⟩)
    · exact isSection_apply (.inl ⟨_, hasked, rfl⟩)
  · refine lookup_members_apply (fun w hw => ?_) m
    rcases to_of_mem ((hmem w).1 hw) with ⟨h, -⟩ | ⟨h, -⟩
    · exact h ▸ Ne.symm hscripts
    · exact h ▸ Ne.symm hown
  · have hnot : ∀ w ∈ choiceWrites c, ¬ w.To scriptsKey "start" := by cases c <;> decide
    rw [lookup_apply_either hws, lastWrite_of_not hnot]
    rfl
  · rw [lookup_apply_either hws, lastWrite_choiceWrites hname]
  · refine hkept scriptsKey name fun w hw => ?_
    rintro ⟨hsection, rfl⟩
    rcases to_of_mem ((hmem w).1 hw) with ⟨-, hkey | hkey⟩ | ⟨hown, -⟩
    · exact hne hkey
    · exact hnot hkey
    · exact hsections (hsection.symm.trans hown)
  · rw [lookup_apply_either hws, choiceWrites, lastWrite_append]
    rfl
  · refine hkept ownKey key fun w hw => ?_
    rintro ⟨hsection, rfl⟩
    rcases to_of_mem ((hmem w).1 hw) with ⟨hscripts, -⟩ | ⟨-, hkey⟩
    · exact hsections (hscripts.symm.trans hsection)
    · exact hne hkey

/-! ## §3. Two transactions. -/

variable {path outDir entry : Text} {w : World}

theorem isUnicode_startScript (hout : outDir.IsUnicode) (hentry : entry.IsUnicode) :
    (startScript outDir entry).IsUnicode := by
  have hslash : CodePoint.slash.isSurrogate = false := by decide
  have hdot : CodePoint.dot.isSurrogate = false := by decide
  refine Text.isUnicode_append.2 ⟨by decide, fun c hc => ?_⟩
  rcases Path.mem_normalize hc with hc | rfl | rfl
  · rcases Path.mem_join hc with hc | hc | rfl
    · rcases Path.mem_toForwardSlashes hc with hc | rfl
      · exact hout c hc
      · exact hslash
    · exact hentry c hc
    · exact hslash
  · exact hslash
  · exact hdot

/-- A start script is recorded, and is read back. -/
theorem persistEntry_recorded (hload : load w.tree path = .ok m)
    (hexact : Json.Exact (.object m.members)) (hstore : w.tree.Storable path)
    (hout : outDir.IsUnicode) (hentry : entry.IsUnicode) :
    ∃ w', (persistEntry path outDir entry).runOn w = (.ok (startScript outDir entry), w')
      ∧ load w'.tree path = .ok (m.apply (startWrites (startScript outDir entry)))
      ∧ w'.tree.Storable path := by
  obtain ⟨record, saved, hrun⟩ := runOn_persistEntry hload outDir entry
  obtain ⟨t', hreplace, hloaded, hstore'⟩ :=
    load_persisted hload hexact hstore (exact_startWrites (isUnicode_startScript hout hentry))
      (writable_startWrites _)
  rw [withStart_eq_apply, hreplace] at hrun
  exact ⟨_, hrun, hloaded, hstore'⟩

/-- A choice is recorded, and is read back. -/
theorem persistChoice_recorded (hload : load w.tree path = .ok m)
    (hexact : Json.Exact (.object m.members)) (hstore : w.tree.Storable path) (answer : Option Text) :
    ∃ w', (persistChoice path answer).runOn w = (.ok (.ofAnswer answer), w')
      ∧ load w'.tree path = .ok (m.apply (choiceWrites (.ofAnswer answer)))
      ∧ w'.tree.Storable path := by
  obtain ⟨record, saved, hrun⟩ := runOn_persistChoice hload answer
  obtain ⟨t', hreplace, hloaded, hstore'⟩ :=
    load_persisted hload hexact hstore (exact_choiceWrites (.ofAnswer answer)) (writable_choiceWrites _)
  rw [withChoice_eq_apply, hreplace] at hrun
  exact ⟨_, hrun, hloaded, hstore'⟩

/-- **The start script and the answer may be recorded in either order.**  Both orders return the same,
and leave manifests with the same members, in which the scripts that are set and the note that there
was an answer are all that has changed; the keys that were there keep their order.  The manifest has
no doubles, and its strings and keys have no surrogates; and its file can be replaced. -/
theorem persist_either_order (hload : load w.tree path = .ok m)
    (hexact : Json.Exact (.object m.members)) (hstore : w.tree.Storable path)
    (hout : outDir.IsUnicode) (hentry : entry.IsUnicode) (answer : Option Text) :
    ∃ w₁ w₂ m₁ m₂,
      (do let command ← persistEntry path outDir entry
          let choice ← persistChoice path answer
          return (command, choice) : Action (Text × Choice)).runOn w
        = (.ok (startScript outDir entry, .ofAnswer answer), w₁)
      ∧ (do let choice ← persistChoice path answer
            let command ← persistEntry path outDir entry
            return (command, choice) : Action (Text × Choice)).runOn w
        = (.ok (startScript outDir entry, .ofAnswer answer), w₂)
      ∧ load w₁.tree path = .ok m₁ ∧ load w₂.tree path = .ok m₂
      ∧ Json.Same (.object m₁.members) (.object m₂.members)
      ∧ Differs m m₁ (startScript outDir entry) (.ofAnswer answer)
      ∧ Differs m m₂ (startScript outDir entry) (.ofAnswer answer) := by
  have hkept : ∀ {ws}, (∀ w ∈ ws, Write.Exact w) → Json.Exact (.object (m.apply ws).members) :=
    exact_apply hexact
  -- the start script first
  obtain ⟨u₁, hfirst₁, hload₁, hstore₁⟩ := persistEntry_recorded hload hexact hstore hout hentry
  obtain ⟨w₁, hlast₁, hloaded₁, -⟩ := persistChoice_recorded hload₁
    (hkept (exact_startWrites (isUnicode_startScript hout hentry))) hstore₁ answer
  -- the answer first
  obtain ⟨u₂, hfirst₂, hload₂, hstore₂⟩ := persistChoice_recorded hload hexact hstore answer
  obtain ⟨w₂, hlast₂, hloaded₂, -⟩ := persistEntry_recorded hload₂ (hkept (exact_choiceWrites _)) hstore₂
    hout hentry
  rw [← apply_append] at hloaded₁ hloaded₂
  refine ⟨w₁, w₂, _, _, ?_, ?_, hloaded₁, hloaded₂,
    same_apply_append (apart_startWrites_choiceWrites _ _) m, .of_apply (.inl rfl) m,
    .of_apply (.inr rfl) m⟩
  · rw [runOn_bind, hfirst₁]
    dsimp only
    rw [runOn_bind, hlast₁]
    rfl
  · rw [runOn_bind, hfirst₂]
    dsimp only
    rw [runOn_bind, hlast₂]
    rfl

/-- A manifest whose scripts are no object. -/
def plainManifest : Manifest := ⟨"/package.json", [("name", .string "a"), ("scripts", .null)]⟩

def plainContent : Bytes := "\x7b\n  \"name\": \"a\",\n  \"scripts\": null\n\x7d\n".toUTF8.toList

theorem persist_either_order_plain :
    load (manifestAlone plainContent) "/package.json" = .ok plainManifest
      ∧ Json.Exact (.object plainManifest.members)
      ∧ (manifestAlone plainContent).Storable "/package.json"
      ∧ ∃ w₁ w₂ m₁ m₂,
        (do let command ← persistEntry "/package.json" "./dist" "index.js"
            let choice ← persistChoice "/package.json" (some "Y")
            return (command, choice) : Action (Text × Choice)).runOn ⟨manifestAlone plainContent, []⟩
          = (.ok ("node dist/index.js", .all), w₁)
        ∧ (do let choice ← persistChoice "/package.json" (some "Y")
              let command ← persistEntry "/package.json" "./dist" "index.js"
              return (command, choice) : Action (Text × Choice)).runOn ⟨manifestAlone plainContent, []⟩
          = (.ok ("node dist/index.js", .all), w₂)
        ∧ load w₁.tree "/package.json" = .ok m₁ ∧ load w₂.tree "/package.json" = .ok m₂
        ∧ Json.Same (.object m₁.members) (.object m₂.members)
        ∧ Differs plainManifest m₁ "node dist/index.js" .all
        ∧ Differs plainManifest m₂ "node dist/index.js" .all := by
  have hread : (manifestAlone plainContent).readBytes "/package.json" = .ok plainContent := by cbv
  have hexact : Json.Exact (.object plainManifest.members) :=
    Json.exact_cons.2 ⟨⟨by decide, .string (by decide)⟩,
      Json.exact_cons.2 ⟨⟨by decide, .null⟩, Json.exact_empty⟩⟩
  have hload : load (manifestAlone plainContent) "/package.json" = .ok plainManifest := by
    have hwritable : Json.Writable (.object plainManifest.members) := by
      refine .object (by decide) fun m hm => ?_
      rcases List.mem_pair.1 hm with rfl | rfl
      · exact .string _
      · exact .null
    have hencode : Utf8.encode (Json.render (.object plainManifest.members) ++ [CodePoint.lineFeed])
        = .ok plainContent := by cbv
    rw [load, if_pos (FileTree.namesFile_of_readBytes hread),
      FileTree.readObject_saved hwritable hencode hread]
    rfl
  have hself : (manifestAlone []).absolute "/package.json" = "/package.json" := by decide
  have hstraight : Path.Straight "/package.json" := hself ▸ FileTree.straight_absolute _ _
  have hstore : (manifestAlone plainContent).Storable "/package.json" :=
    (FileTree.storable_iff_hasRoom hstraight hread).2 (by decide)
  have hcommand : startScript "./dist" "index.js" = "node dist/index.js" := by decide
  have hchoice : Choice.ofAnswer (some "Y") = .all := by decide
  have hboth := @persist_either_order _ _ "./dist" "index.js" ⟨manifestAlone plainContent, []⟩ hload hexact
    hstore (by decide) (by decide) (some "Y")
  rw [hcommand, hchoice] at hboth
  exact ⟨hload, hexact, hstore, hboth⟩

end Manifest

/-! ## §4. Manifests that cannot be saved. -/

namespace Json

/-- An object with a key that is half of a surrogate pair, written with its number. -/
def unpairedText : Text := "\x7b\"\\ud800\":null\x7d"

/-- The number, as a part of a string. -/
def unpairedPart : StringPart :=
  .named (CodePoint.ofChar 'd') (CodePoint.ofChar '8') (CodePoint.ofChar '0') (CodePoint.ofChar '0')
    (by decide)

theorem decode_unpaired :
    decode unpairedText = .ok (.object [([CodePoint.ofNat 0xD800], .null)]) := by
  have htext : unpairedText
      = CodePoint.openBrace :: ((Lexeme.string [unpairedPart]).text ++ ":null\x7d") := by decide
  have hbehind : (":null\x7d" : Text)
      = CodePoint.ofChar ':' :: CodePoint.ofChar 'n' :: ("ull\x7d" : Text) := by decide
  have hclose : ("\x7d" : Text) = [CodePoint.closeBrace] := by decide
  have hscan : scanScalar? (CodePoint.ofChar 'n' :: ("ull\x7d" : Text))
      = some (Token.scalar .null, ("\x7d" : Text)) := by
    have hname := scanName_append (n := ("null", .null)) (by simp [names]) "\x7d"
    have hnull : ("null" : Text) ++ ("\x7d" : Text) = CodePoint.ofChar 'n' :: ("ull\x7d" : Text) := by decide
    unfold scanScalar?
    rw [← hnull, hname]
  have hopened : ∀ rest, tokensFrom 0 (CodePoint.openBrace :: rest) = ⟨.openObject, 0⟩ :: tokensFrom 1 rest :=
    tokensFrom_mark (by decide) (by decide) 0
  have hcolon : ∀ position rest, tokensFrom position (CodePoint.ofChar ':' :: rest)
      = ⟨.colon, position⟩ :: tokensFrom (position + 1) rest := tokensFrom_mark (by decide) (by decide)
  have hclosed : ∀ position, tokensFrom position [CodePoint.closeBrace]
      = [⟨.closeObject, position⟩, ⟨.endOfText, position + 1⟩] := fun position => by
    have hend : tokensFrom (position + 1) [] = [⟨.endOfText, position + 1⟩] := by rw [tokensFrom]
    rw [← hend]
    exact tokensFrom_mark (by decide) (by decide) position []
  obtain ⟨next, hstring⟩ := tokensFrom_string [unpairedPart] 1 ":null\x7d"
  obtain ⟨next', hscalar⟩ := tokensFrom_scalar (by decide) hscan (next + 1)
  have htokens : tokens unpairedText
      = [⟨.openObject, 0⟩, ⟨(Lexeme.string [unpairedPart]).token, 1⟩, ⟨.colon, next⟩,
          ⟨.scalar .null, next + 1⟩, ⟨.closeObject, next'⟩, ⟨.endOfText, next' + 1⟩] := by
    rw [tokens, htext, hopened, hstring, hbehind, hcolon, hscalar, hclose, hclosed]
  unfold decode
  rw [if_neg (by decide), htokens]
  rfl

end Json

namespace Manifest

/-- A change that cannot be saved fails. -/
theorem persistEntry_refused {path outDir entry : Text} {w : World} {m : Manifest}
    (hload : load w.tree path = .ok m)
    (hreplace : ∀ t', w.tree.replaceText path (m.withStart (startScript outDir entry)).content ≠ .ok t')
    (command : Text) : ((persistEntry path outDir entry).runOn w).1 ≠ .ok command := by
  obtain ⟨record, saved, hrun⟩ := runOn_persistEntry hload outDir entry
  rw [hrun]
  cases h : w.tree.replaceText path (m.withStart (startScript outDir entry)).content with
  | error failure => simp
  | ok t' => exact absurd h (hreplace t')

def unpairedContent : Bytes := "\x7b\"\\ud800\":null\x7d".toUTF8.toList

theorem load_unpaired : load (manifestAlone unpairedContent) "/package.json"
    = .ok ⟨"/package.json", [([CodePoint.ofNat 0xD800], .null)]⟩ := by
  have hread : (manifestAlone unpairedContent).readBytes "/package.json" = .ok unpairedContent := by cbv
  have hdecode : Utf8.decodeUnmarked unpairedContent = .ok Json.unpairedText := by cbv
  have hclean : Jsonc.clean (Text.unifyNewlines Json.unpairedText) = Json.unpairedText := by cbv
  unfold load FileTree.readObject Jsonc.decode
  rw [if_pos (FileTree.namesFile_of_readBytes hread), hread]
  simp only [bind, Except.bind, hdecode, hclean]
  rw [if_neg (by decide), Json.decode_unpaired]
  rfl

/-- The names of directories, the last of which is eighteen levels down. -/
def deepDirectories : List Text := (["sbox", "workspace"] : List Text) ++ List.replicate 16 FileTree.longName

def deepPath : Text := Path.written "/" (deepDirectories ++ [fileName])

def emptyContent : Bytes := "\x7b\x7d\n".toUTF8.toList

/-- A manifest in the last of the directories. -/
def deepManifest : FileTree :=
  ⟨Forest.nested deepDirectories [("package.json", .file emptyContent)], [], .closed⟩

theorem isName_deepDirectories : ∀ n ∈ deepDirectories ++ [fileName],
    Path.IsName n ∧ Utf8.nameForm n = n ∧ FileTree.Nameable n := by
  have hfirst : ∀ n ∈ (["sbox", "workspace"] : List Text),
      Path.IsName n ∧ Utf8.nameForm n = n ∧ FileTree.Nameable n := by decide
  intro n hn
  rcases List.mem_append.1 hn with hn | hn
  · rcases List.mem_append.1 hn with hn | hn
    · exact hfirst n hn
    · rw [List.eq_of_mem_replicate hn]
      exact FileTree.isName_longName
  · rw [List.mem_singleton.1 hn]
    decide

theorem straight_deepPath :
    Path.Straight deepPath ∧ Path.names deepPath = deepDirectories ++ [fileName] :=
  ⟨Path.straight_written (.inr (.inl rfl)) (by decide) fun n hn => (isName_deepDirectories n hn).1,
    Path.names_written (.inr (.inl rfl)) fun n hn => (isName_deepDirectories n hn).1.1⟩

/-- The manifest is in reach: its path has 4092 bytes. -/
theorem readBytes_deepManifest : deepManifest.readBytes deepPath = .ok emptyContent := by
  obtain ⟨hstraight, hnames⟩ := straight_deepPath
  have hfree : FileTree.LinkFree deepManifest := FileTree.linkFree_of_hasNoLink (by
    unfold deepManifest
    rw [Forest.hasNoLink_nested, Forest.hasNoLink, Forest.hasNoLink])
  have hplace : FileTree.placeOf deepPath = deepDirectories ++ [fileName] := by
    unfold FileTree.placeOf
    rw [hnames, List.map_congr_left fun n hn => (isName_deepDirectories n hn).2.1, List.map_id']
  refine (FileTree.readBytes_eq_ok_iff hfree hstraight).2 ⟨⟨?_, by decide +kernel, ?_⟩, ?_⟩
  · rw [FileTree.checkPath_eq_ok_iff, FileTree.nameable_iff_names, hnames]
    exact fun n hn => (isName_deepDirectories n hn).2.2
  · rw [hnames]
    decide +kernel
  · rw [hplace]
    exact (Forest.entryAt?_nested _).trans rfl

/-- A file beside it would be out of reach. -/
theorem not_storable_deepManifest : ¬ deepManifest.Storable deepPath := by
  rw [FileTree.storable_iff_hasRoom straight_deepPath.1 readBytes_deepManifest]
  refine FileTree.not_hasRoom_of_sum straight_deepPath.1 straight_deepPath.2 ?_
  rw [deepDirectories, List.map_append, List.sum_append, List.map_replicate, FileTree.byteCount_longName]
  decide

theorem load_deepManifest : load deepManifest deepPath = .ok ⟨deepPath, []⟩ := by
  have hencode : Utf8.encode (Json.render (.object []) ++ [CodePoint.lineFeed]) = .ok emptyContent := by
    cbv
  rw [load, if_pos (FileTree.namesFile_of_readBytes readBytes_deepManifest),
    FileTree.readObject_saved Json.writable_empty hencode readBytes_deepManifest]
  rfl

/-- **Manifests that are loaded and cannot be saved**: one has a key for which there are no bytes, the
other is so far down that there is no room beside it. -/
theorem persist_refused :
    (load (manifestAlone unpairedContent) "/package.json"
        = .ok ⟨"/package.json", [([CodePoint.ofNat 0xD800], .null)]⟩
      ∧ ∀ command, ((persistEntry "/package.json" "dist" "index.js").runOn
          ⟨manifestAlone unpairedContent, []⟩).1 ≠ .ok command)
    ∧ load deepManifest deepPath = .ok ⟨deepPath, []⟩
      ∧ ∀ command, ((persistEntry deepPath "dist" "index.js").runOn ⟨deepManifest, []⟩).1
          ≠ .ok command := by
  refine ⟨⟨load_unpaired, persistEntry_refused load_unpaired fun t' hreplace => ?_⟩, load_deepManifest,
    persistEntry_refused load_deepManifest fun t' hreplace =>
      not_storable_deepManifest ⟨_, t', hreplace⟩⟩
  obtain ⟨-, -, -, k, -, -, bytes, hencode, -⟩ := FileTree.replaceText_eq_ok_iff.1 hreplace
  have hno : (Utf8.encode (withStart ⟨"/package.json", [([CodePoint.ofNat 0xD800], .null)]⟩
      (startScript "dist" "index.js")).content).toOption.isSome = false := by cbv
  rw [hencode] at hno
  cases hno

end Manifest

end ModuleBuild
