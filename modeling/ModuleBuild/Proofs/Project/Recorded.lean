/-
  ModuleBuild.Proofs.Project.Recorded
  ───────────────────────────────────
  **A START SCRIPT IS RECORDED ONCE.**

  A manifest that was saved is loaded again as what its written form reads
  back as.  Recording the same start script in it changes nothing that is
  written: the section is there, the script is set, and the rest is written
  as it was.

  Main results:
    * `readObject_saved` — a saved document is read back;
    * `content_withStart_saved` — recording the same script again writes the same text.
-/
import ModuleBuild.Project.Scripts
import ModuleBuild.Proofs.Json.Rendering
import ModuleBuild.Proofs.Text.RoundTrip

namespace ModuleBuild

/-! ## §1. Saved documents. -/

/-- The bytes of a text that starts with a brace have no byte order mark in front. -/
theorem Utf8.decodeUnmarked_encode {t : Text} (ht : t.head? = some CodePoint.openBrace) {bs : Bytes}
    (h : Utf8.encode t = .ok bs) : Utf8.decodeUnmarked bs = .ok t := by
  have hbytes : ∃ rest, bs = 0x7B :: rest := by
    cases t with
    | nil => cases ht
    | cons c t =>
      cases ht
      unfold Utf8.encode at h
      split at h
      · cases h
      · cases h
        exact ⟨_, rfl⟩
  obtain ⟨rest, rfl⟩ := hbytes
  have hdecode := Utf8.decode_encode h
  unfold Utf8.decodeUnmarked
  have h1 : ¬ ((0x7B :: rest).length < 3 ∧ (0x7B :: rest).isPrefixOf Utf8.byteOrderMark = true) := by
    rintro ⟨-, hfront⟩
    simp [Utf8.byteOrderMark, List.isPrefixOf] at hfront
  have h2 : ¬ Utf8.byteOrderMark.isPrefixOf (0x7B :: rest) = true := by
    intro hfront
    simp [Utf8.byteOrderMark, List.isPrefixOf] at hfront
  rw [if_neg h1, if_neg h2]
  exact hdecode

namespace Json

/-- The members of a document that can be written can be written too. -/
theorem Writable.members {v : Json} (h : Writable v) {path : Text} {ms : Members}
    (hms : v.membersOf path = .ok ms) : Writable (.object ms) := by
  cases v with
  | null =>
    cases hms
    exact writable_empty
  | object members =>
    cases hms
    exact h
  | _ => cases hms

theorem Writable.lookup {ms : Members} (h : Writable (.object ms)) {key : Text} {v : Json}
    (hv : lookup? key ms = some v) : Writable v := by
  cases h with
  | object _ hms =>
    induction ms with
    | nil => cases hv
    | cons m ms ih =>
      obtain ⟨k, w⟩ := m
      rw [lookup?] at hv
      split at hv
      · cases hv
        exact hms (k, v) (List.mem_cons_self ..)
      · rename_i hkeys _
        exact ih hv (List.nodup_cons.1 hkeys).2 fun m hm => hms m (List.mem_cons_of_mem _ hm)

end Json

namespace FileTree

variable {t : FileTree} {path : Text}

/-- What was read can be written. -/
theorem writable_of_readObject {ms : Json.Members} (h : t.readObject path = .ok ms) :
    Json.Writable (.object ms) := by
  unfold readObject at h
  cases hbytes : t.readBytes path with
  | error failure =>
    rw [hbytes] at h
    cases h
  | ok content =>
    rw [hbytes] at h
    simp only [bind, Except.bind] at h
    split at h
    · cases h
    · split at h
      · cases h
      · rename_i v hv
        exact (Json.writable_of_jsonc_decode hv).members h

/-- **A saved document is read back.** -/
theorem readObject_saved {ms : Json.Members} (h : Json.Writable (.object ms)) {bs : Bytes}
    (hencode : Utf8.encode (Json.render (.object ms) ++ [CodePoint.lineFeed]) = .ok bs)
    (hread : t.readBytes path = .ok bs) : t.readObject path = .ok (Json.rereadMembers ms) := by
  have hhead : (Json.render (.object ms) ++ [CodePoint.lineFeed]).head? = some CodePoint.openBrace := by
    cases ms with
    | nil => rfl
    | cons m ms =>
      obtain ⟨k, v⟩ := m
      unfold Json.render
      rw [Json.renderAt]
      rfl
  have hlines : CodePoint.carriageReturn ∉ Json.render (.object ms) ++ [CodePoint.lineFeed] := by
    rw [List.mem_append, not_or]
    exact ⟨Json.carriageReturn_not_mem_renderAt 0 _, by decide⟩
  have hgap : Json.IsSpaces [CodePoint.lineFeed] := fun c hc => by
    rw [List.mem_singleton.1 hc]
    decide
  unfold readObject
  rw [hread]
  simp only [bind, Except.bind]
  rw [Utf8.decodeUnmarked_encode hhead hencode]
  dsimp only
  rw [Text.unifyNewlines_of_not_mem hlines, Json.jsonc_decode_render h hgap]
  rfl

end FileTree

namespace Manifest

/-! ## §2. Recording again. -/

/-- A manifest as it is read back once it is saved. -/
def saved (m : Manifest) : Manifest := ⟨m.path, Json.rereadMembers m.members⟩

theorem writable_setIn {m : Manifest} (h : Json.Writable (.object m.members)) (section' key : Text)
    {value : Json} (hvalue : Json.Writable value) :
    Json.Writable (.object (m.setIn section' key value).members) := by
  have hsection : Json.Writable (.object (m.sectionOf section')) := by
    unfold sectionOf
    cases hlookup : Json.lookup? section' m.members with
    | none => exact Json.writable_empty
    | some v =>
      have hv := Json.Writable.lookup h hlookup
      cases v with
      | object ms => exact hv
      | _ => exact Json.writable_empty
  unfold setIn
  exact h.setMember _ (hsection.setMember _ hvalue)

theorem writable_withStart {m : Manifest} (h : Json.Writable (.object m.members)) (command : Text) :
    Json.Writable (.object (m.withStart command).members) :=
  writable_setIn h _ _ (.string command)

theorem sectionOf_saved (m : Manifest) (key : Text) :
    m.saved.sectionOf key = Json.rereadMembers (m.sectionOf key) := by
  unfold sectionOf saved
  dsimp only
  rw [Json.lookup_reread]
  cases Json.lookup? key m.members with
  | none => rfl
  | some v => cases v <;> rfl

theorem members_withStart_saved (m : Manifest) (command : Text) :
    ((m.withStart command).saved.withStart command).members
      = Json.rereadMembers (m.withStart command).members := by
  have hsection : (m.withStart command).saved.sectionOf scriptsKey
      = Json.setMember "start" (.string command) (Json.rereadMembers (m.sectionOf scriptsKey)) := by
    rw [sectionOf_saved, withStart, sectionOf_setIn_self, Json.setMember_reread]
    rfl
  have hmembers : Json.rereadMembers (m.withStart command).members
      = Json.setMember scriptsKey
          (.object (Json.setMember "start" (.string command)
            (Json.rereadMembers (m.sectionOf scriptsKey))))
          (Json.rereadMembers m.members) := by
    unfold withStart setIn
    rw [Json.setMember_reread, Json.reread, Json.setMember_reread]
    rfl
  show Json.setMember scriptsKey (.object (Json.setMember "start" (.string command)
      ((m.withStart command).saved.sectionOf scriptsKey)))
    (Json.rereadMembers (m.withStart command).members) = _
  -- the section and the script in it are set already
  rw [hsection, Json.setMember_setMember, hmembers, Json.setMember_setMember]

/-- **Recording the same script in what was saved writes the same text.** -/
theorem content_withStart_saved (m : Manifest) (command : Text) :
    ((m.withStart command).saved.withStart command).content = (m.withStart command).content := by
  have hrender := Json.render_reread (.object (m.withStart command).members)
  rw [Json.reread] at hrender
  unfold content
  rw [members_withStart_saved, hrender]

/-- What declares modules does so once it is saved. -/
theorem isModule_withStart_saved {m : Manifest} (h : m.isModule = true) (command : Text) :
    (m.withStart command).saved.isModule = true := by
  have hkey : ("type" : Text) ≠ scriptsKey := by decide
  unfold isModule at h ⊢
  rw [decide_eq_true_eq] at h ⊢
  unfold saved withStart
  dsimp only
  rw [Json.lookup_reread, lookup_setIn_of_ne hkey, h]
  rfl

end Manifest

end ModuleBuild
