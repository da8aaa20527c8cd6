/-
  ModuleBuild.Proofs.Project.Writes
  ─────────────────────────────────
  **WRITES TO A MANIFEST.**

  What a transaction records is keys of sections set to values.  The last
  value that a key was set to stays, a section that is written to is there,
  and nothing else of the manifest changes.  Writes to different keys may
  change places: the members are the same, of which new ones may stand in
  another order.

  Main results:
    * `lookup_apply` — what keys are set to, by one write after another;
    * `same_apply_append` — writes to different keys may be made in either order;
    * `withChoice_eq_apply` — what recording a choice writes.
-/
import ModuleBuild.Proofs.Project.Recorded

namespace ModuleBuild

namespace Manifest

/-! ## §1. Writes. -/

theorem sectionOf_setIn_of_ne {section' key' : Text} (h : key' ≠ section') (m : Manifest) (key : Text)
    (value : Json) : (m.setIn section' key value).sectionOf key' = m.sectionOf key' := by
  unfold sectionOf
  rw [lookup_setIn_of_ne h]

/-- A key of a section, and the value that it is set to. -/
structure Write where
  sectionKey : Text
  key : Text
  value : Json

/-- A write goes to a key of a section. -/
def Write.To (w : Write) (section' key : Text) : Prop := w.sectionKey = section' ∧ w.key = key

instance (w : Write) (section' key : Text) : Decidable (w.To section' key) :=
  inferInstanceAs (Decidable (_ ∧ _))

variable {m m' : Manifest} {ws ws' : List Write} {section' key : Text}

/-- The manifest after some writes. -/
def apply (m : Manifest) (ws : List Write) : Manifest :=
  ws.foldl (fun m w => m.setIn w.sectionKey w.key w.value) m

theorem apply_append (m : Manifest) (ws ws' : List Write) : m.apply (ws ++ ws') = (m.apply ws).apply ws' :=
  List.foldl_append

theorem writable_apply (h : Json.Writable (.object m.members)) (hws : ∀ w ∈ ws, Json.Writable w.value) :
    Json.Writable (.object (m.apply ws).members) := by
  induction ws generalizing m with
  | nil => exact h
  | cons w ws ih =>
    exact ih (writable_setIn h _ _ (hws w (List.mem_cons_self ..)))
      fun v hv => hws v (List.mem_cons_of_mem w hv)

theorem path_apply (m : Manifest) (ws : List Write) : (m.apply ws).path = m.path := by
  induction ws generalizing m with
  | nil => rfl
  | cons w ws ih => exact ih (m.setIn w.sectionKey w.key w.value)

/-- What a key of a section is set to after some writes, if it had a value or not before. -/
def lastWrite (ws : List Write) (section' key : Text) (found : Option Json) : Option Json :=
  ws.foldl (fun found w => if w.To section' key then some w.value else found) found

theorem lookup_setIn (m : Manifest) (w : Write) (section' key : Text) :
    Json.lookup? key ((m.setIn w.sectionKey w.key w.value).sectionOf section')
      = if w.To section' key then some w.value else Json.lookup? key (m.sectionOf section') := by
  by_cases hsection : w.sectionKey = section'
  · subst hsection
    rw [sectionOf_setIn_self]
    by_cases hkey : w.key = key
    · subst hkey
      rw [Json.lookup_setMember_self, if_pos ⟨rfl, rfl⟩]
    · rw [Json.lookup_setMember_of_ne (Ne.symm hkey), if_neg fun h => hkey h.2]
  · rw [sectionOf_setIn_of_ne (Ne.symm hsection), if_neg fun h => hsection h.1]

/-- **What keys are set to**, by one write after another. -/
theorem lookup_apply (ws : List Write) (m : Manifest) (section' key : Text) :
    Json.lookup? key ((m.apply ws).sectionOf section')
      = lastWrite ws section' key (Json.lookup? key (m.sectionOf section')) := by
  induction ws generalizing m with
  | nil => rfl
  | cons w ws ih =>
    have hfirst := ih (m.setIn w.sectionKey w.key w.value)
    rw [lookup_setIn] at hfirst
    exact hfirst

theorem lastWrite_of_not (h : ∀ w ∈ ws, ¬ w.To section' key) (found : Option Json) :
    lastWrite ws section' key found = found := by
  induction ws generalizing found with
  | nil => rfl
  | cons w ws ih =>
    unfold lastWrite
    rw [List.foldl_cons, if_neg (h w (List.mem_cons_self ..))]
    exact ih (fun v hv => h v (List.mem_cons_of_mem w hv)) found

theorem lastWrite_append (ws ws' : List Write) (section' key : Text) (found : Option Json) :
    lastWrite (ws ++ ws') section' key found
      = lastWrite ws' section' key (lastWrite ws section' key found) := List.foldl_append

/-- Writes that go to different keys may be made in either order. -/
theorem lastWrite_append_comm
    (h : (∀ w ∈ ws, ¬ w.To section' key) ∨ ∀ w ∈ ws', ¬ w.To section' key) (found : Option Json) :
    lastWrite (ws ++ ws') section' key found = lastWrite (ws' ++ ws) section' key found := by
  rw [lastWrite_append, lastWrite_append]
  rcases h with h | h
  · rw [lastWrite_of_not h, lastWrite_of_not h]
  · rw [lastWrite_of_not h, lastWrite_of_not h]

/-- A member that is no section that is written to stays as it is. -/
theorem lookup_members_apply (h : ∀ w ∈ ws, w.sectionKey ≠ key) (m : Manifest) :
    Json.lookup? key (m.apply ws).members = Json.lookup? key m.members := by
  induction ws generalizing m with
  | nil => rfl
  | cons w ws ih =>
    have hrest := ih (fun v hv => h v (List.mem_cons_of_mem w hv)) (m.setIn w.sectionKey w.key w.value)
    rw [lookup_setIn_of_ne (Ne.symm (h w (List.mem_cons_self ..)))] at hrest
    exact hrest

/-- A section that is there stays, whatever is written. -/
theorem isSection_setIn (h : Json.lookup? section' m.members = some (.object (m.sectionOf section')))
    (w : Write) :
    Json.lookup? section' (m.setIn w.sectionKey w.key w.value).members
      = some (.object ((m.setIn w.sectionKey w.key w.value).sectionOf section')) := by
  by_cases hsection : w.sectionKey = section'
  · subst hsection
    rw [sectionOf_setIn_self]
    exact Json.lookup_setMember_self ..
  · rw [lookup_setIn_of_ne (Ne.symm hsection), sectionOf_setIn_of_ne (Ne.symm hsection), h]

/-- A section that is written to is there. -/
theorem isSection_apply
    (h : (∃ w ∈ ws, w.sectionKey = section')
      ∨ Json.lookup? section' m.members = some (.object (m.sectionOf section'))) :
    Json.lookup? section' (m.apply ws).members = some (.object ((m.apply ws).sectionOf section')) := by
  induction ws generalizing m with
  | nil =>
    rcases h with ⟨w, hw, -⟩ | h
    · cases hw
    · exact h
  | cons w ws ih =>
    refine ih ?_
    rcases h with ⟨v, hv, hsection⟩ | h
    · rcases List.mem_cons.1 hv with rfl | hv
      · -- this write makes the section, and those behind it keep it
        refine .inr ?_
        subst hsection
        rw [sectionOf_setIn_self]
        exact Json.lookup_setMember_self ..
      · exact .inl ⟨v, hv, hsection⟩
    · exact .inr (isSection_setIn h w)

/-! ## §2. Keys keep their order. -/

theorem keys_prefix_setMember (key : Text) (value : Json) (ms : Json.Members) :
    ms.map (·.1) <+: (Json.setMember key value ms).map (·.1) := by
  rw [Json.keys_setMember]
  split
  · exact List.prefix_rfl
  · exact List.prefix_append _ _

/-- New keys stand behind those that were there. -/
theorem keys_prefix_apply (ws : List Write) (m : Manifest) :
    m.members.map (·.1) <+: (m.apply ws).members.map (·.1)
      ∧ ∀ section', (m.sectionOf section').map (·.1) <+: ((m.apply ws).sectionOf section').map (·.1) := by
  induction ws generalizing m with
  | nil => exact ⟨List.prefix_rfl, fun _ => List.prefix_rfl⟩
  | cons w ws ih =>
    obtain ⟨hmembers, hsections⟩ := ih (m.setIn w.sectionKey w.key w.value)
    refine ⟨(keys_prefix_setMember _ _ _).trans hmembers, fun section' => List.IsPrefix.trans ?_ (hsections section')⟩
    by_cases hsection : section' = w.sectionKey
    · subst hsection
      rw [sectionOf_setIn_self]
      exact keys_prefix_setMember _ _ _
    · rw [sectionOf_setIn_of_ne hsection]

end Manifest

/-! ## §3. Either order. -/

/-- Two documents with the same members, in whatever order. -/
inductive Json.Same : Json → Json → Prop
  | refl (v : Json) : Same v v
  | object {ms ns : Members} :
    (∀ key, lookup? key ms = none ↔ lookup? key ns = none) →
    (∀ key v w, lookup? key ms = some v → lookup? key ns = some w → Same v w) →
    Same (.object ms) (.object ns)

namespace Manifest

variable {m : Manifest} {ws ws' : List Write}

/-- **Writes to different keys may be made in either order**: the documents have the same members. -/
theorem same_apply_append
    (h : ∀ section' key, (∀ w ∈ ws, ¬ w.To section' key) ∨ ∀ w ∈ ws', ¬ w.To section' key)
    (m : Manifest) :
    Json.Same (.object (m.apply (ws ++ ws')).members) (.object (m.apply (ws' ++ ws)).members) := by
  have hsections : ∀ section' key, Json.lookup? key ((m.apply (ws ++ ws')).sectionOf section')
      = Json.lookup? key ((m.apply (ws' ++ ws)).sectionOf section') := fun section' key => by
    rw [lookup_apply, lookup_apply, lastWrite_append_comm (h section' key)]
  -- a member is a section that is written to, in both, or is what it was, in both
  have hmembers : ∀ key,
      (Json.lookup? key (m.apply (ws ++ ws')).members = some (.object ((m.apply (ws ++ ws')).sectionOf key))
        ∧ Json.lookup? key (m.apply (ws' ++ ws)).members
          = some (.object ((m.apply (ws' ++ ws)).sectionOf key)))
      ∨ Json.lookup? key (m.apply (ws ++ ws')).members
          = Json.lookup? key (m.apply (ws' ++ ws)).members := by
    intro key
    have hswap : ∀ w, w ∈ ws ++ ws' ↔ w ∈ ws' ++ ws := fun w => by
      rw [List.mem_append, List.mem_append, or_comm]
    by_cases hwritten : ∃ w ∈ ws ++ ws', w.sectionKey = key
    · obtain ⟨w, hw, hkey⟩ := hwritten
      exact .inl ⟨isSection_apply (.inl ⟨w, hw, hkey⟩), isSection_apply (.inl ⟨w, (hswap w).1 hw, hkey⟩)⟩
    · have hnone : ∀ w ∈ ws ++ ws', w.sectionKey ≠ key := fun w hw hkey => hwritten ⟨w, hw, hkey⟩
      refine .inr ?_
      rw [lookup_members_apply hnone, lookup_members_apply fun w hw => hnone w ((hswap w).2 hw)]
  refine .object (fun key => ?_) fun key v w hv hw => ?_
  · rcases hmembers key with ⟨h1, h2⟩ | heq
    · rw [h1, h2]
      simp
    · rw [heq]
  · rcases hmembers key with ⟨h1, h2⟩ | heq
    · rw [h1] at hv
      rw [h2] at hw
      cases hv
      cases hw
      refine .object (fun k => by rw [hsections]) fun k x y hx hy => ?_
      rw [hsections, hy] at hx
      cases hx
      exact .refl x
    · rw [heq, hw] at hv
      cases hv
      exact .refl v

/-! ## §4. What is recorded. -/

/-- What recording a start script writes. -/
def startWrites (command : Text) : List Write := [⟨scriptsKey, "start", .string command⟩]

/-- What recording a choice writes. -/
def choiceWrites (c : Choice) : List Write :=
  c.scripts.map (⟨scriptsKey, ·, .string automationCommand⟩) ++ [⟨ownKey, "askedUser", .bool true⟩]

theorem withStart_eq_apply (m : Manifest) (command : Text) :
    m.withStart command = m.apply (startWrites command) := rfl

theorem withChoice_eq_apply (m : Manifest) (c : Choice) : m.withChoice c = m.apply (choiceWrites c) := by
  cases c <;> rfl

theorem writable_startWrites (command : Text) : ∀ w ∈ startWrites command, Json.Writable w.value := by
  intro w hw
  rw [List.mem_singleton.1 hw]
  exact .string command

theorem writable_choiceWrites (c : Choice) : ∀ w ∈ choiceWrites c, Json.Writable w.value := by
  intro w hw
  rcases List.mem_append.1 hw with hw | hw
  · obtain ⟨name, -, rfl⟩ := List.mem_map.1 hw
    exact .string _
  · rw [List.mem_singleton.1 hw]
    exact .bool true

end Manifest

end ModuleBuild
