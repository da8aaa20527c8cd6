/-
  ModuleBuild.Proofs.Json.Exact
  ─────────────────────────────
  **DOCUMENTS THAT A FILE GIVES BACK AS THEY ARE.**

  A document without doubles is read back from its written form as itself.
  Its written form can be stored if its strings and keys have no surrogates:
  whatever else is written is ASCII.

  Main results:
    * `reread_of_exact` — a document without doubles is read back as itself;
    * `isUnicode_renderAt` — its written form has no surrogates;
    * `Exact.setMember` — setting an exact member keeps a document exact.
-/
import ModuleBuild.Proofs.Json.Rendering
import ModuleBuild.Proofs.Text.RoundTrip

namespace ModuleBuild

/-- A text without surrogates. -/
def Text.IsUnicode (t : Text) : Prop := ∀ c ∈ t, c.isSurrogate = false

instance (t : Text) : Decidable (Text.IsUnicode t) :=
  inferInstanceAs (Decidable (∀ c ∈ t, c.isSurrogate = false))

theorem Text.isUnicode_append {s t : Text} : Text.IsUnicode (s ++ t) ↔ s.IsUnicode ∧ t.IsUnicode :=
  List.forall_mem_append

namespace Json

open Text

/-- All numbers are integers, and no string and no key has a surrogate. -/
inductive Exact : Json → Prop
  | null : Exact .null
  | bool (b : Bool) : Exact (.bool b)
  | int (i : Int) : Exact (.int i)
  | string {t : Text} : t.IsUnicode → Exact (.string t)
  | array {vs : List Json} : (∀ v ∈ vs, Exact v) → Exact (.array vs)
  | object {ms : Members} :
    (∀ m ∈ ms, m.1.IsUnicode) → (∀ m ∈ ms, Exact m.2) → Exact (.object ms)

/-! ## §1. Reading back. -/

mutual

/-- A document without doubles is read back as itself. -/
theorem reread_of_exact : ∀ {v : Json}, Exact v → v.reread = v
  | .null, _ => rfl
  | .bool _, _ => rfl
  | .int _, _ => rfl
  | .string _, _ => rfl
  | .array vs, .array h => by rw [reread, rereadItems_of_exact h]
  | .object ms, .object _ h => by rw [reread, rereadMembers_of_exact h]

theorem rereadItems_of_exact : ∀ {vs : List Json}, (∀ v ∈ vs, Exact v) → rereadItems vs = vs
  | [], _ => rfl
  | v :: vs, h => by
    rw [rereadItems, reread_of_exact (h v (List.mem_cons_self ..)),
      rereadItems_of_exact fun w hw => h w (List.mem_cons_of_mem v hw)]

theorem rereadMembers_of_exact :
    ∀ {ms : List (Text × Json)}, (∀ m ∈ ms, Exact m.2) → rereadMembers ms = ms
  | [], _ => rfl
  | (k, v) :: ms, h => by
    rw [rereadMembers, reread_of_exact (h (k, v) (List.mem_cons_self ..)),
      rereadMembers_of_exact fun m hm => h m (List.mem_cons_of_mem _ hm)]

end

/-! ## §2. The written form. -/

theorem isUnicode_escapeOne {c : CodePoint} (hc : c.isSurrogate = false) : IsUnicode (escapeOne c) := by
  have hescaped := escaped c
  generalize escapeOne c = text at hescaped ⊢
  cases hescaped with
  | letter hmem =>
    have hall : ∀ letter ∈ escapeLetters, IsUnicode [CodePoint.backslash, letter] := by decide
    exact hall _ hmem
  | number hcontrol =>
    have hall : ∀ n < 0x20, IsUnicode (Text.join ["\\u", Text.hex 4 n]) := by decide
    exact hall c.code hcontrol
  | plain => exact List.forall_mem_singleton.2 hc

theorem isUnicode_renderString {t : Text} (ht : t.IsUnicode) : IsUnicode (renderString t) := by
  have hquote : IsUnicode [CodePoint.quote] := by decide
  rw [renderString_eq, isUnicode_append, isUnicode_append]
  refine ⟨⟨hquote, fun c hc => ?_⟩, hquote⟩
  obtain ⟨d, hd, hc⟩ := List.mem_flatMap.1 hc
  exact isUnicode_escapeOne (ht d hd) c hc

theorem isUnicode_newLine (depth : Nat) : IsUnicode (newLine depth) := by
  intro c hc
  rcases List.mem_cons.1 hc with rfl | hc
  · decide
  · rw [List.eq_of_mem_replicate hc]
    decide

theorem isUnicode_ofInt (i : Int) : IsUnicode (Text.ofInt i) := by
  have hdigits : IsUnicode (Text.ofNat i.natAbs) := by
    intro c hc
    have hdigit := Text.isAsciiDigit_ofNat hc
    unfold CodePoint.isAsciiDigit at hdigit
    rw [Bool.and_eq_true, decide_eq_true_eq, decide_eq_true_eq] at hdigit
    unfold CodePoint.isSurrogate
    rw [Bool.and_eq_false_iff, decide_eq_false_iff_not]
    exact .inl (by omega)
  unfold Text.ofInt
  split
  · intro c hc
    rcases List.mem_cons.1 hc with rfl | hc
    · decide
    · exact hdigits c hc
  · exact hdigits

mutual

/-- **The written form of an exact document has no surrogates.** -/
theorem isUnicode_renderAt (depth : Nat) : ∀ {v : Json}, Exact v → IsUnicode (renderAt depth v)
  | .null, _ => by
    rw [renderAt]
    decide
  | .bool true, _ => by
    rw [renderAt]
    decide
  | .bool false, _ => by
    rw [renderAt]
    decide
  | .int i, _ => by
    rw [renderAt]
    exact isUnicode_ofInt i
  | .string t, .string h => isUnicode_renderString h
  | .array [], _ => by
    rw [renderAt]
    decide
  | .array (v :: vs), .array h => by
    rw [renderAt]
    simp only [Text.join_cons, Text.join_nil, List.append_nil, isUnicode_append]
    exact ⟨by decide, isUnicode_newLine _, isUnicode_renderAt _ (h v (List.mem_cons_self ..)),
      isUnicode_renderItems _ fun w hw => h w (List.mem_cons_of_mem v hw), isUnicode_newLine _,
      by decide⟩
  | .object [], _ => by
    rw [renderAt]
    decide
  | .object ((k, v) :: ms), .object hkeys h => by
    rw [renderAt]
    simp only [Text.join_cons, Text.join_nil, List.append_nil, isUnicode_append]
    exact ⟨by decide, isUnicode_newLine _,
      isUnicode_renderString (hkeys (k, v) (List.mem_cons_self ..)), by decide,
      isUnicode_renderAt _ (h (k, v) (List.mem_cons_self ..)),
      isUnicode_renderMembers _ (fun m hm => hkeys m (List.mem_cons_of_mem _ hm))
        fun m hm => h m (List.mem_cons_of_mem _ hm),
      isUnicode_newLine _, by decide⟩

theorem isUnicode_renderItems (depth : Nat) :
    ∀ {vs : List Json}, (∀ v ∈ vs, Exact v) → IsUnicode (renderItems depth vs)
  | [], _ => by
    rw [renderItems]
    decide
  | v :: vs, h => by
    rw [renderItems]
    simp only [Text.join_cons, Text.join_nil, List.append_nil, isUnicode_append]
    exact ⟨by decide, isUnicode_newLine _, isUnicode_renderAt _ (h v (List.mem_cons_self ..)),
      isUnicode_renderItems _ fun w hw => h w (List.mem_cons_of_mem v hw)⟩

theorem isUnicode_renderMembers (depth : Nat) :
    ∀ {ms : List (Text × Json)}, (∀ m ∈ ms, m.1.IsUnicode) → (∀ m ∈ ms, Exact m.2) →
      IsUnicode (renderMembers depth ms)
  | [], _, _ => by
    rw [renderMembers]
    decide
  | (k, v) :: ms, hkeys, h => by
    rw [renderMembers]
    simp only [Text.join_cons, Text.join_nil, List.append_nil, isUnicode_append]
    exact ⟨by decide, isUnicode_newLine _,
      isUnicode_renderString (hkeys (k, v) (List.mem_cons_self ..)), by decide,
      isUnicode_renderAt _ (h (k, v) (List.mem_cons_self ..)),
      isUnicode_renderMembers _ (fun m hm => hkeys m (List.mem_cons_of_mem _ hm))
        fun m hm => h m (List.mem_cons_of_mem _ hm)⟩

end

/-! ## §3. Members. -/

theorem exact_empty : Exact (.object []) := .object (fun _ hm => by cases hm) fun _ hm => by cases hm

theorem exact_cons {k : Text} {v : Json} {ms : Members} :
    Exact (.object ((k, v) :: ms)) ↔ (k.IsUnicode ∧ Exact v) ∧ Exact (.object ms) := by
  constructor
  · intro h
    cases h with
    | object hkeys h =>
      obtain ⟨hk, hkeys⟩ := List.forall_mem_cons.1 hkeys
      obtain ⟨hv, h⟩ := List.forall_mem_cons.1 h
      exact ⟨⟨hk, hv⟩, .object hkeys h⟩
  · rintro ⟨⟨hk, hv⟩, h⟩
    cases h with
    | object hkeys h =>
      exact .object (List.forall_mem_cons.2 ⟨hk, hkeys⟩) (List.forall_mem_cons.2 ⟨hv, h⟩)

/-- Setting an exact member keeps a document exact. -/
theorem Exact.setMember {ms : Members} (h : Exact (.object ms)) {key : Text} (hkey : key.IsUnicode)
    {v : Json} (hv : Exact v) : Exact (.object (setMember key v ms)) := by
  induction ms with
  | nil => exact exact_cons.2 ⟨⟨hkey, hv⟩, h⟩
  | cons m ms ih =>
    obtain ⟨k, w⟩ := m
    obtain ⟨⟨hk, hw⟩, hms⟩ := exact_cons.1 h
    rw [Json.setMember]
    split
    · exact exact_cons.2 ⟨⟨hk, hv⟩, hms⟩
    · exact exact_cons.2 ⟨⟨hk, hw⟩, ih hms⟩

theorem Exact.lookup {ms : Members} (h : Exact (.object ms)) {key : Text} {v : Json}
    (hv : lookup? key ms = some v) : Exact v := by
  induction ms with
  | nil => cases hv
  | cons m ms ih =>
    obtain ⟨k, w⟩ := m
    obtain ⟨⟨-, hw⟩, hms⟩ := exact_cons.1 h
    rw [lookup?] at hv
    split at hv
    · cases hv
      exact hw
    · exact ih hms hv

end Json

end ModuleBuild
