/-
  ModuleBuild.Proofs.Path.NameForm
  ────────────────────────────────
  **A NAME STAYS A NAME IN THE FORM IN WHICH IT IS LISTED.**

  A file is listed under the form of the name that it was made with: bytes
  that make up a character are shown as that character.  The reader of such
  names shows an ASCII byte as itself and nothing else as an ASCII character,
  for no character of several bytes is short of 0x80; so the form of a name
  has no slash that the name has not, and is not made of dots.

  Main results:
    * `shows_nameTextFrom` — what the text of a name's bytes says of them;
    * `nameForm_eq_self` — a name whose form is ASCII is in that form;
    * `mem_nameForm` — the form of a name has its ASCII characters;
    * `isName_nameForm` — the form of a name is a name.
-/
import ModuleBuild.Proofs.Path.Written
import ModuleBuild.Proofs.Text.RoundTrip

namespace ModuleBuild

namespace Utf8

/-! ## §1. Characters of several bytes. -/

/-- A state in which every character that can be completed is at least 0x80. -/
def State.Wide : State → Prop
  | .between => True
  | .inside _ _ owed low _ value =>
    0 < owed ∧ 0x80 ≤ low ∧ 0x80 ≤ value * 0x40 ^ owed + (low - 0x80) * 0x40 ^ (owed - 1)

theorem wide_lead {b : UInt8} {state : State} (h : lead b = some state) : state.Wide := by
  unfold lead at h
  dsimp only at h
  repeat' split at h
  all_goals cases h
  all_goals simp only [State.Wide]
  all_goals omega

/-- One more byte leaves a wide state, or completes a character of at least 0x80. -/
theorem wide_step {owed low value n : Nat} (howed : 0 < owed) (hlow : 0x80 ≤ low)
    (hwide : 0x80 ≤ value * 0x40 ^ owed + (low - 0x80) * 0x40 ^ (owed - 1)) (hn : low ≤ n) :
    0x80 ≤ (value * 0x40 + (n - 0x80)) * 0x40 ^ (owed - 1) := by
  obtain ⟨more, rfl⟩ : ∃ more, owed = more + 1 := ⟨owed - 1, by omega⟩
  rw [Nat.add_sub_cancel] at hwide ⊢
  have hle : (low - 0x80) * 0x40 ^ more ≤ (n - 0x80) * 0x40 ^ more :=
    Nat.mul_le_mul_right _ (by omega)
  calc 0x80 ≤ value * 0x40 ^ (more + 1) + (low - 0x80) * 0x40 ^ more := hwide
    _ ≤ value * 0x40 ^ (more + 1) + (n - 0x80) * 0x40 ^ more := Nat.add_le_add_left hle _
    _ = (value * 0x40 + (n - 0x80)) * 0x40 ^ more := by
      rw [Nat.add_mul, Nat.pow_succ, Nat.mul_assoc, Nat.mul_comm (0x40 ^ more) 0x40]

theorem le_code_ofNat {n : Nat} (h : 0x80 ≤ n) : 0x80 ≤ (CodePoint.ofNat n).code := by
  unfold CodePoint.ofNat
  split
  · exact h
  · show 0x80 ≤ 0xFFFD
    omega

theorem le_code_escapeByte (b : UInt8) : 0x80 ≤ (escapeByte b).code :=
  le_code_ofNat (by omega)

/-! ## §2. The text of a name's bytes. -/

/-- What stands for bytes: an ASCII character stands for itself, and each byte beyond ASCII has a
part in a character beyond ASCII. -/
structure Shows (bytes : Bytes) (text : Text) : Prop where
  ascii : ∀ c ∈ text, 0x80 ≤ c.code ∨ ∃ b ∈ bytes, c = CodePoint.ofNat b.toNat
  beyond : ∀ b ∈ bytes, 0x80 ≤ b.toNat → ∃ c ∈ text, 0x80 ≤ c.code
  nonempty : bytes ≠ [] → text ≠ []

theorem Shows.append {bs bs' : Bytes} {t t' : Text} (h : Shows bs t) (h' : Shows bs' t') :
    Shows (bs ++ bs') (t ++ t') where
  ascii c hc := by
    rcases List.mem_append.1 hc with hc | hc
    · exact (h.ascii c hc).imp_right fun ⟨b, hb, e⟩ => ⟨b, List.mem_append_left _ hb, e⟩
    · exact (h'.ascii c hc).imp_right fun ⟨b, hb, e⟩ => ⟨b, List.mem_append_right _ hb, e⟩
  beyond b hb hbig := by
    rcases List.mem_append.1 hb with hb | hb
    · obtain ⟨c, hc, hcode⟩ := h.beyond b hb hbig
      exact ⟨c, List.mem_append_left _ hc, hcode⟩
    · obtain ⟨c, hc, hcode⟩ := h'.beyond b hb hbig
      exact ⟨c, List.mem_append_right _ hc, hcode⟩
  nonempty hne hnil := by
    rw [List.append_eq_nil_iff] at hnil
    apply hne
    by_cases hbs : bs = []
    · by_cases hbs' : bs' = []
      · rw [hbs, hbs']
        rfl
      · exact absurd hnil.2 (h'.nonempty hbs')
    · exact absurd hnil.1 (h.nonempty hbs)

theorem shows_escaped (bs : Bytes) : Shows bs (bs.map escapeByte) where
  ascii c hc := by
    obtain ⟨b, -, rfl⟩ := List.mem_map.1 hc
    exact .inl (le_code_escapeByte b)
  beyond b hb _ := ⟨escapeByte b, List.mem_map_of_mem hb, le_code_escapeByte b⟩
  nonempty hne hnil := hne (List.map_eq_nil_iff.1 hnil)

/-- A character beyond ASCII shows any bytes. -/
theorem shows_wide {bs : Bytes} {n : Nat} (h : 0x80 ≤ n) : Shows bs [CodePoint.ofNat n] where
  ascii c hc := by
    rw [List.mem_singleton.1 hc]
    exact .inl (le_code_ofNat h)
  beyond _ _ _ := ⟨_, List.mem_singleton_self _, le_code_ofNat h⟩
  nonempty _ := List.cons_ne_nil _ _

theorem shows_nil : Shows [] [] where
  ascii c hc := by cases hc
  beyond b hb := by cases hb
  nonempty h := absurd rfl h

/-- What one byte between characters says at once, and what it leaves to be said. -/
theorem begin_cases (b : UInt8) :
    (Shows [b] (begin b).1 ∧ (begin b).2 = .between)
      ∨ ((begin b).1 = [] ∧ ∃ first taken owed low high value,
          (begin b).2 = .inside first taken owed low high value ∧ (begin b).2.Wide) := by
  unfold begin
  by_cases hb : b.toNat < 0x80
  · rw [if_pos hb]
    refine .inl ⟨⟨?_, ?_, ?_⟩, rfl⟩
    · intro c hc
      exact .inr ⟨b, List.mem_singleton_self b, List.mem_singleton.1 hc⟩
    · intro b' hb' hbig
      rw [List.mem_singleton.1 hb'] at hbig
      omega
    · intro _
      exact List.cons_ne_nil _ _
  · rw [if_neg hb]
    cases hl : lead b with
    | none => exact .inl ⟨shows_escaped [b], rfl⟩
    | some state =>
      have hwide := wide_lead hl
      cases state with
      | between =>
        exfalso
        unfold lead at hl
        dsimp only at hl
        repeat' split at hl
        all_goals cases hl
      | inside first taken owed low high value =>
        exact .inr ⟨rfl, first, taken, owed, low, high, value, rfl, hwide⟩

theorem nameTextFrom_between (pending bs : Bytes) :
    nameTextFrom .between pending bs = nameTextFrom .between [] bs := by
  cases bs <;> rfl

/-- **The text of a name shows its bytes**: those that follow a state, and those of the character
that was begun. -/
theorem shows_nameTextFrom (bs : Bytes) :
    Shows bs (nameTextFrom .between [] bs)
      ∧ ∀ first taken owed low high value pending,
        (State.inside first taken owed low high value).Wide →
        Shows (pending ++ bs) (nameTextFrom (.inside first taken owed low high value) pending bs) := by
  induction bs with
  | nil =>
    refine ⟨shows_nil, ?_⟩
    intro first taken owed low high value pending _
    rw [List.append_nil]
    exact shows_escaped pending
  | cons b bs ih =>
    have hbegin : Shows (b :: bs) ((begin b).1 ++ nameTextFrom (begin b).2 [b] bs) := by
      rcases begin_cases b with ⟨hb, hstate⟩ | ⟨hnil, first, taken, owed, low, high, value, hstate, hwide⟩
      · rw [hstate, nameTextFrom_between]
        exact hb.append ih.1
      · rw [hnil, hstate]
        rw [hstate] at hwide
        exact ih.2 first taken owed low high value [b] hwide
    refine ⟨hbegin, ?_⟩
    intro first taken owed low high value pending hwide
    obtain ⟨howed, hlow, hvalue⟩ := hwide
    unfold nameTextFrom
    dsimp only
    by_cases hin : low ≤ b.toNat ∧ b.toNat ≤ high
    · rw [if_pos hin]
      have hstep := wide_step howed hlow hvalue hin.1
      have hsplit : pending ++ b :: bs = (pending ++ [b]) ++ bs := by simp
      rw [hsplit]
      by_cases hlast : owed ≤ 1
      · -- the byte completes a character
        rw [if_pos hlast]
        have hone : owed - 1 = 0 := by omega
        rw [hone, Nat.pow_zero, Nat.mul_one] at hstep
        exact (shows_wide hstep).append ih.1
      · rw [if_neg hlast]
        refine ih.2 first (taken + 1) (owed - 1) 0x80 0xBF _ (pending ++ [b]) ?_
        exact ⟨by omega, Nat.le_refl _, by omega⟩
    · -- the byte belongs to no character that was begun
      rw [if_neg hin]
      have hall := (shows_escaped pending).append hbegin
      rw [← List.append_assoc] at hall
      exact hall

/-- What one byte between characters leaves to be said is wide. -/
theorem wide_begin (b : UInt8) : (begin b).2.Wide := by
  rcases begin_cases b with ⟨-, hstate⟩ | ⟨-, -, -, -, -, -, -, -, hwide⟩
  · rw [hstate]
    trivial
  · exact hwide

/-- An ASCII byte is shown as it is, whatever was begun: no character that is begun takes it. -/
theorem mem_nameTextFrom {b : UInt8} (hlt : b.toNat < 0x80) {bs : Bytes} (hb : b ∈ bs) :
    ∀ {state : State} (pending : Bytes), state.Wide →
      CodePoint.ofNat b.toNat ∈ nameTextFrom state pending bs := by
  induction bs with
  | nil => cases hb
  | cons a bs ih =>
    have hbegin : CodePoint.ofNat b.toNat ∈ (begin a).1 ++ nameTextFrom (begin a).2 [a] bs := by
      rcases List.mem_cons.1 hb with rfl | hb
      · refine List.mem_append_left _ ?_
        unfold begin
        rw [if_pos hlt]
        exact List.mem_singleton_self _
      · exact List.mem_append_right _ (ih hb [a] (wide_begin a))
    intro state pending hwide
    cases state with
    | between => exact hbegin
    | inside first taken owed low high value =>
      obtain ⟨howed, hlow, hvalue⟩ := hwide
      unfold nameTextFrom
      dsimp only
      by_cases hin : low ≤ a.toNat ∧ a.toNat ≤ high
      · -- a byte that a character takes is at least 0x80, so it is another one
        have hrest : b ∈ bs := by
          refine (List.mem_cons.1 hb).resolve_left ?_
          rintro rfl
          omega
        rw [if_pos hin]
        by_cases hlast : owed ≤ 1
        · rw [if_pos hlast]
          exact List.mem_cons_of_mem _ (ih hrest [] trivial)
        · rw [if_neg hlast]
          have hstep := wide_step howed hlow hvalue hin.1
          exact ih hrest _ ⟨by omega, Nat.le_refl _, by omega⟩
      · rw [if_neg hin, List.append_assoc]
        exact List.mem_append_right _ hbegin

theorem shows_nameForm {t : Text} (h : t.any isEscapedByte = true) :
    Shows (nameBytes t) (nameForm t) := by
  unfold nameForm
  rw [if_pos h]
  exact (shows_nameTextFrom (nameBytes t)).1

/-! ## §3. Names. -/

theorem le_toNat_byte {n : Nat} (h : 0x80 ≤ n) (h' : n < 0x100) : 0x80 ≤ (UInt8.ofNat n).toNat := by
  rw [toNat_byte h']
  exact h

/-- Beyond ASCII a code point has bytes beyond ASCII only. -/
theorem le_of_mem_encodeOne {c : CodePoint} (hc : ¬ c.code < 0x80) {b : UInt8}
    (hb : b ∈ encodeOne c) : 0x80 ≤ b.toNat := by
  have hlt := c.code_lt
  unfold encodeOne at hb
  dsimp only at hb
  rw [if_neg hc] at hb
  split at hb
  · rcases List.mem_cons.1 hb with rfl | hb
    · exact le_toNat_byte (by omega) (by omega)
    · rw [List.mem_singleton.1 hb]
      exact le_toNat_byte (by omega) (by omega)
  · split at hb
    · rcases List.mem_cons.1 hb with rfl | hb
      · exact le_toNat_byte (by omega) (by omega)
      · rcases List.mem_cons.1 hb with rfl | hb
        · exact le_toNat_byte (by omega) (by omega)
        · rw [List.mem_singleton.1 hb]
          exact le_toNat_byte (by omega) (by omega)
    · rcases List.mem_cons.1 hb with rfl | hb
      · exact le_toNat_byte (by omega) (by omega)
      · rcases List.mem_cons.1 hb with rfl | hb
        · exact le_toNat_byte (by omega) (by omega)
        · rcases List.mem_cons.1 hb with rfl | hb
          · exact le_toNat_byte (by omega) (by omega)
          · rw [List.mem_singleton.1 hb]
            exact le_toNat_byte (by omega) (by omega)

/-- An ASCII byte of a name is an ASCII character of it. -/
theorem mem_of_mem_nameBytes {t : Text} {b : UInt8} (hb : b ∈ nameBytes t) (hlt : b.toNat < 0x80) :
    CodePoint.ofNat b.toNat ∈ t := by
  unfold nameBytes at hb
  obtain ⟨c, hc, hb⟩ := List.mem_flatMap.1 hb
  split at hb
  · rename_i hesc
    unfold isEscapedByte at hesc
    rw [Bool.and_eq_true, decide_eq_true_eq, decide_eq_true_eq] at hesc
    rw [List.mem_singleton] at hb
    have hle := le_toNat_byte (n := c.code - 0xDC00) (by omega) (by omega)
    rw [hb] at hlt
    omega
  · by_cases hascii : c.code < 0x80
    · unfold encodeOne at hb
      dsimp only at hb
      rw [if_pos hascii, List.mem_singleton] at hb
      rw [hb, toNat_byte (by omega), CodePoint.ofNat_code]
      exact hc
    · have hle := le_of_mem_encodeOne hascii hb
      omega

/-- A name with bytes that belong to no character shows something beyond ASCII. -/
theorem exists_of_escaped {t : Text} (h : t.any isEscapedByte = true) :
    ∃ b ∈ nameBytes t, 0x80 ≤ b.toNat := by
  obtain ⟨c, hc, hesc⟩ := List.any_eq_true.1 h
  refine ⟨UInt8.ofNat (c.code - 0xDC00), ?_, ?_⟩
  · refine List.mem_flatMap.2 ⟨c, hc, ?_⟩
    rw [if_pos hesc]
    exact List.mem_singleton_self _
  · unfold isEscapedByte at hesc
    rw [Bool.and_eq_true, decide_eq_true_eq, decide_eq_true_eq] at hesc
    exact le_toNat_byte (by omega) (by omega)

/-- A name whose form is ASCII is in that form. -/
theorem nameForm_eq_self {n : Text} (h : ∀ c ∈ nameForm n, c.code < 0x80) : nameForm n = n := by
  refine nameForm_of_not_escaped ?_
  by_contra hescaped
  have hesc : n.any isEscapedByte = true := by simpa using hescaped
  obtain ⟨b, hb, hbig⟩ := exists_of_escaped hesc
  obtain ⟨c, hc, hcode⟩ := (shows_nameForm hesc).beyond b hb hbig
  have hlt := h c hc
  omega

/-- The form of a name has its ASCII characters. -/
theorem mem_nameForm {n : Text} {c : CodePoint} (hc : c ∈ n) (hlt : c.code < 0x80) : c ∈ nameForm n := by
  unfold nameForm
  split
  · have hbyte : (UInt8.ofNat c.code).toNat = c.code := toNat_byte (by omega)
    have hb : UInt8.ofNat c.code ∈ nameBytes n := by
      refine List.mem_flatMap.2 ⟨c, hc, ?_⟩
      have hesc : isEscapedByte c = false := by
        unfold isEscapedByte
        rw [Bool.and_eq_false_iff, decide_eq_false_iff_not]
        exact .inl (by omega)
      unfold encodeOne
      dsimp only
      rw [hesc, if_neg Bool.false_ne_true, if_pos hlt]
      exact List.mem_singleton_self _
    have hmem := mem_nameTextFrom (hbyte.symm ▸ hlt : (UInt8.ofNat c.code).toNat < 0x80) hb []
      (show State.between.Wide from trivial)
    rwa [hbyte, CodePoint.ofNat_code] at hmem
  · exact hc

/-- **The form of a name is a name.** -/
theorem isName_nameForm {n : Text} (h : Path.IsName n) : Path.IsName (nameForm n) := by
  by_cases hesc : n.any isEscapedByte = true
  · have hshows := shows_nameForm hesc
    obtain ⟨b, hb, hbig⟩ := exists_of_escaped hesc
    -- the names of dots are ASCII, and the form is not
    have hdots : ∀ t : Text, (∀ d ∈ t, d.code < 0x80) → nameForm n ≠ t := by
      rintro t ht rfl
      obtain ⟨c, hc, hcode⟩ := hshows.beyond b hb hbig
      have hlt := ht c hc
      omega
    refine ⟨⟨hshows.nonempty (List.ne_nil_of_mem hb), ?_⟩, hdots _ (by decide), hdots _ (by decide)⟩
    -- a slash of the form is a byte of the name, and so a character of it
    intro hslash
    rcases hshows.ascii _ hslash with hle | ⟨b', hb', he⟩
    · revert hle
      decide
    · have hlt : b'.toNat < 0x80 := by
        by_contra hge
        have hle := le_code_ofNat (n := b'.toNat) (by omega)
        rw [← he] at hle
        revert hle
        decide
      have hmem := mem_of_mem_nameBytes hb' hlt
      rw [← he] at hmem
      exact h.1.2 hmem
  · rw [nameForm_of_not_escaped (by simpa using hesc)]
    exact h

end Utf8

end ModuleBuild
