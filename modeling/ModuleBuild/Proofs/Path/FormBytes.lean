/-
  ModuleBuild.Proofs.Path.FormBytes
  ─────────────────────────────────
  **THE FORM OF A NAME HAS AS MANY BYTES AS THE NAME.**

  The bytes of a name that make up a character are shown as that character,
  and a character has as many bytes as were read for it: the first byte tells
  how many there are, and no character is longer or shorter than it has to
  be.  Every other byte is shown as something that has one byte.  So it does
  not matter whether the length of a path is asked of the names it is written
  with or of the names that are listed.

  Main results:
    * `sized_lead`, `sized_step` — a character that is begun has the bytes that are read for it;
    * `byteCount_nameForm` — the form of a name has as many bytes as the name.
-/
import ModuleBuild.Proofs.FileTree.Straight
import ModuleBuild.Proofs.Path.NameForm

namespace ModuleBuild

namespace Utf8

open FileTree (byteCount_append)

/-! ## §1. The bytes of one character. -/

theorem byteCount_singleton (c : CodePoint) :
    byteCount [c] = if isEscapedByte c then 1 else (encodeOne c).length := by
  unfold byteCount nameBytes
  rw [List.flatMap_singleton]
  split <;> rfl

/-- A character that stands for no byte has the bytes that it is written with. -/
theorem byteCount_of_not_escaped {c : CodePoint} (h : c.code < 0xD800 ∨ 0xE000 ≤ c.code) :
    byteCount [c] = (encodeOne c).length := by
  have hno : isEscapedByte c = false := by
    unfold isEscapedByte
    rw [Bool.and_eq_false_iff, decide_eq_false_iff_not, decide_eq_false_iff_not]
    omega
  rw [byteCount_singleton, hno, if_neg Bool.false_ne_true]

theorem byteCount_one {n : Nat} (h : n < 0x80) : byteCount [CodePoint.ofNat n] = 1 := by
  have hcode := CodePoint.code_ofNat (n := n) (by omega)
  rw [byteCount_of_not_escaped (by omega)]
  simp only [encodeOne, hcode, if_pos h, List.length_singleton]

theorem byteCount_two {n : Nat} (h : 0x80 ≤ n) (h' : n < 0x800) : byteCount [CodePoint.ofNat n] = 2 := by
  have hcode := CodePoint.code_ofNat (n := n) (by omega)
  rw [byteCount_of_not_escaped (by omega)]
  simp only [encodeOne, hcode, if_neg (Nat.not_lt.2 h), if_pos h', List.length_cons, List.length_nil]

theorem byteCount_three {n : Nat} (h : 0x800 ≤ n) (h' : n < 0xD800 ∨ 0xE000 ≤ n ∧ n < 0x10000) :
    byteCount [CodePoint.ofNat n] = 3 := by
  have hcode := CodePoint.code_ofNat (n := n) (by omega)
  have hsmall : ¬ n < 0x80 := by omega
  have hlarge : n < 0x10000 := by omega
  rw [byteCount_of_not_escaped (by omega)]
  simp only [encodeOne, hcode, if_neg hsmall, if_neg (Nat.not_lt.2 h), if_pos hlarge, List.length_cons,
    List.length_nil]

theorem byteCount_four {n : Nat} (h : 0x10000 ≤ n) (h' : n < 0x110000) :
    byteCount [CodePoint.ofNat n] = 4 := by
  have hcode := CodePoint.code_ofNat h'
  have hsmall : ¬ n < 0x80 := by omega
  have hmiddle : ¬ n < 0x800 := by omega
  rw [byteCount_of_not_escaped (by omega)]
  simp only [encodeOne, hcode, if_neg hsmall, if_neg hmiddle, if_neg (Nat.not_lt.2 h), List.length_cons,
    List.length_nil]

/-- What stands for a byte beyond ASCII has one byte. -/
theorem byteCount_escapeByte {b : UInt8} (h : 0x80 ≤ b.toNat) : byteCount [escapeByte b] = 1 := by
  have hlt := b.toNat_lt
  have hcode : (escapeByte b).code = 0xDC00 + b.toNat := CodePoint.code_ofNat (by omega)
  have hesc : isEscapedByte (escapeByte b) = true := by
    unfold isEscapedByte
    rw [hcode, Bool.and_eq_true, decide_eq_true_iff, decide_eq_true_iff]
    omega
  rw [byteCount_singleton, if_pos hesc]

theorem byteCount_escaped {bs : Bytes} (h : ∀ b ∈ bs, 0x80 ≤ b.toNat) :
    byteCount (bs.map escapeByte) = bs.length := by
  induction bs with
  | nil => rfl
  | cons b bs ih =>
    rw [List.map_cons, ← List.singleton_append, byteCount_append,
      byteCount_escapeByte (h b (List.mem_cons_self ..)),
      ih fun c hc => h c (List.mem_cons_of_mem b hc), List.length_cons, Nat.add_comm]

/-! ## §2. Characters that are begun. -/

/-- A state in which every character that can be completed has the bytes that are read for it. -/
def State.Sized : State → Prop
  | .between => True
  | .inside _ taken owed low high value =>
    0 < owed ∧ 0x80 ≤ low ∧ ∀ n, value * 0x40 ^ owed + (low - 0x80) * 0x40 ^ (owed - 1) ≤ n →
      n < value * 0x40 ^ owed + (high - 0x80 + 1) * 0x40 ^ (owed - 1) →
      byteCount [CodePoint.ofNat n] = taken + owed

theorem sized_lead {b : UInt8} {state : State} (h : lead b = some state) :
    state.Sized ∧ ∃ first owed low high value, state = .inside first 1 owed low high value := by
  unfold lead at h
  dsimp only at h
  repeat' split at h
  all_goals cases h
  all_goals refine ⟨⟨by decide, by decide, fun n hlow hhigh => ?_⟩, _, _, _, _, _, rfl⟩
  · exact byteCount_two (by omega) (by omega)
  · exact byteCount_three (by omega) (by omega)
  · exact byteCount_three (by omega) (by omega)
  · exact byteCount_three (by omega) (by omega)
  · exact byteCount_four (by omega) (by omega)
  · exact byteCount_four (by omega) (by omega)
  · exact byteCount_four (by omega) (by omega)

/-- A byte that a character takes leaves a part of the numbers that it could have had. -/
theorem sized_step {taken owed low high value k : Nat} {first : UInt8}
    (h : (State.inside first taken owed low high value).Sized) (hlow : low ≤ k) (hhigh : k ≤ high)
    {n : Nat} (hn : (value * 0x40 + (k - 0x80)) * 0x40 ^ (owed - 1) ≤ n)
    (hn' : n < (value * 0x40 + (k - 0x80) + 1) * 0x40 ^ (owed - 1)) :
    byteCount [CodePoint.ofNat n] = taken + owed := by
  obtain ⟨howed, hbig, hsized⟩ := h
  obtain ⟨more, rfl⟩ : ∃ more, owed = more + 1 := ⟨owed - 1, by omega⟩
  rw [Nat.add_sub_cancel] at hn hn' hsized
  have hsplit : ∀ j, value * 0x40 ^ (more + 1) + j * 0x40 ^ more = (value * 0x40 + j) * 0x40 ^ more := by
    intro j
    rw [Nat.add_mul, Nat.pow_succ, Nat.mul_assoc, Nat.mul_comm (0x40 ^ more) 0x40]
  refine hsized n ?_ ?_
  · rw [hsplit]
    exact (Nat.mul_le_mul_right _ (by omega)).trans hn
  · rw [hsplit]
    exact hn'.trans_le (Nat.mul_le_mul_right _ (by omega))

/-- What one byte between characters says at once has one byte, or a character is begun. -/
theorem byteCount_begin (b : UInt8) :
    (byteCount (begin b).1 = 1 ∧ (begin b).2 = .between)
      ∨ (begin b).1 = [] ∧ 0x80 ≤ b.toNat ∧ (begin b).2.Sized
        ∧ ∃ first owed low high value, (begin b).2 = .inside first 1 owed low high value := by
  unfold begin
  by_cases hb : b.toNat < 0x80
  · rw [if_pos hb]
    exact .inl ⟨byteCount_one hb, rfl⟩
  · rw [if_neg hb]
    cases hlead : lead b with
    | none => exact .inl ⟨byteCount_escapeByte (Nat.not_lt.1 hb), rfl⟩
    | some state => exact .inr ⟨rfl, Nat.not_lt.1 hb, sized_lead hlead⟩

/-! ## §3. Names. -/

/-- **The text of a name's bytes has as many bytes**: those that follow a state, and those of the
character that was begun. -/
theorem byteCount_nameTextFrom (bs : Bytes) :
    byteCount (nameTextFrom .between [] bs) = bs.length
      ∧ ∀ first taken owed low high value pending,
        (State.inside first taken owed low high value).Sized →
        pending.length = taken → (∀ b ∈ pending, 0x80 ≤ b.toNat) →
        byteCount (nameTextFrom (.inside first taken owed low high value) pending bs)
          = pending.length + bs.length := by
  induction bs with
  | nil => exact ⟨rfl, fun _ _ _ _ _ _ pending _ _ hbig => byteCount_escaped hbig⟩
  | cons b bs ih =>
    have hbegin : byteCount ((begin b).1 ++ nameTextFrom (begin b).2 [b] bs) = bs.length + 1 := by
      rcases byteCount_begin b with ⟨hone, hstate⟩ | ⟨hnil, hbig, hsized, first, owed, low, high, value, hstate⟩
      · rw [byteCount_append, hone, hstate, nameTextFrom_between, ih.1, Nat.add_comm]
      · rw [hstate] at hsized
        rw [hnil, hstate, List.nil_append, ih.2 first 1 owed low high value [b] hsized rfl (by simpa using hbig),
          List.length_singleton, Nat.add_comm]
    refine ⟨hbegin, ?_⟩
    intro first taken owed low high value pending hsized hlength hbig
    unfold nameTextFrom
    dsimp only
    by_cases hin : low ≤ b.toNat ∧ b.toNat ≤ high
    · rw [if_pos hin]
      have hstep := fun n => sized_step (n := n) hsized hin.1 hin.2
      obtain ⟨howed, hlow, -⟩ := hsized
      by_cases hlast : owed ≤ 1
      · -- the byte completes a character
        rw [if_pos hlast]
        obtain rfl : owed = 1 := by omega
        rw [Nat.sub_self, Nat.pow_zero] at hstep
        rw [← List.singleton_append, byteCount_append, ih.1, hstep _ (by omega) (by omega), hlength,
          List.length_cons, Nat.add_assoc, Nat.add_comm 1]
      · rw [if_neg hlast]
        obtain ⟨more, rfl⟩ : ∃ more, owed = more + 2 := ⟨owed - 2, by omega⟩
        have hnext : (State.inside first (taken + 1) (more + 2 - 1) 0x80 0xBF
            (value * 0x40 + (b.toNat - 0x80))).Sized := by
          refine ⟨by omega, Nat.le_refl _, fun n hn hn' => ?_⟩
          -- the next byte may be any that follows a first
          have hcount := hstep n (by simpa using hn) (by
            have hall : (value * 0x40 + (b.toNat - 0x80)) * 0x40 ^ (more + 1) + 0x40 * 0x40 ^ more
                = (value * 0x40 + (b.toNat - 0x80) + 1) * 0x40 ^ (more + 2 - 1) := by
              rw [← Nat.pow_succ', ← Nat.succ_mul]
              rfl
            rw [← hall]
            exact hn')
          omega
        rw [ih.2 _ _ _ _ _ _ (pending ++ [b]) hnext (by simp [hlength])
          (List.forall_mem_append.2 ⟨hbig, by simpa using hlow.trans hin.1⟩), List.length_append,
          List.length_cons, List.length_nil, List.length_cons]
        omega
    · -- the byte belongs to no character that was begun
      rw [if_neg hin, List.append_assoc, byteCount_append, byteCount_escaped hbig, hbegin]
      rfl

/-- **The form of a name has as many bytes as the name.** -/
theorem byteCount_nameForm (t : Text) : byteCount (nameForm t) = byteCount t := by
  unfold nameForm
  split
  · exact (byteCount_nameTextFrom (nameBytes t)).1
  · rfl

end Utf8

end ModuleBuild
