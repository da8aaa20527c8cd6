/-
  ModuleBuild.Proofs.Text.LetterCase
  ──────────────────────────────────
  **ONE WORD IN ANY LETTER CASE.**

  A name is compared with a word of ASCII in small letters.  Beyond ASCII
  there are capitals too, and one of them has a small form in ASCII: the
  Kelvin sign, which becomes a k.  So a word without k, whose letters are
  small, is met exactly by the word itself with some letters as capitals.

  Main results:
    * `code_lt_of_toSmall` — no other small letter of ASCII has a capital beyond it;
    * `lower_eq_iff` — what becomes a word is the word in some letter case.
-/
import Mathlib.Data.List.Forall2
import ModuleBuild.Text.Lower

namespace ModuleBuild

namespace CodePoint

/-! ## §1. One letter. -/

/-- A capital of ASCII. -/
def isCapital (c : CodePoint) : Bool := 0x41 ≤ c.code && c.code ≤ 0x5A

/-- A code point of ASCII that is no capital and is not the letter k. -/
def isPlain (c : CodePoint) : Bool := c.code < 0x80 && !c.isCapital && c.code ≠ 0x6B

theorem isPlain_iff {c : CodePoint} :
    c.isPlain = true ↔ c.code < 0x80 ∧ ¬ (0x41 ≤ c.code ∧ c.code ≤ 0x5A) ∧ c.code ≠ 0x6B := by
  unfold isPlain isCapital
  rw [Bool.and_eq_true, Bool.and_eq_true, Bool.not_eq_true', ← Bool.decide_and, decide_eq_true_iff,
    decide_eq_false_iff_not, decide_eq_true_iff, and_assoc]

/-- Capitals beyond ASCII have small forms beyond it, except the Kelvin sign. -/
theorem runs_beyond_ascii : ∀ r ∈ smallLetterRuns,
    0x80 ≤ (r.1 : Int) + r.2.2.2
      ∨ (r.1 : Int) + r.2.2.2 = 0x6B ∧ (r.2.1 : Int) + r.2.2.2 = 0x6B := by
  decide +kernel

theorem code_ofNat_cases (n : Nat) : (ofNat n).code = n ∨ (ofNat n).code = 0xFFFD := by
  unfold ofNat
  split
  · exact .inl rfl
  · exact .inr rfl

/-- Beyond ASCII a small form is the code point itself or stands at the distance of a run. -/
theorem toSmall_cases {c : CodePoint} (h : ¬ c.code < 0x80) :
    c.toSmall = c ∨ ∃ r ∈ smallLetterRuns, r.1 ≤ c.code ∧ c.code ≤ r.2.1 ∧
      c.toSmall = ofNat ((c.code : Int) + r.2.2.2).toNat := by
  unfold toSmall
  rw [if_neg h]
  split
  · rename_i r hr
    have hin := List.find?_some hr
    simp only [Bool.and_eq_true, decide_eq_true_eq] at hin
    exact .inr ⟨r, List.mem_of_find?_eq_some hr, hin.1.1, hin.1.2, rfl⟩
  · exact .inl rfl

/-- The small letters of ASCII, k apart, are small forms of ASCII letters only. -/
theorem code_lt_of_toSmall {c : CodePoint} (h : c.toSmall.code < 0x80)
    (hk : c.toSmall.code ≠ 0x6B) : c.code < 0x80 := by
  by_cases hc : c.code < 0x80
  · exact hc
  · rcases toSmall_cases hc with he | ⟨r, hr, hlow, hhigh, he⟩
    · rwa [he] at h
    · rw [he] at h hk
      have hrun := runs_beyond_ascii r hr
      have hcode := code_ofNat_cases ((c.code : Int) + r.2.2.2).toNat
      omega

/-- **A plain code point is the small form of itself and of its capital only.** -/
theorem toSmall_eq_iff {c d : CodePoint} (hd : d.isPlain = true) :
    c.toSmall = d ↔ c = d ∨ c = d.capital := by
  obtain ⟨hascii, hcapital, hk⟩ := isPlain_iff.1 hd
  constructor
  · rintro rfl
    have hc : c.code < 0x80 := code_lt_of_toSmall hascii hk
    by_cases hupper : 0x41 ≤ c.code ∧ c.code ≤ 0x5A
    · refine .inr (ext_code ?_)
      have hsmall : c.toSmall.code = c.code + 32 := by
        rw [toSmall, if_pos hc, if_pos hupper, code_ofNat (by omega)]
      rw [capital, if_pos (by omega), hsmall, code_ofNat (by omega)]
      omega
    · exact .inl (toSmall_of_not_capital hc hupper).symm
  · rintro (rfl | rfl)
    · exact toSmall_of_not_capital hascii hcapital
    · unfold capital
      split
      · have hcode : (ofNat (d.code - 0x20)).code = d.code - 0x20 := code_ofNat (by omega)
        refine ext_code ?_
        rw [toSmall, if_pos (by omega), if_pos (by omega), code_ofNat (by omega)]
        omega
      · exact toSmall_of_not_capital hascii hcapital

end CodePoint

/-! ## §2. A word. -/

namespace Text

/-- Whether a text is a word with some of its letters as capitals. -/
def InAnyCase (word t : Text) : Prop :=
  List.Forall₂ (fun letter c => c = letter ∨ c = letter.capital) word t

/-- A code point whose small form is plain becomes that code point alone. -/
theorem lowerOne_eq_cons_iff {before after rest tail : Text} {c d : CodePoint}
    (hd : ∀ e ∈ d :: tail, e.isPlain = true) :
    lowerOne before c after ++ rest = d :: tail ↔ (c = d ∨ c = d.capital) ∧ rest = tail := by
  have hplain := hd d (List.mem_cons_self ..)
  rw [← CodePoint.toSmall_eq_iff hplain]
  unfold lowerOne
  split
  · -- either form of the sigma lies beyond ASCII
    rename_i hsigma
    subst hsigma
    refine iff_of_false (fun h => ?_) fun h => ?_
    · split at h <;> injection h with h _ <;> rw [← h] at hplain <;> revert hplain <;> decide
    · rw [← h.1] at hplain
      revert hplain
      decide
  · split
    · -- behind the i there is a dot beyond ASCII
      rename_i hdotted
      subst hdotted
      refine iff_of_false (fun h => ?_) fun h => ?_
      · injection h with _ h
        have hmark := hd (CodePoint.ofNat 0x307) (by rw [← h]; simp)
        revert hmark
        decide
      · rw [← h.1] at hplain
        revert hplain
        decide
    · rw [List.singleton_append, List.cons.injEq]

theorem lowerAfter_eq_iff {before word t : Text} (hword : ∀ d ∈ word, d.isPlain = true) :
    lowerAfter before t = word ↔ InAnyCase word t := by
  unfold InAnyCase
  induction t generalizing before word with
  | nil => simp [lowerAfter, eq_comm]
  | cons c rest ih =>
    cases word with
    | nil =>
      refine iff_of_false (fun h => ?_) fun h => by cases h
      have hnil := (List.append_eq_nil_iff.1 h).1
      revert hnil
      unfold lowerOne
      split <;> split <;> exact List.cons_ne_nil _ _
    | cons d tail =>
      rw [lowerAfter, lowerOne_eq_cons_iff hword,
        ih fun e he => hword e (List.mem_cons_of_mem d he), List.forall₂_cons]

/-- **What becomes a plain word in small letters is the word in some letter case.** -/
theorem lower_eq_iff {word t : Text} (hword : ∀ d ∈ word, d.isPlain = true) :
    lower t = word ↔ InAnyCase word t :=
  lowerAfter_eq_iff hword

/-- What holds of the letters of a word and of their capitals holds of the word in any letter case. -/
theorem InAnyCase.forall_mem {P : CodePoint → Prop} {word t : Text} (h : InAnyCase word t)
    (hword : ∀ d ∈ word, P d ∧ P d.capital) : ∀ c ∈ t, P c := by
  induction h with
  | nil => exact nofun
  | @cons d c word t hletter _ ih =>
    obtain ⟨⟨hsmall, hcapital⟩, hrest⟩ := List.forall_mem_cons.1 hword
    refine List.forall_mem_cons.2 ⟨?_, ih hrest⟩
    rcases hletter with rfl | rfl
    · exact hsmall
    · exact hcapital

/-- A word in any letter case ends with its last letter, small or as a capital. -/
theorem InAnyCase.getLast? {word t : Text} {d : CodePoint} (h : InAnyCase word t)
    (hd : word.getLast? = some d) : ∃ c, t.getLast? = some c ∧ (c = d ∨ c = d.capital) := by
  induction h with
  | nil => cases hd
  | @cons letter c word t hletter hrest ih =>
    cases hrest with
    | nil =>
      cases hd
      exact ⟨c, rfl, hletter⟩
    | cons _ _ =>
      rw [List.getLast?_cons_cons] at hd ⊢
      exact ih hd

end Text

end ModuleBuild
