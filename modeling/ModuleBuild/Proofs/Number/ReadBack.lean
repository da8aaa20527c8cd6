/-
  ModuleBuild.Proofs.Number.ReadBack
  ──────────────────────────────────
  **A DOUBLE READS BACK FROM ITS DIGITS.**

  The nearest double depends on the value of a quotient alone, not on how the
  quotient is written: numerator and denominator may share a factor.  So the
  zeros at the end of a decimal may move into the power of ten, and the point
  may stand anywhere.

  The digits of a double are searched among seventeen grids.  If one of them
  holds a neighbour that reads back, so do the digits that are written;
  otherwise a zero is written.

  Main results:
    * `ofRatio_mul` — a common factor does not matter;
    * `ofDecimal_shift` — nor does a zero at the end of the digits;
    * `ofDecimal_shortest` — the digits of a double read back as the double, or are zero.
-/
import Mathlib
import ModuleBuild.Number.Shortest

namespace ModuleBuild

/-- A common factor does not change what a quotient is rounded to. -/
theorem roundHalfEven_mul_right (num den : Nat) {c : Nat} (hc : 0 < c) :
    roundHalfEven (num * c) (den * c) = roundHalfEven num den := by
  unfold roundHalfEven
  dsimp only
  rw [Nat.mul_div_mul_right _ _ hc, Nat.mul_mod_mul_right]
  have hlt : den * c < 2 * (num % den * c) ↔ den < 2 * (num % den) := by
    rw [← Nat.mul_assoc]
    exact Nat.mul_lt_mul_right hc
  have heq : 2 * (num % den * c) = den * c ↔ 2 * (num % den) = den := by
    rw [← Nat.mul_assoc]
    exact Nat.mul_left_inj hc.ne'
  simp only [hlt, heq]

namespace Binary64

/-! ## §1. Quotients. -/

/-- The value of a scaled quotient. -/
theorem cast_scale (num den : Nat) (e : Int) :
    (((scale num den e).1 : ℚ) / (scale num den e).2) = (num / den : ℚ) / (2 : ℚ) ^ e := by
  unfold scale
  by_cases he : 0 ≤ e
  · obtain ⟨n, rfl⟩ := Int.eq_ofNat_of_zero_le he
    simp only [he, if_true, Int.toNat_natCast, Nat.pow_eq]
    push_cast
    rw [zpow_natCast, div_div]
  · obtain ⟨n, rfl⟩ : ∃ n : Nat, e = -(n : Int) := ⟨(-e).toNat, by omega⟩
    simp only [he, if_false, neg_neg, Int.toNat_natCast, Nat.pow_eq]
    push_cast
    rw [zpow_neg, zpow_natCast]
    field_simp

theorem scale_den_pos (num : Nat) {den : Nat} (hden : 0 < den) (e : Int) :
    0 < (scale num den e).2 := by
  unfold scale
  split
  · exact Nat.mul_pos hden (Nat.pow_pos (by decide))
  · exact hden

theorem scale_mul (num den c : Nat) (e : Int) :
    scale (num * c) (den * c) e = ((scale num den e).1 * c, (scale num den e).2 * c) := by
  unfold scale
  split
  · exact Prod.ext rfl (Nat.mul_right_comm ..)
  · exact Prod.ext (Nat.mul_right_comm ..) rfl

/-- Whether the first guess of the exponent is one too much. -/
theorem scale_lt_iff (num : Nat) {den : Nat} (hden : 0 < den) (e : Int) :
    (scale num den e).1 / (scale num den e).2 < Nat.pow 2 52
      ↔ (num / den : ℚ) < (2 : ℚ) ^ (e + 52) := by
  have hpos := scale_den_pos num hden e
  have hposq : (0 : ℚ) < (scale num den e).2 := by exact_mod_cast hpos
  have h2 : (0 : ℚ) < (2 : ℚ) ^ e := zpow_pos (by norm_num) e
  rw [Nat.div_lt_iff_lt_mul hpos, zpow_add₀ (by norm_num), mul_comm ((2 : ℚ) ^ e), ← div_lt_iff₀ h2,
    ← cast_scale, div_lt_iff₀ hposq, Nat.pow_eq]
  norm_cast

/-- **The exponent depends on the value of the quotient alone.** -/
theorem exponentFor_eq {num den : Nat} (hnum : 0 < num) (hden : 0 < den) :
    exponentFor num den = max minExponent (Int.log 2 (num / den : ℚ) - 52) := by
  have hnumq : (0 : ℚ) < num := by exact_mod_cast hnum
  have hdenq : (0 : ℚ) < den := by exact_mod_cast hden
  have hq : (0 : ℚ) < num / den := div_pos hnumq hdenq
  -- the quotient lies between two neighbouring powers around the difference of the lengths
  have hn1 : ((2 : ℚ) ^ num.log2) ≤ num := by exact_mod_cast Nat.log2_self_le hnum.ne'
  have hn2 : (num : ℚ) < (2 : ℚ) ^ (num.log2 + 1) := by exact_mod_cast Nat.lt_log2_self
  have hd1 : ((2 : ℚ) ^ den.log2) ≤ den := by exact_mod_cast Nat.log2_self_le hden.ne'
  have hd2 : (den : ℚ) < (2 : ℚ) ^ (den.log2 + 1) := by exact_mod_cast Nat.lt_log2_self
  have hlow : (2 : ℚ) ^ ((num.log2 : Int) - den.log2 - 1) ≤ num / den := by
    rw [le_div_iff₀ hdenq]
    have hle : (2 : ℚ) ^ ((num.log2 : Int) - den.log2 - 1) * den
        ≤ (2 : ℚ) ^ ((num.log2 : Int) - den.log2 - 1) * (2 : ℚ) ^ (den.log2 + 1) :=
      mul_le_mul_of_nonneg_left hd2.le (zpow_pos (by norm_num) _).le
    refine hle.trans (le_trans (le_of_eq ?_) hn1)
    rw [← zpow_natCast, ← zpow_natCast, ← zpow_add₀ (by norm_num)]
    congr 1
    push_cast
    ring
  have hhigh : (num / den : ℚ) < (2 : ℚ) ^ ((num.log2 : Int) - den.log2 + 1) := by
    rw [div_lt_iff₀ hdenq]
    have hle : (2 : ℚ) ^ ((num.log2 : Int) - den.log2 + 1) * (2 : ℚ) ^ den.log2
        ≤ (2 : ℚ) ^ ((num.log2 : Int) - den.log2 + 1) * den :=
      mul_le_mul_of_nonneg_left hd1 (zpow_pos (by norm_num) _).le
    refine lt_of_lt_of_le (lt_of_lt_of_eq hn2 ?_) hle
    rw [← zpow_natCast, ← zpow_natCast, ← zpow_add₀ (by norm_num)]
    congr 1
    push_cast
    ring
  have hlog1 : (num.log2 : Int) - den.log2 - 1 ≤ Int.log 2 (num / den : ℚ) :=
    (Int.zpow_le_iff_le_log (by decide) hq).1 (by exact_mod_cast hlow)
  have hlog2 : Int.log 2 (num / den : ℚ) < (num.log2 : Int) - den.log2 + 1 :=
    (Int.lt_zpow_iff_log_lt (by decide) hq).1 (by exact_mod_cast hhigh)
  unfold exponentFor
  dsimp only
  congr 1
  have hguess := scale_lt_iff num hden ((num.log2 : Int) - den.log2 - 52)
  rw [show (num.log2 : Int) - den.log2 - 52 + 52 = (num.log2 : Int) - den.log2 by ring] at hguess
  have hlt : (num / den : ℚ) < (2 : ℚ) ^ ((num.log2 : Int) - den.log2)
      ↔ Int.log 2 (num / den : ℚ) < (num.log2 : Int) - den.log2 := by
    have := Int.lt_zpow_iff_log_lt (b := 2) (r := (num / den : ℚ)) (x := (num.log2 : Int) - den.log2)
      (by decide) hq
    exact_mod_cast this
  by_cases hcase : (scale num den ((num.log2 : Int) - den.log2 - 52)).1
      / (scale num den ((num.log2 : Int) - den.log2 - 52)).2 < Nat.pow 2 52
  · rw [if_pos hcase]
    have := hlt.1 (hguess.1 hcase)
    omega
  · rw [if_neg hcase]
    have : ¬ Int.log 2 (num / den : ℚ) < (num.log2 : Int) - den.log2 := fun h =>
      hcase (hguess.2 (hlt.2 h))
    omega

/-- **A common factor of numerator and denominator does not matter.** -/
theorem ofRatio_mul (negative : Bool) (num : Nat) {den c : Nat} (hden : 0 < den) (hc : 0 < c) :
    ofRatio negative (num * c) (den * c) = ofRatio negative num den := by
  rcases Nat.eq_zero_or_pos num with rfl | hnum
  · simp [ofRatio]
  have hexp : exponentFor (num * c) (den * c) = exponentFor num den := by
    rw [exponentFor_eq (Nat.mul_pos hnum hc) (Nat.mul_pos hden hc), exponentFor_eq hnum hden]
    have hcq : (c : ℚ) ≠ 0 := by exact_mod_cast hc.ne'
    push_cast
    rw [mul_div_mul_right _ _ hcq]
  have hne : num * c ≠ 0 := (Nat.mul_pos hnum hc).ne'
  unfold ofRatio
  rw [if_neg hne, if_neg hnum.ne', hexp]
  dsimp only
  rw [scale_mul, roundHalfEven_mul_right _ _ hc]

/-- The double with a sign. -/
def withSign (negative : Bool) : Binary64 → Binary64
  | .finite _ m e => .finite negative m e
  | .infinity _ => .infinity negative
  | .nan => .nan

theorem ofRatio_withSign (negative : Bool) (num den : Nat) :
    ofRatio negative num den = (ofRatio false num den).withSign negative := by
  unfold ofRatio
  split
  · rfl
  · dsimp only
    split
    · dsimp only
      split <;> rfl
    · dsimp only
      split <;> rfl

/-! ## §2. Decimals. -/

theorem ofDecimal_withSign (negative : Bool) (digits size : Nat) (power : Int) :
    ofDecimal negative digits size power = (ofDecimal false digits size power).withSign negative := by
  unfold ofDecimal
  split
  · exact ofRatio_withSign ..
  · split
    · rfl
    · split
      · exact ofRatio_withSign ..
      · split
        · exact ofRatio_withSign ..
        · exact ofRatio_withSign ..

/-- **Zeros at the end of the digits may move into the power.** -/
theorem ofDecimal_shift (negative : Bool) (digits size zeros : Nat) (power : Int) :
    ofDecimal negative (digits * 10 ^ zeros) (size + zeros) (power - zeros)
      = ofDecimal negative digits size power := by
  have hten : ∀ n : Nat, 0 < 10 ^ n := fun n => Nat.pow_pos (by decide)
  have hzero : digits * 10 ^ zeros = 0 ↔ digits = 0 := by
    simp
  have hsum : power - zeros + ((size + zeros : Nat) : Int) = power + size := by
    push_cast
    ring
  unfold ofDecimal
  simp only [hzero, hsum, Nat.pow_eq]
  by_cases h0 : digits = 0
  · simp only [h0, if_true]
  simp only [h0, if_false]
  by_cases h1 : 400 < power + size
  · simp only [h1, if_true]
  simp only [h1, if_false]
  by_cases h2 : power + size < -400
  · simp only [h2, if_true]
  simp only [h2, if_false]
  by_cases hp : 0 ≤ power
  · obtain ⟨n, rfl⟩ := Int.eq_ofNat_of_zero_le hp
    rw [if_pos hp, Int.toNat_natCast]
    -- less the zeros, the power is still one of the numerator, or becomes one of the denominator
    by_cases hz : 0 ≤ (n : Int) - zeros
    · rw [if_pos hz]
      have hn : n = zeros + ((n : Int) - zeros).toNat := by omega
      conv_rhs => rw [hn, pow_add, ← mul_assoc]
    · rw [if_neg hz]
      have hn : zeros = n + (-((n : Int) - zeros)).toNat := by omega
      conv_lhs => rw [hn, pow_add, ← mul_assoc, ← hn]
      rw [← Nat.one_mul (10 ^ (-((n : Int) - zeros)).toNat)]
      conv_lhs => arg 2; rw [Nat.one_mul]
      exact ofRatio_mul negative (digits * 10 ^ n) Nat.one_pos (hten _)
  · rw [if_neg hp, if_neg (by omega : ¬ 0 ≤ power - zeros)]
    have hn : (-(power - zeros)).toNat = (-power).toNat + zeros := by omega
    rw [hn, pow_add]
    exact ofRatio_mul negative digits (hten _) (hten _)

/-! ## §3. Digits. -/

theorem digitCount_mul_ten {n : Nat} (hn : 0 < n) : digitCount (n * 10) = digitCount n + 1 := by
  have h := Nat.toDigits_append_toDigits (b := 10) (n := n) (d := 0) (by decide) hn (by decide)
  rw [Nat.mul_comm, Nat.add_zero] at h
  unfold digitCount
  rw [← h, List.length_append, Nat.toDigits_zero]
  rfl

theorem digitCount_mul_pow {n : Nat} (hn : 0 < n) (zeros : Nat) :
    digitCount (n * 10 ^ zeros) = digitCount n + zeros := by
  induction zeros with
  | zero => simp
  | succ zeros ih =>
    rw [pow_succ, ← mul_assoc, digitCount_mul_ten (Nat.mul_pos hn (Nat.pow_pos (by decide))), ih]
    omega

/-- Dropping zeros divides by a power of ten. -/
theorem exists_dropZeros (fuel n : Nat) : ∃ zeros, n = dropZeros fuel n * 10 ^ zeros := by
  induction fuel generalizing n with
  | zero => exact ⟨0, by simp [dropZeros]⟩
  | succ fuel ih =>
    unfold dropZeros
    split
    · rename_i h
      obtain ⟨zeros, hz⟩ := ih (n / 10)
      refine ⟨zeros + 1, ?_⟩
      rw [pow_succ, ← mul_assoc, ← hz]
      omega
    · exact ⟨0, by simp⟩

/-- The search ends with digits that read back, or finds none. -/
theorem firstGrid_cases (m : Nat) (e : Int) (fuel n : Nat) :
    readsBack m e (firstGrid m e fuel n).1 (firstGrid m e fuel n).2 = true
      ∨ firstGrid m e fuel n = (0, 0) := by
  induction fuel generalizing n with
  | zero => exact .inr rfl
  | succ fuel ih =>
    unfold firstGrid
    cases hgrid : onGrid? m e n with
    | none => exact ih (n + 1)
    | some found =>
      refine .inl ?_
      unfold onGrid? at hgrid
      dsimp only at hgrid
      -- of the two neighbours one that reads back is taken
      split at hgrid
      · rename_i hbelow habove
        split at hgrid
        · cases hgrid
          exact hbelow
        · cases hgrid
          exact habove
      · rename_i hbelow habove
        cases hgrid
        exact hbelow
      · rename_i hbelow habove
        cases hgrid
        exact habove
      · cases hgrid

/-- The double that is read from the text of a double. -/
def reread : Binary64 → Binary64
  | .finite negative m e =>
    if m ≠ 0 ∧ readsBack m e (firstGrid m e 17 1).1 (firstGrid m e 17 1).2 then .finite negative m e
    else .finite negative 0 minExponent
  | x => x

theorem reread_finite (negative : Bool) (m : Nat) (e : Int) :
    reread (.finite negative m e)
      = if m ≠ 0 ∧ readsBack m e (firstGrid m e 17 1).1 (firstGrid m e 17 1).2 then
          .finite negative m e
        else .finite negative 0 minExponent := rfl

/-- What is read back is read back as itself. -/
theorem reread_reread (x : Binary64) : x.reread.reread = x.reread := by
  have hzero : ∀ negative, reread (.finite negative 0 minExponent) = .finite negative 0 minExponent :=
    fun negative => by rw [reread_finite, if_neg fun h => h.1 rfl]
  cases x with
  | infinity negative => rfl
  | nan => rfl
  | finite negative m e =>
    rw [reread_finite]
    split
    · rename_i hreads
      rw [reread_finite, if_pos hreads]
    · exact hzero negative

/-- No digits read back as zero only. -/
theorem readsBack_zero {m : Nat} (hm : m ≠ 0) (e power : Int) : readsBack m e 0 power = false := by
  unfold readsBack
  rw [decide_eq_false_iff_not]
  intro h
  have hzero : ofDecimal false 0 (digitCount 0) power = .finite false 0 minExponent := rfl
  rw [hzero] at h
  injection h with _ hm0 _
  exact hm hm0.symm

/-- The digits that were found are the shortest ones and zeros, which are counted in the power. -/
theorem exists_shortest_zeros {m : Nat} {e : Int} (hpos : 0 < (firstGrid m e 17 1).1) :
    ∃ zeros, (firstGrid m e 17 1).1 = (shortest m e).digits * 10 ^ zeros
      ∧ 0 < (shortest m e).digits
      ∧ digitCount (firstGrid m e 17 1).1 = digitCount (shortest m e).digits + zeros
      ∧ (firstGrid m e 17 1).2
          = (shortest m e).power + 1 - digitCount (shortest m e).digits - zeros := by
  obtain ⟨zeros, hzeros⟩ := exists_dropZeros 18 (firstGrid m e 17 1).1
  have hdigits : 0 < dropZeros 18 (firstGrid m e 17 1).1 := by
    rcases Nat.eq_zero_or_pos (dropZeros 18 (firstGrid m e 17 1).1) with h0 | h0
    · rw [h0, Nat.zero_mul] at hzeros
      omega
    · exact h0
  have hcount : digitCount (firstGrid m e 17 1).1
      = digitCount (dropZeros 18 (firstGrid m e 17 1).1) + zeros := by
    conv_lhs => rw [hzeros]
    exact digitCount_mul_pow hdigits zeros
  refine ⟨zeros, hzeros, hdigits, hcount, ?_⟩
  unfold shortest
  dsimp only
  rw [hcount]
  push_cast
  ring

/-- **The digits of a double read back as the double, or as zero if none were found.** -/
theorem ofDecimal_shortest (negative : Bool) {m : Nat} (hm : m ≠ 0) (e : Int) :
    ((shortest m e).digits = 0 ∧ (shortest m e).power = 0 ∧ reread (.finite negative m e) = .finite negative 0 minExponent)
      ∨ 0 < (shortest m e).digits ∧ reread (.finite negative m e) = .finite negative m e ∧
        ofDecimal negative (shortest m e).digits (digitCount (shortest m e).digits)
          ((shortest m e).power + 1 - digitCount (shortest m e).digits) = .finite negative m e := by
  rcases firstGrid_cases m e 17 1 with hfound | hfound
  · have hpos : 0 < (firstGrid m e 17 1).1 := by
      refine Nat.pos_of_ne_zero fun h0 => ?_
      rw [h0, readsBack_zero hm] at hfound
      cases hfound
    obtain ⟨zeros, hzeros, hdigits, hcount, hpower⟩ := exists_shortest_zeros hpos
    refine .inr ⟨hdigits, by rw [reread_finite, if_pos ⟨hm, hfound⟩], ?_⟩
    unfold readsBack at hfound
    rw [decide_eq_true_eq] at hfound
    -- the zeros that were dropped are in the power
    have hshift := ofDecimal_shift false (shortest m e).digits (digitCount (shortest m e).digits)
      zeros ((shortest m e).power + 1 - digitCount (shortest m e).digits)
    rw [← hpower, ← hzeros, ← hcount, hfound] at hshift
    rw [ofDecimal_withSign, ← hshift]
    rfl
  · have hzero : reread (.finite negative m e) = .finite negative 0 minExponent := by
      rw [reread_finite, hfound, if_neg]
      rintro ⟨-, h⟩
      rw [readsBack_zero hm] at h
      cases h
    refine .inl ⟨?_, ?_, hzero⟩
    · unfold shortest
      rw [hfound]
      rfl
    · unfold shortest
      rw [hfound]
      rfl

end Binary64

end ModuleBuild
