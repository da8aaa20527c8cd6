/-
  ModuleBuild.Proofs.Json.Numbers
  ───────────────────────────────
  **WRITTEN NUMBERS ARE NUMERALS.**

  An integer is written as a whole part alone.  A double always has a fraction
  or an exponent, so it is not read as an integer; wherever the point stands,
  the digits and the power that are read make the same decimal.

  Main results:
    * `exists_numeral_int` — an integer that is not too long is read back;
    * `exists_numeral_double` — a double is read as what its digits read back as;
    * `toText_reread` — and is then written in the same way.
-/
import ModuleBuild.Json.Render
import ModuleBuild.Proofs.Json.Lexeme
import ModuleBuild.Proofs.Number.ReadBack

namespace ModuleBuild

namespace Text

/-! ## §1. Digits. -/

/-- The digit zero. -/
def zeroDigit : CodePoint := CodePoint.ofChar '0'

theorem valueOfDigits_append (s t : Text) :
    valueOfDigits (s ++ t) = valueOfDigits s * 10 ^ t.length + valueOfDigits t := by
  have hfold : ∀ (t : Text) (k : Nat), t.foldl (fun n c => 10 * n + (c.code - 0x30)) k
      = k * 10 ^ t.length + valueOfDigits t := by
    intro t
    induction t with
    | nil => intro k; simp [valueOfDigits]
    | cons c t ih =>
      intro k
      have hc : valueOfDigits (c :: t) = (c.code - 0x30) * 10 ^ t.length + valueOfDigits t := by
        unfold valueOfDigits
        rw [List.foldl_cons, ih]
        simp [valueOfDigits]
      rw [List.foldl_cons, ih, hc, List.length_cons, pow_succ]
      ring
  rw [valueOfDigits, List.foldl_append, hfold]
  rfl

theorem valueOfDigits_zeros (n : Nat) : valueOfDigits (Binary64.zeros n) = 0 := by
  induction n with
  | zero => rfl
  | succ n ih =>
    rw [Binary64.zeros, List.replicate_succ']
    rw [valueOfDigits_append]
    rw [Binary64.zeros] at ih
    rw [ih]
    rfl

theorem isAsciiDigit_of_mem_zeros {n : Nat} {c : CodePoint} (h : c ∈ Binary64.zeros n) :
    c.isAsciiDigit = true := by
  rw [List.eq_of_mem_replicate h]
  decide

theorem length_ofNat (n : Nat) : (ofNat n).length = Binary64.digitCount n := by
  simp [ofNat, Binary64.digitCount]

theorem ofNat_ne_nil (n : Nat) : ofNat n ≠ [] := by
  simp [ofNat]

theorem isAsciiDigit_ofNat {n : Nat} {c : CodePoint} (h : c ∈ ofNat n) : c.isAsciiDigit = true := by
  obtain ⟨d, hd, rfl⟩ := List.mem_map.1 h
  have hdigit := Nat.isDigit_of_mem_toDigits (by decide) (by decide) hd
  simp only [Char.isDigit, Bool.and_eq_true, decide_eq_true_eq] at hdigit
  unfold CodePoint.isAsciiDigit
  simp only [Bool.and_eq_true, decide_eq_true_eq]
  exact hdigit

/-- The digits of a positive number do not start with a zero. -/
theorem head_ofNat {n : Nat} (hn : 0 < n) : (ofNat n).head? ≠ some zeroDigit := by
  induction n using Nat.strongRecOn with
  | _ n ih =>
    unfold ofNat
    rw [Nat.toDigits_eq_if (by decide)]
    split
    · rename_i hlt
      have hall : ∀ k < 10, 0 < k → ([Nat.digitChar k].map CodePoint.ofChar).head? ≠ some zeroDigit := by
        decide
      exact hall n hlt hn
    · rename_i hge
      have hdiv : 0 < n / 10 := by omega
      have hhead := ih (n / 10) (by omega) hdiv
      rw [List.map_append]
      show (ofNat (n / 10) ++ _).head? ≠ some zeroDigit
      rw [List.head?_append_of_ne_nil _ (ofNat_ne_nil (n / 10))]
      exact hhead

end Text

namespace Json

open Text

theorem isDigits_ofNat (n : Nat) : IsDigits (ofNat n) :=
  ⟨ofNat_ne_nil n, fun _ hc => isAsciiDigit_ofNat hc⟩

theorem isWhole_ofNat (n : Nat) : IsWhole (ofNat n) := by
  rcases Nat.eq_zero_or_pos n with rfl | hn
  · exact .inl rfl
  · exact .inr ⟨isDigits_ofNat n, head_ofNat hn⟩

/-! ## §2. Integers. -/

/-- An integer has no more digits than are read. -/
def IsShort (i : Int) : Prop := (ofNat i.natAbs).length ≤ maxDigits

/-- **An integer that is not too long is read back.** -/
theorem exists_numeral_int {i : Int} (h : IsShort i) :
    ∃ n : Numeral, n.text = ofInt i ∧ n.token = .scalar (.int i) := by
  refine ⟨⟨decide (i < 0), ofNat i.natAbs, none, none, isWhole_ofNat _, by simp⟩, ?_, ?_⟩
  · unfold Numeral.text Numeral.magnitudeText ofInt
    by_cases hi : i < 0
    · simp [hi, Numeral.fractionText, Numeral.exponentText]
    · simp [hi, Numeral.fractionText, Numeral.exponentText]
  · unfold Numeral.token numberToken
    simp only [Option.map_none]
    rw [if_neg (Nat.not_lt.2 h)]
    rw [valueOfDigits_ofNat]
    by_cases hi : i < 0
    · simp only [hi, decide_true, if_true]
      congr 2
      omega
    · simp only [hi, decide_false, Bool.false_eq_true, if_false]
      congr 2
      omega

/-! ## §3. Doubles. -/

/-- A numeral with a fraction is read as a double. -/
theorem token_of_fraction {n : Numeral} {f : Text} (h : n.fraction = some f) (he : n.exponent = none) :
    n.token = .scalar (.double (Binary64.ofDecimal n.negative (valueOfDigits (n.whole ++ f))
      ((n.whole ++ f).dropWhile (· = CodePoint.ofChar '0')).length (0 - f.length))) := by
  unfold Numeral.token numberToken
  rw [h, he]
  rfl

/-- So is one with an exponent. -/
theorem token_of_exponent {n : Numeral} {e : Exponent} (he : n.exponent = some e) :
    n.token = .scalar (.double (Binary64.ofDecimal n.negative
      (valueOfDigits (n.whole ++ n.fraction.getD []))
      ((n.whole ++ n.fraction.getD []).dropWhile (· = CodePoint.ofChar '0')).length
      ((if e.sign = "-" then -(valueOfDigits e.digits : Int) else valueOfDigits e.digits)
        - (n.fraction.getD []).length))) := by
  unfold Numeral.token numberToken
  rw [he]
  cases n.fraction with
  | none => simp [Exponent.value]
  | some f => simp [Exponent.value]

/-- Leading zeros are not significant. -/
theorem dropWhile_zeros (k : Nat) {ds : Text} (h : ds.head? ≠ some zeroDigit) :
    (Binary64.zeros k ++ ds).dropWhile (· = CodePoint.ofChar '0') = ds := by
  unfold Binary64.zeros
  rw [List.dropWhile_append_of_pos (by simp +contextual [List.mem_replicate])]
  cases ds with
  | nil => rfl
  | cons d ds =>
    have hd : ¬ d = CodePoint.ofChar '0' := fun e => h (by rw [List.head?_cons, e]; rfl)
    rw [List.dropWhile_cons_of_neg (by simpa using hd)]

/-- Zeros in front of the digits of a number leave its digits and its value. -/
theorem isDigits_zeros_append (k n : Nat) : IsDigits (Binary64.zeros k ++ ofNat n) := by
  refine ⟨by simp [ofNat_ne_nil], fun c hc => ?_⟩
  rcases List.mem_append.1 hc with hc | hc
  · exact isAsciiDigit_of_mem_zeros hc
  · exact isAsciiDigit_ofNat hc

theorem valueOfDigits_zeros_append (k n : Nat) :
    valueOfDigits (Binary64.zeros k ++ ofNat n) = n := by
  rw [valueOfDigits_append, valueOfDigits_zeros, valueOfDigits_ofNat, Nat.zero_mul, Nat.zero_add]

section Written

variable (negative : Bool) {D : Nat} (hD : 0 < D) {P : Int}

include hD

/-- Digits behind which zeros may follow are all significant at their front. -/
theorem dropWhile_ofNat_append (t : Text) :
    (ofNat D ++ t).dropWhile (· = CodePoint.ofChar '0') = ofNat D ++ t := by
  have hhead : (ofNat D ++ t).head? ≠ some zeroDigit := by
    rw [List.head?_append_of_ne_nil _ (ofNat_ne_nil D)]
    exact head_ofNat hD
  have hdrop := dropWhile_zeros 0 hhead
  rwa [Binary64.zeros, List.replicate_zero, List.nil_append] at hdrop

theorem dropWhile_ofNat : (ofNat D).dropWhile (· = CodePoint.ofChar '0') = ofNat D := by
  have hdrop := dropWhile_ofNat_append hD []
  rwa [List.append_nil] at hdrop

/-- The first digits of a number, up to a point, are a whole part. -/
theorem isWhole_take {k : Nat} (hk : k ≠ 0) : IsWhole ((ofNat D).take k) := by
  refine .inr ⟨⟨?_, fun c hc => isAsciiDigit_ofNat (List.mem_of_mem_take hc)⟩, ?_⟩
  · rw [Ne, List.take_eq_nil_iff]
    rintro (h | h)
    · exact hk h
    · exact ofNat_ne_nil D h
  · rw [List.head?_take, if_neg hk]
    exact head_ofNat hD

omit hD in
/-- Those behind the point are a fraction, if there are any. -/
theorem isDigits_drop {k : Nat} (hk : ¬ (ofNat D).length ≤ k) : IsDigits ((ofNat D).drop k) := by
  refine ⟨?_, fun c hc => isAsciiDigit_ofNat (List.mem_of_mem_drop hc)⟩
  rw [Ne, List.drop_eq_nil_iff]
  exact hk

/-- The digits stand behind the point, after zeros. -/
theorem exists_numeral_behind (hP : P < 0) :
    ∃ n : Numeral, n.negative = negative
      ∧ n.magnitudeText = Text.join ["0.", Binary64.zeros (-P - 1).toNat, ofNat D]
      ∧ n.token = .scalar (.double (Binary64.ofDecimal negative D (Binary64.digitCount D)
        (P + 1 - Binary64.digitCount D))) := by
  have hlen := length_ofNat D
  refine ⟨⟨negative, "0", some (Binary64.zeros (-P - 1).toNat ++ ofNat D), none, .inl rfl,
    by simpa using isDigits_zeros_append ..⟩, rfl, ?_, ?_⟩
  · simp [Numeral.magnitudeText, Numeral.fractionText, Numeral.exponentText, Text.join]
    rfl
  · rw [token_of_fraction rfl rfl]
    -- the zero before the point is one more zero in front
    have hzeros : ("0" : Text) ++ (Binary64.zeros (-P - 1).toNat ++ ofNat D)
        = Binary64.zeros ((-P - 1).toNat + 1) ++ ofNat D := rfl
    dsimp only
    rw [hzeros, valueOfDigits_zeros_append, dropWhile_zeros _ (head_ofNat hD), hlen,
      List.length_append, hlen, Binary64.zeros, List.length_replicate]
    congr 3
    push_cast
    omega

/-- The point stands behind the digits and the zeros that fill up. -/
theorem exists_numeral_before (hP : ¬ P < 0) (hle : (ofNat D).length ≤ P.toNat + 1) :
    ∃ n : Numeral, n.negative = negative
      ∧ n.magnitudeText
        = Text.join [ofNat D, Binary64.zeros (P.toNat + 1 - (ofNat D).length), ".0"]
      ∧ n.token = .scalar (.double (Binary64.ofDecimal negative D (Binary64.digitCount D)
        (P + 1 - Binary64.digitCount D))) := by
  have hlen := length_ofNat D
  have hwhole : IsWhole (ofNat D ++ Binary64.zeros (P.toNat + 1 - (ofNat D).length)) := by
    refine .inr ⟨⟨by simp [ofNat_ne_nil], fun c hc => ?_⟩, ?_⟩
    · rcases List.mem_append.1 hc with hc | hc
      · exact isAsciiDigit_ofNat hc
      · exact isAsciiDigit_of_mem_zeros hc
    · rw [List.head?_append_of_ne_nil _ (ofNat_ne_nil D)]
      exact head_ofNat hD
  refine ⟨⟨negative, _, some "0", none, hwhole, ?_⟩, rfl, ?_, ?_⟩
  · intro f hf
    cases hf
    exact ⟨by decide, fun c hc => isAsciiDigit_of_mem_zeros (n := 1) hc⟩
  · simp [Numeral.magnitudeText, Numeral.fractionText, Numeral.exponentText, Text.join]
    rfl
  · rw [token_of_fraction rfl rfl]
    dsimp only
    -- the zeros that fill up and the one behind the point are zeros at the end
    have hdigits : ofNat D ++ Binary64.zeros (P.toNat + 1 - (ofNat D).length) ++ ("0" : Text)
        = ofNat D ++ Binary64.zeros (P.toNat + 1 - (ofNat D).length + 1) := by
      rw [show ("0" : Text) = Binary64.zeros 1 from rfl, List.append_assoc]
      congr 1
      exact List.replicate_append_replicate
    rw [hdigits, valueOfDigits_append, valueOfDigits_zeros, valueOfDigits_ofNat, Nat.add_zero,
      dropWhile_ofNat_append hD, List.length_append, hlen, Binary64.zeros, List.length_replicate]
    -- and so the power that is read is smaller by their number
    rw [← Binary64.ofDecimal_shift negative D (Binary64.digitCount D)
      (P.toNat + 1 - Binary64.digitCount D + 1) (P + 1 - Binary64.digitCount D)]
    congr 3
    rw [hlen] at hle
    rw [show (("0" : Text).length : Int) = 1 from rfl]
    push_cast
    omega

/-- The point stands between the digits. -/
theorem exists_numeral_between (hP : ¬ P < 0) (hlt : ¬ (ofNat D).length ≤ P.toNat + 1) :
    ∃ n : Numeral, n.negative = negative
      ∧ n.magnitudeText
        = Text.join [(ofNat D).take (P.toNat + 1), ".", (ofNat D).drop (P.toNat + 1)]
      ∧ n.token = .scalar (.double (Binary64.ofDecimal negative D (Binary64.digitCount D)
        (P + 1 - Binary64.digitCount D))) := by
  have hlen := length_ofNat D
  refine ⟨⟨negative, _, some ((ofNat D).drop (P.toNat + 1)), none,
    isWhole_take hD (Nat.succ_ne_zero P.toNat), by simpa using isDigits_drop hlt⟩, rfl, ?_, ?_⟩
  · simp [Numeral.magnitudeText, Numeral.fractionText, Numeral.exponentText, Text.join]
    rfl
  · rw [token_of_fraction rfl rfl]
    dsimp only
    rw [List.take_append_drop, valueOfDigits_ofNat, dropWhile_ofNat hD, hlen, List.length_drop, hlen]
    rw [hlen] at hlt
    congr 3
    omega

/-- Digits in positional notation are read as the same decimal, wherever the point stands. -/
theorem exists_numeral_positional :
    ∃ n : Numeral, n.negative = negative ∧ n.magnitudeText = Binary64.positional (ofNat D) P ∧
      n.token = .scalar (.double (Binary64.ofDecimal negative D (Binary64.digitCount D)
        (P + 1 - Binary64.digitCount D))) := by
  unfold Binary64.positional
  split
  · rename_i hP
    exact exists_numeral_behind negative hD hP
  · rename_i hP
    dsimp only
    split
    · rename_i hle
      exact exists_numeral_before negative hD hP hle
    · rename_i hlt
      exact exists_numeral_between negative hD hP hlt

omit hD in
/-- A power is written as an exponent, with its sign and with zeros in front. -/
theorem exists_exponent_written (least : Nat) (P : Int) :
    ∃ e : Exponent, e.text = (if P < 0 then ("e-" : Text) else "e+")
        ++ (Binary64.zeros (least - (ofNat P.natAbs).length) ++ ofNat P.natAbs)
      ∧ (if e.sign = "-" then -(valueOfDigits e.digits : Int) else valueOfDigits e.digits) = P := by
  have hdigits := isDigits_zeros_append (least - (ofNat P.natAbs).length) P.natAbs
  have hvalue := valueOfDigits_zeros_append (least - (ofNat P.natAbs).length) P.natAbs
  by_cases hP : P < 0
  · refine ⟨⟨CodePoint.ofChar 'e', "-", _, by decide, by decide, hdigits⟩, ?_, ?_⟩
    · rw [if_pos hP]
      rfl
    · rw [if_pos rfl, hvalue]
      omega
  · refine ⟨⟨CodePoint.ofChar 'e', "+", _, by decide, by decide, hdigits⟩, ?_, ?_⟩
    · rw [if_neg hP]
      rfl
    · have hplus : ("+" : Text) ≠ "-" := by decide
      rw [if_neg hplus, hvalue]
      omega

/-- So are digits in scientific notation. -/
theorem exists_numeral_scientific (layout : Binary64.Layout) :
    ∃ n : Numeral, n.negative = negative ∧ n.magnitudeText = Binary64.scientific layout (ofNat D) P ∧
      n.token = .scalar (.double (Binary64.ofDecimal negative D (Binary64.digitCount D)
        (P + 1 - Binary64.digitCount D))) := by
  have hlen := length_ofNat D
  have hpos : 0 < (ofNat D).length := List.length_pos_iff.2 (ofNat_ne_nil D)
  have hwhole : IsWhole ((ofNat D).take 1) := isWhole_take hD Nat.one_ne_zero
  obtain ⟨e, htext, hvalue⟩ := exists_exponent_written layout.leastExponentDigits P
  unfold Binary64.scientific
  by_cases hone : (ofNat D).length ≤ 1
  · -- one digit has no point behind it
    refine ⟨⟨negative, _, none, some e, hwhole, by simp⟩, rfl, ?_, ?_⟩
    · simp [Numeral.magnitudeText, Numeral.fractionText, Numeral.exponentText, Text.join, htext, hone]
    · rw [token_of_exponent rfl]
      dsimp only
      rw [hvalue, Option.getD_none, List.append_nil, List.take_of_length_le hone, dropWhile_ofNat hD,
        valueOfDigits_ofNat, hlen]
      rw [hlen] at hone hpos
      congr 3
      simp only [List.length_nil]
      omega
  · refine ⟨⟨negative, _, some ((ofNat D).drop 1), some e, hwhole, by simpa using isDigits_drop hone⟩,
      rfl, ?_, ?_⟩
    · simp [Numeral.magnitudeText, Numeral.fractionText, Numeral.exponentText, Text.join, htext, hone]
    · rw [token_of_exponent rfl]
      dsimp only
      rw [hvalue, Option.getD_some, List.take_append_drop, dropWhile_ofNat hD, valueOfDigits_ofNat, hlen,
        List.length_drop, hlen]
      rw [hlen] at hone hpos
      congr 3
      omega

end Written

/-- The numeral of zero. -/
def zeroNumeral (negative : Bool) : Numeral where
  negative := negative
  whole := "0"
  fraction := some "0"
  exponent := none
  isWhole_whole := .inl rfl
  isDigits_fraction := by
    intro f hf
    cases hf
    exact ⟨by decide, fun c hc => isAsciiDigit_of_mem_zeros (n := 1) hc⟩

/-- What stands behind the sign of a finite double. -/
theorem toText_finite (negative : Bool) {m : Nat} (hm : m ≠ 0) (e : Int) :
    Binary64.toText doubleLayout (.finite negative m e)
      = (if negative then [CodePoint.ofChar '-'] else []) ++
        if (-4 : Int) ≤ (Binary64.shortest m e).power ∧ (Binary64.shortest m e).power ≤ 15 then
          Binary64.positional (ofNat (Binary64.shortest m e).digits) (Binary64.shortest m e).power
        else
          Binary64.scientific doubleLayout (ofNat (Binary64.shortest m e).digits)
            (Binary64.shortest m e).power := by
  unfold Binary64.toText
  dsimp only
  rw [if_neg hm]
  cases negative <;> rfl

/-- A double without digits is written as zero. -/
theorem toText_zero (negative : Bool) {m : Nat} {e : Int}
    (h : m = 0 ∨ ((Binary64.shortest m e).digits = 0 ∧ (Binary64.shortest m e).power = 0)) :
    Binary64.toText doubleLayout (.finite negative m e) = (zeroNumeral negative).text := by
  by_cases hm : m = 0
  · subst hm
    cases negative <;> rfl
  · obtain ⟨hdigits, hpower⟩ := h.resolve_left hm
    rw [toText_finite negative hm, hdigits, hpower]
    cases negative <;> rfl

theorem toText_reread (x : Binary64) :
    Binary64.toText doubleLayout x.reread = Binary64.toText doubleLayout x := by
  cases x with
  | infinity negative => rfl
  | nan => rfl
  | finite negative m e =>
    by_cases hm : m = 0
    · subst hm
      rw [Binary64.reread_finite, if_neg (by simp), toText_zero negative (.inl rfl),
        toText_zero negative (.inl rfl)]
    · rcases Binary64.ofDecimal_shortest negative hm e with ⟨h1, h2, hreread⟩ | ⟨-, hreread, -⟩
      · rw [hreread, toText_zero negative (.inl rfl), toText_zero negative (.inr ⟨h1, h2⟩)]
      · rw [hreread]

/-- **A finite double is read as what its digits read back as.** -/
theorem exists_numeral_double (negative : Bool) (m : Nat) (e : Int) :
    ∃ n : Numeral, n.text = Binary64.toText doubleLayout (.finite negative m e) ∧
      n.token = .scalar (.double (Binary64.reread (.finite negative m e))) := by
  have hzero : (zeroNumeral negative).token = .scalar (.double (.finite negative 0 Binary64.minExponent)) := by
    cases negative <;> rfl
  by_cases hm : m = 0
  · subst hm
    refine ⟨zeroNumeral negative, (toText_zero negative (.inl rfl)).symm, ?_⟩
    rw [Binary64.reread_finite, if_neg (by simp)]
    exact hzero
  rcases Binary64.ofDecimal_shortest negative hm e with ⟨h1, h2, hreread⟩ | ⟨hdigits, hreread, hreads⟩
  · refine ⟨zeroNumeral negative, (toText_zero negative (.inr ⟨h1, h2⟩)).symm, ?_⟩
    rw [hreread]
    exact hzero
  · rw [hreread, toText_finite negative hm]
    -- both notations are read as the same decimal
    have hbody : ∃ n : Numeral, n.negative = negative ∧ n.magnitudeText =
          (if (-4 : Int) ≤ (Binary64.shortest m e).power ∧ (Binary64.shortest m e).power ≤ 15 then
            Binary64.positional (ofNat (Binary64.shortest m e).digits) (Binary64.shortest m e).power
          else
            Binary64.scientific doubleLayout (ofNat (Binary64.shortest m e).digits)
              (Binary64.shortest m e).power)
        ∧ n.token = .scalar (.double (.finite negative m e)) := by
      rw [← hreads]
      split
      · exact exists_numeral_positional negative hdigits
      · exact exists_numeral_scientific negative hdigits doubleLayout
    obtain ⟨n, hnegative, htext, htoken⟩ := hbody
    refine ⟨n, ?_, htoken⟩
    unfold Numeral.text
    rw [hnegative, htext]

end Json

end ModuleBuild
