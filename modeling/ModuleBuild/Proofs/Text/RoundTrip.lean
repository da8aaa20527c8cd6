/-
  ModuleBuild.Proofs.Text.RoundTrip
  ─────────────────────────────────
  **WHAT WAS WRITTEN IS READ BACK.**

  The writer gives each code point between one and four bytes; the reader
  takes them one at a time and is between characters again behind them, with
  the code point read.  The ranges that the reader asks of the second byte are
  those that leave out surrogates and code points with shorter forms, and the
  writer uses neither.

  Main results:
    * `decodeFrom_encodeOne` — the bytes of one code point are read as that;
    * `decode_encode` — a file that was written from a text is read as that text;
    * `isSurrogate_of_decode` — whatever is read can be written.
-/
import Mathlib.Algebra.Group.Nat.Defs
import ModuleBuild.Text.Utf8

namespace ModuleBuild

namespace Utf8

/-! ## §1. Bytes that follow the first. -/

theorem toNat_byte {n : Nat} (h : n < 0x100) : (UInt8.ofNat n).toNat = n := by
  rw [UInt8.toNat_ofNat']
  exact Nat.mod_eq_of_lt h

variable {pos taken low high value k : Nat} {first : UInt8} {bs : Bytes}

/-- The last byte of a character completes it. -/
theorem decodeFrom_inside_last (hk : k < 0x40) (hlow : low ≤ 0x80 + k) (hhigh : 0x80 + k ≤ high) :
    decodeFrom pos (.inside first taken 1 low high value) (UInt8.ofNat (0x80 + k) :: bs)
      = (decodeFrom (pos + 1) .between bs).map (CodePoint.ofNat (value * 0x40 + k) :: ·) := by
  have hbyte : (UInt8.ofNat (0x80 + k)).toNat = 0x80 + k := toNat_byte (by omega)
  rw [decodeFrom]
  dsimp only
  rw [hbyte, if_pos ⟨hlow, hhigh⟩, if_pos (Nat.le_refl 1), Nat.add_sub_cancel_left]

/-- A byte before the last adds six bits. -/
theorem decodeFrom_inside_more (owed : Nat) (hk : k < 0x40) (hlow : low ≤ 0x80 + k) (hhigh : 0x80 + k ≤ high) :
    decodeFrom pos (.inside first taken (owed + 2) low high value) (UInt8.ofNat (0x80 + k) :: bs)
      = decodeFrom (pos + 1) (.inside first (taken + 1) (owed + 1) 0x80 0xBF (value * 0x40 + k))
          bs := by
  have hbyte : (UInt8.ofNat (0x80 + k)).toNat = 0x80 + k := toNat_byte (by omega)
  have howed : ¬ owed + 2 ≤ 1 := by omega
  rw [decodeFrom]
  dsimp only
  rw [hbyte, if_pos ⟨hlow, hhigh⟩, if_neg howed, Nat.add_sub_cancel_left]
  rfl

/-- The first byte of a character of several bytes. -/
theorem decodeFrom_lead {n : Nat} {state : State} (hn : n < 0x100) (hbig : ¬ n < 0x80)
    (hlead : lead (UInt8.ofNat n) = some state) :
    decodeFrom pos .between (UInt8.ofNat n :: bs) = decodeFrom (pos + 1) state bs := by
  rw [decodeFrom, toNat_byte hn, if_neg hbig, hlead]

/-! ## §2. One code point. -/

/-- The state behind the first byte of a character, for each of the six ranges of first bytes. -/
theorem lead_eq {n : Nat} (hn : n < 0x100) :
    lead (UInt8.ofNat n)
      = if 0xC2 ≤ n ∧ n ≤ 0xDF then some (.inside (UInt8.ofNat n) 1 1 0x80 0xBF (n - 0xC0))
        else if n = 0xE0 then some (.inside (UInt8.ofNat n) 1 2 0xA0 0xBF 0)
        else if n = 0xED then some (.inside (UInt8.ofNat n) 1 2 0x80 0x9F 0xD)
        else if 0xE1 ≤ n ∧ n ≤ 0xEF then some (.inside (UInt8.ofNat n) 1 2 0x80 0xBF (n - 0xE0))
        else if n = 0xF0 then some (.inside (UInt8.ofNat n) 1 3 0x90 0xBF 0)
        else if 0xF1 ≤ n ∧ n ≤ 0xF3 then some (.inside (UInt8.ofNat n) 1 3 0x80 0xBF (n - 0xF0))
        else if n = 0xF4 then some (.inside (UInt8.ofNat n) 1 3 0x80 0x8F 4)
        else none := by
  unfold lead
  rw [toNat_byte hn]

/-- The first byte of a character of three bytes, with the range of the second. -/
theorem lead_three {n : Nat} (hlow : 0xE0 ≤ n) (hhigh : n ≤ 0xEF) :
    lead (UInt8.ofNat n)
      = some (.inside (UInt8.ofNat n) 1 2 (if n = 0xE0 then 0xA0 else 0x80)
          (if n = 0xED then 0x9F else 0xBF) (n - 0xE0)) := by
  rw [lead_eq (by omega), if_neg (by omega)]
  by_cases h0 : n = 0xE0
  · subst h0
    rfl
  · by_cases hd : n = 0xED
    · subst hd
      rfl
    · rw [if_neg h0, if_neg hd, if_pos ⟨by omega, hhigh⟩, if_neg h0, if_neg hd]

/-- The first byte of a character of four bytes. -/
theorem lead_four {n : Nat} (hlow : 0xF0 ≤ n) (hhigh : n ≤ 0xF4) :
    lead (UInt8.ofNat n)
      = some (.inside (UInt8.ofNat n) 1 3 (if n = 0xF0 then 0x90 else 0x80)
          (if n = 0xF4 then 0x8F else 0xBF) (n - 0xF0)) := by
  rw [lead_eq (by omega), if_neg (by omega), if_neg (by omega), if_neg (by omega),
    if_neg (by omega)]
  by_cases h0 : n = 0xF0
  · subst h0
    rfl
  · by_cases h4 : n = 0xF4
    · subst h4
      rfl
    · rw [if_neg h0, if_pos ⟨by omega, by omega⟩, if_neg h0, if_neg h4]

/-- A character of two bytes. -/
theorem decodeFrom_two {n : Nat} (hlow : 0x80 ≤ n) (hhigh : n < 0x800) (pos : Nat) (bs : Bytes) :
    decodeFrom pos .between (UInt8.ofNat (0xC0 + n / 0x40) :: UInt8.ofNat (0x80 + n % 0x40) :: bs)
      = (decodeFrom (pos + 2) .between bs).map (CodePoint.ofNat n :: ·) := by
  have hlead := lead_eq (n := 0xC0 + n / 0x40) (by omega)
  rw [if_pos ⟨by omega, by omega⟩, Nat.add_sub_cancel_left] at hlead
  rw [decodeFrom_lead (by omega) (by omega) hlead,
    decodeFrom_inside_last (by omega) (by omega) (by omega)]
  have hvalue : n / 0x40 * 0x40 + n % 0x40 = n := by omega
  rw [hvalue]

/-- A character of three bytes, that is no surrogate. -/
theorem decodeFrom_three {n : Nat} (hlow : 0x800 ≤ n) (hhigh : n < 0x10000)
    (hnot : n < 0xD800 ∨ 0xDFFF < n) (pos : Nat) (bs : Bytes) :
    decodeFrom pos .between (UInt8.ofNat (0xE0 + n / 0x1000)
        :: UInt8.ofNat (0x80 + n / 0x40 % 0x40) :: UInt8.ofNat (0x80 + n % 0x40) :: bs)
      = (decodeFrom (pos + 3) .between bs).map (CodePoint.ofNat n :: ·) := by
  have hlead := lead_three (n := 0xE0 + n / 0x1000) (by omega) (by omega)
  rw [decodeFrom_lead (by omega) (by omega) hlead,
    decodeFrom_inside_more 0 (by omega) (by split <;> omega) (by split <;> omega),
    decodeFrom_inside_last (by omega) (by omega) (by omega)]
  have hvalue : ((0xE0 + n / 0x1000 - 0xE0) * 0x40 + n / 0x40 % 0x40) * 0x40 + n % 0x40 = n := by
    omega
  rw [hvalue]

/-- A character of four bytes. -/
theorem decodeFrom_four {n : Nat} (hlow : 0x10000 ≤ n) (hhigh : n < 0x110000) (pos : Nat)
    (bs : Bytes) :
    decodeFrom pos .between (UInt8.ofNat (0xF0 + n / 0x40000)
        :: UInt8.ofNat (0x80 + n / 0x1000 % 0x40) :: UInt8.ofNat (0x80 + n / 0x40 % 0x40)
        :: UInt8.ofNat (0x80 + n % 0x40) :: bs)
      = (decodeFrom (pos + 4) .between bs).map (CodePoint.ofNat n :: ·) := by
  have hlead := lead_four (n := 0xF0 + n / 0x40000) (by omega) (by omega)
  rw [decodeFrom_lead (by omega) (by omega) hlead,
    decodeFrom_inside_more 1 (by omega) (by split <;> omega) (by split <;> omega),
    decodeFrom_inside_more 0 (by omega) (by omega) (by omega),
    decodeFrom_inside_last (by omega) (by omega) (by omega)]
  have hvalue : (((0xF0 + n / 0x40000 - 0xF0) * 0x40 + n / 0x1000 % 0x40) * 0x40
      + n / 0x40 % 0x40) * 0x40 + n % 0x40 = n := by omega
  rw [hvalue]

/-- **The bytes of a code point are read as that code point**, whatever follows them.  One case for each
number of bytes. -/
theorem decodeFrom_encodeOne {c : CodePoint} (hc : c.isSurrogate = false) (pos : Nat) (bs : Bytes) :
    decodeFrom pos .between (encodeOne c ++ bs)
      = (decodeFrom (pos + (encodeOne c).length) .between bs).map (c :: ·) := by
  have hlt := c.code_lt
  have hnot : c.code < 0xD800 ∨ 0xDFFF < c.code := by
    unfold CodePoint.isSurrogate at hc
    rw [Bool.and_eq_false_iff, decide_eq_false_iff_not, decide_eq_false_iff_not] at hc
    omega
  have hself : CodePoint.ofNat c.code = c := CodePoint.ofNat_code c
  have hsix : c.code / Nat.pow 2 6 = c.code / 0x40 := rfl
  have htwelve : c.code / Nat.pow 2 12 = c.code / 0x1000 := rfl
  have hnone : c.code / Nat.pow 2 0 = c.code := Nat.div_one _
  -- how many bytes there are decides which lemma applies
  unfold encodeOne
  dsimp only
  rw [hnone, hsix, htwelve]
  by_cases h1 : c.code < 0x80
  · rw [if_pos h1]
    have hbyte := toNat_byte (n := c.code) (by omega)
    show decodeFrom pos .between (UInt8.ofNat c.code :: bs) = _
    rw [decodeFrom_ascii_cons (by omega), hbyte, hself]
    rfl
  by_cases h2 : c.code < 0x800
  · rw [if_neg h1, if_pos h2]
    have htwo := decodeFrom_two (Nat.not_lt.1 h1) h2 pos bs
    rw [hself] at htwo
    exact htwo
  by_cases h3 : c.code < 0x10000
  · rw [if_neg h1, if_neg h2, if_pos h3]
    have hthree := decodeFrom_three (Nat.not_lt.1 h2) h3 hnot pos bs
    rw [hself] at hthree
    exact hthree
  · rw [if_neg h1, if_neg h2, if_neg h3]
    have hfour := decodeFrom_four (Nat.not_lt.1 h3) hlt pos bs
    rw [hself] at hfour
    exact hfour

/-! ## §3. Texts. -/

theorem isSurrogate_of_surrogates? {t : Text} :
    ∀ {pos : Nat}, surrogates? pos t = none → ∀ c ∈ t, c.isSurrogate = false := by
  induction t with
  | nil =>
    intro pos _ c hc
    cases hc
  | cons d rest ih =>
    intro pos h c hc
    unfold surrogates? at h
    split at h
    · cases h
    · rename_i hd
      rcases List.mem_cons.1 hc with rfl | hc
      · simpa using hd
      · exact ih h c hc

theorem decodeFrom_flatMap {t : Text} (h : ∀ c ∈ t, c.isSurrogate = false) :
    ∀ pos, decodeFrom pos .between (t.flatMap encodeOne) = .ok t := by
  induction t with
  | nil =>
    intro pos
    rfl
  | cons c rest ih =>
    intro pos
    rw [List.flatMap_cons, decodeFrom_encodeOne (h c (by simp)),
      ih fun d hd => h d (List.mem_cons_of_mem c hd)]
    rfl

/-- **A file that was written from a text is read as that text.** -/
theorem decode_encode {t : Text} {bs : Bytes} (h : encode t = .ok bs) : decode bs = .ok t := by
  unfold encode at h
  split at h
  · cases h
  · rename_i hnone
    cases h
    exact decodeFrom_flatMap (isSurrogate_of_surrogates? hnone) 0

/-! ## §4. What is read can be written. -/

theorem encode_of_scalar {t : Text} (h : ∀ c ∈ t, c.isSurrogate = false) :
    encode t = .ok (t.flatMap encodeOne) := by
  have hnone : ∀ {s : Text} (pos : Nat), (∀ c ∈ s, c.isSurrogate = false) → surrogates? pos s = none := by
    intro s
    induction s with
    | nil => exact fun _ _ => rfl
    | cons c rest ih =>
      intro pos hs
      unfold surrogates?
      rw [if_neg (by simp [hs c (List.mem_cons_self ..)])]
      exact ih (pos + 1) fun d hd => hs d (List.mem_cons_of_mem c hd)
  unfold encode
  rw [hnone 0 h]

theorem isSurrogate_ofNat {n : Nat} (h : n < 0xD800 ∨ 0xE000 ≤ n) :
    (CodePoint.ofNat n).isSurrogate = false := by
  unfold CodePoint.ofNat CodePoint.isSurrogate
  split
  · rcases h with h | h
    · simp [show ¬ 0xD800 ≤ n by omega]
    · simp [show ¬ n ≤ 0xDFFF by omega]
  · rfl

/-- A state in which no character that can be completed is a surrogate. -/
def State.Scalar : State → Prop
  | .between => True
  | .inside _ _ owed low high value =>
    0 < owed ∧ (value * 0x40 ^ owed + (high - 0x80 + 1) * 0x40 ^ (owed - 1) ≤ 0xD800
      ∨ 0xE000 ≤ value * 0x40 ^ owed + (low - 0x80) * 0x40 ^ (owed - 1))

theorem scalar_between : State.between.Scalar := trivial

theorem scalar_lead {b : UInt8} {state : State} (h : lead b = some state) : state.Scalar := by
  unfold lead at h
  dsimp only at h
  repeat' split at h
  all_goals cases h
  all_goals simp only [State.Scalar]
  all_goals omega

/-- One more byte leaves such a state, or completes a character that is no surrogate. -/
theorem scalar_step {owed low high value n : Nat} (howed : 0 < owed)
    (hscalar : value * 0x40 ^ owed + (high - 0x80 + 1) * 0x40 ^ (owed - 1) ≤ 0xD800
      ∨ 0xE000 ≤ value * 0x40 ^ owed + (low - 0x80) * 0x40 ^ (owed - 1))
    (hlow : low ≤ n) (hhigh : n ≤ high) :
    (value * 0x40 + (n - 0x80) + 1) * 0x40 ^ (owed - 1) ≤ 0xD800
      ∨ 0xE000 ≤ (value * 0x40 + (n - 0x80)) * 0x40 ^ (owed - 1) := by
  obtain ⟨more, rfl⟩ : ∃ more, owed = more + 1 := ⟨owed - 1, by omega⟩
  rw [Nat.add_sub_cancel] at hscalar ⊢
  have hsplit : ∀ k, value * 0x40 ^ (more + 1) + k * 0x40 ^ more = (value * 0x40 + k) * 0x40 ^ more := by
    intro k
    rw [Nat.add_mul, Nat.pow_succ, Nat.mul_assoc, Nat.mul_comm (0x40 ^ more) 0x40]
  rw [hsplit, hsplit] at hscalar
  rcases hscalar with h | h
  · exact .inl (Nat.le_trans (Nat.mul_le_mul_right _ (by omega)) h)
  · exact .inr (Nat.le_trans h (Nat.mul_le_mul_right _ (by omega)))

/-- No character that is read is a surrogate. -/
theorem isSurrogate_of_decodeFrom {bs : Bytes} :
    ∀ {pos : Nat} {state : State} {t : Text}, state.Scalar → decodeFrom pos state bs = .ok t →
      ∀ c ∈ t, c.isSurrogate = false := by
  -- a character that was completed stands in front of what the rest gives
  have hcons : ∀ {n : Nat} {rest : Except DecodeFault Text} {t : Text},
      (n < 0xD800 ∨ 0xE000 ≤ n) → (∀ s, rest = .ok s → ∀ c ∈ s, c.isSurrogate = false) →
      rest.map (CodePoint.ofNat n :: ·) = .ok t → ∀ c ∈ t, c.isSurrogate = false := by
    intro n rest t hn hrest h c hc
    cases rest with
    | error fault => cases h
    | ok s =>
      cases h
      rcases List.mem_cons.1 hc with rfl | hc
      · exact isSurrogate_ofNat hn
      · exact hrest s rfl c hc
  induction bs with
  | nil =>
    intro pos state t _ h c hc
    cases state with
    | between =>
      cases h
      cases hc
    | inside => cases h
  | cons b bs ih =>
    intro pos state t hstate h
    cases state with
    | between =>
      rw [decodeFrom] at h
      split at h
      · exact hcons (.inl (by omega)) (fun s hs => ih scalar_between hs) h
      · split at h
        · cases h
        · rename_i state' hlead
          exact ih (scalar_lead hlead) h
    | inside first taken owed low high value =>
      rw [decodeFrom] at h
      split at h
      · rename_i hrange
        have hstep := scalar_step hstate.1 hstate.2 hrange.1 hrange.2
        dsimp only at h
        split at h
        · rename_i hlast
          obtain rfl : owed = 1 := Nat.le_antisymm hlast hstate.1
          simp only [Nat.sub_self, Nat.pow_zero, Nat.mul_one] at hstep
          exact hcons (by omega) (fun s hs => ih scalar_between hs) h
        · rename_i hmore
          -- the next byte may be any that follows a first
          obtain ⟨more, rfl⟩ : ∃ more, owed = more + 2 := ⟨owed - 2, by omega⟩
          have hnext : (State.inside first (taken + 1) (more + 2 - 1) 0x80 0xBF
              (value * 0x40 + (b.toNat - 0x80))).Scalar := by
            refine ⟨by omega, ?_⟩
            show _ * 0x40 ^ (more + 1) + 0x40 * 0x40 ^ more ≤ _ ∨ _ ≤ _ * 0x40 ^ (more + 1) + 0 * _
            rw [Nat.zero_mul, Nat.add_zero, ← Nat.pow_succ', ← Nat.succ_mul]
            exact hstep
          exact ih hnext h
      · cases h

/-- **A text that was read can be written.** -/
theorem isSurrogate_of_decode {t : Text} {bs : Bytes} (h : decode bs = .ok t) :
    ∀ c ∈ t, c.isSurrogate = false :=
  isSurrogate_of_decodeFrom scalar_between h

end Utf8

end ModuleBuild
