/-
  ModuleBuild.Proofs.ModuleText.Insertion
  ───────────────────────────────────────
  **COMPLETING A TEXT ONLY INSERTS.**

  Whatever the text is, a module or not, completing it puts `.js` in at some
  positions and does nothing else.  Each position is that of the quote that
  closes the specifier of a statement which one of the passes has met, and no
  position is used twice: what opens a from-statement opens no bare one, and
  the pass that comes second sees what stands before a quote as it was, or
  completed and then opening nothing.

  For the same reason the second run of a pass meets no statement that its
  first run has not met.

  Main results:
    * `passPieces_inserts` — both passes over some pieces, by insertions;
    * `complete_inserts` — what completing a text inserts, and what a second run meets.
-/
import Mathlib
import ModuleBuild.Proofs.ModuleText.Items

namespace ModuleBuild

namespace ModuleText

/-! ## §1. Insertions. -/

/-- A text with another put in before what stands at some positions, counted from `start`. -/
def insertBefore (ext : Text) (places : Finset ℕ) : ℕ → Text → Text
  | _, [] => []
  | start, c :: rest =>
    (if start ∈ places then ext else []) ++ c :: insertBefore ext places (start + 1) rest

section

variable {ext : Text} {places places' : Finset ℕ}

theorem insertBefore_append (s t : Text) (start : ℕ) :
    insertBefore ext places start (s ++ t)
      = insertBefore ext places start s ++ insertBefore ext places (start + s.length) t := by
  induction s generalizing start with
  | nil => rfl
  | cons c s ih =>
    have hstart : start + (c :: s).length = start + 1 + s.length := by
      rw [List.length_cons]
      omega
    rw [hstart]
    simp only [List.cons_append, insertBefore, ih, List.append_assoc]

/-- What is put in depends on the positions in the text only. -/
theorem insertBefore_congr {t : Text} {start : ℕ}
    (h : ∀ i, start ≤ i → i < start + t.length → (i ∈ places ↔ i ∈ places')) :
    insertBefore ext places start t = insertBefore ext places' start t := by
  induction t generalizing start with
  | nil => rfl
  | cons c t ih =>
    rw [List.length_cons] at h
    have hrest : insertBefore ext places (start + 1) t = insertBefore ext places' (start + 1) t :=
      ih fun i hlow hhigh => h i (by omega) (by omega)
    simp only [insertBefore, h start (Nat.le_refl start) (by omega), hrest]

/-- Nothing is put in at positions outside the text. -/
theorem insertBefore_of_outside {t : Text} {start : ℕ}
    (h : ∀ i, start ≤ i → i < start + t.length → i ∉ places) :
    insertBefore ext places start t = t := by
  induction t generalizing start with
  | nil => rfl
  | cons c t ih =>
    rw [List.length_cons] at h
    have hrest : insertBefore ext places (start + 1) t = t :=
      ih fun i hlow hhigh => h i (by omega) (by omega)
    rw [insertBefore, if_neg (h start (Nat.le_refl start) (by omega)), hrest]
    rfl

/-- Putting in at the first position puts in front. -/
theorem insertBefore_insert {start : ℕ} (hstart : start ∉ places) (c : CodePoint) (t : Text) :
    insertBefore ext (insert start places) start (c :: t)
      = ext ++ insertBefore ext places start (c :: t) := by
  have hrest : insertBefore ext (insert start places) (start + 1) t
      = insertBefore ext places (start + 1) t := by
    refine insertBefore_congr fun i hlow _ => ?_
    rw [Finset.mem_insert]
    exact or_iff_right (by omega)
  rw [insertBefore, insertBefore, hrest, if_pos (Finset.mem_insert_self ..), if_neg hstart]
  rfl

/-- Behind a piece in which nothing is put in. -/
theorem insertBefore_piece (p : Piece) (t : Text) {start : ℕ}
    (h : ∀ i ∈ places, start + 1 + p.run.length ≤ i) :
    insertBefore ext places start (p.quote :: p.run ++ t)
      = p.quote :: p.run ++ insertBefore ext places (start + 1 + p.run.length) t := by
  have hlength : start + (p.quote :: p.run).length = start + 1 + p.run.length := by
    rw [List.length_cons]
    omega
  rw [insertBefore_append, hlength, insertBefore_of_outside]
  intro i hlow hhigh hi
  have := h i hi
  omega

end

/-! ## §2. What a pass meets, and where. -/

/-- A specifier that a pass replaces, and the position of the quote that closes it. -/
structure Met where
  closing : ℕ
  specifier : Text

/-- What a pass meets in some pieces, of which the first stands at `start`. -/
def metPieces (opens : Text → Bool) (start : ℕ) (run : Text) : List Piece → List Met
  | [] => []
  | [_] => []
  | p :: p' :: rest =>
    if opens run && p.quote = p'.quote && isTarget p.run then
      ⟨start + 1 + p.run.length, p.run⟩
        :: metPieces opens (start + 1 + p.run.length + 1 + p'.run.length) p'.run rest
    else metPieces opens (start + 1 + p.run.length) p.run (p' :: rest)

/-- What a pass meets in a text. -/
def met (opens : Text → Bool) (t : Text) : List Met :=
  metPieces opens (cut t).1.length (cut t).1 (cut t).2

variable {opens : Text → Bool} {f : Text → Text}

theorem specifier_metPieces (start : ℕ) (run : Text) (pieces : List Piece) :
    (metPieces opens start run pieces).map Met.specifier = targetsOf opens run pieces := by
  fun_induction metPieces opens start run pieces with
  | case1 => rfl
  | case2 => rfl
  | case3 start run p p' rest h ih => rw [targetsOf, if_pos h, List.map_cons, ih]
  | case4 start run p p' rest h ih => rw [targetsOf, if_neg h, ih]

/-- The specifiers that are met are those that the pass replaces, in order. -/
theorem specifier_met (t : Text) : (met opens t).map Met.specifier = targets opens t :=
  specifier_metPieces ..

theorem metPieces_cons (hf : ∀ s, opens (f s) = false) (start : ℕ) (run : Text) (p : Piece)
    (pieces : List Piece) :
    metPieces opens start run (p :: pieces)
      = (if replaces opens run p (firstQuote? pieces) then
            [⟨start + 1 + p.run.length, p.run⟩] else [])
        ++ metPieces opens (start + 1 + p.run.length)
            (passPiece opens f run p (firstQuote? pieces)).run pieces := by
  cases pieces with
  | nil => simp [metPieces, replaces, firstQuote?]
  | cons p' rest =>
    rw [metPieces, passPiece, replaces_cons]
    split
    · cases rest with
      | nil => rfl
      | cons q rest => simp [metPieces, hf]
    · rfl

/-- Whether a pass meets, up to a position, a specifier that is not complete. -/
def MeetsAt (mets : List Met) (i : ℕ) : Prop :=
  ∃ m ∈ mets, m.closing = i ∧ Specifier.addExtension m.specifier ≠ m.specifier

/-! ## §3. Statements in a text. -/

theorem eq_of_later_of_opens {k : Kind} {s s' : Text} (h : Later s s') (ho : k.opens s' = true) :
    s' = s := by
  cases k with
  | «from» => exact eq_of_later_of_opensFrom h ho
  | bare => exact eq_of_later_of_opensBare h ho

/-- The run that stands behind some pieces, or before all of them. -/
def lastRun (run : Text) (pieces : List Piece) : Text := (pieces.getLast?.map Piece.run).getD run

theorem lastRun_cons (run : Text) (p : Piece) (pieces : List Piece) :
    lastRun run (p :: pieces) = lastRun p.run pieces := by
  cases pieces with
  | nil => rfl
  | cons q pieces => rw [lastRun, lastRun, List.getLast?_cons_cons]; rfl

/-- The piece that ends at a position is the specifier of a statement of some kind. -/
def EndsSpecifier (k : Kind) (start : ℕ) (run : Text) (pieces : List Piece) (i : ℕ) : Prop :=
  ∃ front p p' rest, pieces = front ++ p :: p' :: rest ∧
    i = start + (glueAll front).length + 1 + p.run.length ∧ p.quote = p'.quote ∧
    isTarget p.run = true ∧ k.opens (lastRun run front) = true

/-- A quote closes the specifier of a statement of some kind: what stands between the last two quotes,
or before them, opens such a statement. -/
def ClosesStatement (k : Kind) (t : Text) (i : ℕ) : Prop :=
  ∃ front run q s rest, t = front ++ run ++ q :: s ++ q :: rest ∧
    i = (front ++ run ++ q :: s).length ∧ isQuote q = true ∧ isTarget s = true ∧
    (∀ c ∈ run ++ s, isQuote c = false) ∧ k.opens run = true ∧
    ∀ c, front.getLast? = some c → isQuote c = true

theorem glueAll_append (ps qs : List Piece) : glueAll (ps ++ qs) = glueAll ps ++ glueAll qs := by
  induction ps with
  | nil => rfl
  | cons p ps ih => simp [glueAll, ih]

/-- Pieces of a text are places in it. -/
theorem closesStatement_of_endsSpecifier {k : Kind} {t : Text} {i : ℕ}
    (h : EndsSpecifier k (cut t).1.length (cut t).1 (cut t).2 i) : ClosesStatement k t i := by
  obtain ⟨front, p, p', rest, hpieces, hi, hquote, htarget, hopens⟩ := h
  have hcut := isQuote_cut (t := t)
  have ht := glue_cut t
  rw [hpieces] at hcut ht
  have hp := hcut.2 p (by simp)
  have hp' := hcut.2 p' (by simp)
  have htext : t = (cut t).1 ++ glueAll front ++ p.quote :: p.run
      ++ p.quote :: (p'.run ++ glueAll rest) := by
    refine ht.symm.trans ?_
    simp [glue, glueAll_append, glueAll, hquote]
  -- what opens the specifier is the first run, or the run of the last piece before it
  rcases List.eq_nil_or_concat front with rfl | ⟨init, last, rfl⟩
  · refine ⟨[], (cut t).1, p.quote, p.run, p'.run ++ glueAll rest, ?_, ?_, hp.1, htarget,
      plain_append hcut.1 hp.2, hopens, by simp⟩
    · simpa [glueAll] using htext
    · simp [hi, glueAll]
      omega
  · rw [List.concat_eq_append] at hcut htext hi hopens
    have hlast := hcut.2 last (by simp)
    rw [lastRun, List.getLast?_concat] at hopens
    rw [glueAll_append] at htext hi
    refine ⟨(cut t).1 ++ glueAll init ++ [last.quote], last.run, p.quote, p.run,
      p'.run ++ glueAll rest, ?_, ?_, hp.1, htarget, plain_append hlast.2 hp.2, hopens, ?_⟩
    · simpa [glueAll] using htext
    · simp [hi, glueAll]
      omega
    · intro c hc
      rw [List.getLast?_concat] at hc
      cases hc
      exact hlast.1

/-- One piece further on. -/
theorem EndsSpecifier.cons {k : Kind} {start i : ℕ} {run : Text} {p : Piece} {pieces : List Piece}
    (h : EndsSpecifier k (start + 1 + p.run.length) p.run pieces i) :
    EndsSpecifier k start run (p :: pieces) i := by
  obtain ⟨front, q, q', rest, rfl, hi, hquote, htarget, hopens⟩ := h
  refine ⟨p :: front, q, q', rest, rfl, ?_, hquote, htarget, ?_⟩
  · rw [hi, glueAll]
    simp
    omega
  · rw [lastRun_cons]
    exact hopens

/-- A piece that a pass replaces is the specifier of a statement. -/
theorem endsSpecifier_of_replaces {k : Kind} {run : Text} {p : Piece} {pieces : List Piece}
    (h : replaces k.opens run p (firstQuote? pieces) = true) (start : ℕ) :
    EndsSpecifier k start run (p :: pieces) (start + 1 + p.run.length) := by
  obtain ⟨hopens, hnext, htarget⟩ := (replaces_iff run p _).1 h
  cases pieces with
  | nil => cases hnext
  | cons p' rest =>
    exact ⟨[], p, p', rest, rfl, by simp [glueAll], (Option.some.inj hnext).symm, htarget, hopens⟩

/-- What stands in front of the pieces matters as it was, for what has been completed opens nothing. -/
theorem EndsSpecifier.earlier {k : Kind} {start i : ℕ} {run run' : Text} {pieces : List Piece}
    (hlater : Later run run') (h : EndsSpecifier k start run' pieces i) :
    EndsSpecifier k start run pieces i := by
  obtain ⟨front, q, q', rest, hpieces, hi, hquote, htarget, hopens⟩ := h
  refine ⟨front, q, q', rest, hpieces, hi, hquote, htarget, ?_⟩
  cases front with
  | nil => exact eq_of_later_of_opens hlater hopens ▸ hopens
  | cons r front => exact hopens

/-! ## §4. Both passes, piece by piece. -/

/-- Some positions, and one more if it is marked. -/
def mark (marked : Bool) (i : ℕ) (places : Finset ℕ) : Finset ℕ :=
  if marked then insert i places else places

theorem mem_mark {marked : Bool} {i j : ℕ} {places : Finset ℕ} :
    j ∈ mark marked i places ↔ marked = true ∧ j = i ∨ j ∈ places := by
  cases marked <;> simp [mark]

theorem card_filter_mark {marked : Bool} {i j : ℕ} {places : Finset ℕ} (hi : i ∉ places)
    (hj : i < j) :
    ((mark marked i places).filter (· < j)).card
      = (if marked then 1 else 0) + (places.filter (· < j)).card := by
  cases marked with
  | false => simp [mark]
  | true =>
    have hnot : i ∉ places.filter (· < j) := fun h => hi (Finset.mem_filter.1 h).1
    rw [mark, if_pos rfl, Finset.filter_insert, if_pos hj, Finset.card_insert_of_notMem hnot]
    simp [Nat.add_comm]

theorem mark_union (x y : Bool) (i : ℕ) (P B : Finset ℕ) :
    mark x i P ∪ mark y i B = mark (x || y) i (P ∪ B) := by
  cases x <;> cases y <;> simp [mark]

theorem disjoint_mark {x y : Bool} {i : ℕ} {P B : Finset ℕ} (h : Disjoint P B) (hP : i ∉ P)
    (hB : i ∉ B) (hone : x = true → y = true → False) : Disjoint (mark x i P) (mark y i B) := by
  cases x <;> cases y <;> simp_all [mark]

theorem lt_of_mem_mark {marked : Bool} {start i j : ℕ} {places : Finset ℕ} (hi : start < i)
    (hbehind : ∀ j ∈ places, i < j) (hj : j ∈ mark marked i places) : start < j := by
  rcases mem_mark.1 hj with ⟨-, rfl⟩ | hj
  · exact hi
  · exact hi.trans (hbehind j hj)

/-- Where a position is after the insertions that stand before it. -/
theorem exists_moved_mark {x y : Bool} {start start' e e' j : ℕ} {P B : Finset ℕ} (L : ℕ)
    (hP : ∀ i ∈ P, e < i) (hB : ∀ i ∈ B, e < i) (hx : y = true → x = false)
    (he : e' + start = start' + e + L * if x then 1 else 0) :
    (y = true ∧ j = e' ∨ ∃ i ∈ B, j + e = e' + i + L * (P.filter (· < i)).card)
      ↔ ∃ i ∈ mark y e B, j + start = start' + i + L * ((mark x e P).filter (· < i)).card := by
  have hbehind : ∀ i, e < i → ((mark x e P).filter (· < i)).card
      = (if x then 1 else 0) + (P.filter (· < i)).card := fun i hi =>
    card_filter_mark (fun h => absurd (hP e h) (lt_irrefl e)) hi
  have hfirst : y = true → ((mark x e P).filter (· < e)).card = 0 ∧ e' + start = start' + e := by
    intro hy
    rw [hx hy] at he ⊢
    refine ⟨?_, by simpa using he⟩
    rw [Finset.card_eq_zero, Finset.filter_eq_empty_iff]
    exact fun i hi => (hP i hi).not_gt
  constructor
  · rintro (⟨hy, rfl⟩ | ⟨i, hi, hj⟩)
    · obtain ⟨hcard, he'⟩ := hfirst hy
      exact ⟨e, mem_mark.2 (.inl ⟨hy, rfl⟩), by rw [hcard, Nat.mul_zero, he', Nat.add_zero]⟩
    · refine ⟨i, mem_mark.2 (.inr hi), ?_⟩
      rw [hbehind i (hB i hi), Nat.mul_add]
      omega
  · rintro ⟨i, hi, hj⟩
    rcases mem_mark.1 hi with ⟨hy, rfl⟩ | hi
    · obtain ⟨hcard, he'⟩ := hfirst hy
      rw [hcard] at hj
      exact .inl ⟨hy, by omega⟩
    · rw [hbehind i (hB i hi), Nat.mul_add] at hj
      exact .inr ⟨i, hi, by omega⟩

/-- The extension, if it is put in. -/
def extra (marked : Bool) : Text := if marked then Specifier.moduleExtension else []

/-- One piece of a text with insertions, of which the first may close the piece. -/
theorem insertBefore_mark {marked : Bool} {start : ℕ} {places : Finset ℕ} (p : Piece)
    {pieces : List Piece} (hbehind : ∀ i ∈ places, start + 1 + p.run.length < i)
    (hnext : marked = true → pieces ≠ []) :
    insertBefore Specifier.moduleExtension (mark marked (start + 1 + p.run.length) places) start
        (glueAll (p :: pieces))
      = p.quote :: (p.run ++ extra marked)
        ++ insertBefore Specifier.moduleExtension places (start + 1 + p.run.length)
            (glueAll pieces) := by
  rw [glueAll, insertBefore_piece]
  · cases marked with
    | false => simp [mark, extra]
    | true =>
      obtain ⟨p', rest, rfl⟩ := List.exists_cons_of_ne_nil (hnext rfl)
      have hnot : start + 1 + p.run.length ∉ places := fun h => absurd (hbehind _ h) (lt_irrefl _)
      have hglue : glueAll (p' :: rest) = p'.quote :: (p'.run ++ glueAll rest) := rfl
      rw [mark, if_pos rfl, extra, if_pos rfl, hglue, insertBefore_insert hnot]
      simp
  · intro i hi
    rcases mem_mark.1 hi with ⟨-, rfl⟩ | hi
    · exact le_refl _
    · exact (hbehind i hi).le

theorem meetsAt_append {xs ys : List Met} {i : ℕ} :
    MeetsAt (xs ++ ys) i ↔ MeetsAt xs i ∨ MeetsAt ys i := by
  simp [MeetsAt, or_and_right, exists_or]

/-- Whether a pass puts the extension in behind a piece. -/
def lengthens (opens : Text → Bool) (run : Text) (p : Piece) (next : Option CodePoint) : Bool :=
  replaces opens run p next && Specifier.addExtension p.run != p.run

theorem run_passPiece (run : Text) (p : Piece) (next : Option CodePoint) :
    (passPiece opens Specifier.addExtension run p next).run
      = p.run ++ extra (lengthens opens run p next) := by
  unfold passPiece lengthens extra
  by_cases hr : replaces opens run p next = true
  · by_cases hs : Specifier.addExtension p.run = p.run
    · simp [hr, hs]
    · have hadd : Specifier.addExtension p.run = p.run ++ Specifier.moduleExtension := by
        unfold Specifier.addExtension at hs ⊢
        split
        · rename_i h
          rw [if_pos h] at hs
          exact absurd rfl hs
        · rfl
      simp [hr, hadd]
  · simp [hr]

theorem meetsAt_metPieces_cons (hf : ∀ s, opens (Specifier.addExtension s) = false) (start i : ℕ)
    (run : Text) (p : Piece) (pieces : List Piece) :
    MeetsAt (metPieces opens start run (p :: pieces)) i
      ↔ lengthens opens run p (firstQuote? pieces) = true ∧ i = start + 1 + p.run.length
        ∨ MeetsAt (metPieces opens (start + 1 + p.run.length)
            (passPiece opens Specifier.addExtension run p (firstQuote? pieces)).run pieces) i := by
  rw [metPieces_cons hf, meetsAt_append]
  refine or_congr_left ?_
  unfold MeetsAt lengthens
  by_cases hr : replaces opens run p (firstQuote? pieces) = true
  · simp only [hr, if_true, List.mem_singleton, exists_eq_left, Bool.true_and, bne_iff_ne]
    exact ⟨fun h => ⟨h.2, h.1.symm⟩, fun h => ⟨h.2.symm, h.1⟩⟩
  · simp [hr]

/-- What the two passes put in and what they meet there: `fromPlaces` and `barePlaces` are positions in
the text as it was, also where the bare pass meets the statement in a text that has grown. -/
structure Inserts (start start' : ℕ) (ra rb : Text) (pieces : List Piece)
    (fromPlaces barePlaces : Finset ℕ) : Prop where
  fromBehind : ∀ i ∈ fromPlaces, start < i
  bareBehind : ∀ i ∈ barePlaces, start < i
  disjoint : Disjoint fromPlaces barePlaces
  fromText : glueAll (passPieces opensFrom Specifier.addExtension ra pieces)
    = insertBefore Specifier.moduleExtension fromPlaces start (glueAll pieces)
  bareText : glueAll (passPieces opensBare Specifier.addExtension rb
      (passPieces opensFrom Specifier.addExtension ra pieces))
    = insertBefore Specifier.moduleExtension (fromPlaces ∪ barePlaces) start (glueAll pieces)
  fromMet : ∀ i, i ∈ fromPlaces ↔ MeetsAt (metPieces opensFrom start ra pieces) i
  bareMet : ∀ j, MeetsAt (metPieces opensBare start' rb
      (passPieces opensFrom Specifier.addExtension ra pieces)) j
    ↔ ∃ i ∈ barePlaces, j + start
        = start' + i + Specifier.moduleExtension.length * (fromPlaces.filter (· < i)).card
  fromEnds : ∀ i ∈ fromPlaces, EndsSpecifier .from start ra pieces i
  bareEnds : ∀ i ∈ barePlaces, EndsSpecifier .bare start ra pieces i

/-- What the bare pass lengthens the from-pass has left as it was, and what stands before it too. -/
theorem eq_of_lengthens_bare {ra rb : Text} {p : Piece} {next : Option CodePoint}
    (hab : Later ra rb)
    (h : lengthens opensBare rb (passPiece opensFrom f ra p next) next = true) :
    rb = ra ∧ passPiece opensFrom f ra p next = p := by
  rw [lengthens, Bool.and_eq_true, replaces_iff] at h
  obtain rfl := eq_of_later_of_opensBare hab h.1.1
  refine ⟨rfl, passPiece_of_not_opens ?_ p next⟩
  rw [Bool.eq_false_iff]
  intro hopens
  rw [opensBare_of_opensFrom hopens] at h
  cases h.1.1

theorem firstQuote?_ne_none {run : Text} {p : Piece} {pieces : List Piece}
    (h : lengthens opens run p (firstQuote? pieces) = true) : pieces ≠ [] := by
  rintro rfl
  simp [lengthens, replaces, firstQuote?] at h

theorem endsSpecifier_of_lengthens {k : Kind} {run : Text} {p : Piece} {pieces : List Piece}
    (h : lengthens k.opens run p (firstQuote? pieces) = true) (start : ℕ) :
    EndsSpecifier k start run (p :: pieces) (start + 1 + p.run.length) :=
  endsSpecifier_of_replaces (Bool.and_eq_true_iff.1 h).1 start

/-- What both passes make of a piece. -/
theorem run_passPiece_passPiece {ra rb : Text} {p : Piece} {next : Option CodePoint} {x y : Bool}
    (hx : lengthens opensFrom ra p next = x)
    (hy : lengthens opensBare rb (passPiece opensFrom Specifier.addExtension ra p next) next = y)
    (hone : y = true → x = false) :
    (passPiece opensBare Specifier.addExtension rb
      (passPiece opensFrom Specifier.addExtension ra p next) next).run = p.run ++ extra (x || y) := by
  rw [run_passPiece, hy, run_passPiece, hx, List.append_assoc]
  cases y with
  | false => simp [extra]
  | true => simp [extra, hone rfl]

/-- One piece more in front. -/
theorem Inserts.cons {start start' : ℕ} {ra rb : Text} {p a b : Piece} {pieces : List Piece}
    {P B : Finset ℕ} {x y : Bool} (hab : Later ra rb)
    (ha : passPiece opensFrom Specifier.addExtension ra p (firstQuote? pieces) = a)
    (hb : passPiece opensBare Specifier.addExtension rb a (firstQuote? pieces) = b)
    (hx : lengthens opensFrom ra p (firstQuote? pieces) = x)
    (hy : lengthens opensBare rb a (firstQuote? pieces) = y)
    (h : Inserts (start + 1 + p.run.length) (start' + 1 + a.run.length) a.run b.run pieces P B) :
    Inserts start start' ra rb (p :: pieces) (mark x (start + 1 + p.run.length) P)
      (mark y (start + 1 + p.run.length) B) := by
  have hF : ∀ s, opensFrom (Specifier.addExtension s) = false := fun s =>
    (completes_addExtension.silent s).1
  have hB : ∀ s, opensBare (Specifier.addExtension s) = false := fun s =>
    (completes_addExtension.silent s).2
  have hlater : Later p.run a.run := ha ▸ later_passPiece completes_addExtension ra p _
  -- what the second pass completes, the first pass has left alone
  have hkept : y = true → rb = ra ∧ a = p := by
    rintro rfl
    rw [← ha] at hy ⊢
    exact eq_of_lengthens_bare hab hy
  have harun : a.run = p.run ++ extra x := by rw [← ha, run_passPiece, hx]
  have hone : y = true → x = false := by
    intro hy'
    rw [(hkept hy').2] at harun
    cases x with
    | false => rfl
    | true =>
      exact absurd (congrArg List.length harun) (by simp [extra, Specifier.moduleExtension_eq])
  have hbrun : b.run = p.run ++ extra (x || y) := by
    subst ha hb
    exact run_passPiece_passPiece hx hy hone
  have hquoteA : a.quote = p.quote := by rw [← ha, quote_passPiece]
  have hquoteB : b.quote = p.quote := by rw [← hb, quote_passPiece, hquoteA]
  have hnext : x = true ∨ y = true → pieces ≠ [] := by
    rintro (rfl | rfl)
    · exact firstQuote?_ne_none hx
    · exact firstQuote?_ne_none hy
  have hP : start + 1 + p.run.length ∉ P := fun hi => absurd (h.fromBehind _ hi) (lt_irrefl _)
  have hB' : start + 1 + p.run.length ∉ B := fun hi => absurd (h.bareBehind _ hi) (lt_irrefl _)
  -- what each pass makes of the piece and of those behind it
  have htextF : passPieces opensFrom Specifier.addExtension ra (p :: pieces)
      = a :: passPieces opensFrom Specifier.addExtension a.run pieces := by
    rw [passPieces_cons hF, ha]
  have htextB : passPieces opensBare Specifier.addExtension rb
        (a :: passPieces opensFrom Specifier.addExtension a.run pieces)
      = b :: passPieces opensBare Specifier.addExtension b.run
          (passPieces opensFrom Specifier.addExtension a.run pieces) := by
    rw [passPieces_cons hB, firstQuote?_passPieces, hb]
  refine ⟨fun i => lt_of_mem_mark (by omega) h.fromBehind,
    fun i => lt_of_mem_mark (by omega) h.bareBehind,
    disjoint_mark h.disjoint hP hB' fun hx' hy' => Bool.noConfusion (hx'.symm.trans (hone hy')),
    ?_, ?_, ?_, ?_, ?_, ?_⟩
  · rw [htextF, glueAll, h.fromText, insertBefore_mark p h.fromBehind fun hx' => hnext (.inl hx'),
      hquoteA, harun]
  · rw [htextF, htextB, glueAll, h.bareText, mark_union, insertBefore_mark p, hquoteB, hbrun]
    · intro i hi
      exact (Finset.mem_union.1 hi).elim (h.fromBehind i) (h.bareBehind i)
    · exact fun hxy => hnext ((Bool.or_eq_true_iff).1 hxy)
  · intro i
    rw [mem_mark, meetsAt_metPieces_cons hF, ha, hx, h.fromMet]
  · intro j
    rw [htextF, meetsAt_metPieces_cons hB, firstQuote?_passPieces, hb, hy, h.bareMet]
    refine exists_moved_mark _ h.fromBehind h.bareBehind hone ?_
    rw [harun, List.length_append]
    cases x with
    | false => simp [extra]; omega
    | true => simp [extra]; omega
  · intro i hi
    rcases mem_mark.1 hi with ⟨rfl, rfl⟩ | hi
    · exact endsSpecifier_of_lengthens (k := .from) hx start
    · exact ((h.fromEnds i hi).earlier hlater).cons
  · intro i hi
    rcases mem_mark.1 hi with ⟨rfl, rfl⟩ | hi
    · obtain ⟨rfl, rfl⟩ := hkept rfl
      exact endsSpecifier_of_lengthens (k := .bare) hy start
    · exact ((h.bareEnds i hi).earlier hlater).cons

/-- **Both passes over some pieces only insert.**  By induction on the pieces: the first of them is
completed by one pass at most, for what opens a from-statement opens no bare one. -/
theorem passPieces_inserts :
    ∀ (pieces : List Piece) (start start' : ℕ) (ra rb : Text), Later ra rb →
      ∃ P B : Finset ℕ, Inserts start start' ra rb pieces P B
  | [], start, start', ra, rb, _ => by
    refine ⟨∅, ∅, ⟨by simp, by simp, by simp, rfl, rfl, ?_, ?_, by simp, by simp⟩⟩
    · simp [metPieces, MeetsAt]
    · simp [metPieces, MeetsAt, passPieces]
  | p :: pieces, start, start', ra, rb, hab => by
    obtain ⟨P, B, h⟩ := passPieces_inserts pieces _ _ _ _
      (later_passPiece completes_addExtension rb
        (passPiece opensFrom Specifier.addExtension ra p (firstQuote? pieces)) (firstQuote? pieces))
    exact ⟨_, _, h.cons hab rfl rfl rfl rfl⟩

/-! ## §5. Both passes over a text. -/

/-- Where nothing is put in before the first quote. -/
theorem insertBefore_glue {P : Finset ℕ} {run : Text} (h : ∀ i ∈ P, run.length < i)
    (pieces : List Piece) :
    insertBefore Specifier.moduleExtension P 0 (glue run pieces)
      = run ++ insertBefore Specifier.moduleExtension P run.length (glueAll pieces) := by
  rw [glue, insertBefore_append, Nat.zero_add, insertBefore_of_outside]
  intro i _ hhigh hi
  have := h i hi
  omega

/-- **Completing a text, whatever it is, only puts `.js` in**, at no position twice.  The from-pass puts it
in before each quote that closes an incomplete specifier which it meets; so does the bare pass, which
meets them further on, in the text that the from-pass has left.  Each of these quotes closes the
specifier of a statement in the text as it was.

What a pass meets in the second run is what the first run has made of some of the specifiers that the
same pass met, in order. -/
theorem complete_inserts (t : Text) :
    (∃ P B : Finset ℕ, Disjoint P B ∧
      pass opensFrom Specifier.addExtension t = insertBefore Specifier.moduleExtension P 0 t ∧
      complete t = insertBefore Specifier.moduleExtension (P ∪ B) 0 t ∧
      (∀ i, i ∈ P ↔ MeetsAt (met opensFrom t) i) ∧
      (∀ j, MeetsAt (met opensBare (pass opensFrom Specifier.addExtension t)) j
        ↔ ∃ i ∈ B, j = i + Specifier.moduleExtension.length * (P.filter (· < i)).card) ∧
      (∀ i ∈ P, ClosesStatement .from t i) ∧ ∀ i ∈ B, ClosesStatement .bare t i) ∧
    (targets opensFrom (complete t)).Sublist
      ((targets opensFrom t).map Specifier.addExtension) ∧
    (targets opensBare (pass opensFrom Specifier.addExtension (complete t))).Sublist
      ((targets opensBare (pass opensFrom Specifier.addExtension t)).map Specifier.addExtension) := by
  have hcutF := cut_pass opensFrom completes_addExtension t
  have hcutB := cut_pass opensBare completes_addExtension (pass opensFrom Specifier.addExtension t)
  rw [hcutF] at hcutB
  refine ⟨?_, ?_⟩
  · obtain ⟨P, B, h⟩ := passPieces_inserts (cut t).2 (cut t).1.length (cut t).1.length (cut t).1
      (cut t).1 (.inl rfl)
    refine ⟨P, B, h.disjoint, ?_, ?_, h.fromMet, fun j => ?_,
      fun i hi => closesStatement_of_endsSpecifier (h.fromEnds i hi),
      fun i hi => closesStatement_of_endsSpecifier (h.bareEnds i hi)⟩
    · conv_rhs => rw [← glue_cut t]
      rw [insertBefore_glue h.fromBehind, ← h.fromText]
      rfl
    -- all insertions are behind the first run, which is no piece
    · have hbehind : ∀ i ∈ P ∪ B, (cut t).1.length < i := fun i hi =>
        (Finset.mem_union.1 hi).elim (h.fromBehind i) (h.bareBehind i)
      conv_rhs => rw [← glue_cut t]
      rw [insertBefore_glue hbehind, ← h.bareText, complete_eq, pass, hcutF]
      rfl
    · unfold met
      rw [hcutF, h.bareMet]
      refine exists_congr fun i => and_congr_right fun _ => ?_
      omega
  · have hsecond := targetsOf_second_sublist completes_addExtension (cut t).2 (cut t).1 (cut t).1
      (cut t).1 (cut t).1 (.inl rfl) (.inl rfl) (.inl rfl)
    unfold targets
    rw [cut_pass opensFrom completes_addExtension (complete t), complete_eq, hcutB, hcutF]
    exact hsecond

end ModuleText

end ModuleBuild
