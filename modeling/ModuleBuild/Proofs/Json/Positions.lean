/-
  ModuleBuild.Proofs.Json.Positions
  ─────────────────────────────────
  **WHICH LINE A FAULT IS ON.**

  The reader of plain documents counts lines in what the scans have left.  To
  tell where a character comes from, the scans are run here on characters
  that carry their places along; without the places they are the same scans.

  The scan for comments and the scan for extra commas take no line feed away,
  so a character has as many line feeds before it as it had.  Trimming does:
  every line that is given for a fault is too small by the line feeds that
  stand before the first character that is left.

  Main results:
    * `textOf_cleanPlaced` — the scans with places are the scans;
    * `feeds_stripPlaced`, `feeds_dropPlaced` — no line feed is taken away;
    * `count_take_of_feeds` — what keeps the line feeds keeps the lines;
    * `fault_line` — which line of the text the line of a fault is.
-/
import ModuleBuild.Proofs.Json.Scanning

namespace ModuleBuild

namespace Jsonc

open Json

/-! ## §1. The scans, with places. -/

/-- Characters, each with the place that it comes from. -/
abbrev Placed := List (CodePoint × Nat)

/-- The characters alone. -/
def textOf (s : Placed) : Text := s.map Prod.fst

@[simp] theorem textOf_nil : textOf [] = [] := rfl

@[simp] theorem textOf_cons (m : CodePoint × Nat) (s : Placed) : textOf (m :: s) = m.1 :: textOf s := rfl

@[simp] theorem textOf_append (s s' : Placed) : textOf (s ++ s') = textOf s ++ textOf s' :=
  List.map_append

/-- A text, each character in its place. -/
def placed (t : Text) : Placed := t.zipIdx

theorem textOf_placed (t : Text) : textOf (placed t) = t := List.zipIdx_map_fst 0 t

/-- The scan for comments, from a mode. -/
def stripPlaced (mode : Mode) : Placed → Placed
  | [] => []
  | m :: rest =>
    let s := advance mode m.1 (textOf rest).head?
    if s.2 then m :: stripPlaced s.1 rest else stripPlaced s.1 rest

theorem textOf_stripPlaced (mode : Mode) (s : Placed) :
    textOf (stripPlaced mode s) = stripFrom mode (textOf s) := by
  induction s generalizing mode with
  | nil => rfl
  | cons m rest ih =>
    rw [stripPlaced, textOf_cons, stripFrom]
    split
    · rw [textOf_cons, ih]
    · exact ih _

theorem stripPlaced_sublist (mode : Mode) (s : Placed) : (stripPlaced mode s).Sublist s := by
  induction s generalizing mode with
  | nil => exact .slnil
  | cons m rest ih =>
    rw [stripPlaced]
    split
    · exact (ih _).cons_cons m
    · exact (ih _).cons m

/-- The scan for extra commas. -/
def dropPlaced (s : Placed) : Placed :=
  match s with
  | [] => []
  | m :: rest =>
    if m.1 = CodePoint.quote then
      match literal? (textOf rest) with
      | some (body, _) => m :: (rest.take body.length ++ dropPlaced (rest.drop body.length))
      | none => m :: dropPlaced rest
    else if m.1 = CodePoint.ofChar ',' ∧ closesContainer (textOf rest) then dropPlaced rest
    else m :: dropPlaced rest
  termination_by s.length
  decreasing_by all_goals (simp only [List.length_cons, List.length_drop] at *; omega)

/-- A literal at the start of characters with places, and what follows it. -/
theorem textOf_literal {s : Placed} {body rest : Text} (h : literal? (textOf s) = some (body, rest)) :
    textOf (s.take body.length) = body ∧ textOf (s.drop body.length) = rest := by
  have hwhole := literal_append h
  unfold textOf at hwhole ⊢
  rw [List.map_take, List.map_drop, ← hwhole, List.take_left, List.drop_left]
  exact ⟨rfl, rfl⟩

theorem textOf_dropPlaced (s : Placed) : textOf (dropPlaced s) = dropTrailingCommas (textOf s) := by
  fun_induction dropPlaced s with
  | case1 => rw [textOf_nil, dropTrailingCommas]
  | case2 m rest hquote body rest' hbody ih =>
    obtain ⟨htake, hdrop⟩ := textOf_literal hbody
    rw [textOf_cons, textOf_cons, hquote, dropTrailingCommas_literal hbody, textOf_append, htake, ih,
      hdrop]
  | case3 m rest hquote hbody ih =>
    rw [textOf_cons, textOf_cons, hquote, dropTrailingCommas_unclosed hbody, ih]
  | case4 m rest hquote hcomma ih =>
    rw [textOf_cons, hcomma.1, dropTrailingCommas_extra hcomma.2, ih]
  | case5 m rest hquote hcomma ih =>
    rw [textOf_cons, textOf_cons, dropTrailingCommas_cons hquote hcomma, ih]

theorem dropPlaced_sublist (s : Placed) : (dropPlaced s).Sublist s := by
  fun_induction dropPlaced s with
  | case1 => exact .slnil
  | case2 m rest hquote body rest' hbody ih =>
    have hrest := (List.Sublist.refl (rest.take body.length)).append ih
    rw [List.take_append_drop] at hrest
    exact hrest.cons_cons m
  | case3 m rest hquote hbody ih => exact ih.cons_cons m
  | case4 m rest hquote hcomma ih => exact ih.cons m
  | case5 m rest hquote hcomma ih => exact ih.cons_cons m

/-! ## §2. Line feeds stay. -/

/-- The line feeds among some characters. -/
def feeds (s : Placed) : Placed := s.filter fun m => m.1 = CodePoint.lineFeed

theorem feeds_cons (m : CodePoint × Nat) (s : Placed) :
    feeds (m :: s) = if m.1 = CodePoint.lineFeed then m :: feeds s else feeds s := by
  simp [feeds, List.filter_cons]

theorem feeds_append (s s' : Placed) : feeds (s ++ s') = feeds s ++ feeds s' := List.filter_append ..

theorem length_feeds (s : Placed) : (feeds s).length = (textOf s).count CodePoint.lineFeed := by
  induction s with
  | nil => rfl
  | cons m s ih =>
    rw [feeds_cons, textOf_cons, List.count_cons]
    split
    · rename_i hm
      simp [hm, ih]
    · rename_i hm
      simp [hm, ih]

/-- The scan stands on the mark that its mode says. -/
def OnMark : Mode → Text → Prop
  | .opening, t => t.head? = some (CodePoint.ofChar '*')
  | .closing, t => t.head? = some CodePoint.slash
  | _, _ => True

/-- The mode after a character stands on its mark, and a line feed is kept. -/
theorem advance_onMark {mode : Mode} {c : CodePoint} {rest : Text} (h : OnMark mode (c :: rest)) :
    OnMark (advance mode c rest.head?).1 rest
      ∧ (c = CodePoint.lineFeed → (advance mode c rest.head?).2 = true) := by
  cases mode with
  | code =>
    unfold advance
    dsimp only
    split
    · exact ⟨trivial, fun _ => rfl⟩
    · split
      · rename_i hslash
        exact ⟨trivial, fun hc => absurd (hslash.1.symm.trans hc) (by decide)⟩
      · split
        -- a block comment that opens stands on its second mark next
        · rename_i hstar
          exact ⟨hstar.2, fun hc => absurd (hstar.1.symm.trans hc) (by decide)⟩
        · exact ⟨trivial, fun _ => rfl⟩
  | string =>
    unfold advance
    dsimp only
    split
    · exact ⟨trivial, fun _ => rfl⟩
    · split
      · exact ⟨trivial, fun _ => rfl⟩
      · exact ⟨trivial, fun _ => rfl⟩
  | escape => exact ⟨trivial, fun _ => rfl⟩
  | line =>
    unfold advance
    dsimp only
    split
    · exact ⟨trivial, fun _ => rfl⟩
    · rename_i hc
      exact ⟨trivial, fun hfeed => absurd hfeed hc⟩
  | opening =>
    have hc : c = CodePoint.ofChar '*' := Option.some.inj h
    exact ⟨trivial, fun hfeed => absurd (hc.symm.trans hfeed) (by decide)⟩
  | block =>
    unfold advance
    dsimp only
    split
    · rename_i hstar
      exact ⟨hstar.2, fun hc => absurd (hstar.1.symm.trans hc) (by decide)⟩
    · exact ⟨trivial, fun hc => decide_eq_true hc⟩
  | closing =>
    have hc : c = CodePoint.slash := Option.some.inj h
    exact ⟨trivial, fun hfeed => absurd (hc.symm.trans hfeed) (by decide)⟩

/-- No line feed is taken away with the comments. -/
theorem feeds_stripPlaced {mode : Mode} {s : Placed} (h : OnMark mode (textOf s)) :
    feeds (stripPlaced mode s) = feeds s := by
  induction s generalizing mode with
  | nil => rfl
  | cons m rest ih =>
    rw [textOf_cons] at h
    obtain ⟨hnext, hkept⟩ := advance_onMark h
    rw [stripPlaced]
    split
    · rw [feeds_cons, feeds_cons, ih hnext]
    · rename_i hlost
      rw [feeds_cons, if_neg fun hm => hlost (hkept hm), ih hnext]

/-- Without quotes and commas nothing is taken away behind the comments. -/
theorem dropPlaced_of_inert {s : Placed}
    (h : ∀ m ∈ s, m.1 ≠ CodePoint.quote ∧ m.1 ≠ CodePoint.ofChar ',') : dropPlaced s = s := by
  induction s with
  | nil => rw [dropPlaced]
  | cons m rest ih =>
    obtain ⟨hm, hrest⟩ := List.forall_mem_cons.1 h
    rw [dropPlaced, if_neg hm.1, if_neg fun hcomma => hm.2 hcomma.1, ih hrest]

/-- No line feed is taken away with the extra commas. -/
theorem feeds_dropPlaced (s : Placed) : feeds (dropPlaced s) = feeds s := by
  fun_induction dropPlaced s with
  | case1 => rfl
  | case2 m rest hquote body rest' hbody ih =>
    have hrest : feeds (rest.take body.length) ++ feeds (rest.drop body.length) = feeds rest := by
      rw [← feeds_append, List.take_append_drop]
    rw [feeds_cons, feeds_append, ih, hrest, ← feeds_cons]
  | case3 m rest hquote hbody ih => rw [feeds_cons, feeds_cons, ih]
  | case4 m rest hquote hcomma ih =>
    rw [feeds_cons, if_neg (by rw [hcomma.1]; decide), ih]
  | case5 m rest hquote hcomma ih => rw [feeds_cons, feeds_cons, ih]

/-! ## §3. Lines stay where line feeds do. -/

/-- The places grow. -/
def Ordered (s : Placed) : Prop := s.Pairwise fun m m' => m.2 < m'.2

theorem ordered_placed (t : Text) : Ordered (placed t) := by
  have hplaces : ((placed t).map Prod.snd).Pairwise (· < ·) := by
    unfold placed
    rw [List.zipIdx_map_snd]
    exact List.pairwise_lt_range'
  exact List.pairwise_map.1 hplaces

theorem getElem?_placed {t : Text} {m : CodePoint × Nat} (h : m ∈ placed t) :
    t[m.2]? = some m.1 ∧ (placed t)[m.2]? = some m := by
  have hchar : t[m.2]? = some m.1 := List.mem_zipIdx_iff_getElem?.1 h
  refine ⟨hchar, ?_⟩
  unfold placed
  rw [List.getElem?_zipIdx, hchar]
  simp

/-- The line feeds in front of a character are those with lower places. -/
theorem feeds_take {s : Placed} (hs : Ordered s) {i : Nat} {m : CodePoint × Nat} (h : s[i]? = some m) :
    feeds (s.take i) = (feeds s).filter fun m' => m'.2 < m.2 := by
  induction s generalizing i with
  | nil => cases h
  | cons first rest ih =>
    obtain ⟨hfirst, hrest⟩ := List.pairwise_cons.1 hs
    cases i with
    | zero =>
      obtain rfl : first = m := Option.some.inj h
      -- nothing stands in front, and what follows has higher places
      have hnone : ∀ m' ∈ feeds (first :: rest), ¬ m'.2 < first.2 := by
        intro m' hm'
        rcases List.mem_cons.1 (List.mem_filter.1 hm').1 with rfl | hm'
        · exact Nat.lt_irrefl _
        · exact Nat.not_lt.2 (hfirst m' hm').le
      rw [List.take_zero, List.filter_eq_nil_iff.2 fun m' hm' => by simpa using hnone m' hm']
      rfl
    | succ i =>
      have hmem : m ∈ rest := List.mem_of_getElem? h
      have hlower : first.2 < m.2 := hfirst m hmem
      rw [List.take_succ_cons, feeds_cons, feeds_cons, ih hrest h]
      split
      · rw [List.filter_cons, if_pos (by simpa using hlower)]
      · rfl

/-- **What keeps the line feeds keeps the lines.** -/
theorem count_take_of_feeds {t : Text} {s : Placed} (hsub : s.Sublist (placed t))
    (hfeeds : feeds s = feeds (placed t)) {i : Nat} {m : CodePoint × Nat} (h : s[i]? = some m) :
    ((textOf s).take i).count CodePoint.lineFeed = (t.take m.2).count CodePoint.lineFeed := by
  have hordered := ordered_placed t
  have hplace := (getElem?_placed (hsub.subset (List.mem_of_getElem? h))).2
  have hfront : feeds (s.take i) = feeds ((placed t).take m.2) := by
    rw [feeds_take (hordered.sublist hsub) h, feeds_take hordered hplace, hfeeds]
  have hlength := congrArg List.length hfront
  rw [length_feeds, length_feeds] at hlength
  unfold textOf at hlength ⊢
  rw [List.map_take, List.map_take] at hlength
  rw [hlength]
  exact congrArg (fun u => (List.take m.2 u).count CodePoint.lineFeed) (textOf_placed t)

/-! ## §4. Trimming. -/

/-- What the two scans leave, with places. -/
def bared (t : Text) : Placed := dropPlaced (stripPlaced .code (placed t))

/-- What is left for the reader of plain documents, with places. -/
def cleanPlaced (t : Text) : Placed :=
  ((bared t).dropWhile fun m => m.1.isBlank).rdropWhile fun m => m.1.isBlank

theorem textOf_bared (t : Text) : textOf (bared t) = dropTrailingCommas (stripComments t) := by
  rw [bared, textOf_dropPlaced, textOf_stripPlaced, textOf_placed]
  rfl

theorem bared_sublist (t : Text) : (bared t).Sublist (placed t) :=
  (dropPlaced_sublist _).trans (stripPlaced_sublist _ _)

theorem feeds_bared (t : Text) : feeds (bared t) = feeds (placed t) := by
  have hmark : OnMark .code (textOf (placed t)) := trivial
  rw [bared, feeds_dropPlaced, feeds_stripPlaced hmark]

/-- The scans with places are the scans. -/
theorem textOf_cleanPlaced (t : Text) : textOf (cleanPlaced t) = clean t := by
  have hstart : textOf ((bared t).dropWhile fun m => m.1.isBlank) = Text.trimStart (textOf (bared t)) := by
    unfold textOf Text.trimStart
    rw [List.dropWhile_map]
    rfl
  unfold clean Text.trim cleanPlaced
  rw [← textOf_bared, ← hstart, Text.trimEnd_eq_rdropWhile]
  generalize (bared t).dropWhile (fun m => m.1.isBlank) = s
  unfold textOf List.rdropWhile
  rw [← List.map_reverse, List.dropWhile_map, ← List.map_reverse]
  rfl

theorem cleanPlaced_sublist (t : Text) : (cleanPlaced t).Sublist (placed t) :=
  (List.rdropWhile_prefix _ _).sublist.trans ((List.dropWhile_sublist _).trans (bared_sublist t))

/-- What the two scans leave keeps its lines. -/
theorem lineOf_bared {t : Text} {i : Nat} {m : CodePoint × Nat} (h : (bared t)[i]? = some m) :
    lineOf (dropTrailingCommas (stripComments t)) i = lineOf t m.2 := by
  have hcount := count_take_of_feeds (bared_sublist t) (feeds_bared t) h
  rw [textOf_bared] at hcount
  rw [lineOf, lineOf, hcount]

/-- What is trimmed in front, and what is left, are what the two scans leave. -/
theorem exists_front (t : Text) :
    ∃ front back, bared t = front ++ cleanPlaced t ++ back := by
  refine ⟨(bared t).takeWhile fun m => m.1.isBlank,
    ((bared t).dropWhile fun m => m.1.isBlank).rtakeWhile fun m => m.1.isBlank, ?_⟩
  rw [List.append_assoc, cleanPlaced, List.rdropWhile_append_rtakeWhile,
    List.takeWhile_append_dropWhile]

/-- The line feeds of a text before the first character that is left. -/
def linesBefore (t : Text) : Nat :=
  match cleanPlaced t with
  | [] => 0
  | m :: _ => (t.take m.2).count CodePoint.lineFeed

/-- In what is left, a character has fewer line feeds before it than it had, by those before the first
character that is left. -/
theorem lineOf_clean {t : Text} {i : Nat} {m : CodePoint × Nat} (h : (cleanPlaced t)[i]? = some m) :
    lineOf (clean t) i + linesBefore t = lineOf t m.2 := by
  obtain ⟨front, back, hbared⟩ := exists_front t
  -- the line feeds before a character that is left: those trimmed in front, and those left
  have hcount : ∀ j n, (cleanPlaced t)[j]? = some n →
      (textOf front).count CodePoint.lineFeed + ((clean t).take j).count CodePoint.lineFeed
        = (t.take n.2).count CodePoint.lineFeed := by
    intro j n hn
    have hlt := List.getElem?_eq_some_iff.1 hn |>.1
    have hplace : (bared t)[front.length + j]? = some n := by
      rw [hbared, List.append_assoc, List.getElem?_append_right (by omega), Nat.add_sub_cancel_left,
        List.getElem?_append_left hlt, hn]
    have hall := count_take_of_feeds (bared_sublist t) (feeds_bared t) hplace
    have hlength : (textOf front).length = front.length := List.length_map _
    have hclean : (clean t).length = (cleanPlaced t).length := by
      rw [← textOf_cleanPlaced]
      exact List.length_map _
    rw [hbared, textOf_append, textOf_append, textOf_cleanPlaced, List.append_assoc, ← hlength,
      List.take_length_add_append, List.count_append, List.take_append_of_le_length (by omega)] at hall
    exact hall
  have hfirst : (textOf front).count CodePoint.lineFeed = linesBefore t := by
    unfold linesBefore
    cases hleft : cleanPlaced t with
    | nil =>
      rw [hleft] at h
      cases h
    | cons first rest =>
      have hzero := hcount 0 first (by rw [hleft]; rfl)
      simpa using hzero
  have hhere := hcount i m h
  rw [lineOf, lineOf]
  omega

/-- The line that is given for a fault is that of its position in what is left. -/
theorem line_of_fault {t : Text} {cause : DecodeCause} {line column position : Nat}
    (h : Jsonc.decode t = .error (.malformed cause line column position)) :
    line = lineOf (clean t) position := by
  have hplain : Json.decode (clean t) = .error (.malformed cause line column position) := by
    unfold Jsonc.decode at h
    dsimp only at h
    split at h
    · cases h
    · exact h
  unfold Json.decode at hplain
  split at hplain
  · cases hplain
    rfl
  · split at hplain
    · cases hplain
    · cases hplain
      rfl
    · cases hplain
      rfl
    · cases hplain

/-- **Which line of the text the line of a fault is.**  The characters that are left for the reader of
plain documents are characters of the text in their order.  Comments and extra commas take no line
away.  A fault at a character that is left is given a line that is too small by the line feeds before
the first character that is left. -/
theorem fault_line (t : Text) :
    textOf (cleanPlaced t) = clean t ∧ (cleanPlaced t).Sublist t.zipIdx
      ∧ (∀ i c place, (bared t)[i]? = some (c, place) →
          lineOf (dropTrailingCommas (stripComments t)) i = lineOf t place)
      ∧ ∀ cause line column position,
        Jsonc.decode t = .error (.malformed cause line column position) →
        ∀ c place, (cleanPlaced t)[position]? = some (c, place) →
          t[place]? = some c ∧ line + linesBefore t = lineOf t place
            ∧ (line = lineOf t place ↔ linesBefore t = 0) := by
  refine ⟨textOf_cleanPlaced t, cleanPlaced_sublist t, fun i c place h => lineOf_bared h, ?_⟩
  intro cause line column position hdecode c place hplace
  have hsame : lineOf (clean t) position + linesBefore t = lineOf t place := lineOf_clean hplace
  rw [← line_of_fault hdecode] at hsame
  refine ⟨(getElem?_placed ((cleanPlaced_sublist t).subset (List.mem_of_getElem? hplace))).1, hsame, ?_⟩
  omega

/-- A text whose fault is on its second line. -/
def feedFirst : Text := "\n\x7b]"

/-- Its line feed is trimmed. -/
theorem cleanPlaced_feedFirst :
    cleanPlaced feedFirst = [(CodePoint.openBrace, 1), (CodePoint.ofChar ']', 2)] := by
  have hstripped : stripPlaced .code (placed feedFirst) = placed feedFirst := by decide
  have hinert : ∀ m ∈ placed feedFirst, m.1 ≠ CodePoint.quote ∧ m.1 ≠ CodePoint.ofChar ',' := by
    decide
  unfold cleanPlaced bared
  rw [hstripped, dropPlaced_of_inert hinert]
  decide

theorem getElem?_cleanPlaced_feedFirst :
    (cleanPlaced feedFirst)[1]? = some (CodePoint.ofChar ']', 2) := by
  rw [cleanPlaced_feedFirst]
  rfl

/-- The first line is given for it. -/
theorem decode_feedFirst : Jsonc.decode feedFirst = .error (.malformed .expectedKey 1 2 1) := by
  have hclean : clean feedFirst = "\x7b]" := by
    rw [← textOf_cleanPlaced, cleanPlaced_feedFirst]
    rfl
  have htokens : tokens "\x7b]" = [⟨.openObject, 0⟩, ⟨.closeArray, 1⟩, ⟨.endOfText, 2⟩] := by
    have hopen : punctuation? CodePoint.openBrace = some .openObject := by decide
    have hclose : punctuation? (CodePoint.ofChar ']') = some .closeArray := by decide
    show tokensFrom 0 [CodePoint.openBrace, CodePoint.ofChar ']'] = _
    rw [tokensFrom_mark (by decide) hopen, tokensFrom_mark (by decide) hclose, tokensFrom]
  unfold Jsonc.decode
  rw [hclean]
  show Json.decode "\x7b]" = _
  unfold Json.decode
  rw [htokens]
  decide

theorem fault_line_feedFirst :
    Jsonc.decode feedFirst = .error (.malformed .expectedKey 1 2 1)
      ∧ (cleanPlaced feedFirst)[1]? = some (CodePoint.ofChar ']', 2)
      ∧ 1 + linesBefore feedFirst = lineOf feedFirst 2 := by
  have hline := (fault_line feedFirst).2.2.2 _ _ _ _ decode_feedFirst _ _
    getElem?_cleanPlaced_feedFirst
  exact ⟨decode_feedFirst, getElem?_cleanPlaced_feedFirst, hline.2.1⟩

/-- The fault is at the bracket, which is on the second line; the first line is given. -/
theorem fault_line_given :
    Jsonc.decode feedFirst = .error (.malformed .expectedKey 1 2 1)
      ∧ (cleanPlaced feedFirst)[1]? = some (CodePoint.ofChar ']', 2)
      ∧ feedFirst[2]? = some (CodePoint.ofChar ']') ∧ lineOf feedFirst 2 ≠ 1 :=
  ⟨decode_feedFirst, getElem?_cleanPlaced_feedFirst, by decide, by decide⟩

end Jsonc

end ModuleBuild
