/-
  ModuleBuild.Proofs.Json.Stretches
  ─────────────────────────────────
  **WHAT IS LEFT WITHOUT COMMENTS HOLDS NO COMMENT.**

  Every text, well formed or not, is a row of stretches: strings, comments,
  and single characters outside of both.  A string or a comment between marks
  that is not closed goes on to the end of the text.  The scan for comments
  keeps strings and single characters, and of the comments their line feeds.

  Read again, what is left has the stretches that were kept and no others:
  behind a slash that opens no comment stands what stood behind it, so no two
  characters that come together open a comment, and a string ends where it
  ended.  So removing the comments once removes them all.

  Main results:
    * `stripComments_eq` — the scan leaves of each stretch what is to be left of it;
    * `stretches_stripComments` — the stretches of what is left;
    * `uncommented_of_forall` — without comments, no comment starts outside of strings;
    * `stripComments_once` — the comments are removed at once.
-/
import ModuleBuild.Proofs.Json.Positions

namespace ModuleBuild

namespace Jsonc

/-! ## §1. The stretches of a text. -/

/-- The rest of a string behind its opening quote, up to and with the closing quote or, where there is
none, up to the end of the text; and what follows it.  A backslash takes the code point after it along. -/
def stringRest : Text → Text × Text
  | [] => ([], [])
  | c :: rest =>
    if c = CodePoint.quote then ([c], rest)
    else if c = CodePoint.backslash then
      match rest with
      | [] => ([c], [])
      | e :: rest' => (c :: e :: (stringRest rest').1, (stringRest rest').2)
    else (c :: (stringRest rest).1, (stringRest rest).2)

/-- The rest of a comment between marks behind its opening mark, up to and with the first closing mark
or, where there is none, up to the end of the text; and what follows it. -/
def blockRest : Text → Text × Text
  | [] => ([], [])
  | c :: rest =>
    if c = CodePoint.ofChar '*' ∧ rest.head? = some CodePoint.slash then
      ([c, CodePoint.slash], rest.tail)
    else (c :: (blockRest rest).1, (blockRest rest).2)

theorem stringRest_append (t : Text) : (stringRest t).1 ++ (stringRest t).2 = t := by
  fun_induction stringRest t with
  | case1 => rfl
  | case2 rest => rfl
  | case3 => rfl
  | case4 e rest' _ ih => simp [ih]
  | case5 c rest _ _ ih => simp [ih]

theorem blockRest_append (t : Text) : (blockRest t).1 ++ (blockRest t).2 = t := by
  fun_induction blockRest t with
  | case1 => rfl
  | case2 c rest hclose =>
    obtain ⟨t, rfl⟩ := List.head?_eq_some_iff.1 hclose.2
    rfl
  | case3 c rest _ ih => simp [ih]

theorem stringRest_quote (rest : Text) :
    stringRest (CodePoint.quote :: rest) = ([CodePoint.quote], rest) := by
  rw [stringRest.eq_def]
  exact if_pos rfl

theorem stringRest_escape (e : CodePoint) (rest : Text) :
    stringRest (CodePoint.backslash :: e :: rest)
      = (CodePoint.backslash :: e :: (stringRest rest).1, (stringRest rest).2) := by
  rw [stringRest, if_neg (by decide), if_pos rfl]

theorem stringRest_cons {c : CodePoint} (hquote : c ≠ CodePoint.quote)
    (hbackslash : c ≠ CodePoint.backslash) (rest : Text) :
    stringRest (c :: rest) = (c :: (stringRest rest).1, (stringRest rest).2) := by
  rw [stringRest.eq_def]
  dsimp only
  rw [if_neg hquote, if_neg hbackslash]

theorem length_stringRest (t : Text) : (stringRest t).2.length ≤ t.length := by
  have h := congrArg List.length (stringRest_append t)
  rw [List.length_append] at h
  omega

theorem length_blockRest (t : Text) : (blockRest t).2.length ≤ t.length := by
  have h := congrArg List.length (blockRest_append t)
  rw [List.length_append] at h
  omega

/-- A character that is not the end of its line. -/
def staysOnLine (c : CodePoint) : Bool := c ≠ CodePoint.lineFeed

/-- A stretch of a text. -/
inductive Stretch
  /-- A character outside of strings and comments. -/
  | outside (c : CodePoint)
  /-- A string, with what stands behind its opening quote. -/
  | string (body : Text)
  /-- A comment up to the end of its line, with what stands behind its mark. -/
  | line (body : Text)
  /-- A comment between marks, with what stands behind the opening one. -/
  | block (body : Text)
  deriving DecidableEq

namespace Stretch

def text : Stretch → Text
  | outside c => [c]
  | string body => CodePoint.quote :: body
  | line body => ("//" : Text) ++ body
  | block body => ("/*" : Text) ++ body

def isComment : Stretch → Bool
  | line _ => true
  | block _ => true
  | _ => false

/-- What is left of a stretch without comments: of a comment its line feeds, and else all. -/
def left : Stretch → List Stretch
  | line _ => []
  | block body => (body.filter (· = CodePoint.lineFeed)).map outside
  | s => [s]

end Stretch

/-- The stretches of a text, in their order. -/
def stretches (t : Text) : List Stretch :=
  match t with
  | [] => []
  | c :: rest =>
    if c = CodePoint.quote then .string (stringRest rest).1 :: stretches (stringRest rest).2
    else if c = CodePoint.slash ∧ rest.head? = some CodePoint.slash then
      .line (rest.tail.takeWhile staysOnLine) :: stretches (rest.tail.dropWhile staysOnLine)
    else if c = CodePoint.slash ∧ rest.head? = some (CodePoint.ofChar '*') then
      .block (blockRest rest.tail).1 :: stretches (blockRest rest.tail).2
    else .outside c :: stretches rest
  termination_by t.length
  decreasing_by
    · exact Nat.lt_succ_of_le (length_stringRest rest)
    · exact Nat.lt_succ_of_le ((List.dropWhile_sublist _).length_le.trans (List.tail_sublist rest).length_le)
    · exact Nat.lt_succ_of_le ((length_blockRest _).trans (List.tail_sublist rest).length_le)
    · exact Nat.lt_succ_self _

/-- The stretches are the whole text. -/
theorem flatMap_text_stretches (t : Text) : (stretches t).flatMap Stretch.text = t := by
  fun_induction stretches t with
  | case1 => rfl
  | case2 rest ih =>
    rw [List.flatMap_cons, ih]
    show CodePoint.quote :: ((stringRest rest).1 ++ (stringRest rest).2) = _
    rw [stringRest_append]
  | case3 c rest _ hline ih =>
    obtain ⟨rfl, hhead⟩ := hline
    obtain ⟨t, rfl⟩ := List.head?_eq_some_iff.1 hhead
    rw [List.flatMap_cons, ih]
    show CodePoint.slash :: CodePoint.slash
      :: (t.takeWhile staysOnLine ++ t.dropWhile staysOnLine) = _
    rw [List.takeWhile_append_dropWhile]
  | case4 c rest _ _ hblock ih =>
    obtain ⟨rfl, hhead⟩ := hblock
    obtain ⟨t, rfl⟩ := List.head?_eq_some_iff.1 hhead
    rw [List.flatMap_cons, ih]
    show CodePoint.slash :: CodePoint.ofChar '*' :: ((blockRest t).1 ++ (blockRest t).2) = _
    rw [blockRest_append]
  | case5 c rest _ _ _ ih =>
    rw [List.flatMap_cons, ih]
    rfl

/-! ## §2. What the scan leaves of the stretches. -/

/-- In a string everything is left, and behind it the scan goes on. -/
theorem stripFrom_string (t : Text) :
    stripFrom .string t = (stringRest t).1 ++ stripFrom .code (stringRest t).2 := by
  fun_induction stringRest t with
  | case1 => rfl
  | case2 rest => rfl
  | case3 => rfl
  | case4 e rest' _ ih =>
    rw [stripFrom_string_escape, ih]
    rfl
  | case5 c rest hquote hbackslash ih =>
    rw [stripFrom_string_cons hquote hbackslash, ih]
    rfl

/-- In a comment between marks the line feeds are left, and behind it the scan goes on. -/
theorem stripFrom_blockRest (t : Text) :
    stripFrom .block t
      = (blockRest t).1.filter (· = CodePoint.lineFeed) ++ stripFrom .code (blockRest t).2 := by
  fun_induction blockRest t with
  | case1 => rfl
  | case2 c rest hclose =>
    obtain ⟨rfl, hhead⟩ := hclose
    obtain ⟨t, rfl⟩ := List.head?_eq_some_iff.1 hhead
    rfl
  | case3 c rest hclose ih =>
    rw [stripFrom, advance, if_neg hclose]
    by_cases hc : c = CodePoint.lineFeed
    · simp [hc, ih]
    · simp [hc, ih]

/-- Of the rest of a line nothing is left, and at its end the scan goes on. -/
theorem stripFrom_lineRest (t : Text) :
    stripFrom .line t = stripFrom .code (t.dropWhile staysOnLine) := by
  induction t with
  | nil => rfl
  | cons c t ih =>
    by_cases hc : c = CodePoint.lineFeed
    · subst hc
      rfl
    · have hstays : staysOnLine c = true := by simpa [staysOnLine] using hc
      rw [List.dropWhile_cons_of_pos hstays, ← ih, stripFrom, advance, if_neg hc]
      rfl

/-- A character that starts neither a string nor a comment is left. -/
theorem stripFrom_code_cons {c : CodePoint} {rest : Text} (hquote : c ≠ CodePoint.quote)
    (hline : ¬ (c = CodePoint.slash ∧ rest.head? = some CodePoint.slash))
    (hblock : ¬ (c = CodePoint.slash ∧ rest.head? = some (CodePoint.ofChar '*'))) :
    stripFrom .code (c :: rest) = c :: stripFrom .code rest := by
  rw [stripFrom, advance, if_neg hquote, if_neg hline, if_neg hblock]
  rfl

/-- The characters of a text outside of strings and comments. -/
theorem flatMap_text_outside (t : Text) : (t.map Stretch.outside).flatMap Stretch.text = t := by
  induction t with
  | nil => rfl
  | cons c t ih =>
    rw [List.map_cons, List.flatMap_cons, ih]
    rfl

/-- **The scan leaves of each stretch what is to be left of it.** -/
theorem stripComments_eq (t : Text) :
    stripComments t = ((stretches t).flatMap Stretch.left).flatMap Stretch.text := by
  unfold stripComments
  fun_induction stretches t with
  | case1 => rfl
  | case2 rest ih =>
    -- a string
    show CodePoint.quote :: stripFrom .string rest = _
    rw [stripFrom_string, ih]
    rfl
  | case3 c rest _ hline ih =>
    obtain ⟨rfl, hhead⟩ := hline
    obtain ⟨t, rfl⟩ := List.head?_eq_some_iff.1 hhead
    show stripFrom .line t = _
    rw [stripFrom_lineRest]
    exact ih
  | case4 c rest _ _ hblock ih =>
    obtain ⟨rfl, hhead⟩ := hblock
    obtain ⟨t, rfl⟩ := List.head?_eq_some_iff.1 hhead
    rw [List.flatMap_cons, List.flatMap_append, ← ih, Stretch.left, flatMap_text_outside]
    exact stripFrom_blockRest t
  | case5 c rest hquote hline hblock ih =>
    rw [stripFrom_code_cons hquote hline hblock, ih]
    rfl

/-! ## §3. The stretches of what is left. -/

/-- A string ends where it ended. -/
theorem stringRest_stripFrom (t : Text) :
    stringRest (stripFrom .string t) = ((stringRest t).1, stripFrom .code (stringRest t).2) := by
  fun_induction stringRest t with
  | case1 => rfl
  | case2 rest =>
    show stringRest (CodePoint.quote :: stripFrom .code rest) = _
    exact stringRest_quote _
  | case3 => rfl
  | case4 e rest' _ ih => rw [stripFrom_string_escape, stringRest_escape, ih]
  | case5 c rest hquote hbackslash ih =>
    rw [stripFrom_string_cons hquote hbackslash, stringRest_cons hquote hbackslash, ih]

/-- What is no slash is still in front when it was in front: comments start with slashes. -/
theorem head_stripFrom {t : Text} (h : t.head? ≠ some CodePoint.slash) :
    (stripFrom .code t).head? = t.head? := by
  cases t with
  | nil => rfl
  | cons c t =>
    have hc : c ≠ CodePoint.slash := fun hc => h (congrArg some hc)
    by_cases hquote : c = CodePoint.quote
    · subst hquote
      rfl
    · rw [stripFrom_code_cons hquote (fun hline => hc hline.1) (fun hblock => hc hblock.1)]
      rfl

theorem stretches_quote (t : Text) : stretches (CodePoint.quote :: t)
    = .string (stringRest t).1 :: stretches (stringRest t).2 := by
  rw [stretches, if_pos rfl]

theorem stretches_cons {c : CodePoint} {rest : Text} (hquote : c ≠ CodePoint.quote)
    (hline : ¬ (c = CodePoint.slash ∧ rest.head? = some CodePoint.slash))
    (hblock : ¬ (c = CodePoint.slash ∧ rest.head? = some (CodePoint.ofChar '*'))) :
    stretches (c :: rest) = .outside c :: stretches rest := by
  rw [stretches, if_neg hquote, if_neg hline, if_neg hblock]

/-- Line feeds are stretches of their own. -/
theorem stretches_feeds (body t : Text) :
    stretches (body.filter (· = CodePoint.lineFeed) ++ t)
      = (body.filter (· = CodePoint.lineFeed)).map .outside ++ stretches t := by
  induction body with
  | nil => rfl
  | cons c body ih =>
    by_cases hc : c = CodePoint.lineFeed
    · subst hc
      have hfeed : CodePoint.lineFeed ≠ CodePoint.slash := by decide
      rw [List.filter_cons_of_pos (by simp), List.cons_append,
        stretches_cons (by decide) (fun h => hfeed h.1) (fun h => hfeed h.1), ih]
      rfl
    · rw [List.filter_cons_of_neg (by simpa using hc), ih]

/-- **The stretches of what is left** are what is left of the stretches: the same strings, each with the
quotes that open and close it, and the same characters outside of them. -/
theorem stretches_stripComments (t : Text) :
    stretches (stripComments t) = (stretches t).flatMap Stretch.left := by
  unfold stripComments
  fun_induction stretches t with
  | case1 =>
    show stretches [] = []
    rw [stretches]
  | case2 rest ih =>
    -- a string, and what is left behind it is read from its end on
    show stretches (CodePoint.quote :: stripFrom .string rest) = _
    rw [stretches_quote, stringRest_stripFrom, ih]
    rfl
  | case3 c rest _ hline ih =>
    obtain ⟨rfl, hhead⟩ := hline
    obtain ⟨t, rfl⟩ := List.head?_eq_some_iff.1 hhead
    show stretches (stripFrom .line t) = _
    rw [stripFrom_lineRest]
    exact ih
  | case4 c rest _ _ hblock ih =>
    obtain ⟨rfl, hhead⟩ := hblock
    obtain ⟨t, rfl⟩ := List.head?_eq_some_iff.1 hhead
    -- line feeds stand in the place of the comment, and none of them joins what is behind it
    show stretches (stripFrom .block t) = _
    rw [stripFrom_blockRest, stretches_feeds, List.flatMap_cons, ← ih]
    rfl
  | case5 c rest hquote hline hblock ih =>
    -- behind a slash stands what stood behind it, so it opens no comment now either
    have hbehind : c = CodePoint.slash → (stripFrom .code rest).head? = rest.head? :=
      fun hc => head_stripFrom fun hhead => hline ⟨hc, hhead⟩
    rw [stripFrom_code_cons hquote hline hblock, stretches_cons hquote, ih]
    · rfl
    · exact fun h => hline ⟨h.1, hbehind h.1 ▸ h.2⟩
    · exact fun h => hblock ⟨h.1, hbehind h.1 ▸ h.2⟩

/-! ## §4. Without comments no comment starts. -/

/-- Where the end of a text stands that has no comments in it. -/
inductive Standing
  /-- Outside of strings. -/
  | outside
  /-- In a string; one that is not closed goes on to the end of the text. -/
  | inside
  /-- In a string, behind a backslash. -/
  | escaped
  deriving DecidableEq

/-- Where a text stands with one more character. -/
def Standing.after : Standing → CodePoint → Standing
  | .outside, c => if c = CodePoint.quote then .inside else .outside
  | .inside, c =>
    if c = CodePoint.backslash then .escaped
    else if c = CodePoint.quote then .outside
    else .inside
  | .escaped, _ => .inside

/-- Where the end of a text stands, its start standing outside of strings. -/
def standing (t : Text) : Standing := t.foldl Standing.after .outside

/-- The text starts with a mark that opens a comment. -/
def OpensComment (t : Text) : Prop := ("//" : Text) <+: t ∨ ("/*" : Text) <+: t

/-- No mark that opens a comment stands outside of strings. -/
def Uncommented (t : Text) : Prop :=
  ∀ front rest, t = front ++ rest → standing front = .outside → ¬ OpensComment rest

theorem opensComment_cons {c : CodePoint} {t : Text} (h : OpensComment (c :: t)) :
    c = CodePoint.slash
      ∧ (t.head? = some CodePoint.slash ∨ t.head? = some (CodePoint.ofChar '*')) := by
  rcases h with ⟨rest, hrest⟩ | ⟨rest, hrest⟩
  · obtain ⟨rfl, rfl⟩ := List.cons.inj hrest
    exact ⟨rfl, .inl rfl⟩
  · obtain ⟨rfl, rfl⟩ := List.cons.inj hrest
    exact ⟨rfl, .inr rfl⟩

/-- A text that stands outside of strings again, its start standing in one, has the end of that string
in it, and what follows the string stands outside of strings. -/
theorem stringRest_of_standing {front : Text}
    (h : front.foldl Standing.after .inside = .outside) (rest : Text) :
    (stringRest (front ++ rest)).2 = (stringRest front).2 ++ rest
      ∧ standing (stringRest front).2 = .outside := by
  fun_induction stringRest front with
  | case1 => cases h
  | case2 front =>
    rw [List.cons_append, stringRest_quote]
    exact ⟨rfl, h⟩
  | case3 => cases h
  | case4 e front _ ih =>
    rw [List.cons_append, List.cons_append, stringRest_escape]
    exact ih h
  | case5 c front hquote hbackslash ih =>
    rw [List.cons_append, stringRest_cons hquote hbackslash]
    rw [List.foldl_cons, Standing.after, if_neg hbackslash, if_neg hquote] at h
    exact ih h

/-- **Without comments, no comment starts outside of strings.** -/
theorem uncommented_of_forall {t : Text} (h : ∀ s ∈ stretches t, s.isComment = false) :
    Uncommented t := by
  intro front rest ht hfront hopens
  -- stretch by stretch: the front ends in the stretch, or passes it whole
  fun_induction stretches t generalizing front with
  | case1 =>
    obtain ⟨rfl, rfl⟩ := List.append_eq_nil_iff.1 ht.symm
    rcases hopens with hopens | hopens <;> cases List.prefix_nil.1 hopens
  | case2 t ih =>
    cases front with
    | nil =>
      obtain rfl : CodePoint.quote :: t = rest := ht
      exact absurd (opensComment_cons hopens).1 (by decide)
    | cons d front =>
      obtain ⟨rfl, rfl⟩ := List.cons.inj ht
      obtain ⟨hbehind, houtside⟩ := stringRest_of_standing hfront rest
      exact ih (List.forall_mem_cons.1 h).2 _ hbehind houtside
  | case3 c t _ hline ih => cases (List.forall_mem_cons.1 h).1
  | case4 c t _ _ hblock ih => cases (List.forall_mem_cons.1 h).1
  | case5 c t hquote hline hblock ih =>
    cases front with
    | nil =>
      obtain rfl : c :: t = rest := ht
      obtain ⟨hslash, hhead | hhead⟩ := opensComment_cons hopens
      · exact hline ⟨hslash, hhead⟩
      · exact hblock ⟨hslash, hhead⟩
    | cons d front =>
      obtain ⟨rfl, rfl⟩ := List.cons.inj ht
      refine ih (List.forall_mem_cons.1 h).2 _ rfl ?_
      rw [standing, List.foldl_cons, Standing.after, if_neg hquote] at hfront
      exact hfront

/-! ## §5. Once and for all. -/

/-- What is left of a stretch is no comment, and all of it is left when asked again. -/
theorem left_of_mem_left {s s' : Stretch} (h : s' ∈ s.left) : s'.isComment = false ∧ s'.left = [s'] := by
  cases s with
  | outside c =>
    obtain rfl := List.mem_singleton.1 h
    exact ⟨rfl, rfl⟩
  | string body =>
    obtain rfl := List.mem_singleton.1 h
    exact ⟨rfl, rfl⟩
  | line body => cases h
  | block body =>
    obtain ⟨c, -, rfl⟩ := List.mem_map.1 h
    exact ⟨rfl, rfl⟩

/-- No line feed is taken away. -/
theorem count_lineFeed_stripComments (t : Text) :
    (stripComments t).count CodePoint.lineFeed = t.count CodePoint.lineFeed := by
  have hmark : OnMark .code (textOf (placed t)) := trivial
  have hlength := congrArg List.length (feeds_stripPlaced hmark)
  rw [length_feeds, length_feeds, textOf_stripPlaced, textOf_placed] at hlength
  exact hlength

/-- **The comments are removed at once.**  For every text, what is left has the line feeds of the text,
is a subsequence of it, and holds no mark outside of strings that opens a comment; so removing the
comments again changes nothing.  The text is the row of its stretches, and what is left is the row of
the strings and of the single characters among them, with line feeds in the places of comments: which of
the quotes that are left open and close strings is as it was. -/
theorem stripComments_once (t : Text) :
    (stripComments t).count CodePoint.lineFeed = t.count CodePoint.lineFeed
      ∧ (stripComments t).Sublist t
      ∧ Uncommented (stripComments t)
      ∧ stripComments (stripComments t) = stripComments t
      ∧ (stretches t).flatMap Stretch.text = t
      ∧ stretches (stripComments t) = (stretches t).flatMap Stretch.left := by
  have hstretches := stretches_stripComments t
  have hleft : ∀ s ∈ stretches (stripComments t), s.isComment = false ∧ s.left = [s] := by
    intro s hs
    rw [hstretches] at hs
    obtain ⟨s', -, hs'⟩ := List.mem_flatMap.1 hs
    exact left_of_mem_left hs'
  have hagain : (stretches (stripComments t)).flatMap Stretch.left = stretches (stripComments t) := by
    rw [List.flatMap_congr fun s hs => (hleft s hs).2]
    exact List.flatMap_singleton' _
  refine ⟨count_lineFeed_stripComments t, stripComments_sublist t,
    uncommented_of_forall fun s hs => (hleft s hs).1, ?_, flatMap_text_stretches t, hstretches⟩
  rw [stripComments_eq (stripComments t), hagain, flatMap_text_stretches]

/-- A quote in a comment opens nothing, a slash behind a comment opens no other, and a string that is not
closed keeps what looks like a comment. -/
example : stripComments "/*\"*//\n//*\n/**//\"//" = ("/\n\n/\"//" : Text) := by decide

end Jsonc

end ModuleBuild
