/-
  ModuleBuild.Proofs.Json.Rendering
  ─────────────────────────────────
  **WHAT IS WRITTEN IS READ BACK.**

  The written form of a document is a spacing of its lexemes, and the machine
  that reads them ends with the document.  Two things may be lost: an integer
  may be too long to be read, and a double is read as what its digits read
  back as.  A document that was read has no long integers and no key twice,
  and what is read from its written form is written in the same way again.

  Main results:
    * `jsonc_decode_render` — a written document is read back;
    * `render_reread` — what is read back is written in the same way;
    * `writable_of_decode` — what was read can be written.
-/
import ModuleBuild.Proofs.Json.Layout
import ModuleBuild.Proofs.Json.Numbers

namespace ModuleBuild

namespace Json

/-! ## §1. Documents that can be written. -/

/-- No integer in a document is too long, and no key stands twice in an object. -/
inductive Writable : Json → Prop
  | null : Writable .null
  | bool (b : Bool) : Writable (.bool b)
  | int {i : Int} : IsShort i → Writable (.int i)
  | double (x : Binary64) : Writable (.double x)
  | string (t : Text) : Writable (.string t)
  | array {vs : List Json} : (∀ v ∈ vs, Writable v) → Writable (.array vs)
  | object {ms : Members} : (ms.map (·.1)).Nodup → (∀ m ∈ ms, Writable m.2) → Writable (.object ms)

mutual

/-- The document that is read from the written form of a document. -/
def reread : Json → Json
  | .null => .null
  | .bool b => .bool b
  | .int i => .int i
  | .double x => .double x.reread
  | .string t => .string t
  | .array vs => .array (rereadItems vs)
  | .object ms => .object (rereadMembers ms)

/-- The items that are read back. -/
def rereadItems : List Json → List Json
  | [] => []
  | v :: vs => reread v :: rereadItems vs

/-- The members that are read back. -/
def rereadMembers : List (Text × Json) → List (Text × Json)
  | [] => []
  | (k, v) :: ms => (k, reread v) :: rereadMembers ms

end

mutual

/-- **What is read back is written in the same way.** -/
theorem renderAt_reread (depth : Nat) : ∀ v : Json, renderAt depth v.reread = renderAt depth v
  | .null => rfl
  | .bool _ => rfl
  | .int _ => rfl
  | .double x => by
    rw [reread, renderAt, renderAt]
    exact toText_reread x
  | .string _ => rfl
  | .array [] => rfl
  | .array (v :: vs) => by
    rw [reread, rereadItems, renderAt, renderAt, renderAt_reread (depth + 1) v,
      renderItems_reread (depth + 1) vs]
  | .object [] => rfl
  | .object ((k, v) :: ms) => by
    rw [reread, rereadMembers, renderAt, renderAt, renderAt_reread (depth + 1) v,
      renderMembers_reread (depth + 1) ms]

theorem renderItems_reread (depth : Nat) :
    ∀ vs : List Json, renderItems depth (rereadItems vs) = renderItems depth vs
  | [] => rfl
  | v :: vs => by
    rw [rereadItems, renderItems, renderItems, renderAt_reread depth v, renderItems_reread depth vs]

theorem renderMembers_reread (depth : Nat) :
    ∀ ms : List (Text × Json), renderMembers depth (rereadMembers ms) = renderMembers depth ms
  | [] => rfl
  | (k, v) :: ms => by
    rw [rereadMembers, renderMembers, renderMembers, renderAt_reread depth v,
      renderMembers_reread depth ms]

end

theorem render_reread (v : Json) : render v.reread = render v := renderAt_reread 0 v

mutual

/-- What is read back is read back as itself. -/
theorem reread_reread : ∀ v : Json, v.reread.reread = v.reread
  | .null => rfl
  | .bool _ => rfl
  | .int _ => rfl
  | .double x => by rw [reread, reread, Binary64.reread_reread]
  | .string _ => rfl
  | .array vs => by rw [reread, reread, rereadItems_reread vs]
  | .object ms => by rw [reread, reread, rereadMembers_reread ms]

theorem rereadItems_reread : ∀ vs : List Json, rereadItems (rereadItems vs) = rereadItems vs
  | [] => rfl
  | v :: vs => by rw [rereadItems, rereadItems, reread_reread v, rereadItems_reread vs]

theorem rereadMembers_reread :
    ∀ ms : List (Text × Json), rereadMembers (rereadMembers ms) = rereadMembers ms
  | [] => rfl
  | (k, v) :: ms => by rw [rereadMembers, rereadMembers, reread_reread v, rereadMembers_reread ms]

end

/-- Members that are read back have the same keys. -/
theorem lookup_reread (key : Text) (ms : Members) :
    lookup? key (rereadMembers ms) = (lookup? key ms).map reread := by
  induction ms with
  | nil => rfl
  | cons m ms ih =>
    obtain ⟨k, v⟩ := m
    rw [rereadMembers, lookup?, lookup?]
    split
    · rfl
    · exact ih

theorem keys_reread (ms : Members) : (rereadMembers ms).map (·.1) = ms.map (·.1) := by
  induction ms with
  | nil => rfl
  | cons m ms ih =>
    obtain ⟨k, v⟩ := m
    rw [rereadMembers, List.map_cons, List.map_cons, ih]

theorem setMember_reread (key : Text) (value : Json) (ms : Members) :
    rereadMembers (setMember key value ms) = setMember key value.reread (rereadMembers ms) := by
  induction ms with
  | nil => rfl
  | cons m ms ih =>
    obtain ⟨k, v⟩ := m
    rw [rereadMembers, setMember, setMember]
    split
    · rfl
    · rw [rereadMembers, ih]

/-- Setting a member to what it is changes nothing. -/
theorem setMember_setMember (key : Text) (value other : Json) (ms : Members) :
    setMember key value (setMember key other ms) = setMember key value ms := by
  induction ms with
  | nil => simp [setMember]
  | cons m ms ih =>
    obtain ⟨k, v⟩ := m
    rw [setMember, setMember]
    split
    · rename_i hk
      rw [setMember, if_pos hk]
    · rename_i hk
      rw [setMember, if_neg hk, ih]

/-! ## §2. Strings. -/

/-- What four digits of an escape are read as. -/
def fourDigits? : Text → Option Nat
  | [a, b, c, d] => hexFour? a b c d
  | _ => none

/-- The digits of a control character are read back. -/
theorem hexFour_hex {n : Nat} (h : n < 0x20) :
    ∃ a b c d, Text.hex 4 n = [a, b, c, d] ∧ (∀ x ∈ [a, b, c, d], isHexDigit x = true)
      ∧ hexFour? a b c d = some n := by
  have hall : ∀ n < 0x20, (Text.hex 4 n).length = 4 ∧ (∀ x ∈ Text.hex 4 n, isHexDigit x = true)
      ∧ fourDigits? (Text.hex 4 n) = some n := by decide
  obtain ⟨hlen, hdigits, hvalue⟩ := hall n h
  obtain ⟨a, b, c, d, hhex⟩ := List.length_eq_four.1 hlen
  rw [hhex] at hdigits hvalue
  exact ⟨a, b, c, d, hhex, hdigits, hvalue⟩

/-- How a code point is written in a string: by a letter, by its number, or as it is. -/
inductive Escaped (c : CodePoint) : Text → Prop
  | letter {letter : CodePoint} : letter ∈ escapeLetters → escapeValue? letter = some c →
      Escaped c [CodePoint.backslash, letter]
  | number : c.code < 0x20 → Escaped c (Text.join ["\\u", Text.hex 4 c.code])
  | plain : c ≠ CodePoint.quote → c ≠ CodePoint.backslash → 0x20 ≤ c.code → Escaped c [c]

theorem escaped (c : CodePoint) : Escaped c (escapeOne c) := by
  have hletter : ∀ c ∈ [CodePoint.quote, CodePoint.backslash, CodePoint.lineFeed,
      CodePoint.carriageReturn, CodePoint.ofNat 0x09, CodePoint.ofNat 0x0C, CodePoint.ofNat 0x08],
      ∃ letter ∈ escapeLetters, escapeOne c = [CodePoint.backslash, letter]
        ∧ escapeValue? letter = some c := by decide
  by_cases hc : c ∈ [CodePoint.quote, CodePoint.backslash, CodePoint.lineFeed,
      CodePoint.carriageReturn, CodePoint.ofNat 0x09, CodePoint.ofNat 0x0C, CodePoint.ofNat 0x08]
  · obtain ⟨letter, hmem, htext, hvalue⟩ := hletter c hc
    rw [htext]
    exact .letter hmem hvalue
  · simp only [List.mem_cons, List.not_mem_nil, or_false, not_or] at hc
    obtain ⟨hquote, hbackslash, hfeed, hreturn, htab, hform, hback⟩ := hc
    have hcode : ∀ {n : Nat}, c ≠ CodePoint.ofNat n → c.code ≠ n := fun hne heq =>
      hne (by rw [← heq, CodePoint.ofNat_code])
    unfold escapeOne
    rw [if_neg (not_or.2 ⟨hquote, hbackslash⟩), if_neg hfeed, if_neg hreturn, if_neg (hcode htab),
      if_neg (hcode hform), if_neg (hcode hback)]
    split
    · rename_i hcontrol
      exact .number hcontrol
    · rename_i hcontrol
      exact .plain hquote hbackslash (Nat.not_lt.1 hcontrol)

/-- One code point of a written string. -/
theorem exists_stringPart (c : CodePoint) :
    ∃ p : StringPart, p.text = escapeOne c ∧ p.unit.value = c ∧
      (p.unit.named = true → isHighSurrogate c = false) := by
  have hescaped := escaped c
  generalize escapeOne c = text at hescaped ⊢
  cases hescaped with
  | @letter letter hmem hvalue =>
    refine ⟨.escape letter hmem, rfl, ?_, fun h => by cases h⟩
    rw [StringPart.unit, hvalue, Option.getD_some]
  | number hcontrol =>
    obtain ⟨a, b, c', d, hhex, hdigits, hvalue⟩ := hexFour_hex hcontrol
    refine ⟨.named a b c' d hdigits, ?_, ?_, fun _ => ?_⟩
    · rw [hhex]
      rfl
    · show CodePoint.ofNat ((hexFour? a b c' d).getD 0) = c
      rw [hvalue, Option.getD_some, CodePoint.ofNat_code]
    · unfold isHighSurrogate
      rw [Bool.and_eq_false_iff]
      exact .inl (decide_eq_false (by omega))
  | plain hquote hbackslash hcode =>
    exact ⟨.plain c hquote hbackslash hcode, rfl, rfl, fun h => by cases h⟩

/-- Units without named halves of pairs are joined one by one. -/
theorem joinUnits_of_not_high {us : List StringUnit}
    (h : ∀ u ∈ us, u.named = true → isHighSurrogate u.value = false) :
    joinUnits us = us.map StringUnit.value := by
  fun_induction joinUnits us with
  | case1 => rfl
  | case2 u => rfl
  | case3 u v rest hpair ih =>
    -- the first of a pair would be a high surrogate
    have hu := h u (List.mem_cons_self ..)
    simp only [Bool.and_eq_true] at hpair
    rw [hu hpair.1.1.1] at hpair
    simp at hpair
  | case4 u v rest hpair ih =>
    rw [ih fun w hw => h w (List.mem_cons_of_mem u hw)]
    rfl

/-- **A written string is read back.** -/
theorem exists_stringParts (t : Text) :
    ∃ parts : List StringPart, (Lexeme.string parts).text = renderString t ∧
      joinUnits (parts.map StringPart.unit) = t := by
  have hparts : ∃ parts : List StringPart, parts.flatMap StringPart.text = t.flatMap escapeOne ∧
      (parts.map StringPart.unit).map StringUnit.value = t ∧
      ∀ u ∈ parts.map StringPart.unit, u.named = true → isHighSurrogate u.value = false := by
    induction t with
    | nil => exact ⟨[], rfl, rfl, by simp⟩
    | cons c t ih =>
      obtain ⟨parts, htext, hvalue, hnamed⟩ := ih
      obtain ⟨p, hp, hpvalue, hpnamed⟩ := exists_stringPart c
      refine ⟨p :: parts, ?_, ?_, ?_⟩
      · rw [List.flatMap_cons, List.flatMap_cons, hp, htext]
      · rw [List.map_cons, List.map_cons, hpvalue, hvalue]
      · intro u hu
        rcases List.mem_cons.1 hu with rfl | hu
        · rw [hpvalue]
          exact hpnamed
        · exact hnamed u hu
  obtain ⟨parts, htext, hvalue, hnamed⟩ := hparts
  refine ⟨parts, ?_, ?_⟩
  · rw [renderString_eq, ← htext]
    rfl
  · rw [joinUnits_of_not_high hnamed, hvalue]

/-! ## §3. Spacing. -/

/-- A text writes lexemes, with spaces between them: whatever is written behind it follows them. -/
def Writes (ts : List Lexeme) (t : Text) : Prop :=
  ∀ us u, Spaced us u → Spaced (ts ++ us) (t ++ u)

theorem Writes.append {ts us : List Lexeme} {t u : Text} (h : Writes ts t) (h' : Writes us u) :
    Writes (ts ++ us) (t ++ u) := by
  intro vs v hv
  rw [List.append_assoc, List.append_assoc]
  exact h _ _ (h' _ _ hv)

theorem writes_lexeme (l : Lexeme) : Writes [l] l.text := by
  intro us u hu
  have hgap : IsSpaces [] := fun c hc => by cases hc
  exact .cons hgap hu

theorem writes_gap {gap : Text} (h : IsSpaces gap) : Writes [] gap := by
  intro us u hu
  have happend : ∀ {g : Text}, IsSpaces g → IsSpaces (gap ++ g) := by
    intro g hg c hc
    rcases List.mem_append.1 hc with hc | hc
    · exact h c hc
    · exact hg c hc
  cases hu with
  | nil hgap => exact .nil (happend hgap)
  | cons hgap ht =>
    rw [← List.append_assoc]
    exact .cons (happend hgap) ht

theorem Writes.spaced {ts : List Lexeme} {t : Text} (h : Writes ts t) : Spaced ts t := by
  have hnil : IsSpaces [] := fun c hc => by cases hc
  have hend := h [] [] (.nil hnil)
  rwa [List.append_nil, List.append_nil] at hend

theorem isSpaces_newLine (depth : Nat) : IsSpaces (newLine depth) := by
  intro c hc
  rcases List.mem_cons.1 hc with rfl | hc
  · decide
  · rw [List.eq_of_mem_replicate hc]
    decide

/-! ## §4. Values. -/

/-- A text writes a value: its lexemes form one, and reading them gives it. -/
structure WritesValue (v : Json) (t : Text) (ts : List Lexeme) : Prop where
  forms : Forms .value ts
  writes : Writes ts t
  run : ∀ stack, runOver (.value stack) ts = .ok (accept v stack)

/-- A text writes the items of an array. -/
structure WritesItems (vs : List Json) (t : Text) (ts : List Lexeme) : Prop where
  forms : Forms .items ts
  writes : Writes ts t
  run : ∀ items stack, runOver (.value (.array items :: stack)) ts
    = .ok (.afterItem (vs.reverse ++ items) stack)

/-- A text writes the members of an object. -/
structure WritesMembers (ms : Members) (t : Text) (ts : List Lexeme) : Prop where
  forms : Forms .members ts
  writes : Writes ts t
  run : ∀ first members stack, (∀ m ∈ ms, m.1 ∉ members.map (·.1)) →
    runOver (.key first members stack) ts = .ok (.afterMember (members ++ ms) stack)

/-- A scalar is its own lexeme. -/
theorem writesValue_scalar {v : Json} {l : Lexeme} (hforms : Forms .value [l])
    (htoken : l.token = .scalar v) : WritesValue v l.text [l] where
  forms := hforms
  writes := writes_lexeme l
  run stack := by
    show run (.value stack) [⟨l.token, 0⟩] = _
    rw [htoken]
    rfl

theorem writesValue_name {n : Text × Json} (h : n ∈ names) : WritesValue n.2 n.1 [.name n h] :=
  writesValue_scalar (.name n h) rfl

theorem writesValue_string (t : Text) : ∃ ts, WritesValue (.string t) (renderString t) ts := by
  obtain ⟨parts, htext, hvalue⟩ := exists_stringParts t
  refine ⟨[.string parts], .string parts, htext ▸ writes_lexeme _, fun stack => ?_⟩
  show Except.ok (accept (.string (joinUnits (parts.map StringPart.unit))) stack) = _
  rw [hvalue]

/-- An array of some items. -/
theorem WritesItems.value {vs : List Json} {t : Text} {ts : List Lexeme} (h : WritesItems vs t ts)
    (depth : Nat) :
    WritesValue (.array vs) (Text.join ["[", newLine (depth + 1), t, newLine depth, "]"])
      (.openArray :: ts ++ [.closeArray]) where
  forms := .array h.forms
  writes := by
    have hopen := (writes_lexeme .openArray).append (writes_gap (isSpaces_newLine (depth + 1)))
    have hclose := (writes_gap (isSpaces_newLine depth)).append (writes_lexeme .closeArray)
    have hall := hopen.append (h.writes.append hclose)
    simpa [Text.join, Lexeme.text] using hall
  run stack := by
    obtain ⟨l, rest, hts, hl⟩ := startsValue_of_forms h.forms
    have hfirst : runOver (.firstItem stack) ts = .ok (.afterItem vs.reverse stack) := by
      rw [hts, runOver_firstItem hl, ← hts, h.run, List.append_nil]
    have hsplit : runOver (.value stack) (.openArray :: ts ++ [.closeArray])
        = (runOver (.firstItem stack) ts).bind fun s => runOver s [.closeArray] := by
      rw [← runOver_append]
      rfl
    rw [hsplit, hfirst]
    show Except.ok (accept (.array vs.reverse.reverse) stack) = _
    rw [List.reverse_reverse]

/-- An object of some members. -/
theorem WritesMembers.value {ms : Members} {t : Text} {ts : List Lexeme} (h : WritesMembers ms t ts)
    (depth : Nat) :
    WritesValue (.object ms) (Text.join [[CodePoint.openBrace], newLine (depth + 1), t, newLine depth,
      [CodePoint.closeBrace]]) (.openObject :: ts ++ [.closeObject]) where
  forms := .object h.forms
  writes := by
    have hopen := (writes_lexeme .openObject).append (writes_gap (isSpaces_newLine (depth + 1)))
    have hclose := (writes_gap (isSpaces_newLine depth)).append (writes_lexeme .closeObject)
    have hall := hopen.append (h.writes.append hclose)
    simpa [Text.join, Lexeme.text] using hall
  run stack := by
    have hfirst := h.run true [] stack (fun m _ hm => by cases hm)
    have hsplit : runOver (.value stack) (.openObject :: ts ++ [.closeObject])
        = (runOver (.key true [] stack) ts).bind fun s => runOver s [.closeObject] := by
      rw [← runOver_append]
      rfl
    rw [hsplit, hfirst]
    rfl

/-- One item more. -/
theorem WritesItems.cons {v : Json} {vs : List Json} {t u : Text} {ts us : List Lexeme}
    (hv : WritesValue v t ts) (hvs : WritesItems vs u us) (depth : Nat) :
    WritesItems (v :: vs) (Text.join [t, ",", newLine depth, u]) (ts ++ .comma :: us) where
  forms := .item hv.forms hvs.forms
  writes := by
    have hcomma := (writes_lexeme .comma).append (writes_gap (isSpaces_newLine depth))
    have hall := hv.writes.append (hcomma.append hvs.writes)
    simpa [Text.join, Lexeme.text] using hall
  run items stack := by
    have hrest : runOver (.afterItem (v :: items) stack) (.comma :: us)
        = .ok (.afterItem (vs.reverse ++ (v :: items)) stack) := hvs.run (v :: items) stack
    rw [runOver_append, hv.run]
    show runOver (.afterItem (v :: items) stack) (.comma :: us) = _
    rw [hrest, List.reverse_cons, List.append_assoc]
    rfl

theorem WritesItems.single {v : Json} {t : Text} {ts : List Lexeme} (hv : WritesValue v t ts) :
    WritesItems [v] t ts where
  forms := .lastItem hv.forms
  writes := hv.writes
  run _ _ := hv.run _

theorem setMember_of_not_mem {key : Text} {value : Json} {ms : Members} (h : key ∉ ms.map (·.1)) :
    setMember key value ms = ms ++ [(key, value)] := by
  induction ms with
  | nil => rfl
  | cons m ms ih =>
    obtain ⟨k, v⟩ := m
    rw [List.map_cons, List.mem_cons, not_or] at h
    rw [setMember, if_neg (Ne.symm h.1), ih h.2]
    rfl

/-- A key, its value, and the members behind them. -/
theorem WritesMembers.cons {k : Text} {v : Json} {ms : Members} {t u : Text} {ts us : List Lexeme}
    (hv : WritesValue v t ts) (hms : WritesMembers ms u us) (hk : k ∉ ms.map (·.1)) (depth : Nat) :
    ∃ ts', WritesMembers ((k, v) :: ms)
      (Text.join [renderString k, ": ", t, ",", newLine depth, u]) ts' := by
  obtain ⟨parts, htext, hvalue⟩ := exists_stringParts k
  have hblank : IsSpaces " " := fun c hc => by
    rw [List.mem_singleton.1 hc]
    decide
  refine ⟨.string parts :: .colon :: ts ++ .comma :: us, .member parts hv.forms hms.forms, ?_, ?_⟩
  · have hkey := (writes_lexeme (.string parts)).append
      ((writes_lexeme .colon).append (writes_gap hblank))
    have hcomma := (writes_lexeme .comma).append (writes_gap (isSpaces_newLine depth))
    have hall := hkey.append (hv.writes.append (hcomma.append hms.writes))
    rw [htext] at hall
    have hcolon : (": " : Text) = Lexeme.colon.text ++ (" " : Text) := rfl
    rw [hcolon]
    simpa [Text.join, Lexeme.text] using hall
  · intro first members stack hnew
    have hsplit : runOver (.key first members stack) (.string parts :: .colon :: ts ++ .comma :: us)
        = (runOver (.value (.object members k :: stack)) ts).bind fun s => runOver s (.comma :: us) := by
      rw [← runOver_append, ← hvalue]
      rfl
    have hset : setMember k v members = members ++ [(k, v)] :=
      setMember_of_not_mem (hnew (k, v) (List.mem_cons_self ..))
    rw [hsplit, hv.run]
    show runOver (.afterMember (setMember k v members) stack) (.comma :: us) = _
    rw [hset]
    have hrest := hms.run false (members ++ [(k, v)]) stack ?_
    · show runOver (.key false (members ++ [(k, v)]) stack) us = _
      rw [hrest, List.append_assoc]
      rfl
    · -- the key is new for the members behind it too
      intro m hm hmem
      rw [List.map_append, List.mem_append] at hmem
      rcases hmem with hmem | hmem
      · exact hnew m (List.mem_cons_of_mem _ hm) hmem
      · have hmk : m.1 = k := List.mem_singleton.1 hmem
        exact hk (hmk ▸ List.mem_map_of_mem hm)

theorem WritesMembers.single {k : Text} {v : Json} {t : Text} {ts : List Lexeme}
    (hv : WritesValue v t ts) :
    ∃ ts', WritesMembers [(k, v)] (Text.join [renderString k, ": ", t]) ts' := by
  obtain ⟨parts, htext, hvalue⟩ := exists_stringParts k
  have hblank : IsSpaces " " := fun c hc => by
    rw [List.mem_singleton.1 hc]
    decide
  refine ⟨.string parts :: .colon :: ts, .lastMember parts hv.forms, ?_, ?_⟩
  · have hkey := (writes_lexeme (.string parts)).append
      ((writes_lexeme .colon).append (writes_gap hblank))
    have hall := hkey.append hv.writes
    rw [htext] at hall
    have hcolon : (": " : Text) = Lexeme.colon.text ++ (" " : Text) := rfl
    rw [hcolon]
    simpa [Text.join, Lexeme.text] using hall
  · intro first members stack hnew
    have hset : setMember k v members = members ++ [(k, v)] :=
      setMember_of_not_mem (hnew (k, v) (List.mem_cons_self ..))
    show runOver (.value (.object members (joinUnits (parts.map StringPart.unit)) :: stack)) ts = _
    rw [hvalue, hv.run]
    show Except.ok (State.afterMember (setMember k v members) stack) = _
    rw [hset]

mutual

/-- **The written form of a value writes what is read back.** -/
theorem writesValue_renderAt (depth : Nat) :
    ∀ v : Json, Writable v → ∃ ts, WritesValue v.reread (renderAt depth v) ts
  | .null, _ => ⟨_, writesValue_name (n := ("null", .null)) (by decide)⟩
  | .bool true, _ => ⟨_, writesValue_name (n := ("true", .bool true)) (by decide)⟩
  | .bool false, _ => ⟨_, writesValue_name (n := ("false", .bool false)) (by decide)⟩
  | .int i, h => by
    cases h with
    | int hshort =>
      obtain ⟨n, htext, htoken⟩ := exists_numeral_int hshort
      refine ⟨[.numeral n], ?_⟩
      rw [reread, renderAt, ← htext]
      exact writesValue_scalar (.numeral n) htoken
  | .double (.finite negative m e), _ => by
    obtain ⟨n, htext, htoken⟩ := exists_numeral_double negative m e
    refine ⟨[.numeral n], ?_⟩
    rw [reread, renderAt, ← htext]
    exact writesValue_scalar (.numeral n) htoken
  | .double (.infinity true), _ =>
    ⟨_, writesValue_name (n := ("-Infinity", .double (.infinity true))) (by decide)⟩
  | .double (.infinity false), _ =>
    ⟨_, writesValue_name (n := ("Infinity", .double (.infinity false))) (by decide)⟩
  | .double .nan, _ => ⟨_, writesValue_name (n := ("NaN", .double .nan)) (by decide)⟩
  | .string t, _ => writesValue_string t
  | .array [], _ =>
    ⟨[.openArray, .closeArray], .emptyArray,
      (writes_lexeme .openArray).append (writes_lexeme .closeArray), fun _ => rfl⟩
  | .array (v :: vs), h => by
    cases h with
    | array hvs =>
      obtain ⟨ts, hts⟩ := writesItems_render (depth + 1) v vs (hvs v (List.mem_cons_self ..))
        fun w hw => hvs w (List.mem_cons_of_mem v hw)
      refine ⟨.openArray :: ts ++ [.closeArray], ?_⟩
      have hvalue := hts.value depth
      rw [reread, rereadItems, renderAt]
      simpa [Text.join] using hvalue
  | .object [], _ =>
    ⟨[.openObject, .closeObject], .emptyObject,
      (writes_lexeme .openObject).append (writes_lexeme .closeObject), fun _ => rfl⟩
  | .object ((k, v) :: ms), h => by
    cases h with
    | object hkeys hms =>
      obtain ⟨ts, hts⟩ := writesMembers_render (depth + 1) k v ms (hms (k, v) (List.mem_cons_self ..))
        (fun m hm => hms m (List.mem_cons_of_mem _ hm)) hkeys
      refine ⟨.openObject :: ts ++ [.closeObject], ?_⟩
      have hvalue := hts.value depth
      rw [reread, rereadMembers, renderAt]
      simpa [Text.join] using hvalue
  termination_by v => sizeOf v

theorem writesItems_render (depth : Nat) :
    ∀ (v : Json) (vs : List Json), Writable v → (∀ w ∈ vs, Writable w) →
      ∃ ts, WritesItems (v.reread :: rereadItems vs) (renderAt depth v ++ renderItems depth vs) ts
  | v, [], hv, _ => by
    obtain ⟨ts, hts⟩ := writesValue_renderAt depth v hv
    refine ⟨ts, ?_⟩
    rw [rereadItems, renderItems, List.append_nil]
    exact .single hts
  | v, w :: vs, hv, hvs => by
    obtain ⟨ts, hts⟩ := writesValue_renderAt depth v hv
    obtain ⟨us, hus⟩ := writesItems_render depth w vs (hvs w (List.mem_cons_self ..))
      fun x hx => hvs x (List.mem_cons_of_mem w hx)
    refine ⟨ts ++ .comma :: us, ?_⟩
    have hall := WritesItems.cons hts hus depth
    rw [rereadItems, renderItems]
    simpa [Text.join] using hall
  termination_by v vs => sizeOf v + sizeOf vs + 1

theorem writesMembers_render (depth : Nat) :
    ∀ (k : Text) (v : Json) (ms : List (Text × Json)), Writable v → (∀ m ∈ ms, Writable m.2) →
      (((k, v) :: ms).map (·.1)).Nodup →
      ∃ ts, WritesMembers ((k, v.reread) :: rereadMembers ms)
        (Text.join [renderString k, ": ", renderAt depth v, renderMembers depth ms]) ts
  | k, v, [], hv, _, _ => by
    obtain ⟨ts, hts⟩ := writesValue_renderAt depth v hv
    obtain ⟨ts', hts'⟩ := WritesMembers.single (k := k) hts
    refine ⟨ts', ?_⟩
    rw [rereadMembers, renderMembers]
    simpa [Text.join] using hts'
  | k, v, (l, w) :: ms, hv, hms, hkeys => by
    obtain ⟨ts, hts⟩ := writesValue_renderAt depth v hv
    obtain ⟨us, hus⟩ := writesMembers_render depth l w ms (hms (l, w) (List.mem_cons_self ..))
      (fun m hm => hms m (List.mem_cons_of_mem _ hm)) (List.nodup_cons.1 hkeys).2
    have hk : k ∉ ((l, w.reread) :: rereadMembers ms).map (·.1) := by
      have hsame : ((l, w.reread) :: rereadMembers ms).map (·.1) = ((l, w) :: ms).map (·.1) := by
        rw [List.map_cons, List.map_cons, keys_reread]
      rw [hsame]
      exact (List.nodup_cons.1 hkeys).1
    obtain ⟨ts', hts'⟩ := WritesMembers.cons hts hus hk depth
    refine ⟨ts', ?_⟩
    rw [rereadMembers, renderMembers]
    simpa [Text.join] using hts'
  termination_by _ v ms => sizeOf v + sizeOf ms + 1

end

/-! ## §5. Documents. -/

/-- **A written document is read back**, also behind comments' removal and with spaces at its end. -/
theorem jsonc_decode_render {v : Json} (h : Writable v) {gap : Text} (hgap : IsSpaces gap) :
    Jsonc.decode (render v ++ gap) = .ok v.reread := by
  obtain ⟨ts, hts⟩ := writesValue_renderAt 0 v h
  have hspaced : Spaced ts (render v ++ gap) := by
    have hall := (hts.writes.append (writes_gap hgap)).spaced
    rwa [List.append_nil] at hall
  obtain ⟨hclean, hne⟩ := Jsonc.spaced_clean hts.forms (Jsonc.laidOut_of_spaced hspaced none)
  have hempty : (Jsonc.clean (render v ++ gap)).isEmpty = false := by simpa using hne
  have hrun : run (.value []) (ts.map Lexeme.located ++ [(⟨.endOfText, 0⟩ : Located)])
      = .ok (.finished v.reread) := by
    rw [run_append]
    show (runOver (.value []) ts).bind _ = _
    rw [hts.run]
    rfl
  have htokens := run_spaced hclean (isChain_of_forms hts.forms) hrun trivial
  show (if (Jsonc.clean (render v ++ gap)).isEmpty = true then .ok .null
    else decode (Jsonc.clean (render v ++ gap))) = _
  rw [hempty, if_neg Bool.false_ne_true]
  unfold decode
  rw [if_neg (head_of_spaced hclean), htokens]

/-! ## §6. Lines. -/

theorem carriageReturn_not_mem_renderString (t : Text) :
    CodePoint.carriageReturn ∉ renderString t := by
  have hone : ∀ c : CodePoint, CodePoint.carriageReturn ∉ escapeOne c := by
    intro c
    have hescaped := escaped c
    generalize escapeOne c = text at hescaped ⊢
    cases hescaped with
    | letter hmem =>
      have hall : ∀ letter ∈ escapeLetters, CodePoint.carriageReturn ∉ [CodePoint.backslash, letter] := by
        decide
      exact hall _ hmem
    | number hcontrol =>
      have hall : ∀ n < 0x20, CodePoint.carriageReturn ∉ Text.join ["\\u", Text.hex 4 n] := by
        decide
      exact hall c.code hcontrol
    | plain _ _ hcode =>
      rw [List.mem_singleton]
      rintro rfl
      exact absurd hcode (by decide)
  have hquote : CodePoint.carriageReturn ∉ [CodePoint.quote] := by decide
  rw [renderString_eq, List.mem_append, List.mem_append, List.mem_flatMap]
  rintro ((h | ⟨c, -, h⟩) | h)
  · exact hquote h
  · exact hone c h
  · exact hquote h

theorem carriageReturn_not_mem_newLine (depth : Nat) : CodePoint.carriageReturn ∉ newLine depth := by
  unfold newLine
  rw [List.mem_cons, not_or]
  exact ⟨by decide, fun h => absurd (List.eq_of_mem_replicate h) (by decide)⟩

theorem carriageReturn_not_mem_numeral (n : Numeral) : CodePoint.carriageReturn ∉ n.text := by
  intro h
  refine n.forall_mem_text (P := fun c => c ≠ CodePoint.carriageReturn) ?_ (by decide) _ h rfl
  rintro c hc rfl
  revert hc
  decide

mutual

/-- The written form of a value has no carriage return. -/
theorem carriageReturn_not_mem_renderAt (depth : Nat) :
    ∀ v : Json, CodePoint.carriageReturn ∉ renderAt depth v
  | .null => by
    rw [renderAt]
    decide
  | .bool true => by
    rw [renderAt]
    decide
  | .bool false => by
    rw [renderAt]
    decide
  | .int i => by
    rw [renderAt]
    unfold Text.ofInt
    intro h
    have hdigits : CodePoint.carriageReturn ∉ Text.ofNat i.natAbs := fun h =>
      absurd (Text.isAsciiDigit_ofNat h) (by decide)
    split at h
    · rcases List.mem_cons.1 h with h | h
      · exact absurd h (by decide)
      · exact hdigits h
    · exact hdigits h
  | .double (.finite negative m e) => by
    obtain ⟨n, htext, -⟩ := exists_numeral_double negative m e
    rw [renderAt, ← htext]
    exact carriageReturn_not_mem_numeral n
  | .double (.infinity true) => by
    rw [renderAt]
    decide
  | .double (.infinity false) => by
    rw [renderAt]
    decide
  | .double .nan => by
    rw [renderAt]
    decide
  | .string t => carriageReturn_not_mem_renderString t
  | .array [] => by
    rw [renderAt]
    decide
  | .array (v :: vs) => by
    rw [renderAt]
    simp only [Text.join_cons, Text.join_nil, List.append_nil, List.mem_append, not_or]
    exact ⟨by decide, carriageReturn_not_mem_newLine _, carriageReturn_not_mem_renderAt _ v,
      carriageReturn_not_mem_renderItems _ vs, carriageReturn_not_mem_newLine _, by decide⟩
  | .object [] => by
    rw [renderAt]
    decide
  | .object ((k, v) :: ms) => by
    rw [renderAt]
    simp only [Text.join_cons, Text.join_nil, List.append_nil, List.mem_append, not_or]
    exact ⟨by decide, carriageReturn_not_mem_newLine _, carriageReturn_not_mem_renderString k,
      by decide, carriageReturn_not_mem_renderAt _ v, carriageReturn_not_mem_renderMembers _ ms,
      carriageReturn_not_mem_newLine _, by decide⟩

theorem carriageReturn_not_mem_renderItems (depth : Nat) :
    ∀ vs : List Json, CodePoint.carriageReturn ∉ renderItems depth vs
  | [] => by
    rw [renderItems]
    exact List.not_mem_nil
  | v :: vs => by
    rw [renderItems]
    simp only [Text.join_cons, Text.join_nil, List.append_nil, List.mem_append, not_or]
    exact ⟨by decide, carriageReturn_not_mem_newLine _, carriageReturn_not_mem_renderAt _ v,
      carriageReturn_not_mem_renderItems _ vs⟩

theorem carriageReturn_not_mem_renderMembers (depth : Nat) :
    ∀ ms : List (Text × Json), CodePoint.carriageReturn ∉ renderMembers depth ms
  | [] => by
    rw [renderMembers]
    exact List.not_mem_nil
  | (k, v) :: ms => by
    rw [renderMembers]
    simp only [Text.join_cons, Text.join_nil, List.append_nil, List.mem_append, not_or]
    exact ⟨by decide, carriageReturn_not_mem_newLine _, carriageReturn_not_mem_renderString k,
      by decide, carriageReturn_not_mem_renderAt _ v, carriageReturn_not_mem_renderMembers _ ms⟩

end

/-! ## §7. What was read can be written. -/

/-- The values in a token can be written. -/
def Token.Writable : Token → Prop
  | .scalar v => Json.Writable v
  | _ => True

/-- The values in an open container can be written. -/
def Frame.Writable : Frame → Prop
  | .array items => ∀ v ∈ items, Json.Writable v
  | .object ms _ => Json.Writable (.object ms)

/-- All values that the machine holds can be written. -/
def State.Writable : State → Prop
  | .value stack | .firstItem stack => ∀ f ∈ stack, Frame.Writable f
  | .key _ ms stack | .colon ms _ stack | .afterMember ms stack =>
    Json.Writable (.object ms) ∧ ∀ f ∈ stack, Frame.Writable f
  | .afterItem items stack => (∀ v ∈ items, Json.Writable v) ∧ ∀ f ∈ stack, Frame.Writable f
  | .finished v => Json.Writable v

theorem Writable.setMember {ms : Members} (h : Writable (.object ms)) (key : Text) {v : Json}
    (hv : Writable v) : Writable (.object (setMember key v ms)) := by
  cases h with
  | object hkeys hms =>
    refine .object ?_ ?_
    · rw [keys_setMember]
      split
      · exact hkeys
      · rename_i hnew
        refine List.nodup_append.2 ⟨hkeys, List.nodup_singleton key, ?_⟩
        intro a ha b hb heq
        rw [List.mem_singleton.1 hb] at heq
        exact hnew (heq ▸ ha)
    -- the induction is over the members alone, and the keys would stand in its way
    · clear hkeys
      induction ms with
      | nil =>
        intro m hm
        rw [List.mem_singleton.1 hm]
        exact hv
      | cons m ms ih =>
        obtain ⟨k, w⟩ := m
        have hrest := ih fun m hm => hms m (List.mem_cons_of_mem _ hm)
        intro m hm
        rw [Json.setMember] at hm
        split at hm
        · rcases List.mem_cons.1 hm with rfl | hm
          · exact hv
          · exact hms m (List.mem_cons_of_mem _ hm)
        · rcases List.mem_cons.1 hm with rfl | hm
          · exact hms (k, w) (List.mem_cons_self ..)
          · exact hrest m hm

theorem writable_accept {v : Json} (hv : Writable v) {stack : List Frame}
    (h : ∀ f ∈ stack, Frame.Writable f) : (accept v stack).Writable := by
  cases stack with
  | nil => exact hv
  | cons f stack =>
    have hf := h f (List.mem_cons_self ..)
    have hstack : ∀ g ∈ stack, Frame.Writable g := fun g hg => h g (List.mem_cons_of_mem f hg)
    cases f with
    | array items =>
      refine ⟨fun w hw => ?_, hstack⟩
      rcases List.mem_cons.1 hw with rfl | hw
      · exact hv
      · exact hf w hw
    | object ms key => exact ⟨Writable.setMember hf key hv, hstack⟩

theorem writable_empty : Writable (.object []) := .object List.nodup_nil fun _ hm => by cases hm

theorem writable_startValue {stack : List Frame} (h : ∀ f ∈ stack, Frame.Writable f) {t : Located}
    (ht : t.token.Writable) {s : State} (hs : startValue stack t = .ok s) : s.Writable := by
  unfold startValue at hs
  split at hs
  · cases hs
    exact ⟨writable_empty, h⟩
  · cases hs
    exact h
  · cases hs
    exact writable_accept (.string _) h
  · rename_i v htoken
    cases hs
    rw [htoken] at ht
    exact writable_accept ht h
  · cases hs
  · cases hs
  · cases hs

/-- One token keeps what the machine holds writable. -/
theorem writable_step {s s' : State} (h : s.Writable) {t : Located} (ht : t.token.Writable)
    (hs : step s t = .ok s') : s'.Writable := by
  have harray : Writable (.array []) := .array fun _ hm => by cases hm
  -- one case for each state; a value that ends is held by what is around it
  cases s with
  | value stack => exact writable_startValue h ht hs
  | firstItem stack =>
    simp only [step] at hs
    split at hs
    · cases hs
      exact writable_accept harray h
    · refine writable_startValue ?_ ht hs
      intro f hf
      rcases List.mem_cons.1 hf with rfl | hf
      · exact fun _ hv => by cases hv
      · exact h f hf
  | key first ms stack =>
    simp only [step] at hs
    split at hs
    · cases hs
      exact h
    · cases hs
    · split at hs
      · cases hs
        exact writable_accept h.1 h.2
      · cases hs
    · cases hs
  | colon ms k stack =>
    simp only [step] at hs
    split at hs
    · cases hs
      intro f hf
      rcases List.mem_cons.1 hf with rfl | hf
      · exact h.1
      · exact h.2 f hf
    · cases hs
  | afterItem items stack =>
    simp only [step] at hs
    split at hs
    · cases hs
      intro f hf
      rcases List.mem_cons.1 hf with rfl | hf
      · exact h.1
      · exact h.2 f hf
    · cases hs
      exact writable_accept (.array fun v hv => h.1 v (List.mem_reverse.1 hv)) h.2
    · cases hs
  | afterMember ms stack =>
    simp only [step] at hs
    split at hs
    · cases hs
      exact h
    · cases hs
      exact writable_accept h.1 h.2
    · cases hs
  | finished v =>
    simp only [step] at hs
    split at hs
    · cases hs
      exact h
    · cases hs

theorem writable_run {s s' : State} (h : s.Writable) :
    ∀ {ts : List Located}, (∀ t ∈ ts, t.token.Writable) → run s ts = .ok s' → s'.Writable
  | [], _, hs => by
    cases hs
    exact h
  | t :: ts, hts, hs => by
    unfold run at hs
    split at hs
    · rename_i s1 hstep
      exact writable_run (writable_step h (hts t (List.mem_cons_self ..)) hstep)
        (fun u hu => hts u (List.mem_cons_of_mem t hu)) hs
    · cases hs

theorem valueOfDigits_lt {t : Text} (h : ∀ c ∈ t, c.isAsciiDigit = true) :
    Text.valueOfDigits t < 10 ^ t.length := by
  induction t with
  | nil => decide
  | cons c t ih =>
    have hc := h c (List.mem_cons_self ..)
    have ht := ih fun d hd => h d (List.mem_cons_of_mem c hd)
    simp only [CodePoint.isAsciiDigit, Bool.and_eq_true, decide_eq_true_eq] at hc
    have hcons := Text.valueOfDigits_append [c] t
    have hone : Text.valueOfDigits [c] = c.code - 0x30 := by simp [Text.valueOfDigits]
    rw [List.singleton_append, hone] at hcons
    rw [hcons, List.length_cons, pow_succ]
    have hle : (c.code - 0x30) * 10 ^ t.length ≤ 9 * 10 ^ t.length :=
      Nat.mul_le_mul_right _ (by omega)
    omega

/-- An integer token is not too long. -/
theorem writable_numberToken (negative : Bool) {whole : Text} (hwhole : IsDigits whole)
    (fraction : Option Text) (exponent : Option (Bool × Text)) :
    (numberToken negative whole fraction exponent).Writable := by
  unfold numberToken
  split
  · dsimp only
    split
    · trivial
    · rename_i hlong
      refine .int ?_
      have habs : (if negative = true then -(Text.valueOfDigits whole : Int)
          else Text.valueOfDigits whole).natAbs = Text.valueOfDigits whole := by
        cases negative
        · exact Int.natAbs_natCast _
        · exact Int.natAbs_neg _
      have hlength := Nat.toDigits_length 10 (Text.valueOfDigits whole) whole.length
        (List.length_pos_iff.2 hwhole.1) (valueOfDigits_lt hwhole.2)
      unfold IsShort
      rw [habs, Text.length_ofNat]
      unfold Binary64.digitCount
      omega
  · exact .double _

theorem isDigits_of_scanWhole {t digits rest : Text} (h : scanWhole? t = some (digits, rest)) :
    IsDigits digits := by
  cases t with
  | nil => cases h
  | cons c t =>
    simp only [scanWhole?] at h
    split at h
    · rename_i hc
      cases h
      refine ⟨by simp, fun d hd => ?_⟩
      rw [List.mem_singleton.1 hd, hc]
      decide
    · split at h
      · rename_i hdigit
        simp only [spanDigits, List.takeWhile_cons, hdigit, if_true, Option.some.injEq,
          Prod.mk.injEq] at h
        rw [← h.1]
        refine ⟨by simp, fun d hd => ?_⟩
        rcases List.mem_cons.1 hd with rfl | hd
        · exact hdigit
        · exact (List.mem_takeWhile_imp hd :)
      · cases h

theorem writable_scanNumber {negative : Bool} {t rest : Text} {token : Token}
    (h : scanNumber? negative t = some (token, rest)) : token.Writable := by
  unfold scanNumber? at h
  split at h
  · cases h
  · rename_i whole rest' hwhole
    simp only [Option.some.injEq, Prod.mk.injEq] at h
    rw [← h.1]
    exact writable_numberToken negative (isDigits_of_scanWhole hwhole) _ _

theorem writable_scanScalar {t rest : Text} {token : Token}
    (h : scanScalar? t = some (token, rest)) : token.Writable := by
  unfold scanScalar? at h
  split at h
  · rename_i r hname
    cases h
    unfold scanName? at hname
    obtain ⟨n, hn, heq⟩ := Option.map_eq_some_iff.1 hname
    cases heq
    have hmem := List.mem_of_find?_eq_some hn
    unfold names at hmem
    simp only [List.mem_cons, List.not_mem_nil, or_false] at hmem
    rcases hmem with rfl | rfl | rfl | rfl | rfl | rfl
    · exact .null
    · exact .bool true
    · exact .bool false
    · exact .double _
    · exact .double _
    · exact .double _
  · split at h
    · exact writable_scanNumber h
    · exact writable_scanNumber h

theorem writable_tokensFrom (position : Nat) (t : Text) :
    ∀ u ∈ tokensFrom position t, u.token.Writable := by
  -- marks hold nothing
  have hmark : ∀ {c : CodePoint} {token : Token}, punctuation? c = some token → token.Writable := by
    intro c token h
    have hall : ∀ l ∈ marks, l.token.Writable := by simp [marks, Lexeme.token, Token.Writable]
    obtain ⟨l, hl, -, rfl⟩ := exists_mark h
    exact hall l hl
  fun_induction tokensFrom position t with
  | case1 position =>
    intro u hu
    rw [List.mem_singleton.1 hu]
    trivial
  | case2 position c rest hspace ih => exact ih
  | case3 position c rest hspace token htoken ih =>
    intro u hu
    rcases List.mem_cons.1 hu with rfl | hu
    · exact hmark htoken
    · exact ih u hu
  | case4 position rest hspace hmark' units rest' hs hlen ih =>
    intro u hu
    rcases List.mem_cons.1 hu with rfl | hu
    · trivial
    · exact ih u hu
  | case5 =>
    intro u hu
    rw [List.mem_singleton.1 hu]
    trivial
  | case6 =>
    intro u hu
    rw [List.mem_singleton.1 hu]
    trivial
  | case7 =>
    intro u hu
    rw [List.mem_singleton.1 hu]
    trivial
  | case8 position c rest hspace hmark' hquote token rest' hs hlen ih =>
    intro u hu
    rcases List.mem_cons.1 hu with rfl | hu
    · exact writable_scanScalar hs
    · exact ih u hu

/-- **What was read can be written.** -/
theorem writable_of_decode {t : Text} {v : Json} (h : decode t = .ok v) : Writable v := by
  unfold decode at h
  split at h
  · cases h
  · split at h
    · rename_i w hrun
      cases h
      have hstart : (State.value []).Writable := fun f hf => by cases hf
      exact writable_run hstart (writable_tokensFrom 0 t) hrun
    · cases h
    · cases h
    · cases h

theorem writable_of_jsonc_decode {t : Text} {v : Json} (h : Jsonc.decode t = .ok v) : Writable v := by
  unfold Jsonc.decode at h
  dsimp only at h
  split at h
  · cases h
    exact .null
  · exact writable_of_decode h

end Json

end ModuleBuild
