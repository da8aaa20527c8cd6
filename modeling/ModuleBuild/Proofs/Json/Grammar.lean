/-
  ModuleBuild.Proofs.Json.Grammar
  ───────────────────────────────
  **SEQUENCES OF TOKENS THAT FORM A DOCUMENT.**

  The grammar of documents is a set of rules over lexemes.  The machine that
  reads documents is shown to take every sequence that the rules form: it
  ends with the value, or at an integer with more digits than are read, and
  which of the two, and with what, is the same wherever the tokens stand.
  So white space between the tokens makes no difference.

  Main results:
    * `run_forms` — the machine takes what the rules form;
    * `tokens_spaced` — white space between lexemes leaves the tokens as they are;
    * `decode_spaced` — a document has one outcome, however it is spaced.
-/
import Mathlib.Data.List.Chain
import ModuleBuild.Json.Decode
import ModuleBuild.Proofs.Json.Lexeme

namespace ModuleBuild

namespace Json

/-! ## §1. The rules. -/

/-- What the rules form. -/
inductive Phrase
  | value
  /-- The items of an array, one at least. -/
  | items
  /-- The members of an object, one at least. -/
  | members

/-- The rules: which lexemes form a phrase. -/
inductive Forms : Phrase → List Lexeme → Prop
  | string (parts : List StringPart) : Forms .value [.string parts]
  | numeral (n : Numeral) : Forms .value [.numeral n]
  | name (n : Text × Json) (h : n ∈ names) : Forms .value [.name n h]
  | emptyArray : Forms .value [.openArray, .closeArray]
  | array {ts : List Lexeme} : Forms .items ts → Forms .value (.openArray :: ts ++ [.closeArray])
  | emptyObject : Forms .value [.openObject, .closeObject]
  | object {ts : List Lexeme} :
    Forms .members ts → Forms .value (.openObject :: ts ++ [.closeObject])
  | lastItem {ts : List Lexeme} : Forms .value ts → Forms .items ts
  | item {ts us : List Lexeme} :
    Forms .value ts → Forms .items us → Forms .items (ts ++ .comma :: us)
  | lastMember (key : List StringPart) {ts : List Lexeme} :
    Forms .value ts → Forms .members (.string key :: .colon :: ts)
  | member (key : List StringPart) {ts us : List Lexeme} :
    Forms .value ts → Forms .members us →
      Forms .members (.string key :: .colon :: ts ++ .comma :: us)

/-- The lexemes of a whole document. -/
def IsDocument (ts : List Lexeme) : Prop := Forms .value ts

/-! ## §2. The machine. -/

/-- A token whose place does not matter. -/
def Lexeme.located (l : Lexeme) : Located := ⟨l.token, 0⟩

/-- A result of the machine that no place has a part in: a state, or a long integer. -/
def Placeless : Except Refusal State → Prop
  | .error (.grammar ..) => False
  | _ => True

theorem startValue_placeless {stack : List Frame} {token : Token} {p : Nat}
    (h : Placeless (startValue stack ⟨token, p⟩)) (q : Nat) :
    startValue stack ⟨token, q⟩ = startValue stack ⟨token, p⟩ := by
  cases token <;> first | rfl | cases h

/-- The place of a token has a part in the faults of the grammar only. -/
theorem step_placeless {s : State} {token : Token} {p : Nat} (h : Placeless (step s ⟨token, p⟩))
    (q : Nat) : step s ⟨token, q⟩ = step s ⟨token, p⟩ := by
  cases s with
  | value stack => exact startValue_placeless h q
  | firstItem stack => cases token <;> first | rfl | cases h
  | key first members stack =>
    cases token <;> first | rfl | cases h | (cases first <;> first | rfl | cases h)
  | colon members key stack => cases token <;> first | rfl | cases h
  | afterItem items stack => cases token <;> first | rfl | cases h
  | afterMember members stack => cases token <;> first | rfl | cases h
  | finished v => cases token <;> first | rfl | cases h

/-- The machine goes the same way over the same tokens in other places, unless it finds a fault. -/
theorem run_placeless {ts us : List Located} (hsame : ts.map (·.token) = us.map (·.token))
    {s : State} (h : Placeless (run s ts)) : run s us = run s ts := by
  induction ts generalizing us s with
  | nil =>
    cases us with
    | nil => rfl
    | cons u us => cases hsame
  | cons t ts ih =>
    cases us with
    | nil => cases hsame
    | cons u us =>
      obtain ⟨token, p⟩ := t
      obtain ⟨token', q⟩ := u
      -- the places show in faults only, and there is none
      simp only [List.map_cons, List.cons.injEq] at hsame
      obtain ⟨rfl, hsame⟩ := hsame
      rw [run] at h
      rw [run, run]
      cases hstep : step s ⟨token, p⟩ with
      | ok s' =>
        rw [hstep] at h
        have hplaceless : Placeless (step s ⟨token, p⟩) := by
          rw [hstep]
          trivial
        rw [step_placeless hplaceless q, hstep]
        exact ih hsame h
      | error r =>
        rw [hstep] at h
        have hplaceless : Placeless (step s ⟨token, p⟩) := by
          rw [hstep]
          exact h
        rw [step_placeless hplaceless q, hstep]

/-- Reads some lexemes from a state. -/
def runOver (s : State) (ts : List Lexeme) : Except Refusal State := run s (ts.map Lexeme.located)

theorem runOver_append (s : State) (ts us : List Lexeme) :
    runOver s (ts ++ us) = (runOver s ts).bind fun s' => runOver s' us := by
  unfold runOver
  rw [List.map_append, run_append]

theorem runOver_cons_of_ok {s s' : State} {l : Lexeme} (h : step s l.located = .ok s')
    (rest : List Lexeme) : runOver s (l :: rest) = runOver s' rest := by
  unfold runOver
  rw [List.map_cons, run, h]

theorem runOver_cons_of_error {s : State} {l : Lexeme} {refusal : Refusal}
    (h : step s l.located = .error refusal) (rest : List Lexeme) :
    runOver s (l :: rest) = .error refusal := by
  unfold runOver
  rw [List.map_cons, run, h]

/-- One of the lexemes is an integer with so many digits that it is not read. -/
def HasLongInteger (digits : Nat) (ts : List Lexeme) : Prop :=
  ∃ n : Numeral, Lexeme.numeral n ∈ ts ∧ n.token = .longInteger digits

/-- What a phrase does to the machine: in the same way from each state in which it may come, it leads
to another state, or ends in one long integer. -/
inductive Outcome {α : Type} (start : α → State) (ts : List Lexeme) (finish : α → State) : Prop
  | done (h : ∀ a, runOver (start a) ts = .ok (finish a))
  | long (digits : Nat) (mem : HasLongInteger digits ts)
    (h : ∀ a, runOver (start a) ts = .error (.longInteger digits))

/-- One phrase after another; the second may come wherever the first leads to. -/
theorem Outcome.append {α β : Type} {start finish : α → State} {start' finish' : β → State}
    {ts us : List Lexeme} (h : Outcome start ts finish) (h' : Outcome start' us finish')
    (follow : α → β) (hfollow : ∀ a, finish a = start' (follow a)) :
    Outcome start (ts ++ us) fun a => finish' (follow a) := by
  cases h with
  | long digits hmem h =>
    obtain ⟨n, hn, hlong⟩ := hmem
    exact .long digits ⟨n, List.mem_append_left _ hn, hlong⟩ fun a => by
      rw [runOver_append, h a]
      rfl
  | done h =>
    have hboth : ∀ a, runOver (start a) (ts ++ us) = runOver (start' (follow a)) us := by
      intro a
      rw [runOver_append, h a, ← hfollow a]
      rfl
    cases h' with
    | done h' => exact .done fun a => by rw [hboth, h']
    | long digits hmem h' =>
      obtain ⟨n, hn, hlong⟩ := hmem
      exact .long digits ⟨n, List.mem_append_right _ hn, hlong⟩ fun a => by rw [hboth, h']

/-- A lexeme that each state takes. -/
theorem Outcome.single {α : Type} {start finish : α → State} (l : Lexeme)
    (h : ∀ a, step (start a) l.located = .ok (finish a)) : Outcome start [l] finish := by
  refine .done fun a => ?_
  rw [runOver_cons_of_ok (h a)]
  rfl

/-- What a phrase means for the machine.  A value is accepted; items are added in front of those that
are there, last first; members are set one after the other. -/
def Phrase.Taken (ts : List Lexeme) : Phrase → Prop
  | .value => ∃ v, Outcome State.value ts (accept v)
  | .items => ∃ items, Outcome (fun a : List Json × List Frame => .value (.array a.1 :: a.2)) ts
      fun a => .afterItem (items ++ a.1) a.2
  | .members => ∃ set : Members → Members,
      Outcome (fun a : Bool × Members × List Frame => .key a.1 a.2.1 a.2.2) ts
        fun a => .afterMember (set a.2.1) a.2.2

theorem token_numeral (n : Numeral) :
    (∃ v, n.token = .scalar v) ∨ ∃ digits, n.token = .longInteger digits := by
  unfold Numeral.token numberToken
  split
  · split
    · exact .inr ⟨_, rfl⟩
    · exact .inl ⟨_, rfl⟩
  · exact .inl ⟨_, rfl⟩

theorem outcome_numeral (n : Numeral) : Phrase.Taken [.numeral n] .value := by
  rcases token_numeral n with ⟨v, hv⟩ | ⟨digits, hd⟩
  · refine ⟨v, .single _ fun stack => ?_⟩
    show startValue stack ⟨n.token, 0⟩ = _
    rw [hv]
    rfl
  · refine ⟨.null, .long digits ⟨n, List.mem_singleton.2 rfl, hd⟩ fun stack => ?_⟩
    refine runOver_cons_of_error ?_ []
    show startValue stack ⟨n.token, 0⟩ = _
    rw [hd]
    rfl

/-- A lexeme with which a value may start. -/
def Lexeme.startsValue : Lexeme → Bool
  | .closeObject | .closeArray | .colon | .comma => false
  | _ => true

theorem startsValue_of_forms {p : Phrase} {ts : List Lexeme} (h : Forms p ts) :
    ∃ l rest, ts = l :: rest ∧ l.startsValue = true := by
  induction h with
  | string parts => exact ⟨_, _, rfl, rfl⟩
  | numeral n => exact ⟨_, _, rfl, rfl⟩
  | name n h => exact ⟨_, _, rfl, rfl⟩
  | emptyArray => exact ⟨_, _, rfl, rfl⟩
  | array _ _ => exact ⟨_, _, rfl, rfl⟩
  | emptyObject => exact ⟨_, _, rfl, rfl⟩
  | object _ _ => exact ⟨_, _, rfl, rfl⟩
  | lastItem _ ih => exact ih
  | item _ _ ih _ =>
    obtain ⟨l, rest, rfl, hl⟩ := ih
    exact ⟨_, _, rfl, hl⟩
  | lastMember key _ _ => exact ⟨_, _, rfl, rfl⟩
  | member key _ _ _ _ => exact ⟨_, _, rfl, rfl⟩

/-- After the bracket that opens an array the machine reads on as before any item, unless the array ends
at once. -/
theorem runOver_firstItem {l : Lexeme} (h : l.startsValue = true) (rest : List Lexeme)
    (stack : List Frame) :
    runOver (.firstItem stack) (l :: rest) = runOver (.value (.array [] :: stack)) (l :: rest) := by
  have hstep : step (.firstItem stack) l.located = step (.value (.array [] :: stack)) l.located := by
    show step (.firstItem stack) ⟨l.token, 0⟩ = startValue (.array [] :: stack) ⟨l.token, 0⟩
    cases hl : l.token with
    | closeArray =>
      cases l with
      | closeArray => cases h
      | numeral n =>
        rcases token_numeral n with ⟨v, hv⟩ | ⟨digits, hd⟩
        · rw [Lexeme.token, hv] at hl
          cases hl
        · rw [Lexeme.token, hd] at hl
          cases hl
      | _ => cases hl
    | _ => rfl
  unfold runOver
  rw [List.map_cons, run, run, hstep]

/-- An item is added in front of those before it. -/
theorem outcome_item {ts : List Lexeme} {v : Json} (h : Outcome State.value ts (accept v)) :
    Outcome (fun a : List Json × List Frame => .value (.array a.1 :: a.2)) ts
      fun a => .afterItem (v :: a.1) a.2 := by
  have hnone : Outcome (fun a : List Json × List Frame => .value (.array a.1 :: a.2)) []
      fun a => .value (.array a.1 :: a.2) := .done fun _ => rfl
  exact hnone.append h (fun a => .array a.1 :: a.2) fun _ => rfl

/-- A member is set after those before it. -/
theorem outcome_member (key : List StringPart) {ts : List Lexeme} {v : Json}
    (h : Outcome State.value ts (accept v)) :
    Outcome (fun a : Bool × Members × List Frame => .key a.1 a.2.1 a.2.2)
      (.string key :: .colon :: ts)
      fun a => .afterMember (setMember (joinUnits (key.map StringPart.unit)) v a.2.1) a.2.2 := by
  let k : Text := joinUnits (key.map StringPart.unit)
  have hkey : Outcome (fun a : Bool × Members × List Frame => .key a.1 a.2.1 a.2.2) [.string key]
      fun a => .colon a.2.1 k a.2.2 := .single _ fun _ => rfl
  have hcolon : Outcome (fun a : Bool × Members × List Frame => .colon a.2.1 k a.2.2) [.colon]
      fun a => .value (.object a.2.1 k :: a.2.2) := .single _ fun _ => rfl
  exact (hkey.append hcolon id fun _ => rfl).append h (fun a => .object a.2.1 k :: a.2.2)
    fun _ => rfl

/-- **The machine takes what the rules form.**  By induction on the rules; an array and an object are
their parts between two marks. -/
theorem run_forms {p : Phrase} {ts : List Lexeme} (h : Forms p ts) : p.Taken ts := by
  induction h with
  | string parts => exact ⟨_, .single _ fun _ => rfl⟩
  | numeral n => exact outcome_numeral n
  | name n h => exact ⟨_, .single _ fun _ => rfl⟩
  | emptyArray =>
    have hopen : Outcome State.value [.openArray] State.firstItem := .single _ fun _ => rfl
    have hclose : Outcome State.firstItem [.closeArray] (accept (.array [])) := .single _ fun _ => rfl
    exact ⟨_, hopen.append hclose id fun _ => rfl⟩
  | @array ts hforms ih =>
    obtain ⟨items, ih⟩ := ih
    obtain ⟨l, rest, rfl, hl⟩ := startsValue_of_forms hforms
    have hopen : Outcome State.value [.openArray] State.firstItem := .single _ fun _ => rfl
    have hitems : Outcome State.firstItem (l :: rest) fun stack => .afterItem (items ++ []) stack := by
      cases ih with
      | done ih => exact .done fun stack => by rw [runOver_firstItem hl]; exact ih ([], stack)
      | long digits hmem ih =>
        exact .long digits hmem fun stack => by rw [runOver_firstItem hl]; exact ih ([], stack)
    have hclose : Outcome (fun stack => .afterItem (items ++ []) stack) [.closeArray]
        (accept (.array (items ++ []).reverse)) := .single _ fun _ => rfl
    exact ⟨_, (hopen.append hitems id fun _ => rfl).append hclose id fun _ => rfl⟩
  | emptyObject =>
    have hopen : Outcome State.value [.openObject] (State.key true []) := .single _ fun _ => rfl
    have hclose : Outcome (State.key true []) [.closeObject] (accept (.object [])) :=
      .single _ fun _ => rfl
    exact ⟨_, hopen.append hclose id fun _ => rfl⟩
  | @object ts _ ih =>
    obtain ⟨set, ih⟩ := ih
    have hopen : Outcome State.value [.openObject] (State.key true []) := .single _ fun _ => rfl
    have hclose : Outcome (State.afterMember (set [])) [.closeObject] (accept (.object (set []))) :=
      .single _ fun _ => rfl
    have hmembers := hopen.append ih (fun stack => (true, [], stack)) fun _ => rfl
    exact ⟨_, hmembers.append hclose id fun _ => rfl⟩
  | lastItem _ ih =>
    obtain ⟨v, ih⟩ := ih
    exact ⟨[v], outcome_item ih⟩
  | item _ _ ihv ihs =>
    obtain ⟨v, ihv⟩ := ihv
    obtain ⟨items, ihs⟩ := ihs
    have hcomma : Outcome (fun a : List Json × List Frame => .afterItem (v :: a.1) a.2) [.comma]
        fun a => .value (.array (v :: a.1) :: a.2) := .single _ fun _ => rfl
    have hrest := hcomma.append ihs (fun a => (v :: a.1, a.2)) fun _ => rfl
    have hall := (outcome_item ihv).append hrest id fun _ => rfl
    refine ⟨items ++ [v], ?_⟩
    simp only [List.append_assoc, List.singleton_append]
    exact hall
  | lastMember key _ ih =>
    obtain ⟨v, ih⟩ := ih
    exact ⟨setMember _ v, outcome_member key ih⟩
  | member key _ _ ihv ihs =>
    obtain ⟨v, ihv⟩ := ihv
    obtain ⟨set, ihs⟩ := ihs
    let k : Text := joinUnits (key.map StringPart.unit)
    have hcomma : Outcome (fun a : Bool × Members × List Frame =>
        .afterMember (setMember k v a.2.1) a.2.2) [.comma]
        fun a => .key false (setMember k v a.2.1) a.2.2 := .single _ fun _ => rfl
    have hrest := hcomma.append ihs (fun a => (false, setMember k v a.2.1, a.2.2)) fun _ => rfl
    have hall := (outcome_member key ihv).append hrest id fun _ => rfl
    exact ⟨fun done => set (setMember k v done), hall⟩

/-! ## §3. Neighbours. -/

/-- Whether a lexeme ends a container. -/
def Lexeme.isCloser : Lexeme → Bool
  | .closeObject | .closeArray => true
  | _ => false

/-- Whether a lexeme begins a container. -/
def Lexeme.isOpener : Lexeme → Bool
  | .openObject | .openArray => true
  | _ => false

def Lexeme.isNumeral : Lexeme → Bool
  | .numeral _ => true
  | _ => false

def Lexeme.isComma : Lexeme → Bool
  | .comma => true
  | _ => false

/-- Two lexemes that may be neighbours in a document: no two numerals, and no comma before the end of
a container. -/
def Neighbours (a b : Lexeme) : Prop :=
  ¬ (a.isNumeral = true ∧ b.isNumeral = true) ∧ ¬ (a.isComma = true ∧ b.isCloser = true)

theorem not_isCloser_of_startsValue {l : Lexeme} (h : l.startsValue = true) :
    l.isCloser = false := by
  cases l <;> first | rfl | cases h

/-- A phrase ends with no comma. -/
theorem last_of_forms {p : Phrase} {ts : List Lexeme} (h : Forms p ts) :
    ∃ init l, ts = init ++ [l] ∧ l.isComma = false := by
  induction h with
  | string parts => exact ⟨[], _, rfl, rfl⟩
  | numeral n => exact ⟨[], _, rfl, rfl⟩
  | name n h => exact ⟨[], _, rfl, rfl⟩
  | emptyArray => exact ⟨[.openArray], _, rfl, rfl⟩
  | array _ _ => exact ⟨_, _, rfl, rfl⟩
  | emptyObject => exact ⟨[.openObject], _, rfl, rfl⟩
  | object _ _ => exact ⟨_, _, rfl, rfl⟩
  | lastItem _ ih => exact ih
  | @item ts _ _ _ _ ih =>
    obtain ⟨init, l, rfl, hl⟩ := ih
    exact ⟨ts ++ .comma :: init, l, by simp, hl⟩
  | lastMember key _ ih =>
    obtain ⟨init, l, rfl, hl⟩ := ih
    exact ⟨.string key :: .colon :: init, l, rfl, hl⟩
  | @member key ts _ _ _ _ ih =>
    obtain ⟨init, l, rfl, hl⟩ := ih
    exact ⟨.string key :: .colon :: ts ++ .comma :: init, l, by simp, hl⟩

/-- Between two lexemes of which neither is a numeral or a comma nothing is asked. -/
theorem neighbours_mark {a b : Lexeme} (hn : a.isNumeral = false ∨ b.isNumeral = false)
    (hc : a.isComma = false ∨ b.isCloser = false) : Neighbours a b := by
  constructor
  · rintro ⟨ha, hb⟩
    rcases hn with h | h
    · rw [h] at ha
      cases ha
    · rw [h] at hb
      cases hb
  · rintro ⟨ha, hb⟩
    rcases hc with h | h
    · rw [h] at ha
      cases ha
    · rw [h] at hb
      cases hb

/-- A phrase behind a mark, with more behind it. -/
theorem isChain_cons_phrase {a : Lexeme} {p : Phrase} {ts us : List Lexeme} (h : Forms p ts)
    (ha : a.isNumeral = false) (hchain : (ts ++ us).IsChain Neighbours) :
    (a :: (ts ++ us)).IsChain Neighbours := by
  obtain ⟨l, rest, rfl, hl⟩ := startsValue_of_forms h
  exact .cons_cons (neighbours_mark (.inl ha) (.inr (not_isCloser_of_startsValue hl))) hchain

/-- A phrase behind a mark, and nothing behind it. -/
theorem isChain_cons_last {a : Lexeme} {p : Phrase} {ts : List Lexeme} (h : Forms p ts)
    (ha : a.isNumeral = false) (hchain : ts.IsChain Neighbours) :
    (a :: ts).IsChain Neighbours := by
  have hnil := List.append_nil ts
  rw [← hnil] at hchain ⊢
  exact isChain_cons_phrase h ha hchain

/-- A phrase, and a mark behind it. -/
theorem isChain_append_phrase {b : Lexeme} {p : Phrase} {ts us : List Lexeme} (h : Forms p ts)
    (hb : b.isNumeral = false) (hchain : ts.IsChain Neighbours)
    (hrest : (b :: us).IsChain Neighbours) : (ts ++ b :: us).IsChain Neighbours := by
  obtain ⟨init, l, rfl, hl⟩ := last_of_forms h
  refine List.isChain_append.2 ⟨hchain, hrest, ?_⟩
  intro x hx y hy
  rw [List.getLast?_concat] at hx
  cases hx
  cases hy
  exact neighbours_mark (.inr hb) (.inl hl)

/-- The neighbours in a phrase may be neighbours. -/
theorem isChain_of_forms {p : Phrase} {ts : List Lexeme} (h : Forms p ts) :
    ts.IsChain Neighbours := by
  induction h with
  | string parts => exact .singleton _
  | numeral n => exact .singleton _
  | name n h => exact .singleton _
  | emptyArray => exact .cons_cons (neighbours_mark (.inl rfl) (.inl rfl)) (.singleton _)
  | array h ih => exact isChain_cons_phrase h rfl (isChain_append_phrase h rfl ih (.singleton _))
  | emptyObject => exact .cons_cons (neighbours_mark (.inl rfl) (.inl rfl)) (.singleton _)
  | object h ih => exact isChain_cons_phrase h rfl (isChain_append_phrase h rfl ih (.singleton _))
  | lastItem _ ih => exact ih
  | item hv hs ihv ihs =>
    have hrest := isChain_cons_last (a := .comma) hs rfl ihs
    exact isChain_append_phrase hv rfl ihv hrest
  | lastMember key h ih =>
    have hrest := isChain_cons_last (a := .colon) h rfl ih
    exact .cons_cons (neighbours_mark (.inr rfl) (.inl rfl)) hrest
  | member key hv hs ihv ihs =>
    have hrest := isChain_cons_last (a := .comma) hs rfl ihs
    have hvalue := isChain_append_phrase hv rfl ihv hrest
    exact .cons_cons (neighbours_mark (.inr rfl) (.inl rfl)) (isChain_cons_phrase hv rfl hvalue)

/-! ## §4. White space. -/

/-- Space, tab, line feed and carriage return only. -/
def IsSpaces (gap : Text) : Prop := ∀ c ∈ gap, isSpace c = true

/-- Lexemes with white space between them. -/
inductive Spaced : List Lexeme → Text → Prop
  | nil {gap : Text} (hgap : IsSpaces gap) : Spaced [] gap
  | cons {gap : Text} {l : Lexeme} {ts : List Lexeme} {t : Text} (hgap : IsSpaces gap)
    (ht : Spaced ts t) : Spaced (l :: ts) (gap ++ (l.text ++ t))

/-- Lexemes one right after another. -/
def bare (ts : List Lexeme) : Text := ts.flatMap Lexeme.text

theorem spaced_bare (ts : List Lexeme) : Spaced ts (bare ts) := by
  have hnone : IsSpaces [] := fun c hc => by cases hc
  induction ts with
  | nil => exact .nil hnone
  | cons l ts ih => exact .cons hnone ih

theorem tokensFrom_spaces {gap : Text} (h : IsSpaces gap) (rest : Text) (position : Nat) :
    tokensFrom position (gap ++ rest) = tokensFrom (position + gap.length) rest := by
  induction gap generalizing position with
  | nil => rfl
  | cons c gap ih =>
    have hc : isSpace c = true := h c (List.mem_cons_self ..)
    show tokensFrom position (c :: (gap ++ rest)) = _
    rw [tokensFrom, if_pos hc, ih (fun d hd => h d (List.mem_cons_of_mem c hd)), List.length_cons]
    congr 1
    omega

theorem not_isNumeric_of_isSpace {c : CodePoint} (h : isSpace c = true) : isNumeric c = false := by
  have hne : ∀ d : CodePoint, isSpace d = false → c ≠ d := by
    rintro d hd rfl
    rw [h] at hd
    cases hd
  have hdigit : c.isAsciiDigit = false := by
    simp only [isSpace, Bool.or_eq_true, decide_eq_true_eq] at h
    simp only [CodePoint.isAsciiDigit, Bool.and_eq_false_iff, decide_eq_false_iff_not]
    omega
  simp [isNumeric, hdigit, hne CodePoint.dot (by decide), hne (CodePoint.ofChar 'e') (by decide),
    hne (CodePoint.ofChar 'E') (by decide)]

theorem isBlank_of_isAsciiDigit {c : CodePoint} (h : c.isAsciiDigit = true) : c.isBlank = false := by
  simp only [CodePoint.isAsciiDigit, Bool.and_eq_true, decide_eq_true_eq] at h
  simp only [CodePoint.isBlank, CodePoint.isWhiteSpace, CodePoint.isSeparator,
    Bool.or_eq_false_iff, Bool.and_eq_false_iff, decide_eq_false_iff_not]
  omega

/-- A code point of ASCII with which a lexeme may start or end. -/
def isSolid (c : CodePoint) : Bool := !c.isBlank && c.code < 0x80

theorem isSolid_of_isAsciiDigit {c : CodePoint} (h : c.isAsciiDigit = true) : isSolid c = true := by
  have hblank := isBlank_of_isAsciiDigit h
  simp only [CodePoint.isAsciiDigit, Bool.and_eq_true, decide_eq_true_eq] at h
  simp only [isSolid, hblank, Bool.not_false, Bool.true_and, decide_eq_true_eq]
  omega

/-- How a lexeme starts; where one that is no numeral starts, a numeral ends. -/
theorem first_of_text (l : Lexeme) :
    ∃ c rest, l.text = c :: rest ∧ isSolid c = true ∧
      (l.isNumeral = false → isNumeric c = false) := by
  cases l with
  | numeral n =>
    obtain ⟨c, cs, hwhole, hdigit⟩ := exists_of_isWhole n.isWhole_whole
    have hmagnitude : n.magnitudeText = c :: (cs ++ n.fractionText ++ n.exponentText) := by
      unfold Numeral.magnitudeText
      rw [hwhole]
      rfl
    show ∃ c rest, n.text = c :: rest ∧ _
    unfold Numeral.text
    rw [hmagnitude]
    cases n.negative with
    | true => exact ⟨_, _, rfl, by decide, fun h => by cases h⟩
    | false => exact ⟨_, _, rfl, isSolid_of_isAsciiDigit hdigit, fun h => by cases h⟩
  | name n hn =>
    have hall : ∀ n ∈ names, (n.1.head?.map fun c => isSolid c && !isNumeric c) = some true := by
      decide
    obtain ⟨c, hc, hboth⟩ := Option.map_eq_some_iff.1 (hall n hn)
    obtain ⟨t, ht⟩ := List.head?_eq_some_iff.1 hc
    rw [Bool.and_eq_true, Bool.not_eq_true'] at hboth
    exact ⟨c, t, ht, hboth.1, fun _ => hboth.2⟩
  | string parts => exact ⟨_, _, rfl, by decide, fun _ => by decide⟩
  | _ => exact ⟨_, _, rfl, by decide, fun _ => by decide⟩

/-- A text that ends as a lexeme may. -/
def EndsSolid (t : Text) : Prop := ∃ init c, t = init ++ [c] ∧ isSolid c = true

theorem EndsSolid.append {t : Text} (h : EndsSolid t) (front : Text) : EndsSolid (front ++ t) := by
  obtain ⟨init, c, rfl, hc⟩ := h
  exact ⟨front ++ init, c, by rw [List.append_assoc], hc⟩

theorem endsSolid_digits {t : Text} (h : IsDigits t) : EndsSolid t := by
  obtain ⟨hne, hdigits⟩ := h
  obtain ⟨init, c, rfl⟩ := (List.eq_nil_or_concat t).resolve_left hne
  rw [List.concat_eq_append] at hdigits ⊢
  exact ⟨init, c, rfl, isSolid_of_isAsciiDigit (hdigits c (by simp))⟩

theorem endsSolid_numeral (n : Numeral) : EndsSolid n.text := by
  unfold Numeral.text Numeral.magnitudeText
  refine EndsSolid.append ?_ _
  cases he : n.exponent with
  | some e =>
    have htext : n.exponentText = (e.letter :: e.sign) ++ e.digits := by
      unfold Numeral.exponentText
      rw [he]
      rfl
    rw [htext]
    exact ((endsSolid_digits e.isDigits_digits).append _).append _
  | none =>
    rw [n.exponentText_of_none he, List.append_nil]
    cases hf : n.fraction with
    | some f =>
      have htext : n.fractionText = [CodePoint.dot] ++ f := by
        unfold Numeral.fractionText
        rw [hf]
        rfl
      rw [htext]
      exact ((endsSolid_digits (n.isDigits_fraction f hf)).append _).append _
    | none =>
      rw [n.fractionText_of_none hf, List.append_nil]
      rcases n.isWhole_whole with hzero | ⟨hdigits, -⟩
      · rw [hzero]
        exact ⟨[], _, rfl, by decide⟩
      · exact endsSolid_digits hdigits

/-- How a lexeme ends. -/
theorem endsSolid_text (l : Lexeme) : EndsSolid l.text := by
  cases l with
  | numeral n => exact endsSolid_numeral n
  | name n hn =>
    have hall : ∀ n ∈ names, (n.1.getLast?.map isSolid) = some true := by decide
    obtain ⟨c, hc, hsolid⟩ := Option.map_eq_some_iff.1 (hall n hn)
    obtain ⟨init, hinit⟩ := List.getLast?_eq_some_iff.1 hc
    exact ⟨init, c, hinit, hsolid⟩
  | string parts => exact ⟨_, _, rfl, by decide⟩
  | _ => exact ⟨[], _, rfl, by decide⟩

/-- A numeral in a document ends where its text does. -/
theorem stopsAt_of_spaced {l : Lexeme} {ts : List Lexeme} {t : Text} (h : Spaced ts t)
    (hchain : (l :: ts).IsChain Neighbours) : l.StopsAt t := by
  cases l with
  | numeral n =>
    show EndsNumeral t
    intro c hc
    cases h with
    | nil hgap => exact not_isNumeric_of_isSpace (hgap c (List.mem_of_mem_head? hc))
    | @cons gap l ts t hgap ht =>
      cases gap with
      | nil =>
        obtain ⟨d, rest, htext, -, hd⟩ := first_of_text l
        rw [htext] at hc
        cases hc
        refine hd ?_
        have hpair := (List.isChain_cons_cons.1 hchain).1.1
        rw [Bool.eq_false_iff]
        exact fun hl => hpair ⟨rfl, hl⟩
      | cons d gap =>
        cases hc
        exact not_isNumeric_of_isSpace (hgap _ (List.mem_cons_self ..))
  | _ => trivial

/-- **White space between lexemes leaves the tokens as they are.** -/
theorem tokens_spaced {ts : List Lexeme} {t : Text} (h : Spaced ts t)
    (hchain : ts.IsChain Neighbours) (position : Nat) :
    (tokensFrom position t).map Located.token = ts.map Lexeme.token ++ [.endOfText] := by
  induction h generalizing position with
  | @nil gap hgap =>
    have hend := tokensFrom_spaces hgap [] position
    rw [List.append_nil] at hend
    rw [hend, tokensFrom]
    rfl
  | @cons gap l ts t hgap ht ih =>
    obtain ⟨next, hnext⟩ := tokensFrom_lexeme l (stopsAt_of_spaced ht hchain)
      (position + gap.length)
    rw [tokensFrom_spaces hgap, hnext, List.map_cons, ih hchain.tail]
    rfl

/-! ## §5. Documents. -/

/-- A text of lexemes does not start with a byte order mark. -/
theorem head_of_spaced {ts : List Lexeme} {t : Text} (h : Spaced ts t) :
    t.head? ≠ some (CodePoint.ofNat 0xFEFF) := by
  have hspace : isSpace (CodePoint.ofNat 0xFEFF) = false := by decide
  have hsolid : isSolid (CodePoint.ofNat 0xFEFF) = false := by decide
  have hgap : ∀ {gap : Text}, IsSpaces gap → gap.head? ≠ some (CodePoint.ofNat 0xFEFF) := by
    intro gap hgap hc
    have hmem := hgap _ (List.mem_of_mem_head? hc)
    rw [hspace] at hmem
    cases hmem
  cases h with
  | nil h => exact hgap h
  | @cons gap l ts t h ht =>
    cases gap with
    | nil =>
      obtain ⟨c, rest, htext, hc, -⟩ := first_of_text l
      rw [htext]
      intro hhead
      injection hhead with hhead
      rw [hhead, hsolid] at hc
      cases hc
    | cons d gap =>
      have hc : (d :: gap).head? ≠ some (CodePoint.ofNat 0xFEFF) := hgap h
      exact hc

/-- The machine over a text of lexemes, when no place has a part in what it says of them. -/
theorem run_spaced {ts : List Lexeme} {t : Text} (h : Spaced ts t) (hchain : ts.IsChain Neighbours)
    {r : Except Refusal State}
    (hrun : run (.value []) (ts.map Lexeme.located ++ [(⟨.endOfText, 0⟩ : Located)]) = r) (hr : Placeless r) :
    run (.value []) (tokens t) = r := by
  have hsame : (ts.map Lexeme.located ++ [(⟨.endOfText, 0⟩ : Located)]).map Located.token
      = (tokens t).map Located.token := by
    have hlocated : Located.token ∘ Lexeme.located = Lexeme.token := rfl
    rw [tokens, tokens_spaced h hchain, List.map_append, List.map_map, hlocated]
    rfl
  rw [← hrun] at hr ⊢
  exact run_placeless hsame hr

/-- **A document has one outcome, however it is spaced**: a value, or an integer that is too long. -/
theorem decode_spaced {ts : List Lexeme} (h : IsDocument ts) :
    (∃ v, ∀ t, Spaced ts t → decode t = .ok v)
      ∨ ∃ digits, HasLongInteger digits ts
        ∧ ∀ t, Spaced ts t → decode t = .error (.longInteger digits) := by
  have hchain := isChain_of_forms h
  obtain ⟨v, hv⟩ := run_forms h
  cases hv with
  | done hv =>
    refine .inl ⟨v, fun t ht => ?_⟩
    have hrun : run (.value []) (ts.map Lexeme.located ++ [⟨.endOfText, 0⟩])
        = .ok (.finished v) := by
      rw [run_append]
      have hts : run (.value []) (ts.map Lexeme.located) = .ok (.finished v) := hv []
      rw [hts]
      rfl
    unfold decode
    rw [if_neg (head_of_spaced ht), run_spaced ht hchain hrun trivial]
  | long digits hmem hv =>
    refine .inr ⟨digits, hmem, fun t ht => ?_⟩
    have hrun : run (.value []) (ts.map Lexeme.located ++ [⟨.endOfText, 0⟩])
        = .error (.longInteger digits) := by
      rw [run_append]
      have hts : run (.value []) (ts.map Lexeme.located) = .error (.longInteger digits) := hv []
      rw [hts]
      rfl
    unfold decode
    rw [if_neg (head_of_spaced ht), run_spaced ht hchain hrun trivial]

end Json

end ModuleBuild
