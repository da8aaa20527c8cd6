/-
  ModuleBuild.Json.Decode
  ───────────────────────
  **FROM TOKENS TO A DOCUMENT.**

  A document is read by a machine that takes one token at a time and keeps
  the containers that are still open on a stack.  Each state says what may
  come next, so each error is the token that may not, at its position.

  Main results:
    * `run_append` — what is read first does not depend on what follows;
    * `accept_nil` — a value outside any container is the document.
-/
import ModuleBuild.Json.Token

namespace ModuleBuild

namespace Json

/-! ## §1. Faults. -/

/-- What is wrong with a document. -/
inductive DecodeCause
  | byteOrderMark
  | expectedValue
  | expectedKey
  | expectedColon
  | expectedComma
  | extraData
  | badString (fault : StringFault)
  deriving DecidableEq

/-- Why a text is not a document. -/
inductive DecodeFault
  /-- The text breaks the grammar at a position: characters before it, line and column from 1. -/
  | malformed (cause : DecodeCause) (line column position : Nat)
  /-- An integer has too many digits. -/
  | longInteger (digits : Nat)
  deriving DecidableEq

/-- The words for a broken string. -/
def StringFault.words : StringFault → Text
  | .unterminated => "Unterminated string starting at"
  | .controlCharacter => "Invalid control character at"
  | .escape => "Invalid \\escape"
  | .unicodeEscape => "Invalid \\uXXXX escape"

/-- The words for a fault of the grammar. -/
def DecodeCause.words : DecodeCause → Text
  | .byteOrderMark => "Unexpected UTF-8 BOM (decode using utf-8-sig)"
  | .expectedValue => "Expecting value"
  | .expectedKey => "Expecting property name enclosed in double quotes"
  | .expectedColon => "Expecting ':' delimiter"
  | .expectedComma => "Expecting ',' delimiter"
  | .extraData => "Extra data"
  | .badString fault => fault.words

/-- The message of a fault. -/
def DecodeFault.message : DecodeFault → Text
  | .malformed cause line column position =>
    Text.join [cause.words, ": line ", Text.ofNat line, " column ", Text.ofNat column,
      " (char ", Text.ofNat position, ")"]
  | .longInteger digits =>
    Text.join ["Exceeds the limit (", Text.ofNat Text.maxDigits,
      " digits) for integer string conversion: value has ", Text.ofNat digits,
      " digits; use sys.set_int_max_str_digits() to increase the limit"]

/-- The number of the line that holds a position. -/
def lineOf (t : Text) (position : Nat) : Nat :=
  (t.take position).count CodePoint.lineFeed + 1

/-- The column of a position on its line. -/
def columnOf (t : Text) (position : Nat) : Nat :=
  ((t.take position).reverse.takeWhile (· ≠ CodePoint.lineFeed)).length + 1

/-- A fault of the grammar at a position of a text. -/
def malformedAt (t : Text) (cause : DecodeCause) (position : Nat) : DecodeFault :=
  .malformed cause (lineOf t position) (columnOf t position) position

/-! ## §2. The machine. -/

/-- A container that is still open, with what it holds so far. -/
inductive Frame
  /-- The items, last first. -/
  | array (items : List Json)
  /-- The members, and the key whose value is being read. -/
  | object (members : Members) (key : Text)

/-- What may come next, and the open containers, innermost first. -/
inductive State
  | value (stack : List Frame)
  /-- After the bracket that opens an array: a value, or the end of the array. -/
  | firstItem (stack : List Frame)
  /-- A key; at the start of an object also its end. -/
  | key (first : Bool) (members : Members) (stack : List Frame)
  | colon (members : Members) (key : Text) (stack : List Frame)
  /-- After an item: a comma, or the end of the array. -/
  | afterItem (items : List Json) (stack : List Frame)
  /-- After a member: a comma, or the end of the object. -/
  | afterMember (members : Members) (stack : List Frame)
  | finished (v : Json)

/-- The state after a complete value. -/
def accept (v : Json) : List Frame → State
  | [] => .finished v
  | .array items :: stack => .afterItem (v :: items) stack
  | .object members key :: stack => .afterMember (setMember key v members) stack

@[simp] theorem accept_nil (v : Json) : accept v [] = .finished v := rfl

/-- Why the machine refuses a token: a fault of the grammar at a position, or a long integer. -/
inductive Refusal
  | grammar (cause : DecodeCause) (position : Nat)
  | longInteger (digits : Nat)

/-- The state after a token that starts a value. -/
def startValue (stack : List Frame) (t : Located) : Except Refusal State :=
  match t.token with
  | .openObject => .ok (.key true [] stack)
  | .openArray => .ok (.firstItem stack)
  | .string s => .ok (accept (.string s) stack)
  | .scalar v => .ok (accept v stack)
  | .longInteger digits => .error (.longInteger digits)
  | .brokenString fault position => .error (.grammar (.badString fault) position)
  | _ => .error (.grammar .expectedValue t.position)

/-- The state after one more token. -/
def step (s : State) (t : Located) : Except Refusal State :=
  match s with
  | .value stack => startValue stack t
  | .firstItem stack =>
    match t.token with
    | .closeArray => .ok (accept (.array []) stack)
    | _ => startValue (.array [] :: stack) t
  | .key first members stack =>
    match t.token with
    | .string k => .ok (.colon members k stack)
    | .brokenString fault position => .error (.grammar (.badString fault) position)
    | .closeObject =>
      if first then .ok (accept (.object members) stack)
      else .error (.grammar .expectedKey t.position)
    | _ => .error (.grammar .expectedKey t.position)
  | .colon members k stack =>
    match t.token with
    | .colon => .ok (.value (.object members k :: stack))
    | _ => .error (.grammar .expectedColon t.position)
  | .afterItem items stack =>
    match t.token with
    | .comma => .ok (.value (.array items :: stack))
    | .closeArray => .ok (accept (.array items.reverse) stack)
    | _ => .error (.grammar .expectedComma t.position)
  | .afterMember members stack =>
    match t.token with
    | .comma => .ok (.key false members stack)
    | .closeObject => .ok (accept (.object members) stack)
    | _ => .error (.grammar .expectedComma t.position)
  | .finished v =>
    match t.token with
    | .endOfText => .ok (.finished v)
    | _ => .error (.grammar .extraData t.position)

/-- The state after some tokens. -/
def run (s : State) : List Located → Except Refusal State
  | [] => .ok s
  | t :: ts =>
    match step s t with
    | .ok s' => run s' ts
    | .error r => .error r

/-- What is read first does not depend on what follows. -/
theorem run_append (s : State) (ts us : List Located) :
    run s (ts ++ us) = (run s ts).bind fun s' => run s' us := by
  induction ts generalizing s with
  | nil => rfl
  | cons t ts ih =>
    simp only [List.cons_append, run]
    cases step s t with
    | ok s' => exact ih s'
    | error r => rfl

/-! ## §3. Documents. -/

/-- The document that a text writes. -/
def decode (t : Text) : Except DecodeFault Json :=
  if t.head? = some (CodePoint.ofNat 0xFEFF) then .error (malformedAt t .byteOrderMark 0)
  else
    match run (.value []) (tokens t) with
    | .ok (.finished v) => .ok v
    | .ok _ => .error (malformedAt t .expectedValue t.length)
    | .error (.grammar cause position) => .error (malformedAt t cause position)
    | .error (.longInteger digits) => .error (.longInteger digits)

end Json

end ModuleBuild
