/-
  ModuleBuild.Text.Utf8
  ─────────────────────
  **TEXT AND ITS BYTES.**

  Files hold bytes; modules, configuration and manifest are read as UTF-8.
  The reader is a machine that takes one byte at a time: between characters,
  or inside one with some bytes owed, the next of them from a range.  It
  stops at the first byte that no character continues with and tells where
  the broken character began.  The writer refuses surrogates.

  Main results:
    * `decodeFrom_ascii_cons` — an ASCII byte is its own code point;
    * `encode_nil`, `decode_nil` — no text, no bytes.
-/
import ModuleBuild.Text.Numeral

namespace ModuleBuild

/-- What a file holds. -/
abbrev Bytes := List UInt8

namespace Utf8

/-! ## §1. Reading. -/

/-- What is wrong with a sequence of bytes. -/
inductive DecodeCause
  | startByte
  | continuationByte
  | endOfData
  deriving DecidableEq

/-- A broken character: the byte it starts with, where, how many bytes it takes, and why. -/
structure DecodeFault where
  first : UInt8
  start : Nat
  length : Nat
  cause : DecodeCause
  deriving DecidableEq

/-- Where the reader stands: between characters, or inside one. -/
inductive State
  | between
  /-- Inside the character of `first`, which began `taken` bytes ago: `owed` more bytes, the next
  from `low` to `high`; `value` is what the bytes so far contribute. -/
  | inside (first : UInt8) (taken owed low high value : Nat)

/-- The state after the first byte of a character of several bytes. -/
def lead (b : UInt8) : Option State :=
  let n := b.toNat
  if 0xC2 ≤ n ∧ n ≤ 0xDF then some (.inside b 1 1 0x80 0xBF (n - 0xC0))
  else if n = 0xE0 then some (.inside b 1 2 0xA0 0xBF 0)
  else if n = 0xED then some (.inside b 1 2 0x80 0x9F 0xD)
  else if 0xE1 ≤ n ∧ n ≤ 0xEF then some (.inside b 1 2 0x80 0xBF (n - 0xE0))
  else if n = 0xF0 then some (.inside b 1 3 0x90 0xBF 0)
  else if 0xF1 ≤ n ∧ n ≤ 0xF3 then some (.inside b 1 3 0x80 0xBF (n - 0xF0))
  else if n = 0xF4 then some (.inside b 1 3 0x80 0x8F 4)
  else none

/-- The text of the bytes from position `pos` on, read from a state. -/
def decodeFrom (pos : Nat) : State → Bytes → Except DecodeFault Text
  | .between, [] => .ok []
  | .inside first taken _ _ _ _, [] => .error ⟨first, pos - taken, taken, .endOfData⟩
  | .between, b :: bs =>
    if b.toNat < 0x80 then
      (decodeFrom (pos + 1) .between bs).map (CodePoint.ofNat b.toNat :: ·)
    else
      match lead b with
      | none => .error ⟨b, pos, 1, .startByte⟩
      | some state => decodeFrom (pos + 1) state bs
  | .inside first taken owed low high value, b :: bs =>
    if low ≤ b.toNat ∧ b.toNat ≤ high then
      let value' := value * 0x40 + (b.toNat - 0x80)
      if owed ≤ 1 then (decodeFrom (pos + 1) .between bs).map (CodePoint.ofNat value' :: ·)
      else decodeFrom (pos + 1) (.inside first (taken + 1) (owed - 1) 0x80 0xBF value') bs
    else .error ⟨first, pos - taken, taken, .continuationByte⟩

/-- The text of some bytes. -/
def decode (bs : Bytes) : Except DecodeFault Text := decodeFrom 0 .between bs

@[simp] theorem decode_nil : decode [] = .ok [] := rfl

theorem decodeFrom_ascii_cons {pos : Nat} {b : UInt8} {bs : Bytes} (h : b.toNat < 0x80) :
    decodeFrom pos .between (b :: bs)
      = (decodeFrom (pos + 1) .between bs).map (CodePoint.ofNat b.toNat :: ·) := by
  simp [decodeFrom, h]

/-- The mark that may stand at the start of a file. -/
def byteOrderMark : Bytes := [0xEF, 0xBB, 0xBF]

/-- The text of some bytes, without a byte order mark at the start; a file that ends inside the
mark is empty. -/
def decodeUnmarked (bs : Bytes) : Except DecodeFault Text :=
  if bs.length < 3 ∧ bs.isPrefixOf byteOrderMark then .ok []
  else if byteOrderMark.isPrefixOf bs then decode (bs.drop 3)
  else decode bs

/-! ## §2. Writing. -/

/-- A run of surrogates, which have no bytes: the first of them, where, and how many. -/
structure EncodeFault where
  first : CodePoint
  start : Nat
  length : Nat
  deriving DecidableEq

/-- The bytes of one code point. -/
def encodeOne (c : CodePoint) : Bytes :=
  let n := c.code
  let tail (shift : Nat) : UInt8 := UInt8.ofNat (0x80 + n / Nat.pow 2 shift % 0x40)
  if n < 0x80 then [UInt8.ofNat n]
  else if n < 0x800 then [UInt8.ofNat (0xC0 + n / 0x40), tail 0]
  else if n < 0x10000 then [UInt8.ofNat (0xE0 + n / 0x1000), tail 6, tail 0]
  else [UInt8.ofNat (0xF0 + n / 0x40000), tail 12, tail 6, tail 0]

/-- The first run of surrogates in the text from position `pos` on. -/
def surrogates? (pos : Nat) : Text → Option EncodeFault
  | [] => none
  | c :: rest =>
    if c.isSurrogate then some ⟨c, pos, 1 + (rest.takeWhile CodePoint.isSurrogate).length⟩
    else surrogates? (pos + 1) rest

/-- The bytes of a text, which must hold no surrogate. -/
def encode (t : Text) : Except EncodeFault Bytes :=
  match surrogates? 0 t with
  | some fault => .error fault
  | none => .ok (t.flatMap encodeOne)

@[simp] theorem encode_nil : encode [] = .ok [] := rfl

/-! ## §3. Names of files. -/

/-- A surrogate that stands for a byte in the name of a file: for one that belongs to no
character. -/
def isEscapedByte (c : CodePoint) : Bool := 0xDC80 ≤ c.code && c.code ≤ 0xDCFF

/-- The first run of surrogates that a file name cannot hold. -/
def unnameable? (pos : Nat) : Text → Option EncodeFault
  | [] => none
  | c :: rest =>
    if c.isSurrogate && !isEscapedByte c then
      some ⟨c, pos, 1 + (rest.takeWhile CodePoint.isSurrogate).length⟩
    else unnameable? (pos + 1) rest

/-- The bytes of a name. -/
def nameBytes (t : Text) : Bytes :=
  t.flatMap fun c => if isEscapedByte c then [UInt8.ofNat (c.code - 0xDC00)] else encodeOne c

/-- The surrogate that stands for a byte. -/
def escapeByte (b : UInt8) : CodePoint := CodePoint.ofNat (0xDC00 + b.toNat)

/-- One byte read between characters: what it says at once, and the state behind it. -/
def begin (b : UInt8) : Text × State :=
  if b.toNat < 0x80 then ([CodePoint.ofNat b.toNat], .between)
  else
    match lead b with
    | some state => ([], state)
    | none => ([escapeByte b], .between)

/-- The text of the bytes of a name, read from a state; `pending` are the bytes of the character
that was begun. -/
def nameTextFrom : State → Bytes → Bytes → Text
  | .between, _, [] => []
  | .inside .., pending, [] => pending.map escapeByte
  | .between, _, b :: bs => (begin b).1 ++ nameTextFrom (begin b).2 [b] bs
  | .inside first taken owed low high value, pending, b :: bs =>
    if low ≤ b.toNat ∧ b.toNat ≤ high then
      let value' := value * 0x40 + (b.toNat - 0x80)
      if owed ≤ 1 then CodePoint.ofNat value' :: nameTextFrom .between [] bs
      else
        nameTextFrom (.inside first (taken + 1) (owed - 1) 0x80 0xBF value') (pending ++ [b]) bs
    else pending.map escapeByte ++ (begin b).1 ++ nameTextFrom (begin b).2 [b] bs

/-- The form in which a name is listed: bytes that make up a character are shown as that. -/
def nameForm (t : Text) : Text :=
  if t.any isEscapedByte then nameTextFrom .between [] (nameBytes t) else t

theorem nameForm_of_not_escaped {t : Text} (h : t.any isEscapedByte = false) : nameForm t = t := by
  simp [nameForm, h]

/-- The number of bytes of a name or a path. -/
def byteCount (t : Text) : Nat := (nameBytes t).length

end Utf8

end ModuleBuild
