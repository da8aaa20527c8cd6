/-
  ModuleBuild.Json.Value
  ──────────────────────
  **DOCUMENTS.**

  A document is a JSON value.  Numbers are integers of any size or doubles;
  strings are texts, lone surrogates included; an object is its members in
  order.  Setting a key keeps its place, a new key goes to the end.

  Main results:
    * `lookup_setMember_self`, `lookup_setMember_of_ne` — setting changes one key;
    * `keys_setMember` — keys already present keep their order.
-/
import ModuleBuild.Number.Binary64
import ModuleBuild.Text.Basic

namespace ModuleBuild

/-- A JSON value. -/
inductive Json
  | null
  | bool (b : Bool)
  | int (i : Int)
  | double (x : Binary64)
  | string (t : Text)
  | array (items : List Json)
  | object (members : List (Text × Json))

namespace Json

/-! ## §1. Equality is decidable. -/

mutual

/-- Decides whether two values are equal. -/
def decideEq : (a b : Json) → Decidable (a = b)
  | .null, .null => isTrue rfl
  | .bool a, .bool b => decidable_of_iff (a = b) (by simp)
  | .int a, .int b => decidable_of_iff (a = b) (by simp)
  | .double a, .double b => decidable_of_iff (a = b) (by simp)
  | .string a, .string b => decidable_of_iff (a = b) (by simp)
  | .array a, .array b => @decidable_of_iff _ (a = b) (by simp) (decideEqItems a b)
  | .object a, .object b => @decidable_of_iff _ (a = b) (by simp) (decideEqMembers a b)
  | .null, .bool _ | .null, .int _ | .null, .double _ | .null, .string _ | .null, .array _
  | .null, .object _ | .bool _, .null | .bool _, .int _ | .bool _, .double _ | .bool _, .string _
  | .bool _, .array _ | .bool _, .object _ | .int _, .null | .int _, .bool _ | .int _, .double _
  | .int _, .string _ | .int _, .array _ | .int _, .object _ | .double _, .null
  | .double _, .bool _ | .double _, .int _ | .double _, .string _ | .double _, .array _
  | .double _, .object _ | .string _, .null | .string _, .bool _ | .string _, .int _
  | .string _, .double _ | .string _, .array _ | .string _, .object _ | .array _, .null
  | .array _, .bool _ | .array _, .int _ | .array _, .double _ | .array _, .string _
  | .array _, .object _ | .object _, .null | .object _, .bool _ | .object _, .int _
  | .object _, .double _ | .object _, .string _ | .object _, .array _ => isFalse (by simp)

/-- Decides whether two lists of values are equal. -/
def decideEqItems : (a b : List Json) → Decidable (a = b)
  | [], [] => isTrue rfl
  | x :: xs, y :: ys =>
    @decidable_of_iff _ (x = y ∧ xs = ys) (by simp)
      (@instDecidableAnd _ _ (decideEq x y) (decideEqItems xs ys))
  | [], _ :: _ | _ :: _, [] => isFalse (by simp)

/-- Decides whether two lists of members are equal. -/
def decideEqMembers : (a b : List (Text × Json)) → Decidable (a = b)
  | [], [] => isTrue rfl
  | (k, x) :: xs, (l, y) :: ys =>
    @decidable_of_iff _ (k = l ∧ x = y ∧ xs = ys) (by simp [and_assoc])
      (@instDecidableAnd _ _ inferInstance
        (@instDecidableAnd _ _ (decideEq x y) (decideEqMembers xs ys)))
  | [], _ :: _ | _ :: _, [] => isFalse (by simp)

end

instance : DecidableEq Json := decideEq

/-! ## §2. Members of an object. -/

/-- The members of an object, in order. -/
abbrev Members := List (Text × Json)

/-- The value of a key. -/
def lookup? (key : Text) : Members → Option Json
  | [] => none
  | (k, v) :: rest => if k = key then some v else lookup? key rest

/-- The members with a value set: in the place of the key, or at the end. -/
def setMember (key : Text) (value : Json) : Members → Members
  | [] => [(key, value)]
  | (k, v) :: rest => if k = key then (k, value) :: rest else (k, v) :: setMember key value rest

@[simp] theorem lookup_setMember_self (key : Text) (value : Json) (ms : Members) :
    lookup? key (setMember key value ms) = some value := by
  induction ms with
  | nil => simp [setMember, lookup?]
  | cons m ms ih => obtain ⟨k, v⟩ := m; simp only [setMember]; split <;> simp_all [lookup?]

theorem lookup_setMember_of_ne {key k : Text} (h : k ≠ key) (value : Json) (ms : Members) :
    lookup? k (setMember key value ms) = lookup? k ms := by
  induction ms with
  | nil => simp [setMember, lookup?, Ne.symm h]
  | cons m ms ih =>
    obtain ⟨l, v⟩ := m
    simp only [setMember]
    split
    · rename_i hl; subst hl; simp [lookup?, Ne.symm h]
    · simp [lookup?, ih]

/-- Keys keep their order; a new key is the last. -/
theorem keys_setMember (key : Text) (value : Json) (ms : Members) :
    (setMember key value ms).map (·.1)
      = if key ∈ ms.map (·.1) then ms.map (·.1) else ms.map (·.1) ++ [key] := by
  induction ms with
  | nil => simp [setMember]
  | cons m ms ih =>
    obtain ⟨k, v⟩ := m
    simp only [setMember]
    split
    · rename_i hk; simp [hk]
    · rename_i hk
      simp only [List.map_cons, ih, List.mem_cons, Ne.symm hk, false_or]
      split <;> simp

/-! ## §3. Views. -/

/-- Whether a value counts as set: everything but null, false, zeros and what is empty. -/
def isTruthy : Json → Bool
  | .null => false
  | .bool b => b
  | .int i => i ≠ 0
  | .double x => !x.isZero
  | .string t => !t.isEmpty
  | .array items => !items.isEmpty
  | .object members => !members.isEmpty

/-- The name that messages use for the kind of a value. -/
def kindName : Json → Text
  | .null => "NoneType"
  | .bool _ => "bool"
  | .int _ => "int"
  | .double _ => "float"
  | .string _ => "str"
  | .array _ => "list"
  | .object _ => "dict"

/-- The members of an object. -/
def members? : Json → Option Members
  | .object ms => some ms
  | _ => none

end Json

end ModuleBuild
