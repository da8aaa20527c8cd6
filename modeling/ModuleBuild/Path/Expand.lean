/-
  ModuleBuild.Path.Expand
  ───────────────────────
  **HOME DIRECTORIES AND VARIABLES IN PATHS.**

  The project directory of a command line may start with `~` or `~account`
  and may name variables as `$NAME` or `${NAME}`.  What is not known
  stays as it is written, and a value that is put in is not looked at again.
  A name that the system has no bytes for cannot be looked up at all.

  Main results:
    * `expandVariables_of_not_mem` — without a dollar sign nothing is expanded.
-/
import ModuleBuild.Failure
import ModuleBuild.Path.Basic
import ModuleBuild.Text.Word

namespace ModuleBuild

/-- What a process knows of its surroundings: variables, and the accounts with their homes. -/
structure Environment where
  bindings : List (Text × Text)
  /-- The home of the account that runs the program. -/
  ownHome : Text
  accounts : List (Text × Text)

namespace Environment

/-- Refuses a name that the system has no bytes for. -/
def checkName (name : Text) : Except Failure Unit :=
  match Utf8.unnameable? 0 name with
  | some fault => .error (.unencodable fault)
  | none => .ok ()

/-- The value of a variable. -/
def valueOf? (env : Environment) (name : Text) : Except Failure (Option Text) :=
  (checkName name).map fun _ => env.bindings.lookup name

/-- The home of an account; without a name, of the one that runs the program. -/
def home? (env : Environment) (account : Text) : Except Failure (Option Text) := do
  if account = [] then return some ((← env.valueOf? "HOME").getD env.ownHome)
  checkName account
  if account.any (·.code = 0) then throw .nullInPath
  return env.accounts.lookup account

end Environment

namespace Path

/-- A path with a leading `~` or `~account` replaced by the home it names. -/
def expandHome (env : Environment) (p : Text) : Except Failure Text :=
  match p with
  | [] => .ok []
  | c :: rest =>
    if c = CodePoint.ofChar '~' then
      (env.home? (rest.takeWhile (· ≠ CodePoint.slash))).map fun
        | none => p
        | some home =>
          let full := home.dropEndWhile (· = CodePoint.slash) ++
            rest.dropWhile (· ≠ CodePoint.slash)
          if full = [] then [CodePoint.slash] else full
    else .ok p

/-- A letter or digit of ASCII, or the low line: what a plain variable name is made of. -/
def isVariableCharacter (c : CodePoint) : Bool := c.isAsciiAlphanum || c.code = 0x5F

/-- The variable reference after a dollar sign: the reference as written, the name, the rest. -/
def variableReference? : Text → Option (Text × Text × Text)
  | [] => none
  | c :: rest =>
    if c = CodePoint.openBrace then
      let name := rest.takeWhile (· ≠ CodePoint.closeBrace)
      match rest.dropWhile (· ≠ CodePoint.closeBrace) with
      | [] => none
      | close :: rest' => some (c :: name ++ [close], name, rest')
    else if isVariableCharacter c then
      let name := (c :: rest).takeWhile isVariableCharacter
      some (name, name, (c :: rest).dropWhile isVariableCharacter)
    else none

theorem variableReference_length {t written name rest : Text}
    (h : variableReference? t = some (written, name, rest)) : rest.length < t.length := by
  cases t with
  | nil => simp [variableReference?] at h
  | cons c cs =>
    simp only [variableReference?] at h
    by_cases hb : c = CodePoint.openBrace
    · simp only [hb, if_true] at h
      cases hd : cs.dropWhile (· ≠ CodePoint.closeBrace) with
      | nil => rw [hd] at h; cases h
      | cons close rest' =>
        simp only [hd, Option.some.injEq, Prod.mk.injEq] at h
        have hs : (cs.dropWhile (· ≠ CodePoint.closeBrace)).length ≤ cs.length :=
          (List.dropWhile_suffix _).length_le
        rw [hd] at hs
        simp only [List.length_cons] at hs ⊢
        rw [← h.2.2]
        omega
    · by_cases hv : isVariableCharacter c = true
      · simp only [hb, if_false, hv, if_true, Option.some.injEq, Prod.mk.injEq] at h
        have hs : (cs.dropWhile isVariableCharacter).length ≤ cs.length :=
          (List.dropWhile_suffix _).length_le
        rw [← h.2.2, List.dropWhile_cons_of_pos hv]
        simp only [List.length_cons]
        omega
      · simp [hb, hv] at h

/-- The names of the variables that a path may refer to. -/
def variablesIn : Text → List Text
  | [] => []
  | c :: rest =>
    let names := variablesIn rest
    if c = CodePoint.ofChar '$' then
      ((variableReference? rest).map (·.2.1)).toList ++ names
    else names

/-- A path with its variables replaced by their values. -/
def expandVariables (env : Environment) (p : Text) : Except Failure Text :=
  match p with
  | [] => .ok []
  | c :: rest =>
    if c = CodePoint.ofChar '$' then
      match hr : variableReference? rest with
      | none => (expandVariables env rest).map (c :: ·)
      | some (written, name, rest') =>
        have := variableReference_length hr
        match env.valueOf? name with
        | .error failure => .error failure
        | .ok value => (expandVariables env rest').map (value.getD (c :: written) ++ ·)
    else (expandVariables env rest).map (c :: ·)
  termination_by p.length
  decreasing_by all_goals (simp only [List.length_cons] at *; omega)

theorem expandVariables_of_not_mem {env : Environment} {p : Text}
    (h : CodePoint.ofChar '$' ∉ p) : expandVariables env p = .ok p := by
  induction p with
  | nil => simp [expandVariables]
  | cons c rest ih =>
    have hc : c ≠ CodePoint.ofChar '$' := fun e => h (by simp [e])
    unfold expandVariables
    simp [hc, ih fun hm => h (by simp [hm]), Except.map]

/-- The absolute normal form of a directory given by the user; nothing but blanks stands for a
fallback. -/
def ofUser (env : Environment) (workingDir : Text) (given : Option Text) (fallback : Text) :
    Except Failure Text := do
  let p := Text.trim (given.getD [])
  let p ← expandHome env (if p = [] then fallback else p)
  return resolveAgainst workingDir (← expandVariables env p)

end Path

end ModuleBuild
