/-
  ModuleBuild.Proofs.FileTree.Following
  ─────────────────────────────────────
  **FOLLOWING NAMES, ONE AT A TIME.**

  What the system does with the first of some names, by what the name is and
  what lies there, and what it asks of a path before it follows its names.

  Main results:
    * `follow_here`, `follow_up`, `follow_named` — one name;
    * `follow_named_congr` — a name is followed alike in two trees if what it leads to is;
    * `finds_of_follow` — what can have become of a name that was followed;
    * `locate_eq_ok_iff` — where a path leads, in terms of its names;
    * `exists_of_readBytes`, `readBytes_congr_of_locate` — what is read is at the place of a path.
-/
import ModuleBuild.FileTree.Resolve

namespace ModuleBuild

namespace FileTree

variable {t u : FileTree} {aim : Aim} {slash : Bool} {links : Nat} {dir : Location} {name : Text}
  {rest : List Text}

/-! ## §1. One name. -/

theorem follow_nil : follow t aim slash links dir [] = .ok (.occupied dir) := by
  rw [follow]

theorem follow_here :
    follow t aim slash links dir (Path.here :: rest) = follow t aim slash links dir rest := by
  rw [follow, if_pos rfl]

theorem up_ne_here : Path.up ≠ Path.here := by decide

theorem follow_up :
    follow t aim slash links dir (Path.up :: rest) = follow t aim slash links dir.dropLast rest := by
  rw [follow, if_neg up_ne_here, if_pos rfl]

/-- What a name that is not made of dots leads to, by what lies there. -/
theorem follow_named (h1 : name ≠ Path.here) (h2 : name ≠ Path.up) :
    follow t aim slash links dir (name :: rest)
      = if rest = [] ∧ slash = true ∧ aim = .file then .error .isDirectory
        else if maxNameBytes < Utf8.byteCount name then .error .nameTooLong
        else
          match t.entryAt? (dir ++ [Utf8.nameForm name]) with
          | none =>
            if rest = [] then .ok (.vacant dir (Utf8.nameForm name)) else .error .noEntry
          | some .directory => follow t aim slash links (dir ++ [Utf8.nameForm name]) rest
          | some (.file _) =>
            if rest = [] ∧ slash = false then .ok (.occupied (dir ++ [Utf8.nameForm name]))
            else .error .notDirectory
          | some (.link path) =>
            if rest = [] ∧ aim = .name ∧ slash = false then
              .ok (.occupied (dir ++ [Utf8.nameForm name]))
            else
              match links with
              | 0 => .error .tooManyLinks
              | more + 1 =>
                if path = [] then .error .noEntry
                else
                  follow t aim (slash || (rest = [] && Text.endsWith path "/")) more
                    (if Path.isAbsolute path then [] else dir) (Path.names path ++ rest) := by
  rw [follow, if_neg h1]
  exact if_neg h2

/-- **A name is followed alike in two trees** that have the same there, or files, if a directory and
a link that lie there are. -/
theorem follow_named_congr (h1 : name ≠ Path.here) (h2 : name ≠ Path.up)
    (hentry : t.entryAt? (dir ++ [Utf8.nameForm name]) = u.entryAt? (dir ++ [Utf8.nameForm name])
      ∨ ∃ content content', t.entryAt? (dir ++ [Utf8.nameForm name]) = some (.file content)
        ∧ u.entryAt? (dir ++ [Utf8.nameForm name]) = some (.file content'))
    (hinto : t.entryAt? (dir ++ [Utf8.nameForm name]) = some .directory →
      follow t aim slash links (dir ++ [Utf8.nameForm name]) rest
        = follow u aim slash links (dir ++ [Utf8.nameForm name]) rest)
    (hthrough : ∀ path more, t.entryAt? (dir ++ [Utf8.nameForm name]) = some (.link path) →
      links = more + 1 → ∀ slash,
        follow t aim slash more (if Path.isAbsolute path then [] else dir) (Path.names path ++ rest)
          = follow u aim slash more (if Path.isAbsolute path then [] else dir)
              (Path.names path ++ rest)) :
    follow t aim slash links dir (name :: rest) = follow u aim slash links dir (name :: rest) := by
  rw [follow_named h1 h2, follow_named h1 h2]
  rcases hentry with hsame | ⟨content, content', hfile, hfile'⟩
  · rw [← hsame]
    cases he : t.entryAt? (dir ++ [Utf8.nameForm name]) with
    | none => rfl
    | some entry =>
      cases entry with
      | file content => rfl
      | directory => simp only [hinto he]
      | link path =>
        cases links with
        | zero => rfl
        | succ more => simp only [hthrough path more he rfl]
  · rw [hfile, hfile']

/-- What becomes of a name that is followed, by the entry that lies there: the place that the names
come to. -/
inductive Finds (t : FileTree) (aim : Aim) (slash : Bool) (links : Nat) (dir : Location) (name : Text)
    (rest : List Text) : Option Entry → Place → Prop
  | vacant : rest = [] → Finds t aim slash links dir name rest none (.vacant dir (Utf8.nameForm name))
  | directory {place : Place} : follow t aim slash links (dir ++ [Utf8.nameForm name]) rest = .ok place →
      Finds t aim slash links dir name rest (some .directory) place
  | file {content : Bytes} : rest = [] → slash = false →
      Finds t aim slash links dir name rest (some (.file content)) (.occupied (dir ++ [Utf8.nameForm name]))
  /-- A link is found itself if the name is asked for, -/
  | link {path : Text} : rest = [] → aim = .name → slash = false →
      Finds t aim slash links dir name rest (some (.link path)) (.occupied (dir ++ [Utf8.nameForm name]))
  /-- and is followed otherwise. -/
  | through {path : Text} {place : Place} {more : Nat} : ¬ (rest = [] ∧ aim = .name ∧ slash = false) →
      links = more + 1 → path ≠ [] →
      follow t aim (slash || (rest = [] && Text.endsWith path "/")) more
        (if Path.isAbsolute path then [] else dir) (Path.names path ++ rest) = .ok place →
      Finds t aim slash links dir name rest (some (.link path)) place

/-- **What can have become of a name that was followed.** -/
theorem finds_of_follow {place : Place} (h1 : name ≠ Path.here) (h2 : name ≠ Path.up)
    (h : follow t aim slash links dir (name :: rest) = .ok place) :
    Utf8.byteCount name ≤ maxNameBytes
      ∧ Finds t aim slash links dir name rest (t.entryAt? (dir ++ [Utf8.nameForm name])) place := by
  rw [follow_named h1 h2] at h
  split at h
  · cases h
  split at h
  · cases h
  rename_i hshort
  refine ⟨Nat.not_lt.1 hshort, ?_⟩
  split at h
  · split at h
    · rename_i hnone hrest
      cases h
      rw [hnone]
      exact .vacant hrest
    · cases h
  · rename_i hdir
    rw [hdir]
    exact .directory h
  · split at h
    · rename_i hfile hlast
      cases h
      rw [hfile]
      exact .file hlast.1 hlast.2
    · cases h
  · rename_i hlink
    rw [hlink]
    split at h
    · rename_i hlast
      cases h
      exact .link hlast.1 hlast.2.1 hlast.2.2
    · rename_i hlast
      split at h
      · cases h
      split at h
      · cases h
      · rename_i hpath
        exact .through hlast rfl hpath h

/-! ## §2. Paths that are located. -/

/-- A path leads somewhere if it has a form in the system and its names do. -/
theorem locate_eq_ok_iff {p : Text} {place : Place} :
    t.locate aim p = .ok place ↔
      checkPath p = .ok () ∧ p ≠ [] ∧ ¬ pathBytesLimit ≤ Utf8.byteCount p ∧
        follow t aim (Text.endsWith p "/") maxLinks
          (if Path.isAbsolute p then [] else t.workingDir) (Path.names p) = .ok place := by
  unfold locate
  cases checkPath p with
  | error failure => simp [bind, Except.bind]
  | ok u =>
    by_cases hnil : p = []
    · simp [hnil, bind, Except.bind]
    by_cases hlong : pathBytesLimit ≤ Utf8.byteCount p
    · simp [hnil, hlong, bind, Except.bind]
    simp only [bind, Except.bind, if_neg hnil, if_neg hlong]
    split <;> rename_i hfollow
    · simp [hnil, Nat.lt_of_not_le hlong, hfollow]
    · simp [hfollow]

/-- Where the bytes of a file are read, a path leads to the file. -/
theorem exists_of_readBytes {p : Text} {content : Bytes} (h : t.readBytes p = .ok content) :
    ∃ l, t.locate .target p = .ok (.occupied l) ∧ t.entryAt? l = some (.file content) := by
  unfold readBytes at h
  split at h
  · cases h
  · cases h
  · rename_i l hl
    split at h
    · rename_i bytes he
      cases h
      exact ⟨l, hl, he⟩
    · cases h

theorem readBytes_of_locate {p : Text} {l : Location} {content : Bytes}
    (h : t.locate .target p = .ok (.occupied l)) (hl : t.entryAt? l = some (.file content)) :
    t.readBytes p = .ok content := by
  unfold readBytes
  simp only [h, hl]

/-- Two trees are read alike where a path leads to the same place and the same is there. -/
theorem readBytes_congr_of_locate {p : Text} (h : t.locate .target p = u.locate .target p)
    (he : ∀ l, t.locate .target p = .ok (.occupied l) → t.entryAt? l = u.entryAt? l) :
    t.readBytes p = u.readBytes p := by
  unfold readBytes
  rw [← h]
  cases hl : t.locate .target p with
  | error failure => rfl
  | ok place =>
    cases place with
    | vacant parent name => rfl
    | occupied l => simp only [he l hl]

/-- What is opened is found, and it is a directory. -/
theorem openDirectory_eq_ok {p : Text} {l : Location} (h : t.openDirectory p = .ok l) :
    t.locate .target p = .ok (.occupied l) ∧ t.entryAt? l = some .directory := by
  unfold openDirectory at h
  split at h
  · cases h
  · cases h
  · rename_i m hm
    split at h
    · rename_i hl
      cases h
      exact ⟨hm, by simpa [isDirectory] using hl⟩
    · cases h

/-- A directory to which a path leads is opened. -/
theorem openDirectory_of_locate {p : Text} {l : Location} (h : t.locate .target p = .ok (.occupied l))
    (hl : t.entryAt? l = some .directory) : t.openDirectory p = .ok l := by
  unfold openDirectory
  rw [h]
  exact if_pos (decide_eq_true hl)

theorem entryAt?_of_openDirectory {p : Text} {l : Location} (h : t.openDirectory p = .ok l) :
    t.entryAt? l = some .directory := (openDirectory_eq_ok h).2

end FileTree

end ModuleBuild
