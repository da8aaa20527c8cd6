/-
  ModuleBuild.Proofs.FileTree.Leading
  ───────────────────────────────────
  **WHERE NAMES LEAD.**

  Names lead from a directory to another through directories and links, each
  link followed, whatever the limits of the system say about their length and
  number.  The system follows a path to its last name this way and then looks
  at that name.

  Where names lead does not change when a tree grows, that is, when its
  directories and links stay.

  Main results:
    * `follow_concat` — a path is followed to its last name, and then one name further;
    * `leads_of_follow`, `enters_of_follow` — what is followed leads;
    * `Leads.det`, `Leads.grows` — names lead to one place, and go on leading there;
    * `Extends.locate` — what a path names is named in every tree that has more.
-/
import ModuleBuild.FileTree.Change
import ModuleBuild.Proofs.FileTree.Following
import ModuleBuild.Proofs.Path.Written

namespace ModuleBuild

namespace FileTree

/-! ## §1. Leading. -/

/-- Names lead from a directory to another. -/
inductive Leads (t : FileTree) : Location → List Text → Location → Prop
  | nil (dir : Location) : Leads t dir [] dir
  | here {dir d : Location} {rest : List Text} : Leads t dir rest d → Leads t dir (Path.here :: rest) d
  | up {dir d : Location} {rest : List Text} :
      Leads t dir.dropLast rest d → Leads t dir (Path.up :: rest) d
  /-- A name of a directory leads into it. -/
  | into {dir d : Location} {name : Text} {rest : List Text} :
      name ≠ Path.here → name ≠ Path.up →
      t.entryAt? (dir ++ [Utf8.nameForm name]) = some .directory →
      Leads t (dir ++ [Utf8.nameForm name]) rest d → Leads t dir (name :: rest) d
  /-- A name of a link leads where the link's path does. -/
  | through {dir d : Location} {name : Text} {rest : List Text} {path : Text} :
      name ≠ Path.here → name ≠ Path.up →
      t.entryAt? (dir ++ [Utf8.nameForm name]) = some (.link path) →
      Leads t (if Path.isAbsolute path then [] else dir) (Path.names path ++ rest) d →
      Leads t dir (name :: rest) d

variable {t t' : FileTree} {dir d d' : Location} {name : Text} {ns xs ys : List Text}

/-- Names lead to one place. -/
theorem Leads.det (h : Leads t dir ns d) (h' : Leads t dir ns d') : d = d' := by
  induction h with
  | nil dir => cases h'; rfl
  | here _ ih =>
    cases h' with
    | here h' => exact ih h'
    | into h1 => exact absurd rfl h1
    | through h1 => exact absurd rfl h1
  | up _ ih =>
    cases h' with
    | up h' => exact ih h'
    | into _ h2 => exact absurd rfl h2
    | through _ h2 => exact absurd rfl h2
  | into h1 h2 he _ ih =>
    cases h' with
    | here => exact absurd rfl h1
    | up => exact absurd rfl h2
    | into _ _ _ h' => exact ih h'
    | through _ _ he' => rw [he] at he'; cases he'
  | through h1 h2 he _ ih =>
    cases h' with
    | here => exact absurd rfl h1
    | up => exact absurd rfl h2
    | into _ _ he' => rw [he] at he'; cases he'
    | through _ _ he' h' =>
      rw [he] at he'
      cases he'
      exact ih h'

/-- No names lead nowhere else. -/
theorem Leads.nil_eq (h : Leads t dir [] d) : dir = d := by
  cases h
  rfl

theorem Leads.append (h : Leads t dir xs d) (h' : Leads t d ys d') : Leads t dir (xs ++ ys) d' := by
  induction h with
  | nil dir => exact h'
  | here _ ih => exact .here (ih h')
  | up _ ih => exact .up (ih h')
  | into h1 h2 he _ ih => exact .into h1 h2 he (ih h')
  | @through dir d name rest path h1 h2 he _ ih =>
    refine .through h1 h2 he ?_
    have hnames : Path.names path ++ (rest ++ ys) = Path.names path ++ rest ++ ys :=
      (List.append_assoc ..).symm
    exact hnames ▸ ih h'

/-- Names lead through the place to which the first of them lead. -/
theorem Leads.split (h : Leads t dir ns d) :
    ∀ {xs ys : List Text}, ns = xs ++ ys → ∃ mid, Leads t dir xs mid ∧ Leads t mid ys d := by
  induction h with
  | nil dir =>
    intro xs ys hns
    rw [eq_comm, List.append_eq_nil_iff] at hns
    rw [hns.1, hns.2]
    exact ⟨dir, .nil dir, .nil dir⟩
  | @here dir d rest h ih =>
    intro xs ys hns
    cases xs with
    | nil =>
      rw [List.nil_append] at hns
      subst hns
      exact ⟨dir, .nil dir, .here h⟩
    | cons x xs =>
      obtain ⟨rfl, hrest⟩ := List.cons.inj hns
      obtain ⟨mid, h1, h2⟩ := ih hrest
      exact ⟨mid, .here h1, h2⟩
  | @up dir d rest h ih =>
    intro xs ys hns
    cases xs with
    | nil =>
      rw [List.nil_append] at hns
      subst hns
      exact ⟨dir, .nil dir, .up h⟩
    | cons x xs =>
      obtain ⟨rfl, hrest⟩ := List.cons.inj hns
      obtain ⟨mid, h1, h2⟩ := ih hrest
      exact ⟨mid, .up h1, h2⟩
  | @into dir d name rest hne hne' he h ih =>
    intro xs ys hns
    cases xs with
    | nil =>
      rw [List.nil_append] at hns
      subst hns
      exact ⟨dir, .nil dir, .into hne hne' he h⟩
    | cons x xs =>
      obtain ⟨rfl, hrest⟩ := List.cons.inj hns
      obtain ⟨mid, h1, h2⟩ := ih hrest
      exact ⟨mid, .into hne hne' he h1, h2⟩
  | @through dir d name rest path hne hne' he h ih =>
    intro xs ys hns
    cases xs with
    | nil =>
      rw [List.nil_append] at hns
      subst hns
      exact ⟨dir, .nil dir, .through hne hne' he h⟩
    | cons x xs =>
      obtain ⟨rfl, hrest⟩ := List.cons.inj hns
      have hnames : Path.names path ++ rest = (Path.names path ++ xs) ++ ys :=
        hrest ▸ (List.append_assoc ..).symm
      obtain ⟨mid, h1, h2⟩ := ih hnames
      exact ⟨mid, .through hne hne' he h1, h2⟩

/-- What is led to is a directory. -/
theorem Leads.isDirectory (h : Leads t dir ns d) :
    t.entryAt? dir = some .directory → t.entryAt? d = some .directory := by
  induction h with
  | nil dir => exact id
  | here _ ih => exact ih
  | up _ ih => exact fun hdir => ih (isDirectory_dropLast hdir)
  | into _ _ he _ ih => exact fun _ => ih he
  | through _ _ _ _ ih =>
    intro hdir
    apply ih
    split
    · rfl
    · exact hdir

/-! ## §2. Trees that grow. -/

/-- Directories and links of a tree stay what they are. -/
def Grows (t t' : FileTree) : Prop :=
  ∀ k e, t.entryAt? k = some e → (∀ content, e ≠ .file content) → t'.entryAt? k = some e

theorem Grows.refl (t : FileTree) : Grows t t := fun _ _ h _ => h

theorem Grows.trans {t'' : FileTree} (h : Grows t t') (h' : Grows t' t'') : Grows t t'' :=
  fun k e he hfile => h' k e (h k e he hfile) hfile

theorem Grows.directory (h : Grows t t') {k : Location} (hk : t.entryAt? k = some .directory) :
    t'.entryAt? k = some .directory :=
  h k _ hk (by simp)

theorem Grows.link (h : Grows t t') {k : Location} {path : Text}
    (hk : t.entryAt? k = some (.link path)) : t'.entryAt? k = some (.link path) :=
  h k _ hk (by simp)

/-- In a tree that grows names go on leading where they led. -/
theorem Leads.grows (h : Leads t dir ns d) (hgrows : Grows t t') : Leads t' dir ns d := by
  induction h with
  | nil dir => exact .nil dir
  | here _ ih => exact .here ih
  | up _ ih => exact .up ih
  | into h1 h2 he _ ih => exact .into h1 h2 (hgrows.directory he) ih
  | through h1 h2 he _ ih => exact .through h1 h2 (hgrows.link he) ih

/-- A path that leads somewhere is followed in the same way in a tree that grows. -/
theorem Leads.follow_eq (h : Leads t dir ns d) (hgrows : Grows t t') :
    ∀ links, follow t .target true links dir ns = follow t' .target true links dir ns := by
  induction h with
  | nil dir =>
    intro links
    rw [follow_nil, follow_nil]
  | here _ ih =>
    intro links
    rw [follow_here, follow_here, ih]
  | up _ ih =>
    intro links
    rw [follow_up, follow_up, ih]
  | into h1 h2 he _ ih =>
    intro links
    rw [follow_named h1 h2, follow_named h1 h2, he, hgrows.directory he]
    simp only [ih]
  | through h1 h2 he _ ih =>
    intro links
    rw [follow_named h1 h2, follow_named h1 h2, he, hgrows.link he]
    cases links with
    | zero => rfl
    | succ more => simp only [Bool.true_or, ih]

/-! ## §3. Following. -/

/-- What is followed to a directory leads to it, and so do names that ask for one. -/
theorem leads_of_follow {aim : Aim} {slash : Bool} {links : Nat}
    (h : follow t aim slash links dir ns = .ok (.occupied d))
    (hd : (slash = true ∧ aim = .target) ∨ t.entryAt? d = some .directory) : Leads t dir ns d := by
  fun_induction follow t aim slash links dir ns with
  | case1 => cases h; exact .nil _
  | case2 _ _ _ _ ih => exact .here (ih h hd)
  | case3 _ _ _ _ _ ih => exact .up (ih h hd)
  | case4 => cases h
  | case5 => cases h
  | case6 => cases h
  | case7 => cases h
  | case8 slash links dir name rest h1 h2 h3 h4 next he ih => exact .into h1 h2 he (ih h hd)
  | case9 slash links dir name rest h1 h2 h3 h4 next c he h5 =>
    cases h
    rcases hd with ⟨hslash, -⟩ | hd
    · rw [h5.2] at hslash
      cases hslash
    · rw [he] at hd
      cases hd
  | case10 => cases h
  | case11 slash links dir name rest h1 h2 h3 h4 next path he h5 =>
    cases h
    rcases hd with ⟨-, haim⟩ | hd
    · rw [h5.2.1] at haim
      cases haim
    · rw [he] at hd
      cases hd
  | case12 => cases h
  | case13 => cases h
  | case14 slash dir name rest h1 h2 h3 h4 next path he h5 more h6 ih =>
    refine .through h1 h2 he ?_
    refine ih h (hd.imp_left fun h => ⟨?_, h.2⟩)
    rw [h.1]
    rfl

/-- The system enters a directory by names, if it may follow so many links. -/
inductive Enters (t : FileTree) : Nat → Location → List Text → Location → Prop
  | nil (links : Nat) (dir : Location) : Enters t links dir [] dir
  | here {links : Nat} {dir d : Location} {rest : List Text} :
      Enters t links dir rest d → Enters t links dir (Path.here :: rest) d
  | up {links : Nat} {dir d : Location} {rest : List Text} :
      Enters t links dir.dropLast rest d → Enters t links dir (Path.up :: rest) d
  | into {links : Nat} {dir d : Location} {name : Text} {rest : List Text} :
      name ≠ Path.here → name ≠ Path.up → ¬ maxNameBytes < Utf8.byteCount name →
      t.entryAt? (dir ++ [Utf8.nameForm name]) = some .directory →
      Enters t links (dir ++ [Utf8.nameForm name]) rest d → Enters t links dir (name :: rest) d
  | through {more : Nat} {dir d : Location} {name : Text} {rest : List Text} {path : Text} :
      name ≠ Path.here → name ≠ Path.up → ¬ maxNameBytes < Utf8.byteCount name →
      t.entryAt? (dir ++ [Utf8.nameForm name]) = some (.link path) → path ≠ [] →
      Enters t more (if Path.isAbsolute path then [] else dir) (Path.names path ++ rest) d →
      Enters t (more + 1) dir (name :: rest) d

/-- **What is followed to a directory enters it**, whatever is asked of the last name. -/
theorem enters_of_follow {aim : Aim} {slash : Bool} {links : Nat}
    (h : follow t aim slash links dir ns = .ok (.occupied d))
    (hd : t.entryAt? d = some .directory) : Enters t links dir ns d := by
  fun_induction follow t aim slash links dir ns with
  | case1 => cases h; exact .nil _ _
  | case2 _ _ _ _ ih => exact .here (ih h)
  | case3 _ _ _ _ _ ih => exact .up (ih h)
  | case4 => cases h
  | case5 => cases h
  | case6 => cases h
  | case7 => cases h
  | case8 slash links dir name rest h1 h2 h3 h4 next he ih => exact .into h1 h2 h4 he (ih h)
  | case9 slash links dir name rest h1 h2 h3 h4 next c he h5 =>
    cases h
    rw [he] at hd
    cases hd
  | case10 => cases h
  | case11 slash links dir name rest h1 h2 h3 h4 next path he h5 =>
    cases h
    rw [he] at hd
    cases hd
  | case12 => cases h
  | case13 => cases h
  | case14 slash dir name rest h1 h2 h3 h4 next path he h5 more h6 ih =>
    exact .through h1 h2 h4 he h6 (ih h)

/-- **A path is followed to its last name, and then one name further**; if the names before the last
do not lead to a directory, the path is refused. -/
theorem follow_concat (t : FileTree) (aim : Aim) (slash : Bool) (n : Text) :
    ∀ (links : Nat) (dir : Location) (xs : List Text),
      (∃ d links', follow t .target true links dir xs = .ok (.occupied d) ∧
        follow t aim slash links dir (xs ++ [n]) = follow t aim slash links' d [n])
      ∨ (∃ fault, follow t aim slash links dir (xs ++ [n]) = .error fault) ∧
        ∀ d, follow t .target true links dir xs ≠ .ok (.occupied d)
  | links, dir, [] => .inl ⟨dir, links, follow_nil, rfl⟩
  | links, dir, x :: xs => by
    by_cases h1 : x = Path.here
    · subst h1
      rw [List.cons_append, follow_here, follow_here]
      exact follow_concat t aim slash n links dir xs
    by_cases h2 : x = Path.up
    · subst h2
      rw [List.cons_append, follow_up, follow_up]
      exact follow_concat t aim slash n links dir.dropLast xs
    -- with names behind it, a name is not the last, so no test for the last name concerns it
    have hne : xs ++ [n] ≠ [] := by simp
    have hfile : ¬ (xs ++ [n] = [] ∧ slash = true ∧ aim = .file) := fun h => hne h.1
    have htarget : ¬ (xs = [] ∧ true = true ∧ Aim.target = .file) := fun h => by cases h.2.2
    rw [List.cons_append, follow_named h1 h2, follow_named h1 h2, if_neg hfile, if_neg htarget]
    by_cases hlong : maxNameBytes < Utf8.byteCount x
    · simp only [if_pos hlong]
      exact .inr ⟨⟨_, rfl⟩, by simp⟩
    simp only [if_neg hlong]
    cases he : t.entryAt? (dir ++ [Utf8.nameForm x]) with
    | none =>
      simp only [if_neg hne]
      refine .inr ⟨⟨_, rfl⟩, ?_⟩
      intro d h
      split at h <;> cases h
    | some e =>
      cases e with
      | directory => exact follow_concat t aim slash n links _ xs
      | file content =>
        simp only [hne, false_and, if_false]
        exact .inr ⟨⟨_, rfl⟩, by simp⟩
      | link path =>
        have hlink : ¬ (xs = [] ∧ Aim.target = .name ∧ true = false) := fun h => by cases h.2.2
        simp only [hne, false_and, if_false, if_neg hlink, decide_false, Bool.false_and, Bool.or_false]
        cases links with
        | zero => exact .inr ⟨⟨_, rfl⟩, by simp⟩
        | succ more =>
          by_cases hpath : path = []
          · simp only [if_pos hpath]
            exact .inr ⟨⟨_, rfl⟩, by simp⟩
          · simp only [if_neg hpath, Bool.true_or]
            -- the path of a link stands before the names that are left; there is one link less to
            -- follow
            rw [← List.append_assoc]
            exact follow_concat t aim slash n more _ (Path.names path ++ xs)
  termination_by links _ xs => (links, xs.length)

/-- Where some names and one more are followed, the names before the last lead to a directory, from
which the last one is followed. -/
theorem exists_of_follow_concat {aim : Aim} {slash : Bool} {links : Nat} {n : Text} {place : Place}
    (h : follow t aim slash links dir (xs ++ [n]) = .ok place) :
    ∃ d links', Leads t dir xs d ∧ follow t .target true links dir xs = .ok (.occupied d)
      ∧ follow t aim slash links' d [n] = .ok place := by
  rcases follow_concat t aim slash n links dir xs with ⟨d, links', hd, hlast⟩ | ⟨⟨fault, hfault⟩, -⟩
  · exact ⟨d, links', leads_of_follow hd (.inl ⟨rfl, rfl⟩), hd, hlast.symm.trans h⟩
  · rw [hfault] at h
    cases h

/-- Behind names that are followed to a directory one more is followed from there. -/
theorem exists_follow_concat {links : Nat} (h : follow t .target true links dir xs = .ok (.occupied d))
    (aim : Aim) (slash : Bool) (n : Text) :
    ∃ links', follow t aim slash links dir (xs ++ [n]) = follow t aim slash links' d [n] := by
  rcases follow_concat t aim slash n links dir xs with ⟨d', links', hd, hlast⟩ | ⟨-, hno⟩
  · rw [h] at hd
    cases hd
    exact ⟨links', hlast⟩
  · exact absurd h (hno d)

/-! ## §4. Trees with more in them. -/

/-- A tree has all that another has, at the same places. -/
def Extends (t t' : FileTree) : Prop := ∀ k e, t.entryAt? k = some e → t'.entryAt? k = some e

theorem Extends.grows (h : Extends t t') : Grows t t' := fun k e he _ => h k e he

/-- What is led to in a tree is led to in one that has more. -/
theorem Extends.follow (h : Extends t t') {aim : Aim} {slash : Bool} {links : Nat} {l : Location}
    (hl : follow t aim slash links dir ns = .ok (.occupied l)) :
    follow t' aim slash links dir ns = .ok (.occupied l) := by
  fun_induction FileTree.follow t aim slash links dir ns with
  | case1 => rwa [follow_nil]
  | case2 _ _ _ _ ih =>
    rw [follow_here]
    exact ih hl
  | case3 _ _ _ _ _ ih =>
    rw [follow_up]
    exact ih hl
  | case4 => cases hl
  | case5 => cases hl
  | case6 => cases hl
  | case7 => cases hl
  | case8 slash links dir name rest h1 h2 h3 h4 next he ih =>
    rw [follow_named h1 h2, if_neg h3, if_neg h4, h _ _ he]
    exact ih hl
  | case9 slash links dir name rest h1 h2 h3 h4 next c he h5 =>
    rw [follow_named h1 h2, if_neg h3, if_neg h4, h _ _ he]
    simp only [if_pos h5]
    exact hl
  | case10 => cases hl
  | case11 slash links dir name rest h1 h2 h3 h4 next path he h5 =>
    rw [follow_named h1 h2, if_neg h3, if_neg h4, h _ _ he]
    simp only [if_pos h5]
    exact hl
  | case12 => cases hl
  | case13 => cases hl
  | case14 slash dir name rest h1 h2 h3 h4 next path he h5 more h6 ih =>
    rw [follow_named h1 h2, if_neg h3, if_neg h4, h _ _ he]
    simp only [if_neg h5, if_neg h6]
    exact ih hl

theorem Extends.locate (h : Extends t t') (hdir : t.workingDir = t'.workingDir) {aim : Aim}
    {p : Text} {l : Location} (hl : t.locate aim p = .ok (.occupied l)) :
    t'.locate aim p = .ok (.occupied l) := by
  rw [locate_eq_ok_iff] at hl ⊢
  rw [← hdir]
  exact ⟨hl.1, hl.2.1, hl.2.2.1, h.follow hl.2.2.2⟩

end FileTree

end ModuleBuild
