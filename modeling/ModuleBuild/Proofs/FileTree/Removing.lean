/-
  ModuleBuild.Proofs.FileTree.Removing
  ────────────────────────────────────
  **REMOVING WHAT LIES AT A PATH.**

  A file or a link goes at once.  A directory is emptied first and goes then,
  if the path still leads to it; a path that ends in dots leads to a directory
  that is emptied and stays.

  Main results:
    * `removePath_named` — what removing leaves, for a path that ends in a name;
    * `removePath_dotted` — for one that does not.
-/
import ModuleBuild.Proofs.FileTree.Making

namespace ModuleBuild

open FileTree

namespace FileTree

variable {t t' : FileTree} {p : Text} {d l : Location} {n : Text} {init : List Text}

/-! ## §1. Single removals. -/

theorem namesDirectory_of_locate (h : t.locate .target p = .ok (.occupied l))
    (hl : t.entryAt? l = some .directory) : t.namesDirectory p = true := by
  unfold namesDirectory find?
  rw [h, decide_eq_true_eq]
  exact hl

theorem clearDirectory_of_locate (h : t.locate .target p = .ok (.occupied l))
    (hl : t.entryAt? l = some .directory) : t.clearDirectory p = .ok (t.put l .emptyDirectory) := by
  unfold clearDirectory
  rw [openDirectory_of_locate h hl]
  rfl

/-- A file or a link is removed where its path ends. -/
theorem removeFile_of_lastLocation {e : Entry} (hcheck : checkPath p = .ok ())
    (hslash : Text.endsWith p "/" = false) (h : t.lastLocation p (fun _ => .isDirectory) = .ok l)
    (hl : t.entryAt? l = some e) (he : e ≠ .directory) : t.removeFile p = .ok (t.remove l) := by
  unfold removeFile onPath
  rw [hcheck, h]
  simp only [bind, Except.bind, hl]
  cases e with
  | directory => exact absurd rfl he
  | file content => simp [hslash]
  | link path => simp [hslash]

/-- A path that ends in dots removes no file. -/
theorem removeFile_of_dotted (hdots : ∀ m ∈ Path.names p, m = Path.here ∨ m = Path.up) :
    ∃ failure, t.removeFile p = .error failure := by
  unfold removeFile onPath
  cases checkPath p with
  | error failure => exact ⟨failure, rfl⟩
  | ok u =>
    cases h : t.lastLocation p fun _ => .isDirectory with
    | error fault => exact ⟨_, rfl⟩
    | ok l =>
      obtain ⟨init, n, d, hnames, hn, -⟩ := leads_of_lastLocation h
      rcases hdots n (hnames ▸ by simp) with h1 | h2
      · exact absurd h1 hn.2.1
      · exact absurd h2 hn.2.2

/-- An empty directory goes if the path leads to it. -/
theorem removeDirectory_cases (t : FileTree) (p : Text) :
    (∃ failure, t.removeDirectory p = .error failure)
      ∨ ∃ l, t.lastLocation p removalFault = .ok l ∧ t.removeDirectory p = .ok (t.remove l) := by
  unfold removeDirectory onPath
  cases checkPath p with
  | error failure => exact .inl ⟨failure, rfl⟩
  | ok u =>
    cases h : t.lastLocation p removalFault with
    | error fault => exact .inl ⟨_, rfl⟩
    | ok l =>
      simp only [bind, Except.bind]
      cases t.entryAt? l with
      | none => exact .inl ⟨_, rfl⟩
      | some e =>
        cases e with
        | file content => exact .inl ⟨_, rfl⟩
        | link path => exact .inl ⟨_, rfl⟩
        | directory =>
          by_cases hempty : (t.namesAt l).toList = []
          · simp only [if_pos hempty]
            exact .inr ⟨l, rfl, rfl⟩
          · simp only [if_neg hempty]
            exact .inl ⟨_, rfl⟩

/-- An empty directory to which a path leads goes. -/
theorem removeDirectory_of_lastLocation (hcheck : checkPath p = .ok ())
    (h : t.lastLocation p removalFault = .ok l) (hl : t.entryAt? l = some .directory)
    (hempty : ∀ k, l <+: k → k ≠ l → t.entryAt? k = none) :
    t.removeDirectory p = .ok (t.remove l) := by
  have hnames : (t.namesAt l).toList = [] := by
    rw [List.eq_nil_iff_forall_not_mem]
    intro m hm
    exact entryAt?_of_mem_namesAt hl hm (hempty _ (List.prefix_append ..) (by simp))
  unfold removeDirectory onPath
  rw [hcheck, h]
  simp only [bind, Except.bind, hl, if_pos hnames]

/-- A tree with a directory emptied has no more than before. -/
theorem extends_emptied {m : Text} (hd : t.entryAt? d = some .directory)
    (hl : t.entryAt? (d ++ [m]) = some .directory) :
    Extends (t.put (d ++ [m]) .emptyDirectory) t := by
  intro k e he
  rw [entryAt?_put_leaf hd rfl] at he
  split at he
  · rename_i hk
    cases he
    rw [hk]
    exact hl
  · split at he
    · cases he
    · exact he

/-- Emptying a directory that is empty changes nothing. -/
theorem entryAt?_put_of_empty {m : Text} (hd : t.entryAt? d = some .directory)
    (hl : t.entryAt? (d ++ [m]) = some .directory)
    (hempty : ∀ k, d ++ [m] <+: k → k ≠ d ++ [m] → t.entryAt? k = none) (k : Location) :
    (t.put (d ++ [m]) .emptyDirectory).entryAt? k = t.entryAt? k := by
  rw [entryAt?_put_leaf hd rfl]
  split
  · rename_i hk
    rw [hk, hl]
    rfl
  · split
    · rename_i hk hpre
      rw [hempty k hpre hk]
    · rfl

/-- What lies where a path ends says whether it names a link. -/
theorem namesLink_iff_of_locate (h : t.locate .name p = .ok (.occupied l)) :
    t.namesLink p = true ↔ ∃ path, t.entryAt? l = some (.link path) := by
  unfold namesLink findLink?
  rw [h]
  dsimp only
  cases t.entryAt? l with
  | none => simp
  | some e => cases e <;> simp

/-- A directory that held nothing is still found when it is emptied, and goes. -/
theorem removeDirectory_emptied (hnames : Path.names p = init ++ [n]) (hn : Path.IsName n)
    (hslash : Text.endsWith p "/" = false) (hd : Leads t (t.startOf p) init d)
    (hfound : t.locate .target p = .ok (.occupied (d ++ [Utf8.nameForm n])))
    (he : t.entryAt? (d ++ [Utf8.nameForm n]) = some .directory)
    (hempty : ∀ k, d ++ [Utf8.nameForm n] <+: k → k ≠ d ++ [Utf8.nameForm n] → t.entryAt? k = none) :
    (t.put (d ++ [Utf8.nameForm n]) .emptyDirectory).removeDirectory p
      = .ok ((t.put (d ++ [Utf8.nameForm n]) .emptyDirectory).remove (d ++ [Utf8.nameForm n])) := by
  have hparent : t.entryAt? d = some .directory := isDirectory_of_append (ne_none_of_eq_some he)
  have hsame := entryAt?_put_of_empty hparent he hempty
  have hfound' := Extends.locate (fun k e he => by rw [hsame, he]) (workingDir_put ..).symm hfound
  obtain ⟨d', hd', hlast⟩ := lastLocation_of_locate hnames hn hslash removalFault hfound'
  have hback := hd'.grows (extends_emptied hparent he).grows
  rw [startOf_eq (workingDir_put ..)] at hback
  rw [hback.det hd] at hlast
  exact removeDirectory_of_lastLocation (locate_eq_ok_iff.1 hfound).1 hlast (by rw [hsame, he])
    fun k hpre hk => by rw [hsame, hempty k hpre hk]

/-- Where an emptied directory goes, the path leads to it as it did before. -/
theorem removeDirectory_emptied_cases (hnames : Path.names p = init ++ [n])
    (hd : Leads t (t.startOf p) init d)
    (he : t.entryAt? (d ++ [Utf8.nameForm n]) = some .directory) :
    (∃ failure, (t.put (d ++ [Utf8.nameForm n]) .emptyDirectory).removeDirectory p = .error failure)
      ∨ (t.put (d ++ [Utf8.nameForm n]) .emptyDirectory).removeDirectory p
          = .ok ((t.put (d ++ [Utf8.nameForm n]) .emptyDirectory).remove (d ++ [Utf8.nameForm n]))
        ∧ Leads (t.put (d ++ [Utf8.nameForm n]) .emptyDirectory) (t.startOf p) init d := by
  rcases removeDirectory_cases (t.put (d ++ [Utf8.nameForm n]) .emptyDirectory) p with
    ⟨failure, hfail⟩ | ⟨l, hl, hok⟩
  · exact .inl ⟨failure, hfail⟩
  · obtain ⟨init', n', d', hnames', -, hd', rfl⟩ := leads_of_lastLocation hl
    rw [hnames] at hnames'
    obtain ⟨rfl, hlast⟩ := List.append_inj' hnames' rfl
    cases hlast
    rw [startOf_eq (workingDir_put ..)] at hd'
    -- what is left of the tree leads where the tree did
    have hparent : t.entryAt? d = some .directory := isDirectory_of_append (ne_none_of_eq_some he)
    have hdet := (hd'.grows (extends_emptied hparent he).grows).det hd
    subst hdet
    exact .inr ⟨hok, hd'⟩

end FileTree

namespace Edit

variable {t t' : FileTree} {p : Text} {l : Location}

/-! ## §2. Removing. -/

/-- A file or a link is removed at once. -/
theorem runOn_removePath_leaf {init : List Text} {n : Text} {d : Location} {e : Entry}
    (hnames : Path.names p = init ++ [n]) (hn : Path.IsName n)
    (hslash : Text.endsWith p "/" = false) (hd : Leads t (t.startOf p) init d)
    (hlocate : t.locate .name p = .ok (.occupied (d ++ [Utf8.nameForm n])))
    (he : t.entryAt? (d ++ [Utf8.nameForm n]) = some e) (hdir : e ≠ .directory) :
    (removePath p).runOn t = (.ok (), t.remove (d ++ [Utf8.nameForm n])) := by
  have hlast : t.lastLocation p (fun _ => .isDirectory) = .ok (d ++ [Utf8.nameForm n]) := by
    obtain ⟨d', hd', hlast⟩ := lastLocation_of_locate hnames hn hslash (fun _ => .isDirectory) hlocate
    rwa [hd'.det hd] at hlast
  have hno : (t.namesDirectory p && !t.namesLink p) = false := by
    cases e with
    | directory => exact absurd rfl hdir
    | link path =>
      rw [(namesLink_iff_of_locate hlocate).2 ⟨path, he⟩]
      simp
    | file content =>
      have hfound : t.locate .target p = .ok (.occupied (d ++ [Utf8.nameForm n])) :=
        locate_last hnames hn hslash (.refl t) rfl hd hlocate he (.inr (by simp))
      have hfile : t.namesDirectory p = false := by
        unfold namesDirectory find?
        rw [hfound]
        simp [he]
      rw [hfile]
      rfl
  unfold removePath
  rw [runOn_bind, runOn_get]
  dsimp only
  rw [hno, if_neg (by simp), run_change,
    removeFile_of_lastLocation (locate_eq_ok_iff.1 hlocate).1 hslash hlast he hdir]

/-- A directory is emptied first, and removed then. -/
theorem runOn_removePath_directory (hlocate : t.locate .name p = .ok (.occupied l))
    (hfound : t.locate .target p = .ok (.occupied l)) (he : t.entryAt? l = some .directory) :
    (removePath p).runOn t
      = match (t.put l .emptyDirectory).removeDirectory p with
        | .ok t' => (.ok (), t')
        | .error failure => (.error failure, t.put l .emptyDirectory) := by
  have hislink : t.namesLink p = false := by
    rw [Bool.eq_false_iff, Ne, namesLink_iff_of_locate hlocate]
    rintro ⟨path, hlink⟩
    rw [he] at hlink
    cases hlink
  unfold removePath
  rw [runOn_bind, runOn_get]
  dsimp only
  rw [namesDirectory_of_locate hfound he, hislink, if_pos (show (true && !false) = true from rfl),
    runOn_bind, run_change, clearDirectory_of_locate hfound he]
  exact run_change _ _

/-- **What removing leaves, for a path that ends in a name**: a file or a link is gone; a directory
is gone if the path leads to it without what it held, and else empty, which it was not before. -/
theorem removePath_named {init : List Text} {n : Text} (hnames : Path.names p = init ++ [n])
    (hn : Path.IsName n) (hslash : Text.endsWith p "/" = false)
    (hlocate : t.locate .name p = .ok (.occupied l)) (hoccupied : t.entryAt? l ≠ none) :
    ∃ d, Leads t (t.startOf p) init d ∧ l = d ++ [Utf8.nameForm n] ∧
      ((t.entryAt? l ≠ some .directory ∧ (removePath p).runOn t = (.ok (), t.remove l))
        ∨ (t.entryAt? l = some .directory ∧
            ((∃ failure k, (removePath p).runOn t = (.error failure, t.put l .emptyDirectory) ∧
                l <+: k ∧ k ≠ l ∧ t.entryAt? k ≠ none)
              ∨ ((removePath p).runOn t = (.ok (), (t.put l .emptyDirectory).remove l) ∧
                  Leads (t.put l .emptyDirectory) (t.startOf p) init d)))) := by
  obtain ⟨d, hd, -⟩ := lastLocation_of_locate hnames hn hslash (fun _ => .isDirectory) hlocate
  have hl : l = d ++ [Utf8.nameForm n] := by
    rcases place_of_locate hnames hn hslash hd hlocate with ⟨-, h⟩ | ⟨-, h⟩ | ⟨h, -⟩
    · cases h
    · cases h
      rfl
    · exact absurd rfl h
  subst hl
  refine ⟨d, hd, rfl, ?_⟩
  obtain ⟨e, he⟩ := Option.ne_none_iff_exists'.1 hoccupied
  by_cases hdir : e = .directory
  · subst hdir
    have hfound : t.locate .target p = .ok (.occupied (d ++ [Utf8.nameForm n])) :=
      locate_last hnames hn hslash (.refl t) rfl hd hlocate he (.inr (by simp))
    refine .inr ⟨he, ?_⟩
    rw [runOn_removePath_directory hlocate hfound he]
    rcases removeDirectory_emptied_cases hnames hd he with ⟨failure, hfail⟩ | ⟨hok, hleads⟩
    · -- it was not empty, or it would have gone
      have hfull : ∃ k, d ++ [Utf8.nameForm n] <+: k ∧ k ≠ d ++ [Utf8.nameForm n] ∧
          t.entryAt? k ≠ none := by
        by_contra hno
        rw [removeDirectory_emptied hnames hn hslash hd hfound he fun k hpre hk => by
          by_contra hsome
          exact hno ⟨k, hpre, hk, hsome⟩] at hfail
        cases hfail
      obtain ⟨k, hk⟩ := hfull
      rw [hfail]
      exact .inl ⟨failure, k, rfl, hk⟩
    · rw [hok]
      exact .inr ⟨rfl, hleads⟩
  · exact .inl ⟨by rw [he]; simpa using hdir,
      runOn_removePath_leaf hnames hn hslash hd hlocate he hdir⟩

/-- **What removing leaves, for a path that ends in dots or is the root**: it fails, and a directory
is empty. -/
theorem removePath_dotted (hdots : ∀ m ∈ Path.names p, m = Path.here ∨ m = Path.up)
    (t : FileTree) :
    ∃ failure, (removePath p).runOn t = (.error failure, t)
      ∨ ∃ l, t.locate .target p = .ok (.occupied l) ∧ t.entryAt? l = some .directory ∧
          (removePath p).runOn t = (.error failure, t.put l .emptyDirectory) := by
  unfold removePath
  rw [runOn_bind, runOn_get]
  dsimp only
  split
  · rename_i hdir
    rw [Bool.and_eq_true] at hdir
    obtain ⟨l, hlocate, hl⟩ := locate_of_namesDirectory hdir.1
    rw [runOn_bind, run_change, clearDirectory_of_locate hlocate hl]
    dsimp only
    rw [run_change]
    rcases removeDirectory_cases (t.put l .emptyDirectory) p with ⟨failure, hfail⟩ | ⟨m, hm, -⟩
    · rw [hfail]
      exact ⟨failure, .inr ⟨l, hlocate, hl, rfl⟩⟩
    · obtain ⟨init, n, d, hnames, hn, -⟩ := leads_of_lastLocation hm
      rcases hdots n (hnames ▸ by simp) with h1 | h2
      · exact absurd h1 hn.2.1
      · exact absurd h2 hn.2.2
  · obtain ⟨failure, hfail⟩ := removeFile_of_dotted (t := t) hdots
    rw [run_change, hfail]
    exact ⟨failure, .inl rfl⟩

end Edit

end ModuleBuild
