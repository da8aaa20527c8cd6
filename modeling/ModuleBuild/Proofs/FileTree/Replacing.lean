/-
  ModuleBuild.Proofs.FileTree.Replacing
  ─────────────────────────────────────
  **REMOVING, AND COPYING IN PLACE.**

  What lies at a path is removed, and something is copied in its place.  The
  path can lead through what is removed; then the copy lies at or below it.
  So the two steps leave everything but the destination that the path had
  before them.

  Main results:
    * `removePath_removed` — removing leaves everything but the destination;
    * `delivered_of_removed` — so does a copy after it, which lies there if it succeeds.
-/
import ModuleBuild.Proofs.FileTree.Delivering
import ModuleBuild.Proofs.FileTree.Removing

namespace ModuleBuild

open FileTree

namespace Edit

variable {t t' : FileTree} {D : Location}

/-! ## §1. Removing. -/

/-- What removing something at a path leaves. -/
structure Removed (p : Text) (D : Location) (t : FileTree) (r : Except Failure Unit)
    (t' : FileTree) : Prop where
  workingDir : t'.workingDir = t.workingDir
  proper : Proper t → Proper t'
  occupied : t.entryAt? D ≠ none
  outside : ∀ k, ¬ D <+: k → t'.entryAt? k = t.entryAt? k
  /-- If it succeeds, nothing is left, and a name in a directory is vacant. -/
  gone : r = .ok () → (∀ k, D <+: k → t'.entryAt? k = none) ∧ t'.pathOccupied p = false ∧
    ∃ init n d, Path.names (t.absolute p) = init ++ [n] ∧ Leads t [] init d ∧
      D = d ++ [Utf8.nameForm n]

/-- A tree from which something went has no more than before. -/
theorem extends_of_gone (hout : ∀ k, ¬ D <+: k → t'.entryAt? k = t.entryAt? k)
    (hgone : ∀ k, D <+: k → t'.entryAt? k = none) : Extends t' t := by
  intro k e he
  by_cases hk : D <+: k
  · rw [hgone k hk] at he
    cases he
  · rw [← hout k hk, he]

theorem locate_of_pathOccupied {p : Text} (h : t.pathOccupied p = true) :
    ∃ l, t.locate .name p = .ok (.occupied l) ∧ t.entryAt? l ≠ none := by
  unfold pathOccupied findLink? at h
  split at h
  · rename_i l hlocate
    refine ⟨l, hlocate, ?_⟩
    intro hnone
    rw [hnone] at h
    cases h
  · cases h

/-- What was removed at a path is not found there any more. -/
theorem not_pathOccupied_of_gone {p : Text} (hdir : t'.workingDir = t.workingDir)
    (hless : Extends t' t) (hlocate : t.locate .name p = .ok (.occupied D))
    (hgone : t'.entryAt? D = none) : t'.pathOccupied p = false := by
  rw [Bool.eq_false_iff]
  intro hocc
  obtain ⟨l, hl, hsome⟩ := locate_of_pathOccupied hocc
  have hl' := hless.locate hdir hl
  rw [hlocate] at hl'
  cases hl'
  exact hsome hgone

/-- A directory that is emptied differs below its place only. -/
theorem removed_emptied {p : Text} {failure : Failure} (hD : t.entryAt? D = some .directory) :
    Removed p D t (.error failure) (t.put D .emptyDirectory) where
  workingDir := workingDir_put ..
  proper := by
    intro hproper
    rcases List.eq_nil_or_concat D with rfl | ⟨d, m, rfl⟩
    · exact hproper
    · rw [List.concat_eq_append] at hD ⊢
      exact hproper.put (hproper.names _ (ne_none_of_eq_some hD) m (by simp))
        (isDirectory_of_append (ne_none_of_eq_some hD)) rfl
  occupied := ne_none_of_eq_some hD
  outside := fun k hk => entryAt?_put_outside _ hk
  gone := fun h => by cases h

section Named

variable {root : Text} {init : List Text} {n : Text} (hproper : Proper t) (hroot : Path.IsRoot root)
  (htidy : Path.Tidy (root ≠ []) (init ++ [n])) (hn : Path.IsName n)
  (hlocate : t.locate .name (Path.written root (init ++ [n])) = .ok (.occupied D))
  (hoccupied : t.entryAt? D ≠ none)

include hproper hroot htidy hn hlocate hoccupied

/-- The names of the absolute form of a path lead to what lies at the path. -/
theorem leads_of_occupied :
    ∃ init' d, Path.names (t.absolute (Path.written root (init ++ [n]))) = init' ++ [n] ∧
      Leads t [] init' d ∧ D = d ++ [Utf8.nameForm n] := by
  obtain ⟨d, hd, rfl, -⟩ := removePath_named (Path.names_written hroot htidy.isPart) hn
    (Path.not_endsWith_written hn.1) hlocate hoccupied
  obtain ⟨root', init', habs, hroot', -, hinit', hback⟩ := exists_absolute hproper hroot htidy hn
  exact ⟨init', d, by rw [habs, names_written_concat hroot' hinit' hn],
    (hback t d rfl).1 hd (isDirectory_of_append hoccupied), rfl⟩

/-- What lies at a path that ends in a name lies at its destination. -/
theorem destination_of_occupied : Destination t (Path.written root (init ++ [n])) D := by
  obtain ⟨init', d, hnames, hleads, rfl⟩ :=
    leads_of_occupied hproper hroot htidy hn hlocate hoccupied
  exact .named hnames hleads.settles

end Named

/-- **Removing leaves everything but the destination.** -/
theorem removePath_removed {q : Text} {r : Except Failure Unit} (hproper : Proper t)
    (hocc : t.pathOccupied (Path.normalize q) = true)
    (hrun : (removePath (Path.normalize q)).runOn t = (r, t')) :
    (∃ failure, r = .error failure ∧ t' = t)
      ∨ ∃ D, Destination t (Path.normalize q) D ∧ Removed (Path.normalize q) D t r t' := by
  obtain ⟨l, hlocate, hl⟩ := locate_of_pathOccupied hocc
  rcases dotted_or_named q with hdots | ⟨root, init, n, hq, hroot, htidy, hn⟩
  · obtain ⟨failure, hfail | ⟨D, hD, hdir, hfail⟩⟩ := removePath_dotted hdots.names t
    · rw [hfail] at hrun
      cases hrun
      exact .inl ⟨failure, rfl, rfl⟩
    · rw [hfail] at hrun
      cases hrun
      exact .inr ⟨D, destination_of_dotted hproper hdots (leads_of_locate hD hdir) hdir,
        removed_emptied hdir⟩
  · rw [hq] at hlocate hrun ⊢
    obtain ⟨d, -, rfl, hcases⟩ := removePath_named (Path.names_written hroot htidy.isPart) hn
      (Path.not_endsWith_written hn.1) hlocate hl
    refine .inr ⟨_, destination_of_occupied hproper hroot htidy hn hlocate hl, ?_⟩
    obtain ⟨init', d', hnames, hleads, hlast⟩ :=
      leads_of_occupied hproper hroot htidy hn hlocate hl
    -- what is left once everything under the name is gone
    have hremoved : ∀ u : FileTree, u.workingDir = t.workingDir → (Proper t → Proper u) →
        (∀ k, ¬ d ++ [Utf8.nameForm n] <+: k → u.entryAt? k = t.entryAt? k) →
        (∀ k, d ++ [Utf8.nameForm n] <+: k → u.entryAt? k = none) →
        Removed (Path.written root (init ++ [n])) (d ++ [Utf8.nameForm n]) t (.ok ()) u := by
      intro u hdir hproper' hout hgone
      refine ⟨hdir, hproper', hl, hout, fun _ => ⟨hgone, ?_, init', n, d', hnames, hleads, hlast⟩⟩
      exact not_pathOccupied_of_gone hdir (extends_of_gone hout hgone) hlocate
        (hgone _ (List.prefix_refl _))
    rcases hcases with ⟨-, hdone⟩ | ⟨hdir, ⟨failure, -, hfail, -⟩ | ⟨hdone, -⟩⟩
    · -- a file or a link
      rw [hdone] at hrun
      cases hrun
      refine hremoved _ (workingDir_remove ..) Proper.remove
        (fun k hk => entryAt?_remove_outside hk) ?_
      intro k hk
      rw [entryAt?_remove_concat, if_pos hk]
    · -- a directory that is emptied, and stays
      rw [hfail] at hrun
      cases hrun
      exact removed_emptied hdir
    · -- a directory that is emptied, and goes
      rw [hdone] at hrun
      cases hrun
      have hempty : Removed (Path.written root (init ++ [n])) (d ++ [Utf8.nameForm n]) t
          (.error .nullInPath) (t.put (d ++ [Utf8.nameForm n]) .emptyDirectory) :=
        removed_emptied hdir
      refine hremoved _ ?_ (fun h => (hempty.proper h).remove) ?_ ?_
      · rw [workingDir_remove, workingDir_put]
      · intro k hk
        rw [entryAt?_remove_outside hk, hempty.outside k hk]
      · intro k hk
        rw [entryAt?_remove_concat, if_pos hk]

/-! ## §2. Copying in place. -/

/-- **A copy in place of what was removed leaves everything but the destination before**, and lies
there if it succeeds. -/
theorem delivered_of_removed {p : Text} {r : Except Failure Unit} {t1 : FileTree}
    (hremoved : Removed p D t (.ok ()) t1) (h : Delivered p t1 r t') :
    (r = .ok () → t'.entryAt? D ≠ none) ∧ ∀ k, ¬ D <+: k → t'.entryAt? k = t.entryAt? k := by
  obtain ⟨hgone, -, init, n, d, hnames, hleads, rfl⟩ := hremoved.gone rfl
  rcases h.delivered with ⟨hr, hsame⟩ | ⟨D', hD', -, hlands, hout⟩
  · exact ⟨fun hok => absurd hok hr, fun k hk => by rw [hsame, hremoved.outside k hk]⟩
  -- the destination after removing lies at or below the one before
  have hbelow : d ++ [Utf8.nameForm n] <+: D' := by
    have habs : t1.absolute p = t.absolute p := by
      unfold FileTree.absolute
      rw [hremoved.workingDir]
    cases hD' with
    | root hnil =>
      rw [habs, hnames] at hnil
      simp at hnil
    | named hnames' hsettles =>
      rw [habs, hnames] at hnames'
      obtain ⟨rfl, hlast⟩ := List.append_inj' hnames' rfl
      cases hlast
      rcases hsettles.of_less (extends_of_gone hremoved.outside hgone) hleads with
        rfl | ⟨mid, y, ys, -, -, hnone, hsome, hpre⟩
      · exact List.prefix_refl _
      · have hmid : d ++ [Utf8.nameForm n] <+: mid ++ [Utf8.nameForm y] := by
          by_contra hno
          rw [hremoved.outside _ hno] at hnone
          exact hsome hnone
        exact (hmid.trans hpre).trans (List.prefix_append ..)
  refine ⟨fun hr hnone => hlands hr (entryAt?_eq_none_of_below hnone hbelow), ?_⟩
  intro k hk
  rw [← hremoved.outside k hk]
  rcases hout k (fun h => hk (hbelow.trans h)) with heq | ⟨hnone, -, hpre⟩
  · exact heq
  · -- above the destination before, nothing was missing
    exfalso
    rcases List.prefix_or_prefix_of_prefix hbelow hpre with h | h
    · exact hk h
    · rw [hremoved.outside k hk] at hnone
      exact hremoved.occupied (entryAt?_eq_none_of_below hnone h)

end Edit

end ModuleBuild
