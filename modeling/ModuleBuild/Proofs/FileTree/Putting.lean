/-
  ModuleBuild.Proofs.FileTree.Putting
  ───────────────────────────────────
  **WHAT A CHANGE LEAVES.**

  What lies everywhere in a tree after a file or an empty directory was put
  into it, or after something was removed: the changed place, what was below
  it, and the rest.

  Main results:
    * `entryAt?_put_leaf`, `entryAt?_remove_concat` — the tree after a change, place by place;
    * `Proper.put`, `Proper.remove` — a change leaves a tree that a system can hold.
-/
import ModuleBuild.Proofs.FileTree.Destination
import ModuleBuild.Proofs.FileTree.Shape

namespace ModuleBuild

namespace FileTree

variable {t : FileTree} {d : Location} {m : Text} {node : Node}

/-- **A tree with a node without children put into it**, place by place. -/
theorem entryAt?_put_leaf (hd : t.entryAt? d = some .directory) (hleaf : node.children = [])
    (k : Location) :
    (t.put (d ++ [m]) node).entryAt? k
      = if k = d ++ [m] then some node.entry
        else if d ++ [m] <+: k then none else t.entryAt? k := by
  have hne : d ++ [m] ≠ [] := by simp
  have hparent : t.entryAt? (d ++ [m]).dropLast = some .directory := by
    rw [List.dropLast_concat, hd]
  by_cases hk : k = d ++ [m]
  · rw [if_pos hk, hk]
    exact entryAt?_put_self node hne hparent
  rw [if_neg hk]
  by_cases hpre : d ++ [m] <+: k
  · rw [if_pos hpre]
    obtain ⟨tail, rfl⟩ := hpre
    have htail : tail ≠ [] := by
      rintro rfl
      exact hk (List.append_nil _)
    obtain ⟨x, rest, rfl⟩ := List.exists_cons_of_ne_nil htail
    by_contra hsome
    -- what lies below lies in a directory, and this one is empty
    have hdir := isDirectory_of_append hsome
    obtain ⟨ds, hds⟩ := Forest.exists_of_entryAt?_directory hdir
    have hself : (t.put (d ++ [m]) node).nodeAt? (d ++ [m]) = some node := by
      obtain ⟨name, names, hcons⟩ := List.exists_cons_of_ne_nil hne
      rw [hcons] at hparent ⊢
      exact Forest.nodeAt?_alter_self _ hparent
    have hnode : node = .directory ds := Option.some.inj (hself.symm.trans hds)
    have hnil : ds = [] := by
      rw [hnode] at hleaf
      exact hleaf
    have hbelow := Forest.entryAt?_append (x :: rest) hds
    rw [hnil] at hbelow
    exact hsome hbelow
  · rw [if_neg hpre]
    exact entryAt?_put_outside node hpre

/-- **A tree with something removed**, place by place. -/
theorem entryAt?_remove_concat (t : FileTree) (d : Location) (m : Text) (k : Location) :
    (t.remove (d ++ [m])).entryAt? k = if d ++ [m] <+: k then none else t.entryAt? k := by
  have hne : d ++ [m] ≠ [] := by simp
  by_cases hpre : d ++ [m] <+: k
  · rw [if_pos hpre]
    refine entryAt?_eq_none_of_below (l := d ++ [m]) ?_ hpre
    by_cases hd : t.entryAt? d = some .directory
    · apply entryAt?_remove_self hne
      rw [List.dropLast_concat, hd]
    · -- there was no directory to hold it
      by_contra hsome
      apply hd
      have hdir := isDirectory_of_append hsome
      rwa [entryAt?_remove_outside] at hdir
      simpa using not_prefix_dropLast hne
  · rw [if_neg hpre]
    exact entryAt?_remove_outside hpre

/-- The names in a directory are those that something in it has. -/
theorem entryAt?_of_mem_namesAt {l : Location} {n : Text} (hl : t.entryAt? l = some .directory)
    (hn : n ∈ (t.namesAt l).toList) : t.entryAt? (l ++ [n]) ≠ none := by
  obtain ⟨ds, hds⟩ := Forest.exists_of_entryAt?_directory hl
  have hmem : n ∈ NameSet.ofList (ds.map (·.1)) := by
    unfold namesAt at hn
    have hnode : t.nodeAt? l = some (.directory ds) := hds
    rw [hnode] at hn
    exact hn
  rw [NameSet.mem_ofList, Forest.mem_names_iff] at hmem
  have happend : t.entryAt? (l ++ [n]) = Forest.entryAt? ds [n] := Forest.entryAt?_append [n] hds
  rw [happend, Forest.entryAt?_singleton]
  simpa using hmem

theorem Proper.put (h : Proper t) (hm : Path.IsName m) (hd : t.entryAt? d = some .directory)
    (hleaf : node.children = []) : Proper (t.put (d ++ [m]) node) where
  names := by
    intro k hk
    rw [entryAt?_put_leaf hd hleaf] at hk
    split at hk
    · rename_i heq
      rw [heq]
      intro x hx
      rcases List.mem_append.1 hx with hx | hx
      · exact h.names d (ne_none_of_eq_some hd) x hx
      · rw [List.mem_singleton.1 hx]
        exact hm
    · split at hk
      · exact absurd rfl hk
      · exact h.names k hk
  workingDir := by
    rw [workingDir_put]
    exact h.workingDir

theorem Proper.remove (h : Proper t) : Proper (t.remove (d ++ [m])) where
  names := by
    intro k hk
    rw [entryAt?_remove_concat] at hk
    split at hk
    · exact absurd rfl hk
    · exact h.names k hk
  workingDir := by
    rw [workingDir_remove]
    exact h.workingDir

end FileTree

end ModuleBuild
