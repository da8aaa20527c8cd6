/-
  ModuleBuild.Proofs.Path.Dotless
  ───────────────────────────────
  **NAMES WITHOUT DOTS.**

  The absolute form of a path is made by its text alone: empty pieces and the
  name of the current directory are left out, and a name that leads up takes
  the one before it away.  So as long as no name leads up, the absolute form
  has the names of the path, those of the working directory in front if the
  path is relative.

  Main results:
    * `names_absolute` — the names of the absolute form of a path.
-/
import ModuleBuild.Proofs.Path.Pieces

namespace ModuleBuild

namespace Path

variable {n : Text} {ns : List Text}

/-- The pieces of a path that say something: those that are empty or stay where they are left out. -/
def dotless (pieces : List Text) : List Text := pieces.filter fun n => ¬ (n = [] ∨ n = here)

theorem dotless_skip (h : n = [] ∨ n = here) : dotless (n :: ns) = dotless ns :=
  List.filter_cons_of_neg fun hno => of_decide_eq_true hno h

theorem dotless_cons (h : ¬ (n = [] ∨ n = here)) : dotless (n :: ns) = n :: dotless ns :=
  List.filter_cons_of_pos (decide_eq_true h)

theorem dotless_append (ns ms : List Text) : dotless (ns ++ ms) = dotless ns ++ dotless ms :=
  List.filter_append ns ms

/-- The names of a path are its pieces, the empty ones left out. -/
theorem dotless_names (p : Text) : dotless (names p) = dotless (Text.split CodePoint.slash p) := by
  unfold dotless names
  rw [List.filter_filter]
  refine List.filter_congr fun n _ => ?_
  by_cases hn : n = [] <;> simp [hn]

theorem dotless_dotless (ns : List Text) : dotless (dotless ns) = dotless ns := by
  unfold dotless
  rw [List.filter_filter, funext fun n => Bool.and_self _]

theorem dotless_of_isName (h : ∀ n ∈ ns, IsName n) : dotless ns = ns :=
  List.filter_eq_self.2 fun n hn => decide_eq_true (not_or.2 ⟨(h n hn).1.1, (h n hn).2.1⟩)

/-- Where no name leads up, the stack takes the names that say something. -/
theorem foldl_pushName_dotless (hup : up ∉ ns) (hne : ∀ n ∈ ns, n ≠ []) :
    (ns.foldl (pushName true) []).reverse = dotless ns := by
  rw [foldl_pushName_of_ne_up true ns [] hup hne, List.append_nil, List.reverse_reverse]
  exact List.filter_congr fun n hn => by simp [hne n hn]

end Path

namespace FileTree

variable {t : FileTree} {p : Text}

/-- **The names of the absolute form** of a path in which no name leads up. -/
theorem names_absolute (hdir : ∀ m ∈ t.workingDir, Path.IsName m) (hup : Path.up ∉ Path.names p) :
    Path.names (t.absolute p)
      = (if Path.isAbsolute p then [] else t.workingDir) ++ Path.dotless (Path.names p) := by
  have hne : ∀ n ∈ Path.names p, n ≠ [] := fun n hn => by simpa using (List.mem_filter.1 hn).2
  unfold absolute Path.resolveAgainst
  split
  · rename_i habs
    rw [Path.names_normalize habs]
    exact Path.foldl_pushName_dotless hup hne
  · rename_i habs
    have hcwd : Path.names (pathOf t.workingDir) = t.workingDir :=
      Path.names_written (.inr (.inl rfl)) (isName_parts hdir)
    have hnone : Path.up ∉ t.workingDir := fun h => (hdir _ h).2.2 rfl
    rw [Path.names_normalize (Path.isAbsolute_join rfl p), Path.names_join (by simpa using habs), hcwd,
      Path.foldl_pushName_dotless (by simp [hup, hnone])]
    · rw [Path.dotless_append, Path.dotless_of_isName hdir]
    · exact fun n hn => (List.mem_append.1 hn).elim (fun hn => (hdir n hn).1.1) (hne n)

end FileTree

end ModuleBuild
