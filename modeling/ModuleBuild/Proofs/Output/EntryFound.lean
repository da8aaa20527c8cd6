/-
  ModuleBuild.Proofs.Output.EntryFound
  ────────────────────────────────────
  **WHERE THE ENTRY MODULE LIES.**

  The search for the entry module returns the names that lead to it from the
  output directory, with slashes between them.  The directory has been opened
  for the search, so the names of its path are names of the tree, in the form
  in which they are listed.

  Main results:
    * `runOn_find` — what the search returns;
    * `names_of_find` — what is found lies at some names below the output directory;
    * `Leads.present` — names that lead somewhere are names of the tree.
-/
import ModuleBuild.Output.Entry
import ModuleBuild.Proofs.FileTree.Walking
import ModuleBuild.Proofs.Output.SecondRun
import ModuleBuild.Proofs.Path.NameForm
import ModuleBuild.Proofs.Path.Pieces

namespace ModuleBuild

open FileTree

namespace FileTree

variable {t : FileTree} {dir d : Location} {ns : List Text}

/-- Names that lead somewhere are names of the tree, in the form in which they are listed. -/
theorem Leads.present (h : Leads t dir ns d) :
    ∀ n ∈ ns, n ≠ Path.here → n ≠ Path.up → ∃ k, t.entryAt? k ≠ none ∧ Utf8.nameForm n ∈ k := by
  induction h with
  | nil dir => exact fun n hn => by cases hn
  | here _ ih =>
    intro n hn hhere hup
    exact ih n ((List.mem_cons.1 hn).resolve_left hhere) hhere hup
  | up _ ih =>
    intro n hn hhere hup
    exact ih n ((List.mem_cons.1 hn).resolve_left hup) hhere hup
  | @into dir d name rest _ _ he _ ih =>
    intro n hn hhere hup
    rcases List.mem_cons.1 hn with rfl | hn
    · exact ⟨dir ++ [Utf8.nameForm n], by rw [he]; exact Option.some_ne_none _, by simp⟩
    · exact ih n hn hhere hup
  | @through dir d name rest path _ _ he _ ih =>
    intro n hn hhere hup
    rcases List.mem_cons.1 hn with rfl | hn
    · exact ⟨dir ++ [Utf8.nameForm n], by rw [he]; exact Option.some_ne_none _, by simp⟩
    · exact ih n (List.mem_append_right _ hn) hhere hup

/-- So a directory whose path has a backslash lies in a tree that has a name with one. -/
theorem exists_backslash_of_openDirectory {p : Text} {l : Location} (hopen : t.openDirectory p = .ok l)
    (hnames : ∀ m ∈ Path.names p, Path.IsName m) (h : CodePoint.backslash ∈ p) :
    ∃ k, t.entryAt? k ≠ none ∧ ∃ m ∈ k, CodePoint.backslash ∈ m := by
  obtain ⟨hlocate, hdir⟩ := openDirectory_eq_ok hopen
  obtain ⟨n, hn, hbackslash⟩ := Path.exists_mem_names (by decide) h
  have hname := hnames n hn
  obtain ⟨k, hk, hmem⟩ := (leads_of_locate hlocate hdir).present n hn hname.2.1 hname.2.2
  exact ⟨k, hk, _, hmem, Utf8.mem_nameForm hbackslash (by decide)⟩

end FileTree

namespace Entry

variable {output index : Text} {ignored : NameSet} {w w' : World} {e : Text}

/-- What the search returns. -/
theorem runOn_find (output index : Text) (ignored : NameSet) (w : World) :
    ∃ events, (find output index ignored).runOn w
      = (if w.tree.namesDirectory output then
          (w.tree.walk output ignored).map fun sightings =>
            ((sightings.filterMap Sighting.listed?).find? (isEntry index)).map
              fun e => relativePath (w.tree.absolute output) e.1
        else .ok none, ⟨w.tree, events⟩) := by
  have hview : (Action.view (·.namesDirectory output)).runOn w
      = (.ok (w.tree.namesDirectory output), w) := rfl
  unfold find
  rw [Action.runOn_bind, hview]
  dsimp only
  cases w.tree.namesDirectory output with
  | false => exact ⟨_, rfl⟩
  | true =>
    obtain ⟨events, hall⟩ := Listing.runOn_all output ignored w
    rw [if_neg (by simp), if_pos rfl, Action.runOn_bind, hall]
    cases w.tree.walk output ignored with
    | error failure => exact ⟨_, rfl⟩
    | ok sightings => exact ⟨_, rfl⟩

/-- **What is found lies at some names below the output directory**, which has been opened. -/
theorem names_of_find (ht : w.tree.Proper) (h : (find output index ignored).runOn w = (.ok (some e), w')) :
    ∃ l ns, w.tree.openDirectory (w.tree.absolute output) = .ok l ∧ ns ≠ []
      ∧ w.tree.entryAt? (l ++ ns) ≠ none ∧ (∀ n ∈ ns, Path.IsName n)
      ∧ e = Path.toForwardSlashes (Path.written [] ns) := by
  obtain ⟨events, hrun⟩ := runOn_find output index ignored w
  rw [hrun] at h
  obtain ⟨hresult, -⟩ := Prod.mk.inj h
  split at hresult
  swap
  · cases hresult
  cases hwalk : w.tree.walk output ignored with
  | error failure =>
    rw [hwalk] at hresult
    cases hresult
  | ok sightings =>
    rw [hwalk] at hresult
    -- what is found is listed, so it is the start of the walk with names behind it
    have hfound := Except.ok.inj hresult
    obtain ⟨⟨p, d⟩, hfind, rfl⟩ := Option.map_eq_some_iff.1 hfound
    have hmem := List.mem_of_find?_eq_some hfind
    cases hopen : w.tree.openDirectory (w.tree.absolute output) with
    | error failure =>
      rw [listed_of_unopened hopen hwalk] at hmem
      cases hmem
    | ok l =>
      obtain ⟨sightings', hwalk', entries, hlisted, hiff, -⟩ := lists_walk ht output ignored hopen
      rw [hwalk] at hwalk'
      cases hwalk'
      rw [hlisted] at hmem
      obtain ⟨⟨ns, d'⟩, hentry, heq⟩ := List.mem_map.1 hmem
      cases heq
      have hlists := (hiff ns d').1 hentry
      have hnames : ∀ n ∈ ns, Path.IsName n := fun n hn =>
        ht.names _ hlists.shows.ne_none n (List.mem_append_right _ hn)
      refine ⟨l, ns, rfl, hlists.below, hlists.shows.ne_none, hnames, ?_⟩
      obtain ⟨root, base, hstart, hroot, -, hbase⟩ := exists_absolute_written w.tree output
      rw [hstart]
      unfold relativePath
      rw [Path.below_written hroot (isName_parts hbase) (isName_parts hnames),
        Path.relativeTo_written hroot (isName_parts hbase) (isName_parts hnames) hlists.below]
      rfl

end Entry

end ModuleBuild
