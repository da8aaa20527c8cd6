/-
  ModuleBuild.Proofs.Output.Contained
  ───────────────────────────────────
  **A LISTING STAYS BELOW ITS ROOT.**

  A walk asks of links only whether they lead out of its root, and it goes
  into real directories only.  So the real path of what it lists is the real
  path of its start, with the names that the walk went by, or what a link was
  asked for.

  The start of a walk is the absolute form of the root, made by the text
  alone, while the real path of the root is resolved link by link.  The two
  part where `..` stands behind a link: such a root is listed in another
  directory than the one that it names.

  Main results:
    * `isWithin_of_listed` — what is listed lies within the start of the walk;
    * `all_within` — and within the root, if the start does.
-/
import ModuleBuild.Proofs.FileTree.RealPlace
import ModuleBuild.Proofs.Output.Normalizing
import ModuleBuild.Proofs.Output.SecondRun

namespace ModuleBuild

namespace FileTree

variable {t : FileTree} {l : Location} {root start : Text} {ignored : NameSet} {ns : List Text} {d : Bool}

/-- **What a walk lists lies within its start**: real directories are on the way, and a link at its end
was asked. -/
theorem isWithin_of_listed (hproper : Proper t) (hgenuine : Genuine t) (hlinks : ReadableLinks t)
    (hstart : Path.Straight start) (hopen : t.openDirectory start = .ok l)
    (h : Listed t l start ignored ns d) : t.isWithin (Path.below start ns) start = .ok true := by
  obtain ⟨base, hreal⟩ := exists_realPath_opened hlinks hstart.isAbsolute hopen
  have hstartReal := hreal start [] hstart.isAbsolute (List.append_nil _).symm nofun
    fun k hk hpre => absurd (List.prefix_nil.1 hpre) hk
  have hnames : ∀ n ∈ ns, Path.IsName n ∧ Utf8.nameForm n = n ∧ Nameable n := fun n hn =>
    ⟨hproper.names _ h.shows.ne_none n (List.mem_append_right _ hn),
      hgenuine _ h.shows.ne_none n (List.mem_append_right _ hn)⟩
  -- a link at the end was asked before it was listed; nothing else needs to be
  by_cases hlink : ∃ path, t.entryAt? (l ++ ns) = some (.link path)
  · obtain ⟨path, he⟩ := hlink
    have hshows := h.shows
    unfold Shows at hshows
    rw [List.nil_append, he] at hshows
    exact hshows.1
  · -- no link is on the way, so the real path goes by the same names
    push Not at hlink
    obtain ⟨hstraight, hbelowNames⟩ := below_straight hstart fun n hn => (hnames n hn).1
    have hgiven : Path.dotless (Path.names (Path.below start ns))
        = Path.dotless (Path.names start) ++ ns := by
      rw [Path.dotless_of_isName hstraight.isName, Path.dotless_of_isName hstart.isName, hbelowNames]
    have hbelow := hreal _ ns hstraight.isAbsolute hgiven hnames fun k hk hpre path => by
      by_cases hall : k = ns
      · rw [hall]
        exact hlink path
      · have hopens := (h.opens k hk hpre hall).1
        rw [List.nil_append] at hopens
        rw [hopens]
        exact nofun
    rw [List.append_nil] at hstartReal
    exact isWithin_iff.2 ⟨_, _, hbelow, hstartReal, rfl, List.prefix_append base ns⟩

/-- A tree whose links are checked one after the other. -/
theorem readableLinks_of_linkPlaces
    (h : ∀ k ∈ t.top.linkPlaces, Utf8.byteCount (pathOf k) < pathBytesLimit
      ∧ ∀ path, t.entryAt? k = some (.link path) → Nameable path) : ReadableLinks t where
  nameable k path he := (h k (Forest.mem_linkPlaces _ he)).2 path he
  short k _ he := (h k (Forest.mem_linkPlaces _ he)).1

end FileTree

namespace Listing

/-- **What is listed lies within the start of the walk**, and so within the root if the start does. -/
theorem all_within {w : World} (hproper : w.tree.Proper) (hgenuine : w.tree.Genuine)
    (hlinks : w.tree.ReadableLinks) (root : Text) (ignored : NameSet) :
    ∃ events,
      match w.tree.openDirectory (w.tree.absolute root) with
      | .ok _ => ∃ entries, (all root ignored).runOn w = (.ok entries, ⟨w.tree, events⟩)
          ∧ ∀ e ∈ entries, w.tree.isWithin e.1 (w.tree.absolute root) = .ok true
            ∧ (w.tree.isWithin (w.tree.absolute root) root = .ok true
                ∨ Path.isAbsolute root = true ∧ Path.up ∉ Path.names root →
              w.tree.isWithin e.1 root = .ok true)
      | .error failure =>
        (all root ignored).runOn w
          = (if failure.isSystemFault then .ok [] else .error failure, ⟨w.tree, events⟩) := by
  obtain ⟨events, hrun⟩ := runOn_all root ignored w
  refine ⟨events, ?_⟩
  split
  · rename_i l hopen
    obtain ⟨sightings, hwalk, entries, hlisted, hmem, -⟩ := FileTree.lists_walk hproper root ignored hopen
    rw [hwalk] at hrun
    refine ⟨_, hrun, fun e he => ?_⟩
    replace he : e ∈ sightings.filterMap FileTree.Sighting.listed? := he
    rw [hlisted] at he
    obtain ⟨⟨ns, d⟩, hns, rfl⟩ := List.mem_map.1 he
    -- what is listed lies within the start, and the start within the root
    have hwithin := FileTree.isWithin_of_listed hproper hgenuine hlinks
      (FileTree.straight_absolute w.tree root) hopen ((hmem ns d).1 hns)
    refine ⟨hwithin, fun hroot => FileTree.isWithin_trans hwithin ?_⟩
    rcases hroot with hroot | ⟨hroot, hup⟩
    · exact hroot
    · exact FileTree.isWithin_absolute hproper hlinks hroot hup hopen
  · rename_i failure hopen
    rw [hrun, listed_of_not_opened ignored hopen]

/-- A directory with a link to another one, in which a file and a link to that file lie. -/
def climbingTree : FileTree :=
  ⟨[("d", .directory [("a.txt", .file []), ("l", .link "../e/f")]),
    ("e", .directory [("f", .directory [("b.txt", .file []), ("k", .link "./b.txt")])])], [], .closed⟩

/-- What is listed of the directory that the link leads to. -/
def climbingEntries : List (Text × Bool) := [("/d/l/b.txt", false), ("/d/l/k", false)]

/-- The file and the link to it are listed, and lie within the directory, reached through a link. -/
theorem all_within_climbingTree :
    climbingTree.Proper ∧ climbingTree.Genuine ∧ climbingTree.ReadableLinks
      ∧ ∃ events entries, (all "/d/l" .empty).runOn ⟨climbingTree, []⟩ = (.ok entries, ⟨climbingTree, events⟩)
          ∧ entries = climbingEntries
          ∧ ∀ e ∈ entries, climbingTree.isWithin e.1 "/d/l" = .ok true := by
  have hnames : climbingTree.top.allNames = (["d", "a.txt", "l", "e", "f", "b.txt", "k"] : List Text) := by
    simp [climbingTree, Forest.allNames_cons, Forest.allNames, Node.children]
  have hproper : climbingTree.Proper := by
    refine FileTree.proper_of_allNames ?_ fun m hm => by cases hm
    rw [hnames]
    decide
  have hgenuine : climbingTree.Genuine := by
    refine FileTree.genuine_of_allNames ?_
    rw [hnames]
    decide
  have hlinks : climbingTree.ReadableLinks := by
    have hplaces : climbingTree.top.linkPlaces = ([["d", "l"], ["e", "f", "k"]] : List (List Text)) := by
      simp [climbingTree, Forest.linkPlaces]
    refine FileTree.readableLinks_of_linkPlaces ?_
    rw [hplaces]
    refine List.forall_mem_cons.2 ⟨⟨by decide, fun path he => ?_⟩,
      List.forall_mem_singleton.2 ⟨by decide, fun path he => ?_⟩⟩ <;> cases he <;> decide
  have hopen : climbingTree.openDirectory (climbingTree.absolute "/d/l") = .ok ["e", "f"] := by cbv
  have hwalk : (climbingTree.walk "/d/l" .empty).map (·.filterMap FileTree.Sighting.listed?)
      = .ok climbingEntries := by cbv
  obtain ⟨events, hwithin⟩ := all_within (w := ⟨climbingTree, []⟩) hproper hgenuine hlinks "/d/l" .empty
  rw [hopen] at hwithin
  obtain ⟨entries, hrun, hall⟩ := hwithin
  obtain ⟨events', hrun'⟩ := runOn_all "/d/l" .empty ⟨climbingTree, []⟩
  rw [hwalk, hrun] at hrun'
  cases hrun'
  exact ⟨hproper, hgenuine, hlinks, events, _, hrun, rfl, fun e he => (hall e he).2 (.inr (by decide))⟩

/-- Behind a link `..` names another directory than the one that is listed. -/
theorem all_not_within :
    climbingTree.namesDirectory "/d/l/.." = true
      ∧ ∃ events entries,
          (all "/d/l/.." .empty).runOn ⟨climbingTree, []⟩ = (.ok entries, ⟨climbingTree, events⟩)
          ∧ (("/d/a.txt", false) : Text × Bool) ∈ entries
          ∧ climbingTree.isWithin "/d/a.txt" "/d/l/.." = .ok false := by
  have hroot : climbingTree.namesDirectory "/d/l/.." = true := by cbv
  have hwalk : (climbingTree.walk "/d/l/.." .empty).map (·.filterMap FileTree.Sighting.listed?)
      = .ok [("/d/a.txt", false)] := by cbv
  have hwithin : climbingTree.isWithin "/d/a.txt" "/d/l/.." = .ok false := by cbv
  obtain ⟨events, hrun⟩ := runOn_all "/d/l/.." .empty ⟨climbingTree, []⟩
  rw [hwalk] at hrun
  exact ⟨hroot, events, _, hrun, List.mem_singleton_self _, hwithin⟩

end Listing

end ModuleBuild
