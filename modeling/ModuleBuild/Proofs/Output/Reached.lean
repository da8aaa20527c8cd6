/-
  ModuleBuild.Proofs.Output.Reached
  ─────────────────────────────────
  **THE FILES THAT A WALK COMES TO.**

  Where there are no links a walk lists a file if no directory on the way to it
  is ignored.  That is a matter of names: the tree says whether there is a
  file, and the ignored set whether the walk comes there.  So two trees with
  files at the same places, as far as the walk comes, have the same files
  listed, in the same order; directories that hold none do not matter.

  Main results:
    * `listed_file_iff` — the files that are listed;
    * `walk_opened`, `walk_files` — the paths of the listed files with some endings;
    * `walk_files_congr` — they are the same in two trees.
-/
import Mathlib.Data.List.Sort
import ModuleBuild.Proofs.FileTree.Straight
import ModuleBuild.Proofs.FileTree.Walking
import ModuleBuild.Proofs.Output.SecondRun

namespace ModuleBuild

open FileTree

namespace FileTree

variable {t u : FileTree} {l : Location} {start : Text} {ignored : NameSet} {ns : List Text}

/-- A walk comes to what lies at some names: no directory on the way is ignored. -/
structure Reached (ignored : NameSet) (start : Text) (ns : List Text) : Prop where
  below : ns ≠ []
  way : ∀ k, k ≠ [] → k <+: ns → k ≠ ns → ¬ Ignored ignored start k

/-- A location at which a file lies. -/
def HasFile (t : FileTree) (l : Location) : Prop := ∃ content, t.entryAt? l = some (.file content)

/-- **The files that are listed** below a directory without links. -/
theorem listed_file_iff (hfree : LinkFreeAt t l) :
    Listed t l start ignored ns false ↔ Reached ignored start ns ∧ HasFile t (l ++ ns) := by
  constructor
  · intro h
    refine ⟨⟨h.below, fun k hk hpre hne => (h.opens k hk hpre hne).2⟩, ?_⟩
    have hshows := h.shows
    rw [List.nil_append] at hshows
    unfold Shows at hshows
    cases he : t.entryAt? (l ++ ns) with
    | none => simp only [he] at hshows
    | some e =>
      cases e with
      | file content => exact ⟨content, he⟩
      | directory =>
        simp only [he] at hshows
        cases hshows.1
      | link path => exact absurd he (hfree _ path (List.prefix_append l ns))
  · rintro ⟨⟨hbelow, hway⟩, content, he⟩
    refine ⟨hbelow, fun k hk hpre hne => ⟨?_, hway k hk hpre hne⟩, ?_⟩
    · rw [List.nil_append]
      exact isDirectory_of_below (by rw [he]; simp) ((List.prefix_append_right_inj l).2 hpre)
        fun e => hne (List.append_cancel_left e)
    · unfold Shows
      simp only [List.nil_append, he]

end FileTree

namespace Listing

variable {t u : FileTree} {l : Location} {root start : Text} {ignored : NameSet}
  {endings excluded : List Text}

/-- A path whose name has one of some endings and none of others. -/
def Picked (endings excluded : List Text) (p : Text) : Prop :=
  hasEnding endings (Path.baseName p) = true ∧ hasEnding excluded (Path.baseName p) = false

/-- **The paths of the listed files** below a directory that opens, in the order of their names. -/
theorem walk_opened (ht : Proper t) (hopen : t.openDirectory (t.absolute root) = .ok l)
    (hfree : LinkFreeAt t l) (ignored : NameSet) (endings excluded : List Text) :
    ∃ nss : List (List Text),
      (t.walk root ignored).map (paths endings excluded) = .ok (nss.map (Path.below (t.absolute root)))
        ∧ nss.Pairwise (· < ·)
        ∧ ∀ ns, ns ∈ nss ↔ Reached ignored (t.absolute root) ns ∧ HasFile t (l ++ ns)
            ∧ Picked endings excluded (Path.below (t.absolute root) ns) := by
  obtain ⟨sightings, hwalk, entries, hlisted, hmem, hsorted⟩ := lists_walk ht root ignored hopen
  refine ⟨(entries.filter fun e => !e.2
    && hasEnding endings (Path.baseName (Path.below (t.absolute root) e.1))
    && !hasEnding excluded (Path.baseName (Path.below (t.absolute root) e.1))).map (·.1), ?_, ?_, ?_⟩
  · rw [hwalk]
    show Except.ok (paths endings excluded sightings) = _
    unfold paths
    rw [hlisted, List.filter_map, List.map_map, List.map_map]
    rfl
  · exact (hsorted.sublist (List.filter_sublist.map _))
  · intro ns
    rw [List.mem_map]
    constructor
    · rintro ⟨⟨ms, d⟩, he, rfl⟩
      rw [List.mem_filter, Bool.and_eq_true, Bool.and_eq_true, Bool.not_eq_true',
        Bool.not_eq_true'] at he
      obtain ⟨hin, ⟨rfl, hending⟩, hexcluded⟩ := he
      obtain ⟨hreached, hfile⟩ := (listed_file_iff hfree).1 ((hmem ms false).1 hin)
      exact ⟨hreached, hfile, hending, hexcluded⟩
    · rintro ⟨hreached, hfile, hending, hexcluded⟩
      refine ⟨(ns, false), List.mem_filter.2 ⟨(hmem ns false).2 ?_, ?_⟩, rfl⟩
      · exact (listed_file_iff hfree).2 ⟨hreached, hfile⟩
      · simp [hending, hexcluded]

/-- In a tree without links a walk begins where the system takes the path of a directory; where it does
not, nothing is listed. -/
theorem walk_files (ht : Proper t) (hfree : LinkFree t) (hstart : Path.Straight start)
    (hcheck : checkPath start = .ok ()) (ignored : NameSet) (endings excluded : List Text) :
    ∃ nss : List (List Text),
      (t.walk start ignored).map (paths endings excluded) = .ok (nss.map (Path.below start))
        ∧ nss.Pairwise (· < ·)
        ∧ ∀ ns, ns ∈ nss ↔ Fits start ∧ Reached ignored start ns ∧ HasFile t (placeOf start ++ ns)
            ∧ Picked endings excluded (Path.below start ns) := by
  by_cases hopen : Fits start ∧ t.entryAt? (placeOf start) = some .directory
  · obtain ⟨hfits, hdir⟩ := hopen
    have hopened : t.openDirectory (t.absolute start) = .ok (placeOf start) := by
      rw [absolute_straight t hstart]
      exact (openDirectory_eq_ok_iff hfree hstart).2 ⟨hfits, rfl, hdir⟩
    obtain ⟨nss, hwalk, hsorted, hmem⟩ :=
      walk_opened ht hopened (hfree.at _) ignored endings excluded
    rw [absolute_straight t hstart] at hwalk hmem
    exact ⟨nss, hwalk, hsorted, fun ns => (hmem ns).trans (and_iff_right hfits).symm⟩
  · refine ⟨[], ?_, List.Pairwise.nil, fun ns => ⟨fun h => absurd h List.not_mem_nil, ?_⟩⟩
    · obtain ⟨failure, hno, hsystem⟩ := openDirectory_refused hfree hstart hcheck hopen
      unfold FileTree.walk
      dsimp only
      rw [absolute_straight t hstart, hno]
      dsimp only
      rw [if_pos hsystem]
      rfl
    · rintro ⟨hfits, hreached, ⟨content, hfile⟩, -⟩
      refine absurd ⟨hfits, ?_⟩ hopen
      exact isDirectory_of_below (by rw [hfile]; simp) (List.prefix_append _ ns)
        fun e => hreached.below (List.append_cancel_left (e.symm.trans (List.append_nil _).symm))

/-- What is listed is a file that the walk comes to. -/
theorem exists_of_mem_walk_files (ht : Proper t) (hfree : LinkFree t) (hstart : Path.Straight start)
    {ps : List Text} (h : (t.walk start ignored).map (paths endings excluded) = .ok ps) {p : Text}
    (hp : p ∈ ps) :
    ∃ ns, p = Path.below start ns ∧ Reached ignored start ns ∧ HasFile t (placeOf start ++ ns)
      ∧ Picked endings excluded (Path.below start ns) := by
  cases hcheck : checkPath start with
  | ok x =>
    obtain ⟨nss, hnss, -, hmem⟩ := walk_files ht hfree hstart hcheck ignored endings excluded
    rw [hnss] at h
    cases h
    obtain ⟨ns, hns, rfl⟩ := List.mem_map.1 hp
    exact ⟨ns, rfl, ((hmem ns).1 hns).2⟩
  | error failure =>
    -- without a directory nothing is listed
    have hno : t.openDirectory start = .error failure := by
      unfold openDirectory locate
      rw [hcheck]
      rfl
    unfold FileTree.walk at h
    dsimp only at h
    rw [absolute_straight t hstart, hno] at h
    dsimp only at h
    split at h
    · cases h
      cases hp
    · cases h

/-- **Two trees with files at the same places**, as far as the walk comes, have the same files listed. -/
theorem walk_files_congr (ht : Proper t) (hu : Proper u) (htfree : LinkFree t) (hufree : LinkFree u)
    (hstart : Path.Straight start)
    (h : ∀ ns, Reached ignored start ns → Picked endings excluded (Path.below start ns) →
      (HasFile t (placeOf start ++ ns) ↔ HasFile u (placeOf start ++ ns))) :
    (t.walk start ignored).map (paths endings excluded)
      = (u.walk start ignored).map (paths endings excluded) := by
  cases hcheck : checkPath start with
  | ok x =>
    obtain ⟨nss, hnss, hsorted, hmem⟩ := walk_files ht htfree hstart hcheck ignored endings excluded
    obtain ⟨nss', hnss', hsorted', hmem'⟩ := walk_files hu hufree hstart hcheck ignored endings excluded
    have hsame : nss = nss' := by
      refine hsorted.eq_of_mem_iff hsorted' fun ns => ?_
      rw [hmem, hmem']
      constructor
      · rintro ⟨hfits, hreached, hfile, hpicked⟩
        exact ⟨hfits, hreached, (h ns hreached hpicked).1 hfile, hpicked⟩
      · rintro ⟨hfits, hreached, hfile, hpicked⟩
        exact ⟨hfits, hreached, (h ns hreached hpicked).2 hfile, hpicked⟩
    rw [hnss, hnss', hsame]
  | error failure =>
    have hno : ∀ v : FileTree, v.openDirectory start = .error failure := by
      intro v
      unfold openDirectory locate
      rw [hcheck]
      rfl
    unfold FileTree.walk
    dsimp only
    rw [absolute_straight t hstart, absolute_straight u hstart, hno, hno]

end Listing

end ModuleBuild
