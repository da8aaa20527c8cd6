/-
  ModuleBuild.Proofs.FileTree.Walking
  ───────────────────────────────────
  **WHAT A WALK LISTS.**

  A walk lists what lies below its root behind directories that are open to
  it: real ones that are not ignored.  The last one of the names may be a
  file, a directory that is not ignored, or a link that leads to something
  within the root and to no ignored directory.  The list is in the order of
  the names, so nothing is in it twice and a directory comes before what it
  contains.

  Main results:
    * `isIgnored_iff` — what the ignored set is asked about;
    * `lists_sightAll` — what is listed below a directory, by induction on what it contains;
    * `lists_walk` — what is listed below the root.
-/
import ModuleBuild.Proofs.FileTree.Naming
import ModuleBuild.Proofs.FileTree.Shape
import ModuleBuild.Proofs.Path.Normal

namespace ModuleBuild

/-! ## §1. Paths below a directory. -/

namespace Path

variable {root : Text} {ns ms : List Text}

/-- The path of what lies at some names below a directory. -/
def below (start : Text) (ns : List Text) : Text := ns.foldl join start

theorem below_written (hroot : IsRoot root) (hns : ∀ m ∈ ns, IsPart m) (hms : ∀ m ∈ ms, IsPart m) :
    below (written root ns) ms = written root (ns ++ ms) := by
  induction ms generalizing ns with
  | nil => rw [List.append_nil]; rfl
  | cons m ms ih =>
    have hm : IsPart m := hms m (List.mem_cons_self ..)
    have hns' : ∀ k ∈ ns ++ [m], IsPart k := by
      intro k hk
      rcases List.mem_append.1 hk with hk | hk
      · exact hns k hk
      · rw [List.mem_singleton.1 hk]
        exact hm
    show below (join (written root ns) m) ms = _
    rw [join_written hroot hns hm, ih hns' fun k hk => hms k (List.mem_cons_of_mem m hk),
      List.append_assoc]
    rfl

theorem commonLength_append (ns ms : List Text) : commonLength ns (ns ++ ms) = ns.length := by
  induction ns with
  | nil => cases ms <;> rfl
  | cons n ns ih =>
    show (if n = n then commonLength ns (ns ++ ms) + 1 else 0) = _
    rw [if_pos rfl, ih]
    rfl

/-- What lies below a directory is seen from there by the names below it. -/
theorem relativeTo_written (hroot : IsRoot root) (hns : ∀ m ∈ ns, IsPart m)
    (hms : ∀ m ∈ ms, IsPart m) (hne : ms ≠ []) :
    relativeTo (written root ns) (written root (ns ++ ms)) = Text.joinWith "/" ms := by
  have hall : ∀ m ∈ ns ++ ms, IsPart m := by
    intro m hm
    rcases List.mem_append.1 hm with hm | hm
    · exact hns m hm
    · exact hms m hm
  have hsteps : List.replicate (ns.length - commonLength ns (ns ++ ms)) up
      ++ (ns ++ ms).drop (commonLength ns (ns ++ ms)) = ms := by
    rw [commonLength_append, Nat.sub_self, List.drop_left]
    rfl
  unfold relativeTo
  rw [names_written hroot hns, names_written hroot hall]
  dsimp only
  rw [hsteps, if_neg hne]

end Path

namespace FileTree

/-! ## §2. What is listed. -/

/-- The ignored set names what lies at some names below a directory: by the last of them, by all of
them, or by the absolute path. -/
def Ignored (ignored : NameSet) (start : Text) (ns : List Text) : Prop :=
  ∃ form, (form = ns.getLast?.getD [] ∨ form = Path.toForwardSlashes (Text.joinWith "/" ns)
      ∨ form = Path.normalize (Path.below start ns))
    ∧ (form ∈ ignored ∨ form ∈ alwaysIgnored)

/-- A real directory that is not ignored. -/
def Opens (t : FileTree) (l : Location) (start : Text) (ignored : NameSet) (ns : List Text) : Prop :=
  t.entryAt? (l ++ ns) = some .directory ∧ ¬ Ignored ignored start ns

/-- Something that is listed where a walk comes across it, as a directory or not. -/
def Shows (t : FileTree) (l : Location) (start : Text) (ignored : NameSet) (ns : List Text)
    (isDirectory : Bool) : Prop :=
  match t.entryAt? (l ++ ns) with
  | none => False
  | some (.file _) => isDirectory = false
  | some .directory => isDirectory = true ∧ ¬ Ignored ignored start ns
  | some (.link _) =>
    t.isWithin (Path.below start ns) start = .ok true
      ∧ isDirectory = t.namesDirectory (Path.below start ns)
      ∧ (isDirectory = true → ¬ Ignored ignored start ns)

/-- What a walk lists that goes on below `above`, by the names from there. -/
structure ListedFrom (t : FileTree) (l : Location) (start : Text) (ignored : NameSet)
    (above ns : List Text) (isDirectory : Bool) : Prop where
  below : ns ≠ []
  /-- Every directory on the way is real and not ignored. -/
  opens : ∀ k, k ≠ [] → k <+: ns → k ≠ ns → Opens t l start ignored (above ++ k)
  shows : Shows t l start ignored (above ++ ns) isDirectory

/-- What a walk lists below its root, by the names from there. -/
def Listed (t : FileTree) (l : Location) (start : Text) (ignored : NameSet) (ns : List Text)
    (isDirectory : Bool) : Prop :=
  ListedFrom t l start ignored [] ns isDirectory

variable {t : FileTree} {l : Location} {start root : Text} {ignored : NameSet}
  {above base ns rest : List Text} {name : Text} {d : Bool}

/-- One name lists what lies there. -/
theorem listedFrom_singleton :
    ListedFrom t l start ignored above [name] d ↔ Shows t l start ignored (above ++ [name]) d := by
  constructor
  · exact fun h => h.shows
  · refine fun h => ⟨List.cons_ne_nil _ _, ?_, h⟩
    intro k hk hpre hne
    rcases List.prefix_cons_iff.1 hpre with rfl | ⟨k', rfl, hpre'⟩
    · exact absurd rfl hk
    · rw [List.prefix_nil.1 hpre'] at hne
      exact absurd rfl hne

/-- Several names list what the others do from the first on, if it opens. -/
theorem listedFrom_cons (hrest : rest ≠ []) :
    ListedFrom t l start ignored above (name :: rest) d
      ↔ Opens t l start ignored (above ++ [name])
        ∧ ListedFrom t l start ignored (above ++ [name]) rest d := by
  constructor
  · intro h
    refine ⟨h.opens [name] (List.cons_ne_nil _ _) ⟨rest, rfl⟩ (by simpa using Ne.symm hrest),
      hrest, ?_, ?_⟩
    · intro k _ hpre hne
      rw [List.append_assoc]
      exact h.opens (name :: k) (List.cons_ne_nil _ _) (List.cons_prefix_cons.2 ⟨rfl, hpre⟩)
        fun e => hne (List.cons.inj e).2
    · rw [List.append_assoc]
      exact h.shows
  · rintro ⟨hopen, h⟩
    refine ⟨List.cons_ne_nil _ _, ?_, ?_⟩
    · intro k hk hpre hne
      rcases List.prefix_cons_iff.1 hpre with rfl | ⟨k', rfl, hpre'⟩
      · exact absurd rfl hk
      · by_cases hk' : k' = []
        · rw [hk']
          exact hopen
        · have hopen' := h.opens k' hk' hpre' fun e => hne (by rw [e])
          rw [List.append_assoc] at hopen'
          exact hopen'
    · have hshows := h.shows
      rw [List.append_assoc] at hshows
      exact hshows

/-- Below a name that is no directory nothing is listed. -/
theorem listedFrom_of_not_directory
    (h : t.entryAt? (l ++ (above ++ [name])) ≠ some .directory) :
    ((∃ rest, ns = name :: rest) ∧ ListedFrom t l start ignored above ns d)
      ↔ ns = [name] ∧ Shows t l start ignored (above ++ [name]) d := by
  constructor
  · rintro ⟨⟨rest, rfl⟩, hlisted⟩
    by_cases hrest : rest = []
    · subst hrest
      exact ⟨rfl, listedFrom_singleton.1 hlisted⟩
    · exact absurd ((listedFrom_cons hrest).1 hlisted).1.1 h
  · rintro ⟨rfl, hshows⟩
    exact ⟨⟨[], rfl⟩, listedFrom_singleton.2 hshows⟩

/-- Neither an ignored directory is listed nor anything below it. -/
theorem not_listedFrom_of_ignored (h : t.entryAt? (l ++ (above ++ [name])) = some .directory)
    (hignored : Ignored ignored start (above ++ [name])) :
    ¬ ListedFrom t l start ignored above (name :: rest) d := by
  intro hlisted
  by_cases hrest : rest = []
  · subst hrest
    have hshows := listedFrom_singleton.1 hlisted
    unfold Shows at hshows
    rw [h] at hshows
    exact hshows.2 hignored
  · exact ((listedFrom_cons hrest).1 hlisted).1.2 hignored

/-- A directory that opens is listed, and what is listed below it. -/
theorem listedFrom_of_opens (h : Opens t l start ignored (above ++ [name])) :
    ((∃ rest, ns = name :: rest) ∧ ListedFrom t l start ignored above ns d)
      ↔ ns = [name] ∧ d = true
        ∨ ∃ rest, ns = name :: rest ∧ ListedFrom t l start ignored (above ++ [name]) rest d := by
  have hshows : Shows t l start ignored (above ++ [name]) d ↔ d = true := by
    unfold Shows
    rw [h.1]
    exact and_iff_left h.2
  constructor
  · rintro ⟨⟨rest, rfl⟩, hlisted⟩
    by_cases hrest : rest = []
    · subst hrest
      exact .inl ⟨rfl, hshows.1 (listedFrom_singleton.1 hlisted)⟩
    · exact .inr ⟨rest, rfl, ((listedFrom_cons hrest).1 hlisted).2⟩
  · rintro (⟨rfl, hd⟩ | ⟨rest, rfl, hlisted⟩)
    · exact ⟨⟨[], rfl⟩, listedFrom_singleton.2 (hshows.2 hd)⟩
    · exact ⟨⟨rest, rfl⟩, (listedFrom_cons hlisted.below).2 ⟨h, hlisted⟩⟩

/-- What is listed at all lies somewhere. -/
theorem Shows.ne_none (h : Shows t l start ignored ns d) : t.entryAt? (l ++ ns) ≠ none := by
  intro hnone
  unfold Shows at h
  rw [hnone] at h
  exact h

/-- What the ignored set is asked about, for a path below the root of the walk. -/
theorem isIgnored_iff (ignored : NameSet) (hroot : Path.IsRoot root)
    (hbase : ∀ m ∈ base, Path.IsPart m) (hns : ∀ m ∈ ns ++ [name], Path.IsPart m) :
    isIgnored (ignored.insertMany alwaysIgnored) name
        (relativePath (Path.written root base) (Path.written root (base ++ (ns ++ [name]))))
        (some (Path.written root (base ++ (ns ++ [name])))) = true
      ↔ Ignored ignored (Path.written root base) (ns ++ [name]) := by
  have hne : ns ++ [name] ≠ [] := by simp
  unfold relativePath Ignored
  rw [Path.relativeTo_written hroot hbase hns hne, Path.below_written hroot hbase hns,
    List.getLast?_concat]
  unfold isIgnored
  simp only [Bool.or_eq_true, NameSet.contains_iff, NameSet.mem_insertMany, Option.getD_some]
  constructor
  · rintro ((h | h) | h)
    · exact ⟨_, .inl rfl, h.symm⟩
    · exact ⟨_, .inr (.inl rfl), h.symm⟩
    · exact ⟨_, .inr (.inr rfl), h.symm⟩
  · rintro ⟨form, rfl | rfl | rfl, h⟩
    · exact .inl (.inl h.symm)
    · exact .inl (.inr h.symm)
    · exact .inr h.symm

/-! ## §3. Lists in order. -/

/-- What is listed of some sightings is in order, and is what `P` says. -/
def Lists (path : List Text → Text) (P : List Text → Bool → Prop) (ss : List Sighting) : Prop :=
  ∃ entries : List (List Text × Bool),
    ss.filterMap Sighting.listed? = entries.map (fun e => (path e.1, e.2))
      ∧ (∀ ns d, (ns, d) ∈ entries ↔ P ns d)
      ∧ (entries.map (·.1)).Pairwise (· < ·)

variable {path : List Text → Text} {P Q : List Text → Bool → Prop} {ss : List Sighting}

theorem Lists.congr (h : Lists path P ss) (hPQ : ∀ ns d, P ns d ↔ Q ns d) : Lists path Q ss := by
  obtain ⟨entries, hss, hmem, horder⟩ := h
  exact ⟨entries, hss, fun ns d => (hmem ns d).trans (hPQ ns d), horder⟩

theorem Lists.congr_path {path' : List Text → Text} (h : Lists path P ss)
    (hpath : ∀ ns d, P ns d → path ns = path' ns) : Lists path' P ss := by
  obtain ⟨entries, hss, hmem, horder⟩ := h
  refine ⟨entries, ?_, hmem, horder⟩
  rw [hss]
  refine List.map_congr_left fun e he => ?_
  rw [hpath e.1 e.2 ((hmem e.1 e.2).1 he)]

/-- Nothing is listed. -/
theorem lists_none (hss : ss.filterMap Sighting.listed? = []) (hP : ∀ ns d, ¬ P ns d) :
    Lists path P ss :=
  ⟨[], hss, fun ns d => ⟨(nomatch ·), fun h => absurd h (hP ns d)⟩, .nil⟩

/-- One thing is listed. -/
theorem lists_one {b : Bool} (hP : ∀ ms d, P ms d ↔ ms = ns ∧ d = b) :
    Lists path P [.listed (path ns) b] := by
  refine ⟨[(ns, b)], rfl, fun ms d => ?_, List.pairwise_singleton _ _⟩
  rw [List.mem_singleton, Prod.mk.injEq]
  exact (hP ms d).symm

/-- A directory is listed, and behind it what it contains. -/
theorem lists_directory (h : Lists (fun ns => path (name :: ns)) Q ss) (hQ : ∀ d, ¬ Q [] d) :
    Lists path (fun ns d => ns = [name] ∧ d = true ∨ ∃ rest, ns = name :: rest ∧ Q rest d)
      (.listed (path [name]) true :: ss) := by
  obtain ⟨entries, hss, hmem, horder⟩ := h
  -- the name stands before each of the names below it
  refine ⟨([name], true) :: entries.map (fun e => (name :: e.1, e.2)), ?_, ?_, ?_⟩
  · show (path [name], true) :: ss.filterMap Sighting.listed? = _
    rw [hss, List.map_cons, List.map_map]
    rfl
  · intro ns d
    rw [List.mem_cons, Prod.mk.injEq, List.mem_map]
    refine or_congr Iff.rfl ?_
    constructor
    · rintro ⟨⟨rest, d'⟩, he, heq⟩
      cases heq
      exact ⟨rest, rfl, (hmem rest d').1 he⟩
    · rintro ⟨rest, rfl, hrest⟩
      exact ⟨(rest, d), (hmem rest d).2 hrest, rfl⟩
  · rw [List.map_cons, List.map_map, List.pairwise_cons]
    constructor
    · intro ns hns
      obtain ⟨⟨rest, d⟩, he, rfl⟩ := List.mem_map.1 hns
      -- the directory comes first: its names are the front of all others
      show [name] < name :: rest
      cases rest with
      | nil => exact absurd ((hmem [] d).1 he) (hQ d)
      | cons m rest => exact List.cons_lt_cons_iff.2 (.inr ⟨rfl, List.nil_lt_cons m rest⟩)
    · have hcons : (entries.map ((·.1) ∘ fun e => (name :: e.1, e.2)))
          = (entries.map (·.1)).map (name :: ·) := by
        rw [List.map_map]
        rfl
      rw [hcons, List.pairwise_map]
      exact horder.imp fun h => List.cons_lt_cons_iff.2 (.inr ⟨rfl, h⟩)

/-- One name after another: each lists what starts with it. -/
theorem lists_flatMap {sight : Text → List Sighting} {names : List Text}
    (hnames : names.Pairwise (· < ·))
    (h : ∀ name ∈ names, Lists path (fun ns d => (∃ rest, ns = name :: rest) ∧ P ns d) (sight name)) :
    Lists path (fun ns d => (∃ name ∈ names, ∃ rest, ns = name :: rest) ∧ P ns d)
      (names.flatMap sight) := by
  induction names with
  | nil =>
    refine lists_none rfl ?_
    rintro ns d ⟨⟨name, hname, -⟩, -⟩
    cases hname
  | cons name names ih =>
    obtain ⟨hlt, hnames⟩ := List.pairwise_cons.1 hnames
    obtain ⟨first, hfirst, hmem, horder⟩ := h name (List.mem_cons_self ..)
    obtain ⟨others, hothers, hmem', horder'⟩ := ih hnames fun m hm => h m (List.mem_cons_of_mem name hm)
    refine ⟨first ++ others, ?_, ?_, ?_⟩
    · rw [List.flatMap_cons, List.filterMap_append, hfirst, hothers, List.map_append]
    · intro ns d
      rw [List.mem_append, hmem, hmem', ← or_and_right]
      refine and_congr_left fun _ => ?_
      simp only [List.mem_cons, or_and_right, exists_or, exists_eq_left]
    · rw [List.map_append, List.pairwise_append]
      refine ⟨horder, horder', ?_⟩
      intro ns hns ns' hns'
      obtain ⟨⟨ms, d⟩, he, rfl⟩ := List.mem_map.1 hns
      obtain ⟨⟨ms', d'⟩, he', rfl⟩ := List.mem_map.1 hns'
      obtain ⟨⟨rest, rfl⟩, -⟩ := (hmem ms d).1 he
      obtain ⟨⟨name', hname', rest', rfl⟩, -⟩ := (hmem' ms' d').1 he'
      exact List.cons_lt_cons_iff.2 (.inl (hlt name' hname'))

/-! ## §4. The walk. -/

/-- What lies under a name of a directory. -/
theorem entryAt?_of_nodeAt? {cs : Forest} (hcs : t.nodeAt? l = some (.directory cs)) (name : Text) :
    t.entryAt? (l ++ [name]) = (cs.lookup name).map Node.entry := by
  have happend := Forest.entryAt?_append [name] hcs
  rw [Forest.entryAt?_singleton] at happend
  exact happend

/-- The first name of what is listed below a directory is one of the directory's. -/
theorem exists_name_of_listedFrom {cs : Forest} (hcs : t.nodeAt? (l ++ above) = some (.directory cs))
    (h : ListedFrom t l start ignored above ns d) :
    ∃ name ∈ NameSet.ofList (cs.map (·.1)), ∃ rest, ns = name :: rest := by
  cases ns with
  | nil => exact absurd rfl h.below
  | cons name rest =>
    have hsome : t.entryAt? (l ++ above ++ [name]) ≠ none := by
      rw [List.append_assoc]
      by_cases hrest : rest = []
      · subst hrest
        exact h.shows.ne_none
      · rw [((listedFrom_cons hrest).1 h).1.1]
        simp
    rw [entryAt?_of_nodeAt? hcs] at hsome
    have hlookup : cs.lookup name ≠ none := fun e => hsome (by rw [e]; rfl)
    exact ⟨name, NameSet.mem_ofList.2 (Forest.mem_names_iff.2 hlookup), rest, rfl⟩

/-- What is listed of a link: nothing, or the link as what it leads to. -/
theorem lists_sightLink (path : List Text → Text) (rest : List Text) {target p : Text} {names : NameSet}
    (hlink : t.entryAt? (l ++ ns) = some (.link target)) (hp : Path.below start ns = p)
    (hignored : isIgnored names name (relativePath start p) (some p) = true
      ↔ Ignored ignored start ns) (hpath : path rest = p) :
    Lists path (fun ms d => ms = rest ∧ Shows t l start ignored ns d)
      (sightLink t start names name p) := by
  have hshows : ∀ d, Shows t l start ignored ns d ↔ t.isWithin p start = .ok true
      ∧ d = t.namesDirectory p ∧ (d = true → ¬ Ignored ignored start ns) := by
    intro d
    unfold Shows
    rw [hlink, hp]
  unfold sightLink
  split
  · rename_i hwithin
    -- only a link to a directory may be ignored by its name
    by_cases hdirectory : t.namesDirectory p = true
    · rw [if_pos hdirectory]
      split
      · rename_i hign
        refine lists_none rfl ?_
        rintro ms d ⟨-, h⟩
        obtain ⟨-, hd, hnot⟩ := (hshows d).1 h
        exact hnot (hd.trans hdirectory) (hignored.1 hign)
      · rename_i hign
        rw [← hpath]
        refine lists_one fun ms d => and_congr_right fun _ => ?_
        rw [hshows, hdirectory]
        exact ⟨fun h => h.2.1, fun h => ⟨hwithin, h, fun _ hi => hign (hignored.2 hi)⟩⟩
    · rw [Bool.not_eq_true] at hdirectory
      rw [hdirectory, if_neg Bool.false_ne_true, ← hpath]
      refine lists_one fun ms d => and_congr_right fun _ => ?_
      rw [hshows, hdirectory]
      refine ⟨fun h => h.2.1, fun h => ⟨hwithin, h, ?_⟩⟩
      rintro rfl
      cases h
  · rename_i hwithin
    refine lists_none rfl ?_
    rintro ms d ⟨-, h⟩
    exact hwithin ((hshows d).1 h).1

/-- Under a name of a directory stands what the directory holds under it, and its path is written with
one name more. -/
theorem join_written_name (ht : t.Proper) (hroot : Path.IsRoot root) (hbase : ∀ m ∈ base, Path.IsPart m)
    (hsome : t.entryAt? (l ++ (above ++ [name])) ≠ none) :
    (∀ m ∈ above ++ [name], Path.IsPart m)
      ∧ Path.join (Path.written root (base ++ above)) name
          = Path.written root (base ++ (above ++ [name])) := by
  have hnew : ∀ m ∈ above ++ [name], Path.IsPart m :=
    fun m hm => (ht.names _ hsome m (List.mem_append_right _ hm)).1
  have hparts : ∀ m ∈ base ++ above, Path.IsPart m :=
    List.forall_mem_append.2 ⟨hbase, fun m hm => hnew m (List.mem_append_left _ hm)⟩
  exact ⟨hnew, by rw [Path.join_written hroot hparts (hnew name (by simp)), List.append_assoc]⟩

/-- **What is listed below a directory.**  By induction on what it contains: under each name stands a
file, a link, or a directory that is ignored or walked in turn. -/
theorem lists_sightAll (ht : t.Proper) (ignored : NameSet) (hroot : Path.IsRoot root)
    (hbase : ∀ m ∈ base, Path.IsPart m) (above : List Text) {cs : Forest}
    (hcs : t.nodeAt? (l ++ above) = some (.directory cs)) :
    Lists (fun ns => Path.written root (base ++ (above ++ ns)))
      (ListedFrom t l (Path.written root base) ignored above)
      (sightAll t (Path.written root base) (ignored.insertMany alwaysIgnored)
        (Path.written root (base ++ above)) cs) := by
  rw [sightAll]
  refine Lists.congr (lists_flatMap (NameSet.ascending _) ?_) fun ns d =>
    ⟨And.right, fun h => ⟨exists_name_of_listedFrom hcs h, h⟩⟩
  intro name hname
  have hlookup := Forest.mem_names_iff.1 (NameSet.mem_ofList.1 (NameSet.mem_def.2 hname))
  have hentry := entryAt?_of_nodeAt? hcs name
  rw [List.append_assoc] at hentry
  obtain ⟨hnew, hjoin⟩ := join_written_name ht hroot hbase
    (show t.entryAt? (l ++ (above ++ [name])) ≠ none by rw [hentry]; simpa using hlookup)
  have hbelow := Path.below_written hroot hbase hnew
  have hignored := isIgnored_iff ignored hroot hbase hnew
  have hleaf : ∀ {e : Entry}, t.entryAt? (l ++ (above ++ [name])) = some e → e ≠ .directory →
      t.entryAt? (l ++ (above ++ [name])) ≠ some .directory := by
    rintro e he hne hdir
    exact hne (Option.some.inj (he.symm.trans hdir))
  dsimp only
  rw [hjoin]
  split
  · rename_i hnone
    exact absurd hnone hlookup
  · rename_i content hfile
    rw [hfile] at hentry
    refine lists_one fun ns d => ?_
    rw [listedFrom_of_not_directory (hleaf hentry nofun)]
    unfold Shows
    rw [hentry]
    exact Iff.rfl
  · rename_i target hlink
    rw [hlink] at hentry
    let path : List Text → Text := fun ns => Path.written root (base ++ (above ++ ns))
    exact (lists_sightLink path [name] hentry hbelow hignored rfl).congr fun ns d =>
      (listedFrom_of_not_directory (hleaf hentry nofun)).symm
  · rename_i ds hds
    rw [hds] at hentry
    split
    · rename_i hign
      refine lists_none rfl ?_
      rintro ns d ⟨⟨rest, rfl⟩, h⟩
      exact not_listedFrom_of_ignored hentry (hignored.1 hign) h
    · -- the directory is walked in turn
      rename_i hign
      have hopens : Opens t l (Path.written root base) ignored (above ++ [name]) :=
        ⟨hentry, fun h => hign (hignored.2 h)⟩
      have hnode : t.nodeAt? (l ++ (above ++ [name])) = some (.directory ds) := by
        rw [← List.append_assoc]
        refine (Forest.nodeAt?_append [name] hcs).trans ?_
        rw [Forest.nodeAt?_cons, hds]
        rfl
      have hlt := sizeOf_lt_of_lookup hds
      have hsmaller : sizeOf ds < sizeOf cs := by
        simp only [Node.directory.sizeOf_spec] at hlt
        omega
      have hbelow := lists_sightAll ht ignored hroot hbase (above ++ [name]) hnode
      simp only [List.append_assoc, List.singleton_append] at hbelow
      exact (lists_directory hbelow fun d h => h.below rfl).congr fun ns d =>
        (listedFrom_of_opens hopens).symm
  termination_by sizeOf cs

/-- What is listed has names. -/
theorem Listed.isPart (ht : t.Proper) (h : Listed t l start ignored ns d) : ∀ m ∈ ns, Path.IsPart m :=
  fun m hm => (ht.names _ h.shows.ne_none m (List.mem_append_right _ hm)).1

/-- **What is listed below the root of a walk**, when it can be opened. -/
theorem lists_walk (ht : t.Proper) (root : Text) (ignored : NameSet)
    (h : t.openDirectory (t.absolute root) = .ok l) :
    ∃ sightings, t.walk root ignored = .ok sightings ∧
      Lists (Path.below (t.absolute root)) (Listed t l (t.absolute root) ignored) sightings := by
  obtain ⟨front, base, hstart, hroot, -, hbase⟩ := exists_absolute_written t root
  obtain ⟨cs, hcs⟩ := Forest.exists_of_entryAt?_directory (entryAt?_of_openDirectory h)
  have hnode : t.nodeAt? (l ++ []) = some (.directory cs) := by
    rw [List.append_nil]
    exact hcs
  have hlists := lists_sightAll ht ignored hroot (isName_parts hbase) [] hnode
  rw [List.append_nil, ← hstart] at hlists
  have hwalk : t.walk root ignored = .ok (sightAll t (t.absolute root)
      (ignored.insertMany alwaysIgnored) (t.absolute root) cs) := by
    unfold walk
    dsimp only
    rw [h]
    show Except.ok (sightAll t _ _ _ ((t.top.nodeAt? l).map Node.children |>.getD [])) = _
    rw [show t.top.nodeAt? l = some (.directory cs) from hcs]
    rfl
  refine ⟨_, hwalk, hlists.congr_path fun ns d hns => ?_⟩
  have hparts := Listed.isPart ht hns
  rw [hstart, Path.below_written hroot (isName_parts hbase) hparts]
  rfl

/-- Nothing is listed below a root that does not open. -/
theorem listed_of_unopened {sightings : List Sighting} {failure : Failure}
    (hopen : t.openDirectory (t.absolute root) = .error failure)
    (h : t.walk root ignored = .ok sightings) : sightings.filterMap Sighting.listed? = [] := by
  unfold walk at h
  dsimp only at h
  rw [hopen] at h
  dsimp only at h
  split at h
  · cases h
    rfl
  · cases h

/-- A walk that does not fail lists nothing, or its root opens. -/
theorem lists_of_walk (ht : t.Proper) {sightings : List Sighting}
    (h : t.walk root ignored = .ok sightings) :
    sightings.filterMap Sighting.listed? = []
      ∨ ∃ l, Lists (Path.below (t.absolute root)) (Listed t l (t.absolute root) ignored) sightings := by
  cases hopen : t.openDirectory (t.absolute root) with
  | ok l =>
    obtain ⟨sightings', hwalk, hlists⟩ := lists_walk ht root ignored hopen
    rw [h] at hwalk
    cases hwalk
    exact .inr ⟨l, hlists⟩
  | error failure => exact .inl (listed_of_unopened hopen h)

end FileTree

end ModuleBuild
