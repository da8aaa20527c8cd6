/-
  ModuleBuild.Proofs.FileTree.Keeping
  ───────────────────────────────────
  **WAYS THAT KEEP TO SOME GROUNDS.**

  Some grounds are a part of a tree and the places around it that ways to it
  pass.  Names keep to the grounds if every place on their way is one of
  them, by the names alone; and where a link is on the way, which is in the
  part itself, only names of things follow.  The grounds are fenced if the
  links in the part keep to them and end in the part.

  Then nothing that is done by such names leads out of the grounds: two trees
  that agree on them look the same, whatever lies elsewhere, and go on
  agreeing when one place is changed in both.

  Main results:
    * `follow_kept` — names that keep to fenced grounds are followed alike;
    * `seenAlike_kept`, `lastLocation_kept`, `namesAt_kept` — so paths name the same in both trees;
    * `Agreeing.put`, `Agreeing.remove` — the trees go on agreeing when one place is changed.
-/
import ModuleBuild.Proofs.FileTree.Mirroring

namespace ModuleBuild

namespace Forest

/-- A change of what no directory holds changes nothing. -/
theorem entryAt?_alter_of_no_directory (f : Option Node → Option Node) (n : Text) :
    ∀ {d : List Text} {name : Text} {cs : Forest}, cs.entryAt? (name :: d) ≠ some .directory →
      ∀ k, (alter f name (d ++ [n]) cs).entryAt? k = cs.entryAt? k := by
  intro d
  induction d with
  | nil =>
    intro name cs hd k
    rw [List.nil_append, alter]
    split
    · rename_i ds hds
      exact absurd (by simp [entryAt?, nodeAt?_cons, hds, Node.entry]) hd
    · rfl
  | cons next d ih =>
    intro name cs hd k
    rw [List.cons_append, alter]
    split
    · rename_i ds hds
      have hd' : entryAt? ds (next :: d) ≠ some .directory := by
        intro hdir
        exact hd (by simpa [entryAt?, nodeAt?_cons, hds, Node.children] using hdir)
      cases k with
      | nil => rfl
      | cons m k =>
        -- only places below the name that is changed are concerned
        by_cases hm : m = name
        · subst hm
          have hk := ih hd' k
          by_cases hnil : k = []
          · simp [entryAt?, nodeAt?_cons, hds, hnil, Node.entry]
          · simpa [entryAt?, nodeAt?_cons, hds, hnil, Node.children] using hk
        · simp [entryAt?, nodeAt?_cons, lookup_assign_of_ne hm]
    · rfl

end Forest

namespace FileTree

/-! ## §1. Grounds. -/

/-- One name further, whatever lies there. -/
def stepFrom (l : Location) (name : Text) : Location :=
  if name = Path.here then l else if name = Path.up then l.dropLast else l ++ [Utf8.nameForm name]

/-- A part of a tree, and the places that can be seen from it: itself and what is around it. -/
structure Grounds where
  home : Location → Prop
  seen : Location → Prop

/-- Names keep to some grounds and end at a goal.  Behind a link only names of things follow. -/
def Keeps (t : FileTree) (g : Grounds) (goal : Location → Prop) : Location → List Text → Prop
  | l, [] => g.seen l ∧ goal l
  | l, name :: rest =>
    g.seen l
      ∧ (name ≠ Path.here → name ≠ Path.up →
          (∃ path, t.entryAt? (stepFrom l name) = some (.link path)) →
            g.home (stepFrom l name) ∧ ∀ m ∈ rest, Path.IsName m)
      ∧ Keeps t g goal (stepFrom l name) rest

/-- Where the path of a link at a place is followed from. -/
def linkStart (l : Location) (path : Text) : Location := if Path.isAbsolute path then [] else l.dropLast

/-- Grounds that no link leads out of: the part is whole directories, and its links keep to the
grounds and end in the part.  Their paths are written as the system writes them. -/
structure Fenced (t : FileTree) (g : Grounds) : Prop where
  below : ∀ l n, g.home l → g.home (l ++ [n])
  near : ∀ l, g.home l → g.seen l
  above : ∀ l n, g.seen (l ++ [n]) → g.seen l
  base : g.seen t.workingDir
  links : ∀ l path, g.home l → t.entryAt? l = some (.link path) →
    Keeps t g g.home (linkStart l path) (Path.names path)
  spelled : ∀ l path, g.home l → t.entryAt? l = some (.link path) → Path.Spelled path

/-- Two trees that agree on some grounds, with no links but those of the tree that was before. -/
structure Agreeing (g : Grounds) (t0 t u : FileTree) : Prop where
  proper : Proper t
  dirLeft : t.workingDir = t0.workingDir
  dirRight : u.workingDir = t0.workingDir
  same : ∀ l, g.seen l → t.entryAt? l = u.entryAt? l
  links : ∀ l path, t.entryAt? l = some (.link path) → t0.entryAt? l = some (.link path)

/-- Where something is, or is to be made. -/
def Place.spot : Place → Location
  | .occupied l => l
  | .vacant parent name => parent ++ [name]

variable {t0 t u : FileTree} {g : Grounds} {goal goal' : Location → Prop} {l d : Location} {p : Text}
  {name : Text} {rest ns xs ys : List Text}

theorem stepFrom_here : stepFrom l Path.here = l := if_pos rfl

theorem stepFrom_up : stepFrom l Path.up = l.dropLast := by
  unfold stepFrom
  rw [if_neg up_ne_here, if_pos rfl]

theorem stepFrom_named (h1 : name ≠ Path.here) (h2 : name ≠ Path.up) :
    stepFrom l name = l ++ [Utf8.nameForm name] := by
  unfold stepFrom
  rw [if_neg h1, if_neg h2]

theorem Keeps.here (h : Keeps t g goal l (Path.here :: rest)) : Keeps t g goal l rest := by
  have hrest := h.2.2
  rwa [stepFrom_here] at hrest

theorem Keeps.up (h : Keeps t g goal l (Path.up :: rest)) : Keeps t g goal l.dropLast rest := by
  have hrest := h.2.2
  rwa [stepFrom_up] at hrest

theorem Keeps.named (h : Keeps t g goal l (name :: rest)) (h1 : name ≠ Path.here)
    (h2 : name ≠ Path.up) : Keeps t g goal (l ++ [Utf8.nameForm name]) rest := by
  have hrest := h.2.2
  rwa [stepFrom_named h1 h2] at hrest

theorem Keeps.start (h : Keeps t g goal l ns) : g.seen l := by
  cases ns with
  | nil => exact h.1
  | cons name rest => exact h.1

/-- A link on the way is at home, and only names of things follow. -/
theorem Keeps.link {path : Text} (h : Keeps t g goal l (name :: rest)) (h1 : name ≠ Path.here)
    (h2 : name ≠ Path.up) (hlink : t.entryAt? (l ++ [Utf8.nameForm name]) = some (.link path)) :
    g.home (l ++ [Utf8.nameForm name]) ∧ ∀ m ∈ rest, Path.IsName m := by
  have hhome := h.2.1 h1 h2
  rw [stepFrom_named h1 h2] at hhome
  exact hhome ⟨path, hlink⟩

theorem Keeps.mono (hgoal : ∀ l, goal l → goal' l) :
    ∀ {l : Location} {ns : List Text}, Keeps t g goal l ns → Keeps t g goal' l ns
  | _, [], h => ⟨h.1, hgoal _ h.2⟩
  | _, _ :: _, h => ⟨h.1, h.2.1, h.2.2.mono hgoal⟩

/-- The first of names that keep to the grounds do, too. -/
theorem Keeps.init : ∀ {l : Location} {xs : List Text}, Keeps t g goal l (xs ++ ys) →
    Keeps t g g.seen l xs
  | _, [], h => ⟨h.start, h.start⟩
  | _, _ :: _, h =>
    ⟨h.1, fun h1 h2 hlink =>
      ⟨(h.2.1 h1 h2 hlink).1, fun m hm => (h.2.1 h1 h2 hlink).2 m (List.mem_append_left _ hm)⟩,
      h.2.2.init⟩

/-- Names of things stay at home. -/
theorem Fenced.keeps_of_home (hf : Fenced t g) :
    ∀ {l : Location} {ns : List Text}, g.home l → (∀ m ∈ ns, Path.IsName m) → Keeps t g g.home l ns
  | l, [], hl, _ => ⟨hf.near l hl, hl⟩
  | l, name :: rest, hl, hns => by
    have hname := hns name (List.mem_cons_self ..)
    have hrest := fun m hm => hns m (List.mem_cons_of_mem name hm)
    have hnext : g.home (stepFrom l name) := by
      rw [stepFrom_named hname.2.1 hname.2.2]
      exact hf.below l _ hl
    exact ⟨hf.near l hl, fun _ _ _ => ⟨hnext, hrest⟩, hf.keeps_of_home hnext hrest⟩

/-- Names of things can follow what ends at home. -/
theorem Keeps.append (hf : Fenced t g) (hys : ∀ m ∈ ys, Path.IsName m) :
    ∀ {l : Location} {xs : List Text}, Keeps t g g.home l xs → Keeps t g g.home l (xs ++ ys)
  | _, [], h => hf.keeps_of_home h.2 hys
  | _, _ :: _, h =>
    ⟨h.1, fun h1 h2 hlink => ⟨(h.2.1 h1 h2 hlink).1,
      List.forall_mem_append.2 ⟨(h.2.1 h1 h2 hlink).2, hys⟩⟩, h.2.2.append hf hys⟩

/-- **Names that keep to fenced grounds keep to them through a link.** -/
theorem Keeps.through {path : Text} (hf : Fenced t g) (hgoal : ∀ l, g.home l → goal l)
    (h : Keeps t g goal l (name :: rest)) (h1 : name ≠ Path.here) (h2 : name ≠ Path.up)
    (hlink : t.entryAt? (l ++ [Utf8.nameForm name]) = some (.link path)) :
    Keeps t g goal (if Path.isAbsolute path then [] else l) (Path.names path ++ rest) := by
  obtain ⟨hhome, hrest⟩ := h.link h1 h2 hlink
  have hlinks := hf.links _ path hhome hlink
  unfold linkStart at hlinks
  rw [List.dropLast_concat] at hlinks
  exact (hlinks.append hf hrest).mono hgoal

/-! ## §2. Following names. -/

/-- What names lead to is seen, and the names behind them keep to the grounds from there. -/
theorem Leads.keeps (hf : Fenced t0 g) (hgoal : ∀ l, g.home l → goal l) (h : Agreeing g t0 t u)
    (hleads : Leads t l ns d) : Keeps t0 g goal l (ns ++ ys) → Keeps t0 g goal d ys := by
  induction hleads with
  | nil dir => exact id
  | here _ ih => exact fun hkeeps => ih hkeeps.here
  | up _ ih => exact fun hkeeps => ih hkeeps.up
  | into h1 h2 _ _ ih => exact fun hkeeps => ih (hkeeps.named h1 h2)
  | @through dir d name rest path h1 h2 he _ ih =>
    intro hkeeps
    refine ih ?_
    rw [List.append_assoc]
    exact Keeps.through hf hgoal hkeeps h1 h2 (h.links _ _ he)

/-- **Names that keep to fenced grounds are followed alike** in trees that agree on them, to a place
that is a goal. -/
theorem follow_kept (hf : Fenced t0 g) (hgoal : ∀ l, g.home l → goal l) (h : Agreeing g t0 t u)
    (aim : Aim) :
    ∀ (slash : Bool) (links : Nat) (l : Location) (ns : List Text), Keeps t0 g goal l ns →
      follow t aim slash links l ns = follow u aim slash links l ns
        ∧ ∀ place, follow t aim slash links l ns = .ok place → g.seen place.spot ∧ goal place.spot
  | _, _, _, [], hkeeps => by
    rw [follow_nil, follow_nil]
    refine ⟨rfl, fun place hplace => ?_⟩
    cases hplace
    exact hkeeps
  | slash, links, l, name :: rest, hkeeps => by
    by_cases h1 : name = Path.here
    · subst h1
      rw [follow_here, follow_here]
      exact follow_kept hf hgoal h aim slash links l rest hkeeps.here
    by_cases h2 : name = Path.up
    · subst h2
      rw [follow_up, follow_up]
      exact follow_kept hf hgoal h aim slash links l.dropLast rest hkeeps.up
    -- what the name leads to is seen, so both trees have it; a link there is at home, and its path
    -- keeps to the grounds
    have hnext := hkeeps.named h1 h2
    have hlink : ∀ path, t.entryAt? (l ++ [Utf8.nameForm name]) = some (.link path) →
        Keeps t0 g goal (if Path.isAbsolute path then [] else l) (Path.names path ++ rest) :=
      fun path he => Keeps.through hf hgoal hkeeps h1 h2 (h.links _ _ he)
    refine ⟨follow_named_congr h1 h2 (.inl (h.same _ hnext.start))
      (fun _ => (follow_kept hf hgoal h aim slash links _ rest hnext).1) ?_, fun place hplace => ?_⟩
    · rintro path more he rfl slash'
      exact (follow_kept hf hgoal h aim slash' more _ _ (hlink path he)).1
    · obtain ⟨-, hfinds⟩ := finds_of_follow h1 h2 hplace
      generalize he : t.entryAt? (l ++ [Utf8.nameForm name]) = found at hfinds
      cases hfinds with
      | vacant hrest =>
        subst hrest
        exact hnext
      | directory hend => exact (follow_kept hf hgoal h aim slash links _ rest hnext).2 place hend
      | file hrest =>
        subst hrest
        exact hnext
      | link hrest =>
        subst hrest
        exact hnext
      | through _ hlinks _ hend =>
        subst hlinks
        exact (follow_kept hf hgoal h aim _ _ _ _ (hlink _ he)).2 place hend
  termination_by _ links _ ns => (links, ns.length)

/-! ## §3. What paths name. -/

/-- The names of a path keep to some grounds. -/
def KeepsPath (t : FileTree) (g : Grounds) (goal : Location → Prop) (p : Text) : Prop :=
  Keeps t g goal (t.startOf p) (Path.names p)

section Paths

variable {q : Text} {aim : Aim} (hf : Fenced t0 g) (hgoal : ∀ l, g.home l → goal l)
  (h : Agreeing g t0 t u) (hp : KeepsPath t0 g goal p)

include hf hgoal h hp

/-- **A path that keeps to fenced grounds leads to one place in both trees**, which is a goal. -/
theorem locate_kept (aim : Aim) :
    t.locate aim p = u.locate aim p
      ∧ ∀ place, t.locate aim p = .ok place → g.seen place.spot ∧ goal place.spot := by
  obtain ⟨hfollow, hspot⟩ := follow_kept hf hgoal h aim (Text.endsWith p "/") maxLinks _ _ hp
  have hstart : (if Path.isAbsolute p then [] else t.workingDir) = t0.startOf p := startOf_eq h.dirLeft p
  have hstart' : (if Path.isAbsolute p then [] else u.workingDir) = t0.startOf p :=
    startOf_eq h.dirRight p
  constructor
  · unfold locate
    rw [hstart, hstart', hfollow]
  · intro place hplace
    obtain ⟨-, -, -, hled⟩ := locate_eq_ok_iff.1 hplace
    rw [hstart] at hled
    exact hspot place hled

omit hgoal in
/-- **The last name of a path that keeps to fenced grounds has one place in both trees.** -/
theorem lastLocation_kept (dots : Ending → SystemFault) :
    t.lastLocation p dots = u.lastLocation p dots := by
  have hinit : Keeps t0 g g.seen (t0.startOf p) (Path.names p).dropLast := by
    rcases List.eq_nil_or_concat (Path.names p) with hnil | ⟨init, n, hnames⟩
    · rw [hnil]
      exact ⟨hp.start, hp.start⟩
    · rw [List.concat_eq_append] at hnames
      have hkeeps : Keeps t0 g goal (t0.startOf p) (init ++ [n]) := hnames ▸ hp
      rw [hnames, List.dropLast_concat]
      exact hkeeps.init
  have hstart : (if Path.isAbsolute p then [] else t.workingDir) = t0.startOf p := startOf_eq h.dirLeft p
  have hstart' : (if Path.isAbsolute p then [] else u.workingDir) = t0.startOf p :=
    startOf_eq h.dirRight p
  unfold lastLocation parentOf
  rw [hstart, hstart', (follow_kept hf hf.near h .target true maxLinks _ _ hinit).1]

/-- That place is seen, and is a goal. -/
theorem spot_of_lastLocation {dots : Ending → SystemFault} (hlast : t.lastLocation p dots = .ok l) :
    ∃ d n, l = d ++ [Utf8.nameForm n] ∧ Path.IsName n ∧ g.seen l ∧ goal l := by
  obtain ⟨init, n, d, hnames, hn, hleads, rfl⟩ := leads_of_lastLocation hlast
  rw [startOf_eq h.dirLeft p] at hleads
  have hkeeps : Keeps t0 g goal (t0.startOf p) (init ++ [n]) := hnames ▸ hp
  have hlast := (hleads.keeps hf hgoal h hkeeps).named hn.2.1 hn.2.2
  exact ⟨d, n, rfl, hn, hlast.1, hlast.2⟩

end Paths

/-- **A path that keeps to fenced grounds is seen alike** in trees that agree on them. -/
theorem seenAlike_kept (hf : Fenced t0 g) (hgoal : ∀ l, g.home l → goal l) (hp : KeepsPath t0 g goal p) :
    SeenAlike (Agreeing g t0) p where
  locate h aim := (locate_kept hf hgoal h hp aim).1
  entry h aim l hl := h.same l ((locate_kept hf hgoal h hp aim).2 _ hl).1

theorem checkWorkingDir_kept (hf : Fenced t0 g) (h : Agreeing g t0 t u) (p : Text) :
    t.checkWorkingDir p = u.checkWorkingDir p := by
  unfold checkWorkingDir isDirectory
  rw [h.dirLeft, h.dirRight, h.same _ hf.base]

/-- The names in a directory at home are the same in both trees. -/
theorem namesAt_kept (hf : Fenced t0 g) (h : Agreeing g t0 t u) (hl : g.home l)
    (hdir : t.entryAt? l = some .directory) : t.namesAt l = u.namesAt l := by
  have hdir' : u.entryAt? l = some .directory := (h.same l (hf.near l hl)).symm.trans hdir
  refine NameSet.ext_mem fun n => ?_
  rw [mem_namesAt_iff hdir, mem_namesAt_iff hdir', h.same _ (hf.near _ (hf.below l n hl))]

/-! ## §4. One place changed in both trees. -/

/-- Without a directory to hold it nothing is put. -/
theorem entryAt?_put_of_no_directory {node : Node} {n : Text} (hd : t.entryAt? d ≠ some .directory)
    (k : Location) : (t.put (d ++ [n]) node).entryAt? k = t.entryAt? k := by
  cases d with
  | nil => exact absurd rfl hd
  | cons name d => exact Forest.entryAt?_alter_of_no_directory _ n hd k

/-- What lies somewhere after a node without children was put into a tree. -/
theorem entryAt?_put_cases {node : Node} {n : Text} (hleaf : node.children = []) (k : Location) :
    (t.put (d ++ [n]) node).entryAt? k
      = if t.entryAt? d = some .directory then
          if k = d ++ [n] then some node.entry else if d ++ [n] <+: k then none else t.entryAt? k
        else t.entryAt? k := by
  split
  · rename_i hd
    exact entryAt?_put_leaf hd hleaf k
  · rename_i hd
    exact entryAt?_put_of_no_directory hd k

/-- **The trees go on agreeing when a file or an empty directory is put** into both. -/
theorem Agreeing.put {node : Node} {n : Text} (hf : Fenced t0 g) (h : Agreeing g t0 t u)
    (hn : Path.IsName n) (hleaf : node.children = []) (hlink : ∀ path, node.entry ≠ .link path)
    (hseen : g.seen (d ++ [n])) :
    Agreeing g t0 (t.put (d ++ [n]) node) (u.put (d ++ [n]) node) where
  proper := by
    by_cases hd : t.entryAt? d = some .directory
    · exact h.proper.put hn hd hleaf
    · -- there is no directory to put it in, so nothing changes
      refine ⟨fun k hk => ?_, (workingDir_put t ..).symm ▸ h.proper.workingDir⟩
      rw [entryAt?_put_of_no_directory hd] at hk
      exact h.proper.names k hk
  dirLeft := (workingDir_put ..).trans h.dirLeft
  dirRight := (workingDir_put ..).trans h.dirRight
  same k hk := by
    rw [entryAt?_put_cases hleaf, entryAt?_put_cases hleaf, h.same d (hf.above d n hseen), h.same k hk]
  links k path hk := by
    rw [entryAt?_put_cases hleaf] at hk
    split at hk
    · split at hk
      · exact absurd (Option.some.inj hk) (hlink path)
      · split at hk
        · cases hk
        · exact h.links k path hk
    · exact h.links k path hk

/-- **They go on agreeing when something is removed** from both. -/
theorem Agreeing.remove {n : Text} (h : Agreeing g t0 t u) :
    Agreeing g t0 (t.remove (d ++ [n])) (u.remove (d ++ [n])) where
  proper := h.proper.remove
  dirLeft := (workingDir_remove ..).trans h.dirLeft
  dirRight := (workingDir_remove ..).trans h.dirRight
  same k hk := by rw [entryAt?_remove_concat, entryAt?_remove_concat, h.same k hk]
  links k path hk := by
    rw [entryAt?_remove_concat] at hk
    split at hk
    · cases hk
    · exact h.links k path hk

end FileTree

end ModuleBuild
