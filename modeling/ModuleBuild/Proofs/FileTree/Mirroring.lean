/-
  ModuleBuild.Proofs.FileTree.Mirroring
  ─────────────────────────────────────
  **A COPY DEPENDS ON WHAT IS COPIED.**

  A copy to a vacant place reads what it copies, what lies on the way to its
  destination, and what it has written itself.  Run in two trees that agree
  on the source and on the way to the destination, it keeps step: it gives
  one result, a failure included, and leaves the same at the destination,
  however far it got.

  What it leaves there mirrors the source: at each place below the
  destination lies nothing, or what lies at the same place below the source.

  Main results:
    * `seenAlike_mirrors` — a path on the way to either is seen alike;
    * `lockstep_copyDirectoryTo` — a directory is copied in step, level by level;
    * `lockstep_copyOver` — a file or directory is copied in step.
-/
import ModuleBuild.Proofs.FileTree.Lockstep

namespace ModuleBuild

open FileTree

namespace FileTree

/-! ## §1. Mirrors. -/

variable {t u t0 u0 : FileTree} {S D l k q : Location} {p : Text}

/-- Two trees that agree on a source and on the way to a destination, which lie apart. -/
structure Facing (S D : Location) (t u : FileTree) : Prop where
  isName : ∀ k, S <+: k → t.entryAt? k ≠ none → ∀ m ∈ k, Path.IsName m
  freeLeft : LinkFree t
  freeRight : LinkFree u
  apart : ¬ D <+: S ∧ ¬ S <+: D
  source : ∀ k, k <+: S ∨ S <+: k → t.entryAt? k = u.entryAt? k
  above : ∀ k, k <+: D → k ≠ D → t.entryAt? k = some .directory ∧ u.entryAt? k = some .directory

/-- Two trees while something is copied in them that were `t0` and `u0` before. -/
structure Mirrors (S D : Location) (t0 u0 t u : FileTree) : Prop where
  freeLeft : LinkFree t
  freeRight : LinkFree u
  dirLeft : t.workingDir = t0.workingDir
  dirRight : u.workingDir = u0.workingDir
  outsideLeft : ∀ k, ¬ D <+: k → t.entryAt? k = t0.entryAt? k
  outsideRight : ∀ k, ¬ D <+: k → u.entryAt? k = u0.entryAt? k
  same : ∀ q, t.entryAt? (D ++ q) = u.entryAt? (D ++ q)
  mirror : ∀ q, t.entryAt? (D ++ q) = none ∨ t.entryAt? (D ++ q) = t0.entryAt? (S ++ q)

/-- The places that a copy looks at. -/
def Watched (S D k : Location) : Prop := (k <+: S ∨ S <+: k) ∨ k <+: D ∨ D <+: k

theorem watched_source (D : Location) (h : k <+: S ++ q) : Watched S D k :=
  .inl (List.prefix_or_prefix_of_prefix h (List.prefix_append S q))

theorem watched_dest (S : Location) (h : k <+: D ++ q) : Watched S D k :=
  .inr (List.prefix_or_prefix_of_prefix h (List.prefix_append D q))

/-- The names in a directory are those that something in it has. -/
theorem mem_namesAt_iff {n : Text} (hl : t.entryAt? l = some .directory) :
    n ∈ t.namesAt l ↔ t.entryAt? (l ++ [n]) ≠ none := by
  obtain ⟨ds, hds⟩ := Forest.exists_of_entryAt?_directory hl
  have hnode : t.nodeAt? l = some (.directory ds) := hds
  have happend : t.entryAt? (l ++ [n]) = Forest.entryAt? ds [n] := Forest.entryAt?_append [n] hds
  unfold namesAt
  rw [hnode, happend, Forest.entryAt?_singleton]
  show n ∈ NameSet.ofList (ds.map (·.1)) ↔ _
  rw [NameSet.mem_ofList, Forest.mem_names_iff]
  simp

section

variable (hface : Facing S D t0 u0)

include hface

/-- Nothing of the source lies at the destination. -/
theorem Facing.not_below (k : Location) : ¬ D <+: S ++ k := by
  intro h
  rcases List.prefix_or_prefix_of_prefix h (List.prefix_append S k) with hDS | hSD
  · exact hface.apart.1 hDS
  · exact hface.apart.2 hSD

theorem Mirrors.source (h : Mirrors S D t0 u0 t u) (q : Location) :
    t.entryAt? (S ++ q) = t0.entryAt? (S ++ q) :=
  h.outsideLeft _ (hface.not_below q)

theorem Mirrors.agree (h : Mirrors S D t0 u0 t u) (hk : Watched S D k) : t.entryAt? k = u.entryAt? k := by
  by_cases hD : D <+: k
  · obtain ⟨q, rfl⟩ := hD
    exact h.same q
  · rw [h.outsideLeft k hD, h.outsideRight k hD]
    rcases hk with hS | hk | hk
    · exact hface.source k hS
    · have hne : k ≠ D := fun e => hD (e ▸ List.prefix_rfl)
      rw [(hface.above k hk hne).1, (hface.above k hk hne).2]
    · exact absurd hk hD

theorem Mirrors.lastLocation (h : Mirrors S D t0 u0 t u) (hp : Path.Straight p)
    (hplace : ∀ k, k <+: placeOf p → Watched S D k) (dots : Ending → SystemFault) :
    t.lastLocation p dots = u.lastLocation p dots :=
  lastLocation_congr h.freeLeft hp dots fun _ hk => h.agree hface (hplace _ hk)

/-- **A path on the way to either is seen alike.** -/
theorem seenAlike_mirrors (hp : Path.Straight p) (hplace : ∀ k, k <+: placeOf p → Watched S D k) :
    SeenAlike (Mirrors S D t0 u0) p where
  locate h _ := locate_congr h.freeLeft hp fun _ hk => h.agree hface (hplace _ hk)
  entry h _ _ hl := entryAt?_congr_of_locate h.freeLeft hp (fun _ hk => h.agree hface (hplace _ hk)) hl

/-- At first nothing is at the destination. -/
theorem Facing.start (ht : t0.entryAt? D = none) (hu : u0.entryAt? D = none) :
    Mirrors S D t0 u0 t0 u0 := by
  have hgone : ∀ q, t0.entryAt? (D ++ q) = none ∧ u0.entryAt? (D ++ q) = none := fun q =>
    ⟨entryAt?_eq_none_of_below ht (List.prefix_append ..),
      entryAt?_eq_none_of_below hu (List.prefix_append ..)⟩
  exact ⟨hface.freeLeft, hface.freeRight, rfl, rfl, fun _ _ => rfl, fun _ _ => rfl,
    fun q => by rw [(hgone q).1, (hgone q).2], fun q => .inl (hgone q).1⟩

/-- Something like the source is put at its place below the destination. -/
theorem Mirrors.put (h : Mirrors S D t0 u0 t u) {d : Location} {n : Text} {node : Node}
    (hq : D ++ q = d ++ [n]) (hd : t.entryAt? d = some .directory) (hleaf : node.children = [])
    (hnode : t0.entryAt? (S ++ q) = some node.entry) :
    Mirrors S D t0 u0 (t.put (d ++ [n]) node) (u.put (d ++ [n]) node) := by
  have hlink : ∀ path, node.entry ≠ .link path := by
    intro path he
    rw [he] at hnode
    exact hface.freeLeft _ path hnode
  have hd' : u.entryAt? d = some .directory := by
    rw [← h.agree hface (watched_dest S (q := q) (hq ▸ List.prefix_append d [n]))]
    exact hd
  have hbelow : ∀ k, d ++ [n] <+: k → D <+: k := fun k hk =>
    (List.prefix_append D q).trans (hq ▸ hk)
  refine ⟨h.freeLeft.put hd hleaf hlink, h.freeRight.put hd' hleaf hlink,
    (workingDir_put ..).trans h.dirLeft, (workingDir_put ..).trans h.dirRight, ?_, ?_, ?_, ?_⟩
  · intro k hk
    rw [entryAt?_put_outside node fun hpre => hk (hbelow k hpre)]
    exact h.outsideLeft k hk
  · intro k hk
    rw [entryAt?_put_outside node fun hpre => hk (hbelow k hpre)]
    exact h.outsideRight k hk
  · intro j
    rw [entryAt?_put_leaf hd hleaf, entryAt?_put_leaf hd' hleaf, h.same j]
  -- below the destination, nothing has changed but the one place
  · intro j
    rw [entryAt?_put_leaf hd hleaf]
    by_cases hj : D ++ j = d ++ [n]
    · rw [if_pos hj]
      have hjq : j = q := List.append_cancel_left (hj.trans hq.symm)
      rw [hjq]
      exact .inr hnode.symm
    · rw [if_neg hj]
      split
      · exact .inl rfl
      · exact h.mirror j

end

end FileTree

namespace Edit

variable {S D q : Location} {t0 u0 : FileTree} {source dest root : Text} {ns : List Text}

/-! ## §2. Making the directory of a copy. -/

/-- A place on the way to the destination, or one at which a directory is to mirror one. -/
def Makes (S D : Location) (t0 : FileTree) (l : Location) : Prop :=
  l <+: D ∧ l ≠ D ∨ ∃ q, l = D ++ q ∧ t0.entryAt? (S ++ q) = some .directory

theorem Makes.watched {l k : Location} (h : Makes S D t0 l) (hk : k <+: l) : Watched S D k := by
  rcases h with ⟨hl, -⟩ | ⟨q, rfl, -⟩
  · exact .inr (.inl (hk.trans hl))
  · exact watched_dest S hk

theorem Makes.above {l k : Location} (h : Makes S D t0 l) (hk : k <+: l) : Makes S D t0 k := by
  rcases h with ⟨hl, hne⟩ | ⟨q, rfl, hdir⟩
  · refine .inl ⟨hk.trans hl, fun e => hne ?_⟩
    rw [e] at hk
    exact hl.eq_of_length_le hk.length_le
  · by_cases hD : D <+: k
    · obtain ⟨q', rfl⟩ := hD
      have hq : q' <+: q := (List.prefix_append_right_inj D).1 hk
      exact .inr ⟨q', rfl, isDirectory_of_above hdir ((List.prefix_append_right_inj S).2 hq)⟩
    · rcases List.prefix_or_prefix_of_prefix hk (List.prefix_append D q) with habove | hbelow
      · exact .inl ⟨habove, fun e => hD (e ▸ List.prefix_rfl)⟩
      · exact absurd hbelow hD

/-- What is behind a straight path spells what is behind its place. -/
theorem placeOf_join {l : Location} (hs : Path.Straight source) (hsource : placeOf source = l)
    {name : Text} (hname : Path.IsName name) :
    placeOf (Path.join source name) = l ++ [Utf8.nameForm name] := by
  obtain ⟨-, hnames⟩ := hs.join hname
  unfold placeOf at hsource ⊢
  rw [hnames, List.map_append, hsource, List.map_singleton]

section

variable (hface : Facing S D t0 u0)

include hface

theorem lockstep_makeDirectory (hp : Path.Straight dest) (hplace : Makes S D t0 (placeOf dest)) :
    Lockstep (Mirrors S D t0 u0) (change (·.makeDirectory dest)) := by
  refine lockstep_change fun t u h => ?_
  unfold makeDirectory onPath
  cases hcheck : checkPath dest with
  | error failure => exact .inl ⟨failure, rfl, rfl⟩
  | ok x =>
    rw [← h.lastLocation hface hp (fun k hk => hplace.watched hk)]
    cases hl : t.lastLocation dest fun _ => .exists with
    | error fault => exact .inl ⟨_, rfl, rfl⟩
    | ok l =>
      obtain ⟨-, rfl, d, n, hdn, hd⟩ := lastLocation_cases h.freeLeft hp hcheck hl
      have hagree := h.agree hface (hplace.watched List.prefix_rfl)
      simp only [bind, Except.bind]
      rw [← hagree]
      cases he : t.entryAt? (placeOf dest) with
      | some e => exact .inl ⟨_, rfl, rfl⟩
      | none =>
        refine .inr ⟨_, _, rfl, rfl, ?_⟩
        rcases hplace with ⟨hl, hne⟩ | ⟨q, hq, hdir⟩
        · -- the directories above the destination are there
          have hnot : ¬ D <+: placeOf dest := fun hD => hne (hl.eq_of_length_le hD.length_le)
          rw [h.outsideLeft _ hnot, (hface.above _ hl hne).1] at he
          cases he
        · rw [hdn]
          exact h.put hface (hq.symm.trans hdn) hd rfl hdir

/-- Directories are made in step. -/
theorem lockstep_makeDirectories (existOk : Bool) (hroot : Path.IsRoot root) (hne : root ≠ [])
    (hns : ∀ m ∈ ns, Path.IsName m) (hplace : Makes S D t0 (ns.map Utf8.nameForm)) :
    Lockstep (Mirrors S D t0 u0) (makeDirectories existOk (Path.written root ns)) := by
  refine makeDirectories_inStep existOk hroot (fun m hm => ⟨(hns m hm).1, (hns m hm).2.1⟩)
    fun ms hms => ?_
  have hnames : ∀ m ∈ ms, Path.IsName m := fun m hm => hns m (hms.subset hm)
  have hp := Path.straight_written hroot hne hnames
  have hspells : placeOf (Path.written root ms) = ms.map Utf8.nameForm := by
    unfold placeOf
    rw [Path.names_written hroot fun m hm => (hnames m hm).1]
  have hmakes : Makes S D t0 (placeOf (Path.written root ms)) := by
    rw [hspells]
    exact hplace.above (hms.map _)
  exact ⟨seenAlike_mirrors hface hp fun k hk => hmakes.watched hk, lockstep_makeDirectory hface hp hmakes⟩

/-! ## §3. Copying files. -/

theorem seenAlike_source (hs : Path.Straight source) (hsource : placeOf source = S ++ q) :
    SeenAlike (Mirrors S D t0 u0) source :=
  seenAlike_mirrors hface hs fun _ hk => watched_source D (hsource ▸ hk)

theorem seenAlike_dest (hd : Path.Straight dest) (hdest : placeOf dest = D ++ q) :
    SeenAlike (Mirrors S D t0 u0) dest :=
  seenAlike_mirrors hface hd fun _ hk => watched_dest S (hdest ▸ hk)

/-- The bytes of a file are copied in step, to the place that mirrors it. -/
theorem lockstep_copyBytes {j : Location} (hs : Path.Straight source) (hd : Path.Straight dest)
    (hsource : placeOf source = S ++ q) (hdest : placeOf dest = D ++ j)
    (hmirror : ∀ content, t0.entryAt? (S ++ q) = some (.file content) → j = q) :
    Lockstep (Mirrors S D t0 u0) (copyBytes source dest) := by
  have hseen := seenAlike_dest hface hd hdest
  refine copyBytes_inStep (seenAlike_source hface hs hsource) hseen fun t u content h hread => ?_
  -- what was read is what the source holds
  have hcontent : t0.entryAt? (S ++ q) = some (.file content) := by
    have hentry := (readBytes_eq_ok_iff h.freeLeft hs).1 hread
    rw [← h.source hface, ← hsource]
    exact hentry.2
  have hj := hmirror content hcontent
  subst hj
  refine lockstep_change fun t u h => ?_
  unfold writeBytes
  rw [← hseen.fileAt h]
  cases hfile : t.fileAt dest with
  | error failure => exact .inl ⟨failure, rfl, rfl⟩
  | ok place =>
    refine .inr ⟨_, _, rfl, rfl, ?_⟩
    obtain ⟨d, n, hplace, hdn, hdir⟩ := fileAt_cases h.freeLeft hd hfile
    show Mirrors S D t0 u0 (t.put place.1 (.file content)) (u.put place.1 (.file content))
    rw [hplace]
    exact h.put hface (hdest.symm.trans hdn) hdir rfl hcontent

/-- A file is copied in step. -/
theorem lockstep_copyFile (hs : Path.Straight source) (hd : Path.Straight dest)
    (hsource : placeOf source = S ++ q) (hdest : placeOf dest = D ++ q) :
    Lockstep (Mirrors S D t0 u0) (copyFile source dest) := by
  refine copyFile_inStep (seenAlike_dest hface hd hdest) (fun t u h hinto => ?_)
    (lockstep_copyBytes hface hs hd hsource hdest fun _ _ => rfl)
  -- the destination mirrors a directory, so the source is no file
  have hdir := ((namesDirectory_iff h.freeLeft hd).1 hinto).2
  have hmirror : t0.entryAt? (S ++ q) = some .directory := by
    rw [hdest] at hdir
    rcases h.mirror q with hnone | hsame
    · rw [hnone] at hdir
      cases hdir
    · exact hsame.symm.trans hdir
  have hne : S ++ q ≠ [] := by
    intro hnil
    rw [List.append_eq_nil_iff] at hnil
    exact hface.apart.2 (hnil.1 ▸ List.nil_prefix)
  obtain ⟨d, n, hdn⟩ := (List.eq_nil_or_concat (S ++ q)).resolve_left hne
  rw [List.concat_eq_append] at hdn
  obtain ⟨init, last, hnames, -, -⟩ := names_of_placeOf (hsource.trans hdn)
  have hlast : Path.IsName last := hs.isName last (by rw [hnames]; simp)
  have hbase : Path.baseName source = last := by
    obtain ⟨root, hroot, -, hwritten⟩ := hs.written
    rw [hwritten, hnames]
    exact Path.baseName_written hroot hlast.1
  obtain ⟨hstraight, hjoin⟩ := hd.join hlast
  rw [hbase]
  refine lockstep_copyBytes hface hs hstraight hsource (j := q ++ [Utf8.nameForm last]) ?_ ?_
  · unfold placeOf at hdest ⊢
    rw [hjoin, List.map_append, hdest, List.map_singleton, List.append_assoc]
  · intro content hfile
    rw [hmirror] at hfile
    cases hfile

/-! ## §4. Copying directories. -/

/-- **A directory is copied in step**, level by level. -/
theorem lockstep_copyDirectoryTo (depth : Nat) :
    ∀ {q : Location} {source dest : Text}, Path.Straight source → Path.Straight dest →
      placeOf source = S ++ q → placeOf dest = D ++ q →
      Lockstep (Mirrors S D t0 u0) (copyDirectoryTo depth source dest) := by
  induction depth using Nat.strong_induction_on with
  | _ depth ih =>
    intro q source dest hs hd hsource hdest
    refine copyDirectoryTo_inStep depth (seenAlike_source hface hs hsource)
      (seenAlike_dest hface hd hdest) fun t u l h hopen => ?_
    obtain ⟨-, rfl, hdir⟩ := (openDirectory_eq_ok_iff h.freeLeft hs).1 hopen
    have hdir0 : t0.entryAt? (S ++ q) = some .directory := by
      rw [← h.source hface, ← hsource]
      exact hdir
    refine ⟨?_, ?_, ?_⟩
    · have hw : ∀ n, Watched S D (placeOf source ++ [n]) := by
        intro n
        rw [hsource, List.append_assoc]
        exact watched_source D List.prefix_rfl
      have hu := (h.agree hface (watched_source D (hsource ▸ List.prefix_rfl : placeOf source <+: S ++ q))).symm.trans hdir
      refine NameSet.ext_mem fun n => ?_
      rw [mem_namesAt_iff hdir, mem_namesAt_iff hu, h.agree hface (hw n)]
    · obtain ⟨root, hroot, hne, hwritten⟩ := hd.written
      rw [hwritten]
      exact lockstep_makeDirectories hface false hroot hne hd.isName (.inr ⟨q, hdest, hdir0⟩)
    -- an entry of the directory is one level further down on both sides
    · rintro below rfl n hn
      have hsome := (mem_namesAt_iff hdir).1 hn
      rw [hsource, List.append_assoc, h.source hface] at hsome
      have hname : Path.IsName n := hface.isName _ (List.prefix_append ..) hsome n (by simp)
      have hs' := (hs.join hname).1
      have hd' := (hd.join hname).1
      have hsource' := placeOf_join hs hsource hname
      have hdest' := placeOf_join hd hdest hname
      rw [List.append_assoc] at hsource' hdest'
      exact copyEntry_inStep (seenAlike_source hface hs' hsource')
        (ih below (Nat.lt_succ_self below) hs' hd' hsource' hdest')
        (lockstep_copyFile hface hs' hd' hsource' hdest')

/-- **A file or a directory is copied in step.** -/
theorem lockstep_copyOver (hs : Path.Straight source) (hd : Path.Straight dest)
    (hsource : placeOf source = S) (hdest : placeOf dest = D) :
    Lockstep (Mirrors S D t0 u0) (copyOver source dest) := by
  have hsource' : placeOf source = S ++ [] := by rw [hsource, List.append_nil]
  have hdest' : placeOf dest = D ++ [] := by rw [hdest, List.append_nil]
  exact copyOver_inStep (seenAlike_source hface hs hsource')
    (lockstep_copyDirectoryTo hface _ hs hd hsource' hdest')
    (lockstep_copyFile hface hs hd hsource' hdest')

end

end Edit

end ModuleBuild
