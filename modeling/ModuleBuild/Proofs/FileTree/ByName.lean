/-
  ModuleBuild.Proofs.FileTree.ByName
  ──────────────────────────────────
  **WHERE NAMES END BY THEMSELVES.**

  Names say where a path ends if no link is met: each goes down, or up, or
  nowhere.  The normal form of a path ends where the path does, and so does
  its absolute form; but it passes other places, those that lie on the way
  to its end only, and on the way to the working directory.

  Main results:
    * `endOf_normalize`, `exists_absolute_normalize` — normal and absolute forms end where the path does;
    * `keeps_of_passed` — names keep to the grounds if all that they pass is seen and is no link;
    * `keepsPath_normalize` — a normal path does if all that lies on the way to its end is seen, and
      its links are at home.
-/
import ModuleBuild.Proofs.FileTree.Keeping
import ModuleBuild.Proofs.FileTree.Straight
import ModuleBuild.Proofs.Path.Resolving

namespace ModuleBuild

namespace FileTree

variable {t : FileTree} {g : Grounds} {goal : Location → Prop} {l k start : Location} {p : Text}
  {ns ms : List Text}

/-! ## §1. Ends. -/

/-- Where a path ends by its names alone. -/
def endOf (t : FileTree) (p : Text) : Location := (Path.names p).foldl stepFrom (t.startOf p)

/-- The places that names pass by themselves, the first and the last one included. -/
def passed : Location → List Text → List Location
  | l, [] => [l]
  | l, name :: rest => l :: passed (stepFrom l name) rest

theorem foldl_mem_passed : ∀ (ns : List Text) (l : Location), ns.foldl stepFrom l ∈ passed l ns
  | [], _ => List.mem_singleton_self _
  | name :: rest, l => List.mem_cons_of_mem _ (foldl_mem_passed rest (stepFrom l name))

theorem foldl_stepFrom_of_isName :
    ∀ {ns : List Text} (l : Location), (∀ m ∈ ns, Path.IsName m) →
      ns.foldl stepFrom l = l ++ ns.map Utf8.nameForm
  | [], l, _ => (List.append_nil l).symm
  | name :: rest, l, h => by
    have hname := h name (List.mem_cons_self ..)
    rw [List.foldl_cons, stepFrom_named hname.2.1 hname.2.2,
      foldl_stepFrom_of_isName _ fun m hm => h m (List.mem_cons_of_mem _ hm), List.map_cons,
      List.append_assoc, List.singleton_append]

theorem foldl_stepFrom_ups (ups : Nat) :
    ∀ l : Location, (List.replicate ups Path.up).foldl stepFrom l = l.take (l.length - ups) := by
  induction ups with
  | zero =>
    intro l
    rw [Nat.sub_zero, List.take_length]
    rfl
  | succ ups ih =>
    intro l
    rw [List.replicate_succ, List.foldl_cons, stepFrom_up, ih, List.length_dropLast,
      List.dropLast_eq_take, List.take_take]
    congr 1
    omega

/-- A name on a stack of names, last first, is one step more. -/
theorem foldl_stepFrom_pushName {rooted : Bool} (hstart : rooted = true → start = []) {name : Text}
    (hne : name ≠ []) {stack : List Text} (hstack : Path.here ∉ stack) :
    (Path.pushName rooted stack name).reverse.foldl stepFrom start
        = stepFrom (stack.reverse.foldl stepFrom start) name
      ∧ Path.here ∉ Path.pushName rooted stack name := by
  have hpushed : ∀ m : Text, (m :: stack).reverse.foldl stepFrom start
      = stepFrom (stack.reverse.foldl stepFrom start) m := by
    intro m
    rw [List.reverse_cons, List.foldl_append]
    rfl
  unfold Path.pushName
  by_cases hhere : name = Path.here
  · rw [if_pos (.inr hhere), hhere, stepFrom_here]
    exact ⟨rfl, hstack⟩
  rw [if_neg (by simp [hne, hhere])]
  by_cases hup : name = Path.up
  · subst hup
    rw [if_pos rfl, stepFrom_up]
    cases stack with
    | nil =>
      -- nothing is above the root
      cases rooted with
      | true =>
        rw [hstart rfl]
        exact ⟨rfl, hstack⟩
      | false => exact ⟨hpushed Path.up, by decide⟩
    | cons top rest =>
      obtain ⟨htop, hrest⟩ := not_or.1 (List.mem_cons.not.1 hstack)
      by_cases htopUp : top = Path.up
      · simp only [htopUp, if_true] at hpushed ⊢
        exact ⟨hpushed Path.up, by rw [List.mem_cons, List.mem_cons]; simp [hrest, up_ne_here.symm]⟩
      · -- the name on top is taken back
        simp only [htopUp, if_false]
        refine ⟨?_, hrest⟩
        rw [List.reverse_cons, List.foldl_append]
        show _ = (stepFrom (rest.reverse.foldl stepFrom start) top).dropLast
        rw [stepFrom_named (Ne.symm htop) htopUp, List.dropLast_concat]
  · rw [if_neg hup]
    exact ⟨hpushed name, List.mem_cons.not.2 (not_or.2 ⟨Ne.symm hhere, hstack⟩)⟩

/-- **Names in normal form end where they did.** -/
theorem foldl_stepFrom_normal {rooted : Bool} (hstart : rooted = true → start = []) :
    ∀ (ns stack : List Text), (∀ n ∈ ns, n ≠ []) → Path.here ∉ stack →
      (ns.foldl (Path.pushName rooted) stack).reverse.foldl stepFrom start
        = ns.foldl stepFrom (stack.reverse.foldl stepFrom start)
  | [], _, _, _ => rfl
  | name :: ns, stack, hne, hstack => by
    obtain ⟨hstep, hnext⟩ := foldl_stepFrom_pushName hstart (hne name (List.mem_cons_self ..)) hstack
    rw [List.foldl_cons, List.foldl_cons,
      foldl_stepFrom_normal hstart ns _ (fun n hn => hne n (List.mem_cons_of_mem _ hn)) hnext, hstep]

theorem startOf_eq_ite (t : FileTree) (p : Text) :
    t.startOf p = if Path.rootOf p = [] then t.workingDir else [] := by
  unfold startOf
  cases habs : Path.isAbsolute p with
  | false => rw [Path.rootOf_of_relative habs, if_neg Bool.false_ne_true, if_pos rfl]
  | true => rw [if_neg (Path.rootOf_ne_nil habs), if_pos rfl]

theorem foldl_normalNames (t : FileTree) (p : Text) :
    (Path.normalNames p).foldl stepFrom (t.startOf p) = t.endOf p := by
  have hne : ∀ n ∈ Path.names p, n ≠ [] := fun n hn => by simpa using (List.mem_filter.1 hn).2
  have hstart : decide (Path.rootOf p ≠ []) = true → t.startOf p = [] := by
    intro hroot
    rw [startOf_eq_ite, if_neg (by simpa using hroot)]
  rw [Path.normalNames_eq, foldl_stepFrom_normal hstart _ _ hne List.not_mem_nil]
  rfl

theorem startOf_normalize (t : FileTree) (p : Text) : t.startOf (Path.normalize p) = t.startOf p := by
  unfold startOf
  cases habs : Path.isAbsolute p with
  | true => rw [Path.isAbsolute_normalize habs]
  | false => rw [Path.isAbsolute_normalize_of_relative habs]

/-- The names of a normal path are those in normal form; a dot stands for none. -/
theorem names_normalize_cases (p : Text) :
    Path.names (Path.normalize p) = Path.normalNames p
      ∨ Path.normalNames p = [] ∧ Path.names (Path.normalize p) = [Path.here] := by
  have hnames := Path.names_written (Path.isRoot_rootOf p) (Path.tidy_normalNames p).isPart
  by_cases hbody : Path.written (Path.rootOf p) (Path.normalNames p) = []
  · rw [hbody] at hnames
    refine .inr ⟨hnames.symm, ?_⟩
    have hdot : Path.normalize p = Path.here := if_pos hbody
    rw [hdot]
    decide
  · have hnormal : Path.normalize p = Path.written (Path.rootOf p) (Path.normalNames p) := if_neg hbody
    rw [hnormal]
    exact .inl hnames

/-- **The normal form of a path ends where the path does.** -/
theorem endOf_normalize (t : FileTree) (p : Text) : t.endOf (Path.normalize p) = t.endOf p := by
  have hend := foldl_normalNames t p
  unfold endOf at hend ⊢
  rw [startOf_normalize]
  rcases names_normalize_cases p with hnames | ⟨hnil, hnames⟩
  · rw [hnames, hend]
  · rw [hnil] at hend
    rw [hnames, List.foldl_cons, stepFrom_here]
    exact hend

/-- What is seen from a directory ends behind it. -/
theorem endOf_join {q : Text} (hq : Path.isAbsolute q = false) (p : Text) :
    t.endOf (Path.join p q) = (Path.names q).foldl stepFrom (t.endOf p) := by
  have habs : Path.isAbsolute (Path.join p q) = Path.isAbsolute p := by
    cases hp : Path.isAbsolute p with
    | true => exact Path.isAbsolute_join hp q
    | false => exact Path.isAbsolute_join_of_relative hp hq
  unfold endOf startOf
  rw [habs, Path.names_join hq, List.foldl_append]

/-- Names that do not lead up go down, dots aside. -/
theorem foldl_stepFrom_of_ne_up :
    ∀ {ns : List Text} (l : Location), Path.up ∉ ns →
      ns.foldl stepFrom l = l ++ (ns.filter (· ≠ Path.here)).map Utf8.nameForm
  | [], l, _ => (List.append_nil l).symm
  | name :: rest, l, hup => by
    obtain ⟨hname, hrest⟩ := not_or.1 (List.mem_cons.not.1 hup)
    rw [List.foldl_cons, foldl_stepFrom_of_ne_up _ hrest]
    by_cases hhere : name = Path.here
    · rw [hhere, stepFrom_here, List.filter_cons_of_neg (by simp)]
    · rw [stepFrom_named hhere (Ne.symm hname), List.filter_cons_of_pos (by simpa using hhere),
        List.map_cons, List.append_assoc, List.singleton_append]

/-! ## §2. Names that keep to the grounds. -/

/-- **Names keep to the grounds if all that they pass is seen and is no link.** -/
theorem keeps_of_passed :
    ∀ {l : Location} {ns : List Text},
      (∀ k ∈ passed l ns, g.seen k ∧ ∀ path, t.entryAt? k ≠ some (.link path)) →
      goal (ns.foldl stepFrom l) → Keeps t g goal l ns
  | l, [], h, hgoal => ⟨(h l (List.mem_singleton_self _)).1, hgoal⟩
  | l, name :: rest, h, hgoal => by
    have hrest : ∀ k ∈ passed (stepFrom l name) rest, _ := fun k hk => h k (List.mem_cons_of_mem _ hk)
    have hnext : stepFrom l name ∈ passed (stepFrom l name) rest := by
      cases rest <;> exact List.mem_cons_self ..
    refine ⟨(h l (List.mem_cons_self ..)).1, fun _ _ hlink => ?_, keeps_of_passed hrest hgoal⟩
    obtain ⟨path, hpath⟩ := hlink
    exact absurd hpath ((hrest _ hnext).2 path)

/-- Names of things keep to the grounds if all that lies on the way to their end is seen, and its links
are at home. -/
theorem keeps_of_way :
    ∀ {l : Location} {ms : List Text}, (∀ m ∈ ms, Path.IsName m) →
      (∀ k, k <+: l ++ ms.map Utf8.nameForm → g.seen k
        ∧ ((∃ path, t.entryAt? k = some (.link path)) → g.home k)) →
      goal (l ++ ms.map Utf8.nameForm) → Keeps t g goal l ms
  | l, [], _, hway, hgoal => by
    rw [List.map_nil, List.append_nil] at hway hgoal
    exact ⟨(hway l List.prefix_rfl).1, hgoal⟩
  | l, name :: rest, hms, hway, hgoal => by
    have hname := hms name (List.mem_cons_self ..)
    have hrest : ∀ m ∈ rest, Path.IsName m := fun m hm => hms m (List.mem_cons_of_mem _ hm)
    have hmap : l ++ (name :: rest).map Utf8.nameForm
        = (l ++ [Utf8.nameForm name]) ++ rest.map Utf8.nameForm := by
      rw [List.map_cons, List.append_assoc, List.singleton_append]
    refine ⟨(hway l (List.prefix_append ..)).1, fun _ _ hlink => ⟨?_, hrest⟩, ?_⟩
    · rw [stepFrom_named hname.2.1 hname.2.2] at hlink ⊢
      exact (hway _ (hmap ▸ List.prefix_append ..)).2 hlink
    · rw [stepFrom_named hname.2.1 hname.2.2]
      rw [hmap] at hway hgoal
      exact keeps_of_way hrest hway hgoal

/-- Names that lead up pass what lies on the way to where they start. -/
theorem keeps_ups (ups : Nat) :
    ∀ {l : Location}, (∀ k, k <+: l → g.seen k) → Keeps t g goal (l.take (l.length - ups)) ns →
      Keeps t g goal l (List.replicate ups Path.up ++ ns) := by
  induction ups with
  | zero =>
    intro l _ h
    rwa [Nat.sub_zero, List.take_length] at h
  | succ ups ih =>
    intro l hseen h
    have hup : stepFrom l Path.up = l.dropLast := stepFrom_up
    rw [List.replicate_succ, List.cons_append]
    refine ⟨hseen l List.prefix_rfl, fun _ hne => absurd rfl hne, ?_⟩
    rw [hup]
    refine ih (fun k hk => hseen k (hk.trans (List.dropLast_prefix l))) ?_
    rw [List.length_dropLast, List.dropLast_eq_take, List.take_take]
    have hcount : min (l.length - 1 - ups) (l.length - 1) = l.length - (ups + 1) := by omega
    rwa [hcount]

/-- **A normal path keeps to the grounds** if all that lies on the way to its end does. -/
theorem keepsPath_normalize (hdir : ∀ k, k <+: t.workingDir → g.seen k)
    (hway : ∀ k, k <+: t.endOf p → g.seen k ∧ ((∃ path, t.entryAt? k = some (.link path)) → g.home k))
    (hgoal : goal (t.endOf p)) : KeepsPath t g goal (Path.normalize p) := by
  have hend := foldl_normalNames t p
  unfold KeepsPath
  rw [startOf_normalize]
  rcases names_normalize_cases p with hnames | ⟨hnil, hnames⟩
  · rw [hnames]
    obtain ⟨ups, ms, hsplit, hms, -⟩ := Path.tidy_normalNames p
    -- names that lead up pass what is above the start, and the others what is above the end
    rw [hsplit, List.foldl_append, foldl_stepFrom_ups, foldl_stepFrom_of_isName _ hms] at hend
    rw [hsplit]
    refine keeps_ups ups ?_ (keeps_of_way hms (hend ▸ hway) (hend ▸ hgoal))
    unfold startOf
    split
    · intro k hk
      rw [List.prefix_nil.1 hk]
      exact hdir [] List.nil_prefix
    · exact hdir
  · -- the path of the directory that it is seen from is a dot
    rw [hnil, List.foldl_nil] at hend
    rw [← hend] at hgoal hway
    have hseen := (hway _ List.prefix_rfl).1
    rw [hnames]
    refine ⟨hseen, fun hne => absurd rfl hne, ?_⟩
    rw [stepFrom_here]
    exact ⟨hseen, hgoal⟩

/-! ## §3. Absolute paths. -/

/-- **The absolute form of a path** is the normal form of one that ends where the path does. -/
theorem exists_absolute_normalize (ht : Proper t) (p : Text) :
    ∃ q, t.absolute p = Path.normalize q ∧ t.endOf q = t.endOf p := by
  cases habs : Path.isAbsolute p with
  | true => exact ⟨p, Path.resolveAgainst_of_isAbsolute habs, rfl⟩
  | false =>
    refine ⟨Path.join (pathOf t.workingDir) p, if_neg (by simp [habs]), ?_⟩
    have hdir : ∀ m ∈ t.workingDir, Path.IsName m := fun m hm => (ht.workingDir m hm).1
    have hself : t.workingDir.map Utf8.nameForm = t.workingDir :=
      (List.map_congr_left fun m hm => (ht.workingDir m hm).2).trans (List.map_id _)
    have hend : t.endOf (pathOf t.workingDir) = t.workingDir := by
      unfold endOf
      rw [pathOf_eq_written, Path.names_written (.inr (.inl rfl)) fun m hm => (hdir m hm).1,
        foldl_stepFrom_of_isName _ hdir, hself]
      exact List.nil_append _
    rw [endOf_join habs, hend]
    unfold endOf startOf
    rw [habs, if_neg Bool.false_ne_true]

/-- The directory above the end of an absolute path is seen. -/
theorem KeepsPath.dirName_absolute (h : KeepsPath t g (· ≠ []) (t.absolute p)) :
    KeepsPath t g g.seen (Path.dirName (t.absolute p)) := by
  have hstraight := straight_absolute t p
  unfold KeepsPath at h ⊢
  rw [startOf_straight t hstraight] at h
  rcases List.eq_nil_or_concat (Path.names (t.absolute p)) with hnil | ⟨init, n, hnames⟩
  · rw [hnil] at h
    exact absurd rfl h.2
  · rw [List.concat_eq_append] at hnames
    obtain ⟨habove, hinit⟩ := hstraight.dirName hnames
    rw [hnames] at h
    rw [startOf_straight t habove, hinit]
    exact h.init

end FileTree

end ModuleBuild
