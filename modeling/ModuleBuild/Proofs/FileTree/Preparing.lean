/-
  ModuleBuild.Proofs.FileTree.Preparing
  ─────────────────────────────────────
  **A FILE IS REPLACED IN STEPS.**

  To readers a file is replaced at once.  The system takes several steps for
  it: a new file is made beside the old one under a name that nothing has, the
  text is written to it, and it is moved to the path.  Any step may be
  refused, and the text may turn out to have no bytes when a part of it has
  been written; then the new file is removed again.

  Between the first step and the last the tree is the one before and one file
  more.  That file changes no way through the tree, so what the steps do can
  be told from the tree before: they come to the replacement at once, or leave
  every place as it was.

  Main results:
    * `makeFresh_cases` — a new file is made, or nothing is changed;
    * `Prepared.exists_moveFile`, `Prepared.moveFile_refused` — the move of the new file;
    * `replaceInSteps_cases` — the steps come to the replacement, or to nothing.
-/
import ModuleBuild.Proofs.FileTree.Holding
import ModuleBuild.Proofs.Run

namespace ModuleBuild

/-! ## §1. Prepared files. -/

namespace Path

/-- A path seen from a directory is a name behind what is the same for all names. -/
theorem exists_join_eq_append (dir : Text) :
    ∃ front, ∀ n : Text, isAbsolute n = false → join dir n = front ++ n := by
  by_cases hend : (dir.isEmpty || decide (dir.getLast? = some CodePoint.slash)) = true
  · refine ⟨dir, fun n hn => ?_⟩
    unfold join
    rw [hn, if_neg (by simp), if_pos hend]
  · refine ⟨dir ++ [CodePoint.slash], fun n hn => ?_⟩
    unfold join
    rw [hn, if_neg (by simp), if_neg hend, List.append_assoc]
    rfl

/-- The directory of a straight path is straight. -/
theorem Straight.dirName_of_any {p : Text} (h : Straight p) : Straight (Path.dirName p) := by
  rcases List.eq_nil_or_concat (names p) with hnil | ⟨ns, n, hns⟩
  · obtain ⟨root, hroot, hne, hwritten⟩ := h.written
    rw [hnil, written_nil] at hwritten
    have hdir : Path.dirName root = root := by
      rcases hroot with rfl | rfl | rfl
      · exact absurd rfl hne
      · decide
      · decide
    rw [hwritten, hdir, ← hwritten]
    exact h
  · rw [List.concat_eq_append] at hns
    exact (h.dirName hns).1

end Path

namespace FileTree

/-- The name of a prepared file. -/
def preparedName (letters : Text) : Text := Text.join [".typebuild-", letters, ".tmp"]

/-- Eight letters that are drawn for it: small ones, digits and low lines. -/
def IsDraw (letters : Text) : Prop :=
  letters.length = 8 ∧ ∀ c ∈ letters, c ∈ ("abcdefghijklmnopqrstuvwxyz0123456789_" : Text)

instance (letters : Text) : Decidable (IsDraw letters) := inferInstanceAs (Decidable (_ ∧ _))

variable {letters : Text}

/-- A character of the name is a letter that is drawn, or one of those around them. -/
theorem mem_preparedName (h : IsDraw letters) {c : CodePoint} (hc : c ∈ preparedName letters) :
    c ∈ (".-abcdefghijklmnopqrstuvwxyz0123456789_" : Text) := by
  have hfront : ∀ c ∈ (".typebuild-" : Text), c ∈ (".-abcdefghijklmnopqrstuvwxyz0123456789_" : Text) := by
    decide
  have hend : ∀ c ∈ (".tmp" : Text), c ∈ (".-abcdefghijklmnopqrstuvwxyz0123456789_" : Text) := by decide
  have hdrawn : ∀ c ∈ ("abcdefghijklmnopqrstuvwxyz0123456789_" : Text),
      c ∈ (".-abcdefghijklmnopqrstuvwxyz0123456789_" : Text) := by decide
  unfold preparedName at hc
  simp only [Text.join_cons, Text.join_nil, List.append_nil, List.mem_append] at hc
  rcases hc with hc | hc | hc
  · exact hfront c hc
  · exact hdrawn c (h.2 c hc)
  · exact hend c hc

theorem isName_preparedName (h : IsDraw letters) : Path.IsName (preparedName letters) := by
  have hslash : CodePoint.slash ∉ (".-abcdefghijklmnopqrstuvwxyz0123456789_" : Text) := by decide
  have hlong : 2 < (preparedName letters).length := by
    unfold preparedName
    simp only [Text.join_cons, Text.join_nil, List.append_nil, List.length_append]
    have hfront : (".typebuild-" : Text).length = 11 := by decide
    omega
  refine ⟨⟨fun hnil => ?_, fun hmem => hslash (mem_preparedName h hmem)⟩, fun hhere => ?_, fun hup => ?_⟩
  · rw [hnil] at hlong
    exact absurd hlong (by decide)
  · rw [hhere] at hlong
    exact absurd hlong (by decide)
  · rw [hup] at hlong
    exact absurd hlong (by decide)

theorem nameForm_preparedName (h : IsDraw letters) :
    Utf8.nameForm (preparedName letters) = preparedName letters := by
  have hplain : ∀ c ∈ (".-abcdefghijklmnopqrstuvwxyz0123456789_" : Text), Utf8.isEscapedByte c = false := by
    decide
  refine Utf8.nameForm_of_not_escaped ?_
  rw [List.any_eq_false]
  intro c hc
  rw [hplain c (mem_preparedName h hc)]
  exact Bool.false_ne_true

theorem nameable_preparedName (h : IsDraw letters) : Nameable (preparedName letters) := by
  have hall : ∀ c ∈ (".-abcdefghijklmnopqrstuvwxyz0123456789_" : Text),
      (c.isSurrogate = true → Utf8.isEscapedByte c = true) ∧ c.code ≠ 0 := by decide
  exact fun c hc => hall c (mem_preparedName h hc)

/-- Eight letters have seven bytes more than the one that is shown. -/
theorem byteCount_preparedName (h : IsDraw letters) :
    Utf8.byteCount (preparedName letters) = Utf8.byteCount (preparedName "X") + lettersNotShown := by
  have hone : ∀ c ∈ ("abcdefghijklmnopqrstuvwxyz0123456789_" : Text), Utf8.byteCount [c] = 1 := by
    decide
  have hcount : ∀ ls : Text, (∀ c ∈ ls, c ∈ ("abcdefghijklmnopqrstuvwxyz0123456789_" : Text)) →
      Utf8.byteCount ls = ls.length := by
    intro ls
    induction ls with
    | nil => exact fun _ => rfl
    | cons c ls ih =>
      intro hls
      have happend : Utf8.byteCount (c :: ls) = Utf8.byteCount [c] + Utf8.byteCount ls :=
        byteCount_append [c] ls
      rw [happend, hone c (hls c (List.mem_cons_self ..)),
        ih fun d hd => hls d (List.mem_cons_of_mem c hd), List.length_cons, Nat.add_comm]
  have hshown : Utf8.byteCount (preparedName "X") = 16 := by decide
  have hends : Utf8.byteCount ".typebuild-" = 11 ∧ Utf8.byteCount ".tmp" = 4 := by decide
  have hdrawn : Utf8.byteCount (preparedName letters) = 11 + (8 + 4) := by
    unfold preparedName
    simp only [Text.join_cons, Text.join_nil, List.append_nil]
    rw [byteCount_append, byteCount_append, hends.1, hends.2, hcount letters h.2, h.1]
  rw [hdrawn, hshown, lettersNotShown]

/-- The path of a prepared file in a directory. -/
def preparedIn (dir letters : Text) : Text := Path.join dir (preparedName letters)

variable {t s u : FileTree} {dir p : Text} {d e k m : Location} {bytes content : Bytes}

theorem straight_preparedIn (hdir : Path.Straight dir) (h : IsDraw letters) :
    Path.Straight (preparedIn dir letters)
      ∧ Path.names (preparedIn dir letters) = Path.names dir ++ [preparedName letters] :=
  hdir.join (isName_preparedName h)

theorem preparedPath_eq (t : FileTree) (p : Text) :
    t.preparedPath p = preparedIn (Path.dirName (t.absolute p)) "X" := by
  have hname : preparedName "X" = ".typebuild-X.tmp" := by decide
  unfold preparedPath preparedIn
  rw [hname]

/-- Whatever letters are drawn, a prepared file is made in the directory that was asked for with the
one letter that is shown. -/
theorem parentOf_preparedIn (hdir : Path.Straight dir) (h : IsDraw letters) :
    t.parentOf (preparedIn dir letters) = t.parentOfPrepared (preparedIn dir "X") := by
  have hshown : Path.IsName (preparedName "X") := by decide
  obtain ⟨front, hfront⟩ := Path.exists_join_eq_append dir
  have hcount : Utf8.byteCount (preparedIn dir letters)
      = Utf8.byteCount (preparedIn dir "X") + lettersNotShown := by
    unfold preparedIn
    rw [hfront _ (Path.isAbsolute_of_isPart (isName_preparedName h).1),
      hfront _ (Path.isAbsolute_of_isPart hshown.1), byteCount_append, byteCount_append,
      byteCount_preparedName h, Nat.add_assoc]
  obtain ⟨hstraight, hnames⟩ := straight_preparedIn hdir h
  obtain ⟨hstraight', hnames'⟩ := hdir.join hshown
  have hnamesShown : Path.names (preparedIn dir "X") = Path.names dir ++ [preparedName "X"] := hnames'
  have hne : preparedIn dir "X" ≠ [] := hstraight'.ne_nil
  have habsolute : Path.isAbsolute (preparedIn dir "X") = true := hstraight'.isAbsolute
  unfold parentOfPrepared parentOf
  rw [if_neg hstraight.ne_nil, hcount, if_neg hne]
  by_cases hlong : pathBytesLimit ≤ Utf8.byteCount (preparedIn dir "X") + lettersNotShown
  · rw [if_pos hlong, if_pos hlong]
  · have hshort : ¬ pathBytesLimit ≤ Utf8.byteCount (preparedIn dir "X") := fun hle =>
      hlong (hle.trans (Nat.le_add_right _ _))
    rw [if_neg hlong, if_neg hlong, if_neg hshort, hstraight.isAbsolute, habsolute, hnames,
      hnamesShown, List.dropLast_concat, List.dropLast_concat]

theorem checkPath_preparedIn (hdir : Path.Straight dir) (h : IsDraw letters) :
    checkPath (preparedIn dir letters) = .ok () ↔ checkPath (preparedIn dir "X") = .ok () := by
  have hshown : Path.IsName (preparedName "X") ∧ Nameable (preparedName "X") := by decide
  have hnamesShown : Path.names (preparedIn dir "X") = Path.names dir ++ [preparedName "X"] :=
    (hdir.join hshown.1).2
  rw [checkPath_eq_ok_iff, checkPath_eq_ok_iff, nameable_iff_names, nameable_iff_names, hnamesShown,
    (straight_preparedIn hdir h).2, List.forall_mem_append, List.forall_mem_append]
  refine and_congr_right fun _ => ?_
  rw [List.forall_mem_singleton, List.forall_mem_singleton]
  exact ⟨fun _ => hshown.2, fun _ => nameable_preparedName h⟩

/-- Where the prepared file is made. -/
theorem lastLocation_preparedIn (hdir : Path.Straight dir) (h : IsDraw letters)
    (hparent : t.parentOf (preparedIn dir letters) = .ok d) (dots : Ending → SystemFault) :
    t.lastLocation (preparedIn dir letters) dots = .ok (d ++ [preparedName letters]) := by
  have hname := isName_preparedName h
  have hending : ending (preparedIn dir letters) = .named (preparedName letters) := by
    unfold ending
    rw [(straight_preparedIn hdir h).2, List.getLast?_concat]
    simp only [hname.2.1, hname.2.2, if_false]
  have hshown : Utf8.byteCount (preparedName "X") + lettersNotShown ≤ maxNameBytes := by decide
  unfold lastLocation
  rw [hparent, hending]
  dsimp only
  rw [byteCount_preparedName h, if_neg (Nat.not_lt.2 hshown), nameForm_preparedName h]

/-- A path that takes a file is looked up in a directory. -/
theorem TakesFile.isDirectory_dropLast {dots : Ending → SystemFault} (h : t.TakesFile p)
    (hlast : t.lastLocation p dots = .ok m) : t.entryAt? m.dropLast = some .directory := by
  obtain ⟨init, n, d, hnames, hn, hleads, rfl⟩ := leads_of_lastLocation hlast
  rw [List.dropLast_concat]
  exact (h.last hnames hn hleads).1

/-! ## §2. Making a new file. -/

/-- Makes an empty file where nothing is. -/
def makeFile (t : FileTree) (p : Text) : Except Failure FileTree :=
  onPath p do
    let l ← t.lastLocation p fun _ => .exists
    match t.entryAt? l with
    | none => .ok (t.put l (.file []))
    | some _ => .error .exists

/-- A new file can be made beside others under drawn letters. -/
structure Fresh (t : FileTree) (dir letters : Text) (d : Location) : Prop where
  drawn : IsDraw letters
  check : checkPath (preparedIn dir letters) = .ok ()
  parent : t.parentOf (preparedIn dir letters) = .ok d
  vacant : t.entryAt? (d ++ [preparedName letters]) = none

/-- The directory of a new file is there. -/
theorem Fresh.isDirectory (hdir : Path.Straight dir) (h : Fresh t dir letters d) :
    t.entryAt? d = some .directory := by
  have hleads := leads_of_parentOf h.parent
  rw [startOf_straight t (straight_preparedIn hdir h.drawn).1] at hleads
  exact hleads.isDirectory rfl

theorem makeFile_of_fresh (hdir : Path.Straight dir) (h : Fresh t dir letters d) :
    t.makeFile (preparedIn dir letters) = .ok (t.put (d ++ [preparedName letters]) (.file [])) := by
  unfold makeFile onPath
  rw [h.check, lastLocation_preparedIn hdir h.drawn h.parent]
  simp only [bind, Except.bind, h.vacant]

/-- A name that is taken is refused as such; nothing else is. -/
theorem makeFile_refused (hdir : Path.Straight dir) (h : IsDraw letters)
    (hno : ∀ d, ¬ Fresh t dir letters d) :
    ∃ failure, t.makeFile (preparedIn dir letters) = .error failure
      ∧ (checkPath (preparedIn dir letters) = .ok () →
          ∀ d, t.parentOf (preparedIn dir letters) = .ok d →
            failure = .system .exists (preparedIn dir letters) none) := by
  unfold makeFile onPath
  cases hcheck : checkPath (preparedIn dir letters) with
  | error failure =>
    refine ⟨failure, rfl, fun hok => ?_⟩
    cases hok
  | ok _ =>
    cases hparent : t.parentOf (preparedIn dir letters) with
    | error fault =>
      refine ⟨.system fault (preparedIn dir letters) none, ?_, fun _ d hd => by cases hd⟩
      unfold lastLocation
      rw [hparent]
      rfl
    | ok d =>
      refine ⟨.system .exists (preparedIn dir letters) none, ?_, fun _ _ _ => rfl⟩
      rw [lastLocation_preparedIn hdir h hparent]
      cases hentry : t.entryAt? (d ++ [preparedName letters]) with
      | none => exact absurd ⟨h, hcheck, hparent, hentry⟩ (hno d)
      | some entry => simp only [bind, Except.bind, hentry]

/-- Whether a failure says that something is there already. -/
def saysTaken : Failure → Bool
  | .system .exists .. => true
  | _ => false

/-- Makes an empty file under the first of some letters that are free; the result is its path. -/
def makeFresh (dir : Text) : List Text → Edit Text
  | [] => throw (.system .exists dir none)
  | letters :: more =>
    tryCatch
      (do
        Edit.change (·.makeFile (preparedIn dir letters))
        return preparedIn dir letters)
      fun failure => if saysTaken failure then makeFresh dir more else throw failure

/-- **A new file is made, or nothing is changed**; it is made if any of the letters are free. -/
theorem makeFresh_cases (hdir : Path.Straight dir) (t : FileTree) :
    ∀ drawn : List Text, (∀ letters ∈ drawn, IsDraw letters) →
      (∃ failure, (makeFresh dir drawn).runOn t = (.error failure, t)
          ∧ ∀ letters ∈ drawn, ∀ d, ¬ Fresh t dir letters d)
        ∨ ∃ letters d, Fresh t dir letters d
            ∧ (makeFresh dir drawn).runOn t
              = (.ok (preparedIn dir letters), t.put (d ++ [preparedName letters]) (.file []))
  | [], _ => .inl ⟨_, rfl, fun _ h => absurd h List.not_mem_nil⟩
  | letters :: more, hdrawn => by
    have hhead : IsDraw letters := hdrawn letters (List.mem_cons_self ..)
    have htail : ∀ ls ∈ more, IsDraw ls := fun ls hls => hdrawn ls (List.mem_cons_of_mem _ hls)
    by_cases hfresh : ∃ d, Fresh t dir letters d
    · obtain ⟨d, hfresh⟩ := hfresh
      refine .inr ⟨letters, d, hfresh, ?_⟩
      unfold makeFresh
      rw [Edit.runOn_tryCatch, Edit.runOn_bind, Edit.run_change, makeFile_of_fresh hdir hfresh]
      rfl
    · have hno : ∀ d, ¬ Fresh t dir letters d := fun d hd => hfresh ⟨d, hd⟩
      obtain ⟨failure, hmake, htaken⟩ := makeFile_refused hdir hhead hno
      have hrun : (makeFresh dir (letters :: more)).runOn t
          = (if saysTaken failure then makeFresh dir more else throw failure : Edit Text).runOn t := by
        rw [makeFresh, Edit.runOn_tryCatch, Edit.runOn_bind, Edit.run_change, hmake]
      rw [hrun]
      by_cases hopen : checkPath (preparedIn dir letters) = .ok ()
          ∧ ∃ d, t.parentOf (preparedIn dir letters) = .ok d
      · -- the name is taken, and the others are tried
        obtain ⟨hcheck, d, hparent⟩ := hopen
        have hsays : saysTaken failure = true := by
          rw [htaken hcheck d hparent]
          rfl
        rw [if_pos hsays]
        rcases makeFresh_cases hdir t more htail with ⟨failure', hrest, hnone⟩ | hrest
        · exact .inl ⟨failure', hrest, List.forall_mem_cons.2 ⟨hno, hnone⟩⟩
        · exact .inr hrest
      · -- no file can be made there at all
        have hnever : ∀ ls, IsDraw ls → ∀ d, ¬ Fresh t dir ls d := by
          intro ls hls d hd
          refine hopen ⟨?_, d, ?_⟩
          · rw [checkPath_preparedIn hdir hhead, ← checkPath_preparedIn hdir hls]
            exact hd.check
          · rw [parentOf_preparedIn hdir hhead, ← parentOf_preparedIn hdir hls]
            exact hd.parent
        have hnone : ∀ ls ∈ letters :: more, ∀ d, ¬ Fresh t dir ls d := fun ls hls =>
          hnever ls (hdrawn ls hls)
        split
        · rcases makeFresh_cases hdir t more htail with ⟨failure', hrest, -⟩ | ⟨ls, d, hd, -⟩
          · exact .inl ⟨failure', hrest, hnone⟩
          · exact absurd hd (hnever ls hd.drawn d)
        · exact .inl ⟨failure, rfl, hnone⟩

/-! ## §3. A tree and one file more. -/

/-- A tree with a file where nothing is in another, and else the same. -/
structure Prepared (t : FileTree) (k : Location) (bytes : Bytes) (s : FileTree) : Prop where
  workingDir : s.workingDir = t.workingDir
  vacant : t.entryAt? k = none
  self : s.entryAt? k = some (.file bytes)
  other : ∀ j, j ≠ k → s.entryAt? j = t.entryAt? j

/-- Nothing lies where something is put, nor below. -/
theorem entryAt?_put_vacant {n : Text} {node : Node} (hd : t.entryAt? d = some .directory)
    (hvacant : t.entryAt? (d ++ [n]) = none) (hleaf : node.children = []) (j : Location) :
    (t.put (d ++ [n]) node).entryAt? j = if j = d ++ [n] then some node.entry else t.entryAt? j := by
  rw [entryAt?_put_leaf hd hleaf]
  by_cases hj : j = d ++ [n]
  · rw [if_pos hj, if_pos hj]
  · rw [if_neg hj, if_neg hj]
    by_cases hpre : d ++ [n] <+: j
    · rw [if_pos hpre, entryAt?_eq_none_of_below hvacant hpre]
    · rw [if_neg hpre]

theorem prepared_put {n : Text} (hd : t.entryAt? d = some .directory)
    (hvacant : t.entryAt? (d ++ [n]) = none) (bytes : Bytes) :
    Prepared t (d ++ [n]) bytes (t.put (d ++ [n]) (.file bytes)) where
  workingDir := by simp
  vacant := hvacant
  self := by
    rw [entryAt?_put_vacant hd hvacant rfl, if_pos rfl]
    rfl
  other j hj := by rw [entryAt?_put_vacant hd hvacant rfl, if_neg hj]

namespace Prepared

variable {n : Text} {q : Text} {init : List Text} {aim : Aim}

/-- The directory of the file is there. -/
theorem isDirectory (h : Prepared t (d ++ [n]) bytes s) : s.entryAt? d = some .directory :=
  isDirectory_of_append (by rw [h.self]; simp)

/-- The file is written again. -/
theorem put (h : Prepared t (d ++ [n]) bytes s) (content : Bytes) :
    Prepared t (d ++ [n]) content (s.put (d ++ [n]) (.file content)) where
  workingDir := by rw [workingDir_put, h.workingDir]
  vacant := h.vacant
  self := by
    rw [entryAt?_put_leaf h.isDirectory rfl, if_pos rfl]
    rfl
  other j hj := by
    rw [entryAt?_put_leaf h.isDirectory rfl, if_neg hj]
    by_cases hpre : d ++ [n] <+: j
    · rw [if_pos hpre, entryAt?_eq_none_of_below h.vacant hpre]
    · rw [if_neg hpre, h.other j hj]

/-- Without the file the tree is what it was. -/
theorem entryAt?_remove (h : Prepared t (d ++ [n]) bytes s) (j : Location) :
    (s.remove (d ++ [n])).entryAt? j = t.entryAt? j := by
  rw [entryAt?_remove_concat]
  by_cases hpre : d ++ [n] <+: j
  · rw [if_pos hpre, entryAt?_eq_none_of_below h.vacant hpre]
  · rw [if_neg hpre]
    exact h.other j fun hj => hpre (hj ▸ List.prefix_rfl)

/-- The file is on no way: neither tree has a directory or a link that the other has not. -/
theorem grows (h : Prepared t k bytes s) : Grows t s ∧ Grows s t := by
  constructor
  · intro j entry hj _
    rw [h.other j fun hk => ?_, hj]
    rw [hk, h.vacant] at hj
    cases hj
  · intro j entry hj hfile
    by_cases hk : j = k
    · rw [hk, h.self] at hj
      exact absurd (Option.some.inj hj).symm (hfile bytes)
    · rw [← h.other j hk, hj]

theorem parentOf_iff (h : Prepared t k bytes s) : s.parentOf p = .ok e ↔ t.parentOf p = .ok e := by
  have hsame : ∀ {t s : FileTree}, s.workingDir = t.workingDir → Grows t s → t.parentOf p = .ok e →
      s.parentOf p = .ok e := by
    intro t s hdir hgrows hparent
    have hfollow := (leads_of_parentOf hparent).follow_eq hgrows maxLinks
    rw [← hparent]
    unfold FileTree.parentOf
    unfold startOf at hfollow
    rw [hdir, hfollow]
  exact ⟨hsame h.workingDir.symm h.grows.2, hsame h.workingDir h.grows.1⟩

theorem lastLocation_iff (h : Prepared t k bytes s) {dots : Ending → SystemFault} :
    s.lastLocation p dots = .ok m ↔ t.lastLocation p dots = .ok m := by
  have hsame : ∀ {t s : FileTree}, (∀ e, t.parentOf p = .ok e → s.parentOf p = .ok e) →
      t.lastLocation p dots = .ok m → s.lastLocation p dots = .ok m := by
    intro t s hparents hlast
    unfold lastLocation at hlast ⊢
    cases hparent : t.parentOf p with
    | error fault =>
      rw [hparent] at hlast
      cases hlast
    | ok e =>
      rw [hparent] at hlast
      rw [hparents e hparent]
      exact hlast
  exact ⟨hsame fun e => h.parentOf_iff.1, hsame fun e => h.parentOf_iff.2⟩

/-- The prepared file is found at its path. -/
theorem locate (h : Prepared t (d ++ [preparedName letters]) bytes s) (hdir : Path.Straight dir)
    (hfresh : Fresh t dir letters d) (aim : Aim) :
    s.locate aim (preparedIn dir letters) = .ok (.occupied (d ++ [preparedName letters])) := by
  obtain ⟨hstraight, hnames⟩ := straight_preparedIn hdir hfresh.drawn
  have hname := isName_preparedName hfresh.drawn
  have hparent := h.parentOf_iff.2 hfresh.parent
  have hslash : Text.endsWith (preparedIn dir letters) "/" = false :=
    hstraight.not_slash (by rw [hnames]; simp)
  -- the directory of the path was found, so the path is no longer than the system takes
  have hlong : ¬ pathBytesLimit ≤ Utf8.byteCount (preparedIn dir letters) := by
    intro hlong
    unfold parentOf at hparent
    rw [if_neg hstraight.ne_nil, if_pos hlong] at hparent
    cases hparent
  have hinit : follow s .target true maxLinks [] (Path.names dir) = .ok (.occupied d) := by
    unfold parentOf at hparent
    rw [if_neg hstraight.ne_nil, if_neg hlong, if_pos hstraight.isAbsolute, hnames,
      List.dropLast_concat] at hparent
    split at hparent
    · rename_i hfollow
      cases hparent
      exact hfollow
    · cases hparent
    · cases hparent
  have hshown : Utf8.byteCount (preparedName "X") + lettersNotShown ≤ maxNameBytes := by decide
  refine locate_eq_ok_iff.2 ⟨hfresh.check, hstraight.ne_nil, hlong, ?_⟩
  rw [hslash, if_pos hstraight.isAbsolute, hnames]
  obtain ⟨links', hlast⟩ := exists_follow_concat hinit aim false (preparedName letters)
  rw [hlast, follow_named hname.2.1 hname.2.2, if_neg (by simp), byteCount_preparedName hfresh.drawn,
    if_neg (Nat.not_lt.2 hshown), nameForm_preparedName hfresh.drawn, h.self]
  rfl

end Prepared

/-! ## §4. The steps. -/

/-- Writes a text to a prepared file; of one without bytes only a part is written. -/
def fill (prepared : Text) (partly : Bytes) (content : Text) : Edit Unit :=
  match Utf8.encode content with
  | .ok bytes => Edit.change (·.writeBytes prepared bytes)
  | .error fault => do
    Edit.change (·.writeBytes prepared partly)
    throw (.unencodable fault)

/-- Moves a file to a path, which must not ask for a directory. -/
def moveFile (t : FileTree) (source p : Text) : Except Failure FileTree :=
  if Text.endsWith p "/" then .error (.system .notDirectory source (some p)) else t.move source p

/-- Replaces the content of a file step by step.  The letters are tried in turn for the name of a new
file beside the old one; `partly` is what is written of a text before it turns out to have no bytes.
When a step is refused, the new file is removed. -/
def replaceInSteps (drawn : List Text) (partly : Bytes) (p content : Text) : Edit Unit := do
  let dir ← Edit.view fun t => Path.dirName (t.absolute p)
  let prepared ← makeFresh dir drawn
  tryCatch
    (do
      fill prepared partly content
      Edit.change (·.moveFile prepared p))
    fun failure => do
      if ← Edit.view (·.pathExists prepared) then Edit.change (·.removeFile prepared)
      throw failure

/-- A file is a node of its own. -/
theorem nodeAt?_of_file (h : t.entryAt? k = some (.file bytes)) : t.nodeAt? k = some (.file bytes) := by
  have hmap : (t.top.nodeAt? k).map Node.entry = some (.file bytes) ∨ k = [] := by
    cases k with
    | nil => exact .inr rfl
    | cons name rest => exact .inl h
  rcases hmap with hmap | rfl
  · obtain ⟨node, hnode, hentry⟩ := Option.map_eq_some_iff.1 hmap
    cases node with
    | file content =>
      cases hentry
      exact hnode
    | directory ds => cases hentry
    | link path => cases hentry
  · cases h

/-- A file that was put in the place of what lay there, place by place. -/
theorem entryAt?_replaced {n : Text} (hparent : t.entryAt? e = some .directory) (bytes : Bytes)
    (j : Location) :
    ((t.remove (e ++ [n])).put (e ++ [n]) (.file bytes)).entryAt? j
      = if j = e ++ [n] then some (.file bytes) else if e ++ [n] <+: j then none else t.entryAt? j := by
  have hdir : (t.remove (e ++ [n])).entryAt? e = some .directory := by
    rw [entryAt?_remove_concat, if_neg (not_prefix_of_concat e n), hparent]
  rw [entryAt?_put_leaf hdir rfl, entryAt?_remove_concat]
  split
  · rfl
  · split <;> rfl

section Steps

variable {bytes partly : Bytes} (hdir : Path.Straight dir) (hfresh : Fresh t dir letters d)

include hdir hfresh

/-- The prepared file is written. -/
theorem Prepared.writeBytes (h : Prepared t (d ++ [preparedName letters]) bytes s) (content : Bytes) :
    s.writeBytes (preparedIn dir letters) content
      = .ok (s.put (d ++ [preparedName letters]) (.file content)) := by
  unfold FileTree.writeBytes fileAt
  rw [h.locate hdir hfresh .file]
  simp only [h.self]
  rfl

/-- The prepared file is removed, and every place is as it was. -/
theorem Prepared.removed (h : Prepared t (d ++ [preparedName letters]) bytes s) (failure : Failure) :
    ∃ u, (do
        if ← Edit.view (·.pathExists (preparedIn dir letters)) then
          Edit.change (·.removeFile (preparedIn dir letters))
        throw failure : Edit Unit).runOn s = (.error failure, u)
      ∧ u.workingDir = t.workingDir ∧ ∀ j, u.entryAt? j = t.entryAt? j := by
  have hstraight := (straight_preparedIn hdir hfresh.drawn).1
  have hnames := (straight_preparedIn hdir hfresh.drawn).2
  have hexists : s.pathExists (preparedIn dir letters) = true := by
    unfold pathExists find?
    rw [h.locate hdir hfresh .target]
    simp only [h.self, Option.isSome_some]
  have hslash : Text.endsWith (preparedIn dir letters) "/" = false :=
    hstraight.not_slash (by rw [hnames]; simp)
  have hremove : s.removeFile (preparedIn dir letters)
      = .ok (s.remove (d ++ [preparedName letters])) := by
    unfold removeFile onPath
    rw [hfresh.check, lastLocation_preparedIn hdir hfresh.drawn (h.parentOf_iff.2 hfresh.parent)]
    simp only [bind, Except.bind, h.self, hslash, Bool.false_eq_true, if_false]
  refine ⟨s.remove (d ++ [preparedName letters]), ?_, ?_, h.entryAt?_remove⟩
  · rw [Edit.runOn_bind, Edit.runOn_view, hexists]
    dsimp only
    rw [if_pos rfl, Edit.runOn_bind, Edit.run_change, hremove]
    rfl
  · rw [workingDir_remove, h.workingDir]

/-- A move of the prepared file that is refused for the path to which it goes. -/
theorem Prepared.moveFile_refused (h : Prepared t (d ++ [preparedName letters]) bytes s)
    (hno : ¬ (checkPath p = .ok () ∧ Text.endsWith p "/" = false
      ∧ ∃ m, t.lastLocation p (fun _ => .busy) = .ok m ∧ t.isDirectory m = false)) :
    ∃ failure, s.moveFile (preparedIn dir letters) p = .error failure := by
  unfold moveFile move onMove
  rw [hfresh.check]
  cases hslash : Text.endsWith p "/" with
  | true => exact ⟨_, rfl⟩
  | false =>
    cases hcheck : checkPath p with
    | error failure => exact ⟨failure, rfl⟩
    | ok _ =>
      rw [lastLocation_preparedIn hdir hfresh.drawn (h.parentOf_iff.2 hfresh.parent)]
      cases hlast : s.lastLocation p fun _ => .busy with
      | error fault => exact ⟨_, rfl⟩
      | ok m =>
        -- what is left is a directory in the way
        have hfinal := h.lastLocation_iff.1 hlast
        have hdirectory : t.entryAt? m = some .directory := by
          by_contra hleaf
          exact hno ⟨hcheck, hslash, m, hfinal, decide_eq_false hleaf⟩
        have hne : m ≠ d ++ [preparedName letters] := by
          rintro rfl
          rw [h.vacant] at hdirectory
          cases hdirectory
        have hfault : s.moveFault (.file bytes) m = some .isDirectory := by
          unfold moveFault
          rw [h.other m hne, hdirectory]
          rfl
        simp only [bind, Except.bind, Bool.false_eq_true, if_false, nodeAt?_of_file h.self,
          if_neg hne.symm, hfault]
        by_cases hpre : d ++ [preparedName letters] <+: m
        · rw [if_pos hpre]
          exact ⟨_, rfl⟩
        · rw [if_neg hpre]
          exact ⟨_, rfl⟩

/-- What the move of the prepared file to a path that takes it does. -/
theorem Prepared.moveFile_eq (h : Prepared t (d ++ [preparedName letters]) bytes s)
    (hcheck : checkPath p = .ok ()) (hslash : Text.endsWith p "/" = false)
    (hlast : t.lastLocation p (fun _ => .busy) = .ok m) (hleaf : t.entryAt? m ≠ some .directory)
    (hparent : t.entryAt? m.dropLast = some .directory) :
    s.moveFile (preparedIn dir letters) p
      = .ok (if d ++ [preparedName letters] = m then s
          else ((s.remove (d ++ [preparedName letters])).remove m).put m (.file bytes)) := by
  unfold moveFile move onMove
  rw [hfresh.check, hslash, hcheck, h.lastLocation_iff.2 hlast,
    lastLocation_preparedIn hdir hfresh.drawn (h.parentOf_iff.2 hfresh.parent)]
  simp only [bind, Except.bind, Bool.false_eq_true, if_false, nodeAt?_of_file h.self]
  by_cases hsame : d ++ [preparedName letters] = m
  · rw [if_pos hsame, if_pos hsame]
  -- nothing is below the prepared file, so the destination is not
  · have hbelow : ¬ d ++ [preparedName letters] <+: m := by
      intro hpre
      have habove : t.entryAt? m.dropLast = none := by
        obtain ⟨rest, rfl⟩ := hpre
        have hrest : rest ≠ [] := by
          rintro rfl
          exact hsame (List.append_nil _).symm
        rw [List.dropLast_append_of_ne_nil hrest]
        exact entryAt?_eq_none_of_below h.vacant (List.prefix_append _ _)
      rw [habove] at hparent
      cases hparent
    -- the move takes the place of what lies there, unless it is a directory
    have hfault : s.moveFault (.file bytes) m = none := by
      unfold moveFault
      rw [h.other _ fun heq => hsame heq.symm]
      cases hentry : t.entryAt? m with
      | none => rfl
      | some entry =>
        cases entry with
        | directory => exact absurd hentry hleaf
        | file content => rfl
        | link path => rfl
    rw [if_neg hsame, if_neg hsame, if_neg hbelow, hfault]

/-- **The move of the prepared file** leaves what the replacement at once does. -/
theorem Prepared.exists_moveFile (h : Prepared t (d ++ [preparedName letters]) bytes s)
    (hcheck : checkPath p = .ok ()) (hslash : Text.endsWith p "/" = false)
    (hlast : t.lastLocation p (fun _ => .busy) = .ok m) (hleaf : t.isDirectory m = false)
    (hparent : t.entryAt? m.dropLast = some .directory) :
    ∃ u, s.moveFile (preparedIn dir letters) p = .ok u ∧ u.workingDir = t.workingDir
      ∧ ∀ j, u.entryAt? j = ((t.remove m).put m (.file bytes)).entryAt? j := by
  refine ⟨_, h.moveFile_eq hdir hfresh hcheck hslash hlast (of_decide_eq_false hleaf) hparent, ?_⟩
  obtain ⟨init, x, e, -, -, -, rfl⟩ := leads_of_lastLocation hlast
  rw [List.dropLast_concat] at hparent
  split
  · -- the path names the prepared file itself
    rename_i hsame
    rw [← hsame]
    have hd : t.entryAt? d = some .directory := hfresh.isDirectory hdir
    refine ⟨h.workingDir, fun j => ?_⟩
    rw [entryAt?_replaced hd]
    by_cases hj : j = d ++ [preparedName letters]
    · rw [if_pos hj, hj, h.self]
    · rw [if_neg hj, h.other j hj]
      by_cases hpre : d ++ [preparedName letters] <+: j
      · rw [if_pos hpre, entryAt?_eq_none_of_below h.vacant hpre]
      · rw [if_neg hpre]
  · refine ⟨by simp [h.workingDir], fun j => ?_⟩
    rw [entryAt?_replaced hparent, entryAt?_replaced ((h.entryAt?_remove e).trans hparent),
      h.entryAt?_remove]

/-- A text without bytes leaves the part of it that was written. -/
theorem Prepared.fill_of_fault (h : Prepared t (d ++ [preparedName letters]) bytes s)
    {text : Text} {fault : Utf8.EncodeFault} (hencode : Utf8.encode text = .error fault) :
    (fill (preparedIn dir letters) partly text).runOn s
      = (.error (.unencodable fault), s.put (d ++ [preparedName letters]) (.file partly)) := by
  unfold fill
  rw [hencode]
  dsimp only
  rw [Edit.runOn_bind, Edit.run_change, h.writeBytes hdir hfresh]
  rfl

/-- A text that has bytes is written whole. -/
theorem Prepared.fill_of_bytes (h : Prepared t (d ++ [preparedName letters]) bytes s)
    {text : Text} {content : Bytes} (hencode : Utf8.encode text = .ok content) :
    (fill (preparedIn dir letters) partly text).runOn s
      = (.ok (), s.put (d ++ [preparedName letters]) (.file content)) := by
  unfold fill
  rw [hencode]
  dsimp only
  rw [Edit.run_change, h.writeBytes hdir hfresh]

end Steps

/-- What is in the way of a replacement. -/
theorem replaceText_refused {text : Text}
    (hno : ¬ ((checkPath p = .ok () ∧ Text.endsWith p "/" = false
        ∧ ∃ m, t.lastLocation p (fun _ => .busy) = .ok m ∧ t.isDirectory m = false)
      ∧ ∃ bytes, Utf8.encode text = .ok bytes)) :
    ∃ failure, t.replaceText p text = .error failure := by
  cases hreplace : t.replaceText p text with
  | error failure => exact ⟨failure, rfl⟩
  | ok t' =>
    obtain ⟨-, hcheck, hslash, m, hlast, hleaf, bytes, hencode, -⟩ := replaceText_eq_ok_iff.1 hreplace
    exact absurd ⟨⟨hcheck, hslash, m, hlast, hleaf⟩, bytes, hencode⟩ hno

/-- **The steps come to the replacement, or to nothing.**  When they end well, so does the replacement
at once, and every place is as that leaves it.  When a step is refused, every place is as it was; and
if a file could be made under one of the drawn names, the replacement at once is refused, too. -/
theorem replaceInSteps_cases {drawn : List Text} (hdrawn : ∀ letters ∈ drawn, IsDraw letters)
    (htakes : t.TakesFile p) (partly : Bytes) (text : Text) :
    (∃ u t', (replaceInSteps drawn partly p text).runOn t = (.ok (), u)
        ∧ t.replaceText p text = .ok t' ∧ u.workingDir = t'.workingDir
        ∧ ∀ j, u.entryAt? j = t'.entryAt? j)
      ∨ ∃ failure u, (replaceInSteps drawn partly p text).runOn t = (.error failure, u)
          ∧ u.workingDir = t.workingDir ∧ (∀ j, u.entryAt? j = t.entryAt? j)
          ∧ ((∃ letters ∈ drawn, ∃ d, Fresh t (Path.dirName (t.absolute p)) letters d) →
              ∃ failure', t.replaceText p text = .error failure') := by
  have hdir : Path.Straight (Path.dirName (t.absolute p)) := (straight_absolute t p).dirName_of_any
  have hstart : ∀ {rest : Text → Edit Unit},
      (do
        let dir ← Edit.view fun t => Path.dirName (t.absolute p)
        let prepared ← makeFresh dir drawn
        rest prepared : Edit Unit).runOn t
        = (makeFresh (Path.dirName (t.absolute p)) drawn >>= rest).runOn t := by
    intro rest
    rw [Edit.runOn_bind, Edit.runOn_view]
  unfold replaceInSteps
  rw [hstart, Edit.runOn_bind]
  rcases makeFresh_cases hdir t drawn hdrawn with ⟨failure, hmake, hnone⟩ | ⟨letters, d, hfresh, hmake⟩
  · rw [hmake]
    exact .inr ⟨failure, t, rfl, rfl, fun _ => rfl, fun ⟨letters, hmem, d, hd⟩ =>
      absurd hd (hnone letters hmem d)⟩
  · rw [hmake]
    dsimp only
    have hmade := prepared_put (hfresh.isDirectory hdir) hfresh.vacant []
    rw [Edit.runOn_tryCatch, Edit.runOn_bind]
    cases hencode : Utf8.encode text with
    | error fault =>
      -- a part of the text is written when it turns out to have no bytes
      obtain ⟨u, hrun, hworkingDir, hentries⟩ :=
        (hmade.put partly).removed hdir hfresh (.unencodable fault)
      rw [hmade.fill_of_fault hdir hfresh hencode]
      refine .inr ⟨_, u, hrun, hworkingDir, hentries, fun _ => ?_⟩
      refine replaceText_refused fun ⟨_, bytes, hbytes⟩ => ?_
      rw [hencode] at hbytes
      cases hbytes
    | ok bytes =>
      have hwritten := hmade.put bytes
      rw [hmade.fill_of_bytes hdir hfresh hencode]
      dsimp only
      rw [Edit.run_change]
      by_cases hcan : checkPath p = .ok () ∧ Text.endsWith p "/" = false
          ∧ ∃ m, t.lastLocation p (fun _ => .busy) = .ok m ∧ t.isDirectory m = false
      · obtain ⟨hcheck, hslash, m, hlast, hleaf⟩ := hcan
        obtain ⟨u, hmove, hworkingDir, hentries⟩ := hwritten.exists_moveFile hdir hfresh hcheck hslash
          hlast hleaf (htakes.isDirectory_dropLast hlast)
        rw [hmove]
        refine .inl ⟨u, _, rfl, replaceText_eq_ok_iff.2 ⟨⟨?_, d, ?_⟩, hcheck, hslash, m, hlast, hleaf,
          bytes, hencode, rfl⟩, ?_, hentries⟩
        · rw [preparedPath_eq, ← checkPath_preparedIn hdir hfresh.drawn]
          exact hfresh.check
        · rw [preparedPath_eq, ← parentOf_preparedIn hdir hfresh.drawn]
          exact hfresh.parent
        · rw [hworkingDir, workingDir_put, workingDir_remove]
      · obtain ⟨failure, hmove⟩ := hwritten.moveFile_refused hdir hfresh hcan
        obtain ⟨u, hrun, hworkingDir, hentries⟩ := hwritten.removed hdir hfresh failure
        rw [hmove]
        exact .inr ⟨failure, u, hrun, hworkingDir, hentries, fun _ =>
          replaceText_refused fun h => hcan h.1⟩

end FileTree

end ModuleBuild
