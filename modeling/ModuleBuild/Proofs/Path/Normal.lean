/-
  ModuleBuild.Proofs.Path.Normal
  ──────────────────────────────
  **WHAT A NORMAL PATH LOOKS LIKE.**

  In a normal path names that lead up stand in front of all others, an
  absolute one has none of them, and there is nothing else made of dots: only
  the path of the current directory itself is a dot.  A normal path is its own
  normal form, and seen from a directory it goes up as many names as it says.

  Main results:
    * `normalize_cases` — a normal path is a dot or a tidy list of names;
    * `normalize_written` — a tidy list of names is in normal form;
    * `absolute_written` — the absolute form of a relative path.
-/
import ModuleBuild.FileTree.Resolve
import ModuleBuild.Proofs.Path.Written

namespace ModuleBuild

namespace Path

/-! ## §1. Tidy names. -/

/-- An absolute path starts with something, a relative one with nothing. -/
theorem rootOf_ne_nil {p : Text} (h : isAbsolute p = true) : rootOf p ≠ [] := by
  unfold rootOf
  rw [if_pos h]
  split <;> decide

theorem isAbsolute_normalize {p : Text} (h : isAbsolute p = true) :
    isAbsolute (normalize p) = true := by
  have hroot : isAbsolute (rootOf p) = true := by
    unfold rootOf
    rw [if_pos h]
    split <;> decide
  unfold normalize
  dsimp only
  split
  · rename_i hnil
    rw [List.append_eq_nil_iff] at hnil
    rw [hnil.1] at hroot
    cases hroot
  · exact isAbsolute_append hroot _


/-- Names that lead up, then names of things; an absolute path has none of the first. -/
def Tidy (rooted : Bool) (ns : List Text) : Prop :=
  ∃ ups ms, ns = List.replicate ups up ++ ms ∧ (∀ m ∈ ms, IsName m) ∧ (rooted = true → ups = 0)

theorem Tidy.isPart {rooted : Bool} {ns : List Text} (h : Tidy rooted ns) : ∀ m ∈ ns, IsPart m := by
  obtain ⟨ups, ms, rfl, hms, -⟩ := h
  intro m hm
  rcases List.mem_append.1 hm with hm | hm
  · rw [List.eq_of_mem_replicate hm]
    exact isPart_up
  · exact (hms m hm).1

theorem tidy_of_isName {rooted : Bool} {ns : List Text} (h : ∀ m ∈ ns, IsName m) : Tidy rooted ns :=
  ⟨0, ns, rfl, h, fun _ => rfl⟩

/-- In front of a last name stand names that lead up, then names of things. -/
theorem Tidy.concat {rooted : Bool} {init : List Text} {n : Text} (h : Tidy rooted (init ++ [n]))
    (hn : IsName n) :
    ∃ ups ms, init = List.replicate ups up ++ ms ∧ (∀ m ∈ ms, IsName m) ∧
      (rooted = true → ups = 0) := by
  obtain ⟨ups, ms, hns, hms, hrooted⟩ := h
  rcases List.eq_nil_or_concat ms with rfl | ⟨ms', m, rfl⟩
  · rw [List.append_nil] at hns
    have hmem : n ∈ List.replicate ups up := hns ▸ by simp
    exact absurd (List.eq_of_mem_replicate hmem) hn.2.2
  · rw [List.concat_eq_append, ← List.append_assoc] at hns
    obtain ⟨hinit, -⟩ := List.append_inj' hns rfl
    exact ⟨ups, ms', hinit, fun k hk => hms k (by simp [hk]), hrooted⟩

/-- Without their last name tidy names are tidy. -/
theorem Tidy.init {rooted : Bool} {init : List Text} {n : Text} (h : Tidy rooted (init ++ [n])) :
    Tidy rooted init := by
  obtain ⟨ups, ms, hns, hms, hrooted⟩ := h
  rcases List.eq_nil_or_concat ms with rfl | ⟨ms', m, rfl⟩
  · rw [List.append_nil] at hns
    cases ups with
    | zero => simp at hns
    | succ ups =>
      rw [List.replicate_succ'] at hns
      obtain ⟨hinit, -⟩ := List.append_inj' hns rfl
      refine ⟨ups, [], by rw [hinit, List.append_nil], by simp, ?_⟩
      intro hr
      cases hrooted hr
  · rw [List.concat_eq_append, ← List.append_assoc] at hns
    obtain ⟨hinit, -⟩ := List.append_inj' hns rfl
    exact ⟨ups, ms', hinit, fun k hk => hms k (by simp [hk]), hrooted⟩

/-- In front of a name that leads up all names do. -/
theorem Tidy.eq_replicate {rooted : Bool} {init : List Text} (h : Tidy rooted (init ++ [up])) :
    ∃ ups, init = List.replicate ups up := by
  obtain ⟨ups, ms, hns, hms, -⟩ := h
  rcases List.eq_nil_or_concat ms with rfl | ⟨ms', m, rfl⟩
  · rw [List.append_nil] at hns
    refine ⟨init.length, List.eq_replicate_iff.2 ⟨rfl, fun m hm => ?_⟩⟩
    have hmem : m ∈ List.replicate ups up := hns ▸ by simp [hm]
    exact List.eq_of_mem_replicate hmem
  · rw [List.concat_eq_append, ← List.append_assoc] at hns
    obtain ⟨-, hlast⟩ := List.append_inj' hns rfl
    cases hlast
    exact absurd rfl (hms up (by simp)).2.2

theorem Tidy.ne_here {rooted : Bool} {ns : List Text} (h : Tidy rooted ns) : ∀ m ∈ ns, m ≠ here := by
  obtain ⟨ups, ms, rfl, hms, -⟩ := h
  intro m hm
  rcases List.mem_append.1 hm with hm | hm
  · rw [List.eq_of_mem_replicate hm]
    decide
  · exact (hms m hm).2.1

/-- The stack of a normal form, from the names below the top on. -/
def TidyStack (rooted : Bool) (stack : List Text) : Prop := Tidy rooted stack.reverse

theorem up_ne_here : up ≠ here := by decide

theorem tidyStack_pushName {rooted : Bool} {stack : List Text} (h : TidyStack rooted stack)
    {name : Text} (hname : CodePoint.slash ∉ name) : TidyStack rooted (pushName rooted stack name) := by
  unfold pushName
  by_cases hskip : name = [] ∨ name = here
  · rw [if_pos hskip]
    exact h
  · rw [if_neg hskip]
    obtain ⟨ups, ms, hstack, hms, hrooted⟩ := h
    by_cases hup : name = up
    · rw [if_pos hup]
      rcases List.eq_nil_or_concat ms with rfl | ⟨init, m, rfl⟩
      · -- only names that lead up are on the stack
        rw [List.append_nil] at hstack
        have hrev : stack = List.replicate ups up := by
          rw [← List.reverse_reverse stack, hstack, List.reverse_replicate]
        cases ups with
        | zero =>
          rw [hrev]
          cases rooted with
          | true => exact ⟨0, [], rfl, by simp, fun _ => rfl⟩
          | false => exact ⟨1, [], rfl, by simp, by simp⟩
        | succ ups =>
          rw [hrev, List.replicate_succ]
          simp only [if_true]
          refine ⟨ups + 2, [], ?_, by simp, ?_⟩
          · rw [← List.replicate_succ, ← List.replicate_succ, List.reverse_replicate, List.append_nil]
          · intro hr
            cases hrooted hr
      · -- a name is on top, and goes
        rw [List.concat_eq_append] at hstack hms
        have hrev : stack = m :: (List.replicate ups up ++ init).reverse := by
          rw [← List.reverse_reverse stack, hstack]
          simp
        have hm := hms m (by simp)
        rw [hrev]
        simp only [if_neg hm.2.2]
        refine ⟨ups, init, List.reverse_reverse _, ?_, hrooted⟩
        intro k hk
        exact hms k (by simp [hk])
    · rw [if_neg hup]
      have hn : IsName name := ⟨⟨fun e => hskip (.inl e), hname⟩, fun e => hskip (.inr e), hup⟩
      refine ⟨ups, ms ++ [name], ?_, ?_, hrooted⟩
      · rw [List.reverse_cons, hstack, List.append_assoc]
      · intro k hk
        rcases List.mem_append.1 hk with hk | hk
        · exact hms k hk
        · rw [List.mem_singleton.1 hk]
          exact hn

theorem tidyStack_foldl {rooted : Bool} {pieces : List Text} (hp : ∀ p ∈ pieces, CodePoint.slash ∉ p) :
    ∀ {stack : List Text}, TidyStack rooted stack →
      TidyStack rooted (pieces.foldl (pushName rooted) stack) := by
  induction pieces with
  | nil =>
    intro stack h
    exact h
  | cons p pieces ih =>
    intro stack h
    exact ih (fun q hq => hp q (List.mem_cons_of_mem p hq))
      (tidyStack_pushName h (hp p (List.mem_cons_self ..)))

theorem tidy_normalNames (p : Text) : Tidy (rootOf p ≠ []) (normalNames p) := by
  have hstack : TidyStack (rootOf p ≠ []) [] := ⟨0, [], rfl, by simp, fun _ => rfl⟩
  exact tidyStack_foldl (fun q hq => Text.not_mem_of_mem_split hq) hstack

theorem isRoot_rootOf (p : Text) : IsRoot (rootOf p) := by
  unfold rootOf IsRoot
  split
  · exact .inr (.inr rfl)
  · split
    · exact .inr (.inl rfl)
    · exact .inl rfl

/-- **A normal path** is a dot, or tidy names behind what it starts with. -/
theorem normalize_cases (q : Text) :
    normalize q = here
      ∨ ∃ root ns, normalize q = written root ns ∧ IsRoot root ∧ Tidy (root ≠ []) ns ∧
          (root ≠ [] ∨ ns ≠ []) := by
  unfold normalize
  dsimp only
  split
  · exact .inl rfl
  · rename_i hne
    refine .inr ⟨rootOf q, normalNames q, rfl, isRoot_rootOf q, tidy_normalNames q, ?_⟩
    by_contra hnil
    rw [not_or, not_not, not_not] at hnil
    rw [hnil.1, hnil.2] at hne
    exact hne rfl

/-! ## §2. Tidy names are in normal form. -/

/-- Names between slashes alone decide the normal form. -/
theorem foldl_pushName_filter (rooted : Bool) (pieces : List Text) :
    ∀ stack, pieces.foldl (pushName rooted) stack
      = (pieces.filter (· ≠ [])).foldl (pushName rooted) stack := by
  induction pieces with
  | nil =>
    intro stack
    rfl
  | cons p pieces ih =>
    intro stack
    by_cases hp : p = []
    · rw [List.filter_cons_of_neg (by simp [hp]), List.foldl_cons, hp]
      exact ih stack
    · rw [List.filter_cons_of_pos (by simp [hp]), List.foldl_cons, List.foldl_cons]
      exact ih _

theorem normalNames_eq (p : Text) :
    normalNames p = ((names p).foldl (pushName (rootOf p ≠ [])) []).reverse := by
  unfold normalNames names
  rw [foldl_pushName_filter]

theorem pushName_of_isName (rooted : Bool) (stack : List Text) {n : Text} (h : IsName n) :
    pushName rooted stack n = n :: stack := by
  have hskip : ¬ (n = [] ∨ n = here) := by
    rintro (e | e)
    · exact h.1.1 e
    · exact h.2.1 e
  unfold pushName
  rw [if_neg hskip, if_neg h.2.2]

theorem foldl_pushName_of_isName (rooted : Bool) :
    ∀ (ms stack : List Text), (∀ m ∈ ms, IsName m) →
      ms.foldl (pushName rooted) stack = ms.reverse ++ stack
  | [], stack, _ => rfl
  | m :: ms, stack, h => by
    rw [List.foldl_cons, pushName_of_isName rooted stack (h m (List.mem_cons_self ..)),
      foldl_pushName_of_isName rooted ms _ fun k hk => h k (List.mem_cons_of_mem m hk)]
    simp

theorem pushName_up_replicate (ups : Nat) :
    pushName false (List.replicate ups up) up = List.replicate (ups + 1) up := by
  cases ups with
  | zero => rfl
  | succ ups =>
    rw [List.replicate_succ]
    unfold pushName
    rw [if_neg (by decide), if_pos rfl]
    simp only [if_true]
    rw [List.replicate_succ, List.replicate_succ]

theorem foldl_pushName_ups (more ups : Nat) :
    (List.replicate more up).foldl (pushName false) (List.replicate ups up)
      = List.replicate (ups + more) up := by
  induction more generalizing ups with
  | zero => rfl
  | succ more ih =>
    rw [List.replicate_succ, List.foldl_cons, pushName_up_replicate, ih]
    congr 1
    omega

theorem foldl_pushName_tidy {rooted : Bool} {ns : List Text} (h : Tidy rooted ns) :
    (ns.foldl (pushName rooted) []).reverse = ns := by
  obtain ⟨ups, ms, rfl, hms, hrooted⟩ := h
  rw [List.foldl_append]
  have hups : (List.replicate ups up).foldl (pushName rooted) [] = List.replicate ups up := by
    cases rooted with
    | true =>
      rw [hrooted rfl]
      rfl
    | false =>
      have h0 := foldl_pushName_ups ups 0
      rw [Nat.zero_add] at h0
      exact h0
  rw [hups, foldl_pushName_of_isName rooted ms _ hms]
  simp

/-- What follows a root without a slash does not change it. -/
theorem rootOf_append {root rest : Text} (hroot : IsRoot root) (hrest : isAbsolute rest = false) :
    rootOf (root ++ rest) = root := by
  cases rest with
  | nil => rcases hroot with rfl | rfl | rfl <;> rfl
  | cons c rest =>
    have hc : c ≠ CodePoint.slash := by
      rintro rfl
      cases hrest
    have hc' : (CodePoint.slash == c) = false := by simpa using Ne.symm hc
    have h2 : ("//" : Text) = [CodePoint.slash, CodePoint.slash] := rfl
    have h3 : ("///" : Text) = [CodePoint.slash, CodePoint.slash, CodePoint.slash] := rfl
    unfold rootOf isAbsolute
    rcases hroot with rfl | rfl | rfl
    · simp [Text.startsWith, h2, List.isPrefixOf, hc, hc']
    · simp [Text.startsWith, h2, slash_text, List.isPrefixOf, hc']
    · simp [Text.startsWith, h2, h3, List.isPrefixOf, hc']

theorem rootOf_of_relative {p : Text} (h : isAbsolute p = false) : rootOf p = [] := by
  cases p with
  | nil => rfl
  | cons c p => exact rootOf_append (.inl rfl) h

theorem isAbsolute_join_of_relative {p q : Text} (hp : isAbsolute p = false) (hq : isAbsolute q = false) :
    isAbsolute (join p q) = false := by
  unfold join
  rw [hq, if_neg Bool.false_ne_true]
  cases p with
  | nil => exact hq
  | cons c p => split <;> exact hp

/-- A path seen from a directory starts as the directory does. -/
theorem rootOf_join {q : Text} (hq : isAbsolute q = false) (p : Text) : rootOf (join p q) = rootOf p := by
  cases habs : isAbsolute p with
  | false => rw [rootOf_of_relative habs, rootOf_of_relative (isAbsolute_join_of_relative habs hq)]
  | true =>
    have h2 : ("//" : Text) = [CodePoint.slash, CodePoint.slash] := rfl
    have h3 : ("///" : Text) = [CodePoint.slash, CodePoint.slash, CodePoint.slash] := rfl
    unfold join
    rw [hq, if_neg Bool.false_ne_true]
    -- the first three characters decide
    match p, habs with
    | [c], habs =>
      have hc : c = CodePoint.slash := by simpa [isAbsolute] using habs
      rw [hc, if_pos (by simp)]
      exact @rootOf_append "/" q (.inr (.inl rfl)) hq
    | [c, d], habs =>
      have hc : c = CodePoint.slash := by simpa [isAbsolute] using habs
      by_cases hd : d = CodePoint.slash
      · rw [hc, hd, if_pos (by simp)]
        exact @rootOf_append "//" q (.inr (.inr rfl)) hq
      · have hd' : (CodePoint.slash == d) = false := by simpa using Ne.symm hd
        rw [if_neg (by simp [hd])]
        simp [rootOf, isAbsolute, Text.startsWith, h2, List.isPrefixOf, hd', hc]
    | c :: d :: e :: p, habs =>
      split
      · simp [rootOf, isAbsolute, Text.startsWith, h2, h3, List.isPrefixOf]
      · simp [rootOf, isAbsolute, Text.startsWith, h2, h3, List.isPrefixOf]

theorem rootOf_written {root : Text} {ns : List Text} (hroot : IsRoot root) (hns : ∀ m ∈ ns, IsPart m) :
    rootOf (written root ns) = root :=
  rootOf_append hroot (isAbsolute_written (.inl rfl) hns)

/-- **Tidy names behind a root are in normal form.** -/
theorem normalize_written {root : Text} {ns : List Text} (hroot : IsRoot root)
    (hns : Tidy (root ≠ []) ns) (hne : root ≠ [] ∨ ns ≠ []) :
    normalize (written root ns) = written root ns := by
  have hroot' := rootOf_written hroot hns.isPart
  have hnames : normalNames (written root ns) = ns := by
    rw [normalNames_eq, hroot', names_written hroot hns.isPart, foldl_pushName_tidy hns]
  unfold normalize
  rw [hroot', hnames]
  refine if_neg ?_
  intro hnil
  rw [List.append_eq_nil_iff] at hnil
  rcases hne with h | h
  · exact h hnil.1
  · apply h
    have hw : names (written root ns) = [] := by
      unfold written
      rw [hnil.1, hnil.2]
      rfl
    rw [← names_written hroot hns.isPart, hw]

theorem normalize_normalize (q : Text) : normalize (normalize q) = normalize q := by
  rcases normalize_cases q with h | ⟨root, ns, h, hroot, hns, hne⟩
  · rw [h]
    decide
  · rw [h]
    exact normalize_written hroot hns hne

/-! ## §3. Seen from a directory. -/

/-- Names that lead up take names away, as long as there are any. -/
theorem foldl_pushName_ups_rooted (ups : Nat) :
    ∀ stack : List Text, (∀ m ∈ stack, IsName m) →
      (List.replicate ups up).foldl (pushName true) stack = stack.drop ups := by
  induction ups with
  | zero =>
    intro stack _
    rfl
  | succ ups ih =>
    intro stack h
    rw [List.replicate_succ, List.foldl_cons]
    cases stack with
    | nil =>
      have hnil := ih [] (by simp)
      rw [List.drop_nil] at hnil ⊢
      exact hnil
    | cons m rest =>
      have hpush : pushName true (m :: rest) up = rest := by
        unfold pushName
        rw [if_neg (by decide), if_pos rfl]
        exact if_neg (h m (List.mem_cons_self ..)).2.2
      rw [hpush, List.drop_succ_cons]
      exact ih rest fun k hk => h k (List.mem_cons_of_mem m hk)

/-- Names behind those of a directory, in normal form. -/
theorem foldl_pushName_from {dir : List Text} (hdir : ∀ m ∈ dir, IsName m) (ups : Nat)
    {ms : List Text} (hms : ∀ m ∈ ms, IsName m) :
    ((dir ++ (List.replicate ups up ++ ms)).foldl (pushName true) []).reverse
      = dir.take (dir.length - ups) ++ ms := by
  rw [List.foldl_append, List.foldl_append, foldl_pushName_of_isName true dir [] hdir,
    List.append_nil, foldl_pushName_ups_rooted ups _ (by simpa using hdir),
    foldl_pushName_of_isName true ms _ hms, List.reverse_append, List.reverse_reverse,
    List.drop_reverse, List.reverse_reverse]

theorem isAbsolute_resolveAgainst {base : Text} (hbase : isAbsolute base = true) (p : Text) :
    isAbsolute (resolveAgainst base p) = true := by
  unfold resolveAgainst
  split
  · rename_i h
    exact isAbsolute_normalize h
  · exact isAbsolute_normalize (isAbsolute_join hbase p)

/-- A path seen from an absolute one is a root, and names of things behind it. -/
theorem exists_resolved_written {base : Text} (hbase : isAbsolute base = true) (p : Text) :
    ∃ root ns, resolveAgainst base p = written root ns ∧ IsRoot root ∧ root ≠ [] ∧
      ∀ m ∈ ns, IsName m := by
  have habs := isAbsolute_resolveAgainst hbase p
  obtain ⟨q, hq⟩ : ∃ q, resolveAgainst base p = normalize q := by
    unfold resolveAgainst
    split
    · exact ⟨_, rfl⟩
    · exact ⟨_, rfl⟩
  rw [hq] at habs ⊢
  rcases normalize_cases q with h | ⟨root, ns, h, hroot, hns, -⟩
  · rw [h] at habs
    cases habs
  · rw [h, isAbsolute_written hroot hns.isPart, decide_eq_true_eq] at habs
    obtain ⟨ups, ms, rfl, hms, hups⟩ := hns
    rw [hups (by simpa using habs)] at h
    exact ⟨root, ms, h, hroot, habs, hms⟩

end Path

namespace FileTree

variable {t : FileTree}

theorem pathOf_eq_written (l : Location) : pathOf l = Path.written "/" l := rfl

theorem join_pathOf {l : Location} (hl : ∀ m ∈ l, Path.IsPart m) {ns : List Text} (hne : ns ≠ [])
    (hns : ∀ m ∈ ns, Path.IsPart m) :
    Path.join (pathOf l) (Path.written [] ns) = Path.written "/" (l ++ ns) :=
  Path.join_written_append (.inr (.inl rfl)) hl hns hne

theorem isName_parts {ns : List Text} (h : ∀ m ∈ ns, Path.IsName m) : ∀ m ∈ ns, Path.IsPart m :=
  fun m hm => (h m hm).1

/-- **The absolute form of a relative path** that goes up some names and down others. -/
theorem absolute_written (hdir : ∀ m ∈ t.workingDir, Path.IsName m) {ups : Nat} {ms : List Text}
    (hms : ∀ m ∈ ms, Path.IsName m) (hne : List.replicate ups Path.up ++ ms ≠ []) :
    t.absolute (Path.written [] (List.replicate ups Path.up ++ ms))
      = Path.written "/" (t.workingDir.take (t.workingDir.length - ups) ++ ms) := by
  have hroot : Path.IsRoot ("/" : Text) := .inr (.inl rfl)
  have htidy : Path.Tidy false (List.replicate ups Path.up ++ ms) := ⟨ups, ms, rfl, hms, by simp⟩
  have hparts : ∀ m ∈ t.workingDir ++ (List.replicate ups Path.up ++ ms), Path.IsPart m := by
    intro m hm
    rcases List.mem_append.1 hm with hm | hm
    · exact (hdir m hm).1
    · exact htidy.isPart m hm
  have habs := Path.isAbsolute_written (show Path.IsRoot ([] : Text) from .inl rfl) htidy.isPart
  unfold absolute Path.resolveAgainst
  rw [habs, if_neg (by decide), join_pathOf (isName_parts hdir) hne htidy.isPart]
  have hnormal : Path.normalNames (Path.written "/" (t.workingDir ++ (List.replicate ups Path.up ++ ms)))
      = t.workingDir.take (t.workingDir.length - ups) ++ ms := by
    rw [Path.normalNames_eq, Path.rootOf_written hroot hparts, Path.names_written hroot hparts]
    exact Path.foldl_pushName_from hdir ups hms
  unfold Path.normalize
  rw [Path.rootOf_written hroot hparts, hnormal]
  exact if_neg (by simp [Path.slash_text])

/-- The absolute form of the path of the current directory. -/
theorem absolute_here (hdir : ∀ m ∈ t.workingDir, Path.IsName m) :
    t.absolute Path.here = Path.written "/" t.workingDir := by
  have hroot : Path.IsRoot ("/" : Text) := .inr (.inl rfl)
  have hparts : ∀ m ∈ t.workingDir ++ [Path.here], Path.IsPart m := by
    intro m hm
    rcases List.mem_append.1 hm with hm | hm
    · exact (hdir m hm).1
    · rw [List.mem_singleton.1 hm]
      exact Path.isPart_here
  have hone : ∀ m ∈ [Path.here], Path.IsPart m := by simpa using Path.isPart_here
  have hjoin := join_pathOf (isName_parts hdir) (by simp) hone
  have hnormal : Path.normalNames (Path.written "/" (t.workingDir ++ [Path.here])) = t.workingDir := by
    rw [Path.normalNames_eq, Path.rootOf_written hroot hparts, Path.names_written hroot hparts,
      List.foldl_append]
    show (Path.pushName true (t.workingDir.foldl (Path.pushName true) []) Path.here).reverse = _
    rw [Path.foldl_pushName_of_isName true _ [] hdir]
    unfold Path.pushName
    rw [if_pos (.inr rfl), List.append_nil, List.reverse_reverse]
  have hhere : Path.written [] [Path.here] = Path.here := by decide
  unfold absolute Path.resolveAgainst
  rw [if_neg (by decide), ← hhere, hjoin]
  unfold Path.normalize
  rw [Path.rootOf_written hroot hparts, hnormal]
  exact if_neg (by simp [Path.slash_text])

/-- An absolute path in normal form is its own absolute form. -/
theorem absolute_of_isAbsolute {root : Text} {ns : List Text} (hroot : Path.IsRoot root)
    (hns : Path.Tidy (root ≠ []) ns) (hne : root ≠ []) :
    t.absolute (Path.written root ns) = Path.written root ns := by
  have habs : Path.isAbsolute (Path.written root ns) = true := by
    rw [Path.isAbsolute_written hroot hns.isPart]
    simpa using hne
  unfold absolute
  rw [Path.resolveAgainst_of_isAbsolute habs]
  exact Path.normalize_written hroot hns (.inl hne)

theorem isAbsolute_absolute (t : FileTree) (p : Text) : Path.isAbsolute (t.absolute p) = true :=
  Path.isAbsolute_resolveAgainst rfl p

/-- Every path has an absolute form, without dots. -/
theorem exists_absolute_written (t : FileTree) (p : Text) :
    ∃ root ns, t.absolute p = Path.written root ns ∧ Path.IsRoot root ∧ root ≠ [] ∧
      ∀ m ∈ ns, Path.IsName m :=
  Path.exists_resolved_written rfl p

/-- The absolute form of a path is its own. -/
theorem absolute_absolute (t : FileTree) (p : Text) :
    t.absolute (t.absolute p) = t.absolute p := by
  obtain ⟨root, ns, hp, hroot, hne, htidy⟩ := exists_absolute_written t p
  rw [hp]
  exact absolute_of_isAbsolute hroot (Path.tidy_of_isName htidy) hne

end FileTree

end ModuleBuild
