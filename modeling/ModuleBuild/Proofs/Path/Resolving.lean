/-
  ModuleBuild.Proofs.Path.Resolving
  ─────────────────────────────────
  **RESOLVING STEP BY STEP.**

  A relative path may be put into normal form before it is resolved: what a
  name takes back at once it would take back later, and the names that lead
  up are kept for the directory.  What a path says behind another is found
  behind what the other resolves to.

  Main results:
    * `foldl_pushName_normal` — names in normal form lead where the names they come from lead;
    * `Straight.resolveAgainst_normalize` — a relative path may be in normal form;
    * `Straight.resolveAgainst_join` — what lies behind a relative path lies behind what it resolves to.
-/
import ModuleBuild.Proofs.FileTree.Straight
import ModuleBuild.Proofs.FileTree.Walking
import ModuleBuild.Proofs.Path.Pieces

namespace ModuleBuild

namespace Path

/-! ## §1. Names put on a stack. -/

/-- One more name leads to the same before it is in normal form and after. -/
theorem foldl_pushName_push {stack : List Text} (h : TidyStack false stack) (n : Text)
    (start : List Text) :
    (pushName false stack n).reverse.foldl (pushName true) start
      = pushName true (stack.reverse.foldl (pushName true) start) n := by
  by_cases hskip : n = [] ∨ n = here
  · unfold pushName
    rw [if_pos hskip, if_pos hskip]
  by_cases hup : n = up
  · subst hup
    cases stack with
    | nil => rfl
    | cons top rest =>
      have htop : top ∈ (top :: rest).reverse := List.mem_reverse.2 (List.mem_cons_self ..)
      rw [List.reverse_cons, List.foldl_append]
      by_cases hagain : top = up
      · -- there is nothing to take back
        have hpush : pushName false (top :: rest) up = up :: top :: rest := by
          unfold pushName
          rw [if_neg hskip, if_pos rfl]
          exact if_pos hagain
        rw [hpush, List.reverse_cons, List.reverse_cons, List.foldl_append, List.foldl_append]
        rfl
      · -- a name of something is taken back, now or later
        have hpart := Tidy.isPart h top htop
        have hname : IsName top := ⟨hpart, Tidy.ne_here h top htop, hagain⟩
        have hback : ∀ rooted below, pushName rooted (top :: below) up = below := by
          intro rooted below
          unfold pushName
          rw [if_neg hskip, if_pos rfl]
          exact if_neg hagain
        rw [hback, List.foldl_cons, List.foldl_nil, pushName_of_isName true _ hname, hback]
  · have hpush : pushName false stack n = n :: stack := by
      unfold pushName
      rw [if_neg hskip, if_neg hup]
    rw [hpush, List.reverse_cons, List.foldl_append]
    rfl

/-- **Names in normal form lead where the names they come from lead.** -/
theorem foldl_pushName_normal {ns : List Text} (hns : ∀ n ∈ ns, CodePoint.slash ∉ n)
    (start : List Text) :
    (ns.foldl (pushName false) []).reverse.foldl (pushName true) start
      = ns.foldl (pushName true) start := by
  -- from the back: the names in front of the last are on a tidy stack
  induction ns using List.reverseRecOn with
  | nil => rfl
  | append_singleton ns n ih =>
    have hinit : ∀ m ∈ ns, CodePoint.slash ∉ m := fun m hm => hns m (List.mem_append_left _ hm)
    have htidy : TidyStack false (ns.foldl (pushName false) []) :=
      tidyStack_foldl hinit ⟨0, [], rfl, by simp, fun _ => rfl⟩
    rw [List.foldl_append, List.foldl_append, List.foldl_cons, List.foldl_nil, List.foldl_cons,
      List.foldl_nil, foldl_pushName_push htidy, ih hinit]

/-- The current directory leads nowhere. -/
theorem foldl_pushName_here (rooted : Bool) (k : Nat) (ns start : List Text) :
    (List.replicate k here ++ ns).foldl (pushName rooted) start = ns.foldl (pushName rooted) start := by
  induction k with
  | zero => rfl
  | succ k ih =>
    rw [List.replicate_succ, List.cons_append, List.foldl_cons]
    exact ih

/-! ## §2. Seen from a straight path. -/

variable {base p q : Text} {ns : List Text}

/-- A straight path is its root and its names. -/
theorem Straight.ext (hp : Straight p) (hq : Straight q) (hroot : rootOf p = rootOf q)
    (hnames : names p = names q) : p = q := by
  rw [hp.eq_written, hq.eq_written, hroot, hnames]

theorem rootOf_normalize (h : isAbsolute p = true) : rootOf (normalize p) = rootOf p := by
  have hne := rootOf_ne_nil h
  have hwritten : normalize p = written (rootOf p) (normalNames p) := by
    unfold normalize
    exact if_neg (by simp [hne])
  rw [hwritten]
  exact rootOf_written (isRoot_rootOf p) (tidy_normalNames p).isPart

theorem Straight.rootOf_resolveAgainst (h : Straight base) (hq : Path.isAbsolute q = false) :
    rootOf (resolveAgainst base q) = rootOf base := by
  unfold resolveAgainst
  rw [hq, if_neg Bool.false_ne_true, rootOf_normalize (isAbsolute_join h.isAbsolute q), rootOf_join hq]

theorem Straight.names_resolveAgainst (h : Straight base) (hq : Path.isAbsolute q = false) :
    names (resolveAgainst base q)
      = ((names q).foldl (pushName true) (names base).reverse).reverse := by
  unfold resolveAgainst
  rw [hq, if_neg Bool.false_ne_true, names_normalize (isAbsolute_join h.isAbsolute q), names_join hq,
    List.foldl_append, foldl_pushName_of_isName true _ [] h.isName, List.append_nil]

/-- What names lead to decides what a relative path resolves to. -/
theorem Straight.resolveAgainst_congr (h : Straight base) (hp : Path.isAbsolute p = false)
    (hq : Path.isAbsolute q = false)
    (hnames : ∀ start, (names p).foldl (pushName true) start = (names q).foldl (pushName true) start) :
    resolveAgainst base p = resolveAgainst base q := by
  refine (straight_resolveAgainst h.isAbsolute p).ext (straight_resolveAgainst h.isAbsolute q) ?_ ?_
  · rw [h.rootOf_resolveAgainst hp, h.rootOf_resolveAgainst hq]
  · rw [h.names_resolveAgainst hp, h.names_resolveAgainst hq, hnames]

theorem isAbsolute_normalize_of_relative (h : isAbsolute q = false) :
    isAbsolute (normalize q) = false := by
  unfold normalize
  dsimp only
  split
  · decide
  · have hparts := (tidy_normalNames q).isPart
    rw [rootOf_of_relative h]
    exact isAbsolute_written (.inl rfl) hparts

/-- **A relative path may be in normal form.** -/
theorem Straight.resolveAgainst_normalize (h : Straight base) (hq : Path.isAbsolute q = false) :
    resolveAgainst base (Path.normalize q) = resolveAgainst base q := by
  refine h.resolveAgainst_congr (isAbsolute_normalize_of_relative hq) hq ?_
  intro start
  have hslash : ∀ n ∈ names q, CodePoint.slash ∉ n := fun n hn =>
    Text.not_mem_of_mem_split (List.mem_filter.1 hn).1
  have hnormal := normalNames_eq q
  rw [rootOf_of_relative hq, decide_eq_false (by simp)] at hnormal
  rw [← foldl_pushName_normal hslash, ← hnormal]
  unfold Path.normalize
  dsimp only
  rw [rootOf_of_relative hq, List.nil_append]
  split
  · -- no name is left, and the current directory stands for that
    rename_i hnil
    have hnone : normalNames q = [] := by
      rw [← @names_written [] _ (.inl rfl) (tidy_normalNames q).isPart]
      unfold Path.written
      rw [List.nil_append, hnil]
      rfl
    rw [hnone]
    exact foldl_pushName_here true 1 [] start
  · rw [show Text.joinWith "/" (normalNames q) = Path.written [] (normalNames q) from rfl,
      names_written (.inl rfl) (tidy_normalNames q).isPart]

/-- Names behind a straight path. -/
theorem Straight.join_written (h : Straight p) (hns : ∀ n ∈ ns, IsName n) (hne : ns ≠ []) :
    Path.join p (Path.written [] ns) = Path.written (rootOf p) (names p ++ ns) := by
  conv_lhs => rw [h.eq_written]
  exact join_written_append (isRoot_rootOf p) (fun n hn => (h.isName n hn).1)
    (fun n hn => (hns n hn).1) hne

/-- **What lies behind a relative path lies behind what it resolves to.** -/
theorem Straight.resolveAgainst_join (h : Straight base) (hq : Path.isAbsolute q = false)
    (hns : ∀ n ∈ ns, IsName n) (hne : ns ≠ []) :
    resolveAgainst base (Path.join q (Path.written [] ns))
      = Path.join (resolveAgainst base q) (Path.written [] ns) := by
  have hparts : ∀ n ∈ ns, IsPart n := fun n hn => (hns n hn).1
  have hrelative : Path.isAbsolute (Path.written [] ns) = false := isAbsolute_written (.inl rfl) hparts
  have hjoined := isAbsolute_join_of_relative hq hrelative
  have hresolved := straight_resolveAgainst h.isAbsolute (Path.join q (Path.written [] ns))
  rw [(straight_resolveAgainst h.isAbsolute q).join_written hns hne, hresolved.eq_written,
    h.rootOf_resolveAgainst hjoined, h.rootOf_resolveAgainst hq, h.names_resolveAgainst hjoined,
    h.names_resolveAgainst hq, names_join hrelative, names_written (.inl rfl) hparts,
    List.foldl_append, foldl_pushName_of_isName true ns _ hns, List.reverse_append, List.reverse_reverse]

end Path

end ModuleBuild
