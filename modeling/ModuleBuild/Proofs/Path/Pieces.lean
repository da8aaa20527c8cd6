/-
  ModuleBuild.Proofs.Path.Pieces
  ──────────────────────────────
  **THE NAMES OF PATHS THAT ARE PUT TOGETHER.**

  Whatever a path is made of, its names are the names of its parts: a slash
  separates what stands before it from what stands behind it.  A path that is
  seen from a directory goes on from the names of the directory, and as long
  as no name leads up, every name of a thing stays.  Backslashes that become
  slashes cut names, but make none that leads up disappear.

  Main results:
    * `names_append` — the names on both sides of a slash;
    * `names_resolveAgainst` — what the names of a path become, seen from a directory;
    * `mem_normalize` — a path in normal form is made of what the path is made of.
-/
import ModuleBuild.Proofs.Path.Normal

namespace ModuleBuild

namespace Text

variable {sep : CodePoint}

/-- What stands before a separator and behind it is split on its own. -/
theorem split_append_sep (s rest : Text) : split sep (s ++ sep :: rest) = split sep s ++ split sep rest := by
  induction s with
  | nil => exact split_append (List.not_mem_nil) rest
  | cons c s ih =>
    show split sep (c :: (s ++ sep :: rest)) = _
    rw [split, ih, split]
    cases hs : split sep s with
    | nil => exact absurd hs (split_ne_nil sep s)
    | cons piece pieces =>
      show (if c = sep then _ else _) = (if c = sep then _ else _) ++ _
      split <;> rfl

/-- Every code point but the separator stands in a piece. -/
theorem exists_mem_split {c : CodePoint} (hc : c ≠ sep) {s : Text} (h : c ∈ s) :
    ∃ piece ∈ split sep s, c ∈ piece := by
  induction s with
  | nil => cases h
  | cons d s ih =>
    rw [split]
    cases hs : split sep s with
    | nil => exact absurd hs (split_ne_nil sep s)
    | cons piece pieces =>
      rw [hs] at ih
      show ∃ q ∈ (if d = sep then [] :: piece :: pieces else (d :: piece) :: pieces), c ∈ q
      rcases List.mem_cons.1 h with rfl | h
      · rw [if_neg hc]
        exact ⟨c :: piece, List.mem_cons_self .., List.mem_cons_self ..⟩
      · obtain ⟨q, hq, hcq⟩ := ih h
        split
        · exact ⟨q, List.mem_cons_of_mem _ hq, hcq⟩
        · rcases List.mem_cons.1 hq with rfl | hq
          · exact ⟨d :: q, List.mem_cons_self .., List.mem_cons_of_mem d hcq⟩
          · exact ⟨q, List.mem_cons_of_mem _ hq, hcq⟩

/-- What stands in a piece stands in the text. -/
theorem mem_of_mem_split {c : CodePoint} {s piece : Text} (h : piece ∈ split sep s) (hc : c ∈ piece) :
    c ∈ s := by
  rw [← join_split sep s]
  generalize split sep s = pieces at h
  induction pieces with
  | nil => cases h
  | cons p pieces ih =>
    cases pieces with
    | nil =>
      rw [List.mem_singleton.1 h] at hc
      simpa [joinWith, List.intercalate] using hc
    | cons q pieces =>
      rw [joinWith_cons_cons]
      rcases List.mem_cons.1 h with rfl | h
      · exact List.mem_append_left _ (List.mem_append_left _ hc)
      · exact List.mem_append_right _ (ih h)

end Text

namespace Path

/-! ## §1. Names. -/

/-- The names on both sides of a slash. -/
theorem names_append (s rest : Text) : names (s ++ CodePoint.slash :: rest) = names s ++ names rest := by
  unfold names
  rw [Text.split_append_sep, List.filter_append]

theorem names_concat_slash (s : Text) : names (s ++ [CodePoint.slash]) = names s := by
  have hnil : names [] = [] := by decide
  rw [names_append s [], hnil, List.append_nil]

/-- Slashes at the end bring no names. -/
theorem names_dropEndWhile_slash (s : Text) :
    names (s.dropEndWhile (· = CodePoint.slash)) = names s := by
  show names (s.rdropWhile (· = CodePoint.slash)) = names s
  induction s using List.reverseRecOn with
  | nil => rfl
  | append_singleton s c ih =>
    by_cases hc : c = CodePoint.slash
    · rw [List.rdropWhile_concat_pos _ _ _ (by simpa using hc), ih, hc, names_concat_slash]
    · rw [List.rdropWhile_concat_neg _ _ _ (by simpa using hc)]

theorem exists_mem_names {c : CodePoint} (hc : c ≠ CodePoint.slash) {s : Text} (h : c ∈ s) :
    ∃ m ∈ names s, c ∈ m := by
  obtain ⟨piece, hpiece, hcp⟩ := Text.exists_mem_split hc h
  refine ⟨piece, List.mem_filter.2 ⟨hpiece, ?_⟩, hcp⟩
  simpa using List.ne_nil_of_mem hcp

theorem mem_of_mem_names {c : CodePoint} {s m : Text} (h : m ∈ names s) (hc : c ∈ m) : c ∈ s :=
  Text.mem_of_mem_split (List.mem_filter.1 h).1 hc

/-- The names of a path seen from a directory are those of both. -/
theorem names_join {p : Text} (hp : isAbsolute p = false) (dir : Text) :
    names (join dir p) = names dir ++ names p := by
  unfold join
  rw [hp, if_neg Bool.false_ne_true]
  split
  · rename_i hend
    rcases List.eq_nil_or_concat dir with rfl | ⟨init, c, rfl⟩
    · rfl
    · rw [List.concat_eq_append] at hend ⊢
      have hc : c = CodePoint.slash := by simpa using hend
      rw [hc, names_concat_slash, List.append_assoc]
      exact names_append init p
  · exact names_append dir p

/-- What stands behind the last slash is the last name, if it is any. -/
theorem exists_names_baseName {p : Text} (h : baseName p ≠ []) :
    ∃ init, names p = init ++ [baseName p] := by
  have hsplit := throughLast_append_afterLast CodePoint.slash p
  have hlast : CodePoint.slash ∉ baseName p := by
    intro hm
    have hne := List.mem_takeWhile_imp (by simpa [baseName, afterLast] using hm)
    simp at hne
  have hnames : names (baseName p) = [baseName p] := by
    unfold names
    rw [Text.split_of_not_mem hlast]
    simp [h]
  rcases getLast?_throughLast CodePoint.slash p with hnil | hslash
  · rw [hnil] at hsplit
    refine ⟨[], ?_⟩
    rw [List.nil_append, ← hnames]
    exact congrArg names hsplit.symm
  · obtain ⟨front, hfront⟩ := List.getLast?_eq_some_iff.1 hslash
    refine ⟨names front, ?_⟩
    conv_lhs => rw [← hsplit, hfront, List.append_assoc, List.singleton_append]
    rw [names_append front]
    exact congrArg (names front ++ ·) hnames

/-! ## §2. Names that lead up. -/

/-- As long as no name leads up, every name of a thing is put on the stack. -/
theorem foldl_pushName_of_ne_up (rooted : Bool) :
    ∀ (ns stack : List Text), up ∉ ns → (∀ m ∈ ns, m ≠ []) →
      ns.foldl (pushName rooted) stack = (ns.filter (· ≠ here)).reverse ++ stack
  | [], _, _, _ => rfl
  | m :: ns, stack, hup, hne => by
    have hm : m ≠ up := fun e => hup (by simp [e])
    have hnil : m ≠ [] := hne m (List.mem_cons_self ..)
    have ih := foldl_pushName_of_ne_up rooted ns (pushName rooted stack m)
      (fun h => hup (List.mem_cons_of_mem m h)) fun k hk => hne k (List.mem_cons_of_mem m hk)
    rw [List.foldl_cons, ih]
    unfold pushName
    by_cases hhere : m = here
    · rw [if_pos (.inr hhere), List.filter_cons_of_neg (by simpa using hhere)]
    · rw [if_neg (by simp [hnil, hhere]), if_neg hm, List.filter_cons_of_pos (by simpa using hhere)]
      simp

/-- The names of the normal form of an absolute path. -/
theorem names_normalize {p : Text} (h : isAbsolute p = true) :
    names (normalize p) = ((names p).foldl (pushName true) []).reverse := by
  have hne := rootOf_ne_nil h
  have hnames := normalNames_eq p
  rw [decide_eq_true hne] at hnames
  have hwritten : normalize p = written (rootOf p) (normalNames p) := by
    unfold normalize
    exact if_neg (by simp [hne])
  rw [hwritten, names_written (isRoot_rootOf p) (tidy_normalNames p).isPart, hnames]

/-- What the names of a path become, seen from an absolute directory: they are put on those that the
directory leaves. -/
theorem names_resolveAgainst {base : Text} (hbase : isAbsolute base = true) (p : Text) :
    ∃ stack, names (resolveAgainst base p) = ((names p).foldl (pushName true) stack).reverse := by
  unfold resolveAgainst
  split
  · rename_i habs
    exact ⟨[], names_normalize habs⟩
  · rename_i habs
    refine ⟨(names base).foldl (pushName true) [], ?_⟩
    rw [names_normalize (isAbsolute_join hbase p), names_join (by simpa using habs),
      List.foldl_append]

/-! ## §3. Forward slashes. -/

theorem toForwardSlashes_cons (c : CodePoint) (p : Text) :
    toForwardSlashes (c :: p)
      = (if c = CodePoint.backslash then CodePoint.slash else c) :: toForwardSlashes p := rfl

theorem toForwardSlashes_of_not_mem {p : Text} (h : CodePoint.backslash ∉ p) :
    toForwardSlashes p = p := by
  induction p with
  | nil => rfl
  | cons c p ih =>
    rw [List.mem_cons, not_or] at h
    rw [toForwardSlashes_cons, if_neg (Ne.symm h.1), ih h.2]

theorem backslash_not_mem_toForwardSlashes (p : Text) : CodePoint.backslash ∉ toForwardSlashes p := by
  induction p with
  | nil => exact List.not_mem_nil
  | cons c p ih =>
    have hslash : CodePoint.backslash ≠ CodePoint.slash := by decide
    rw [toForwardSlashes_cons, List.mem_cons, not_or]
    refine ⟨?_, ih⟩
    split
    · exact hslash
    · rename_i hc
      exact Ne.symm hc

variable {c : CodePoint} {p : Text}

theorem mem_toForwardSlashes (h : c ∈ toForwardSlashes p) : c ∈ p ∨ c = CodePoint.slash := by
  obtain ⟨d, hd, hc⟩ := List.mem_map.1 h
  split at hc
  · exact .inr hc.symm
  · exact .inl (hc ▸ hd)

theorem mem_join {dir : Text} (h : c ∈ join dir p) : c ∈ dir ∨ c ∈ p ∨ c = CodePoint.slash := by
  unfold join at h
  split at h
  · exact .inr (.inl h)
  · split at h
    · exact (List.mem_append.1 h).imp_right .inl
    · refine (List.mem_append.1 h).imp_right fun h => ?_
      exact (List.mem_cons.1 h).symm

/-- Names on a stack were on it or put on it; those that lead up are kept. -/
theorem mem_foldl_pushName {rooted : Bool} {ns : List Text} {m : Text} :
    ∀ {stack : List Text}, m ∈ ns.foldl (pushName rooted) stack → m ∈ stack ∨ m ∈ ns ∨ m = up := by
  have hpush : ∀ {stack : List Text} {n : Text}, m ∈ pushName rooted stack n → m ∈ stack ∨ m = n := by
    intro stack n h
    unfold pushName at h
    split at h
    · exact .inl h
    · split at h
      · rename_i hup
        cases stack with
        | nil =>
          cases rooted with
          | true => cases h
          | false => exact .inr ((List.mem_singleton.1 h).trans hup.symm)
        | cons top rest =>
          dsimp only at h
          split at h
          · exact (List.mem_cons.1 h).symm.imp_right fun h => h.trans hup.symm
          · exact .inl (List.mem_cons_of_mem top h)
      · exact (List.mem_cons.1 h).symm
  induction ns with
  | nil => exact fun h => .inl h
  | cons n ns ih =>
    intro stack h
    rcases ih h with h | h | h
    · exact (hpush h).imp_right fun h => .inl (List.mem_cons.2 (.inl h))
    · exact .inr (.inl (List.mem_cons_of_mem n h))
    · exact .inr (.inr h)

/-- **A path in normal form** is made of what the path is made of, of slashes and of dots. -/
theorem mem_normalize (h : c ∈ normalize p) : c ∈ p ∨ c = CodePoint.slash ∨ c = CodePoint.dot := by
  have hhere : ∀ c ∈ here, c = CodePoint.dot := by decide
  have hup : ∀ c ∈ up, c = CodePoint.dot := by decide
  by_cases hslash : c = CodePoint.slash
  · exact .inr (.inl hslash)
  unfold normalize at h
  dsimp only at h
  split at h
  · exact .inr (.inr (hhere c h))
  · obtain ⟨m, hm, hcm⟩ := exists_mem_names hslash h
    have hnames : names (written (rootOf p) (normalNames p)) = normalNames p :=
      names_written (isRoot_rootOf p) (tidy_normalNames p).isPart
    rw [show rootOf p ++ Text.joinWith "/" (normalNames p) = written (rootOf p) (normalNames p) from rfl,
      hnames] at hm
    rcases mem_foldl_pushName (List.mem_reverse.1 hm) with hm | hm | rfl
    · cases hm
    · exact .inl (Text.mem_of_mem_split hm hcm)
    · exact .inr (.inr (hup c hcm))

end Path

end ModuleBuild
