/-
  ModuleBuild.Proofs.Path.Written
  ───────────────────────────────
  **PATHS AND THE NAMES THEY ARE WRITTEN WITH.**

  A path is what it starts with, and its names with a slash between each two.
  Taking such a text apart gives the names back: the last one and the path of
  those before it, the list of all of them, the path with one more.

  Main results:
    * `names_written`, `baseName_written`, `dirName_written` — a written path and its names;
    * `join_written` — the path of one more name.
-/
import Mathlib.Data.List.DropRight
import Mathlib.Data.List.TakeWhile
import ModuleBuild.Path.Basic

namespace ModuleBuild

/-! ## §1. Pieces between separators. -/

namespace Text

theorem split_of_not_mem {sep : CodePoint} {t : Text} (h : sep ∉ t) : split sep t = [t] := by
  induction t with
  | nil => rfl
  | cons c rest ih =>
    have hc : c ≠ sep := fun e => h (by simp [e])
    have hrest : sep ∉ rest := fun e => h (List.mem_cons_of_mem c e)
    unfold split
    rw [ih hrest]
    exact if_neg hc

theorem split_append {sep : CodePoint} {t : Text} (h : sep ∉ t) (rest : Text) :
    split sep (t ++ sep :: rest) = t :: split sep rest := by
  induction t with
  | nil =>
    show split sep (sep :: rest) = [] :: split sep rest
    rw [split]
    cases hs : split sep rest with
    | nil => exact absurd hs (split_ne_nil sep rest)
    | cons piece pieces => exact if_pos rfl
  | cons c t ih =>
    have hc : c ≠ sep := fun e => h (by simp [e])
    have ht : sep ∉ t := fun e => h (List.mem_cons_of_mem c e)
    show split sep (c :: (t ++ sep :: rest)) = (c :: t) :: split sep rest
    rw [split, ih ht]
    exact if_neg hc

theorem joinWith_concat (sep : Text) (parts : List Text) (p : Text) :
    joinWith sep (parts ++ [p]) = if parts = [] then p else joinWith sep parts ++ sep ++ p := by
  induction parts with
  | nil => simp [joinWith, List.intercalate]
  | cons a rest ih =>
    rw [if_neg (List.cons_ne_nil a rest)]
    cases rest with
    | nil => simp [joinWith, List.intercalate]
    | cons b rest =>
      rw [List.cons_append, List.cons_append, joinWith_cons_cons, joinWith_cons_cons,
        ← List.cons_append, ih, if_neg (List.cons_ne_nil b rest)]
      simp only [List.append_assoc]

theorem joinWith_append (sep : Text) {qs : List Text} (hq : qs ≠ []) :
    ∀ {ps : List Text}, ps ≠ [] → joinWith sep (ps ++ qs) = joinWith sep ps ++ sep ++ joinWith sep qs
  | [], h => absurd rfl h
  | [p], _ => by
    obtain ⟨q, rest, rfl⟩ := List.exists_cons_of_ne_nil hq
    have hp : joinWith sep [p] = p := by simp [joinWith, List.intercalate]
    rw [hp]
    exact joinWith_cons_cons sep p q rest
  | p :: p' :: ps, _ => by
    have ih := joinWith_append sep hq (List.cons_ne_nil p' ps)
    rw [List.cons_append, List.cons_append, joinWith_cons_cons, joinWith_cons_cons,
      ← List.cons_append, ih]
    simp only [List.append_assoc]

/-- Parts without the separator are found again between separators. -/
theorem split_joinWith {sep : CodePoint} :
    ∀ {parts : List Text}, parts ≠ [] → (∀ p ∈ parts, sep ∉ p) →
      split sep (joinWith [sep] parts) = parts
  | [], h, _ => absurd rfl h
  | [p], _, h => by
    have hp : joinWith [sep] [p] = p := by simp [joinWith, List.intercalate]
    rw [hp]
    exact split_of_not_mem (h p (List.mem_singleton_self p))
  | p :: q :: rest, _, h => by
    have hrest : split sep (joinWith [sep] (q :: rest)) = q :: rest :=
      split_joinWith (List.cons_ne_nil q rest) fun r hr => h r (List.mem_cons_of_mem p hr)
    rw [joinWith_cons_cons, List.append_assoc, List.singleton_append,
      split_append (h p (List.mem_cons_self ..)), hrest]

end Text

namespace Path

/-! ## §2. Absolute paths. -/

theorem isAbsolute_append {p : Text} (h : isAbsolute p = true) (q : Text) :
    isAbsolute (p ++ q) = true := by
  unfold isAbsolute at h ⊢
  cases p with
  | nil => cases h
  | cons c rest => exact h

theorem isAbsolute_join {dir : Text} (h : isAbsolute dir = true) (p : Text) :
    isAbsolute (join dir p) = true := by
  unfold join
  split
  · assumption
  · split
    · exact isAbsolute_append h _
    · exact isAbsolute_append h _

/-! ## §3. Names. -/

/-- What can stand between two slashes. -/
def IsPart (name : Text) : Prop := name ≠ [] ∧ CodePoint.slash ∉ name

/-- What can have a name in a directory: dots are no names. -/
def IsName (name : Text) : Prop := IsPart name ∧ name ≠ here ∧ name ≠ up

instance (name : Text) : Decidable (IsPart name) :=
  inferInstanceAs (Decidable (name ≠ [] ∧ CodePoint.slash ∉ name))

instance (name : Text) : Decidable (IsName name) :=
  inferInstanceAs (Decidable (IsPart name ∧ name ≠ here ∧ name ≠ up))

theorem isPart_here : IsPart here := by decide

theorem isPart_up : IsPart up := by decide

theorem slash_text : ("/" : Text) = [CodePoint.slash] := rfl

/-- What is added behind a text without bringing a separator stands behind the last one. -/
theorem afterLast_append {sep : CodePoint} {ext : Text} (h : sep ∉ ext) (t : Text) :
    afterLast sep (t ++ ext) = afterLast sep t ++ ext := by
  have hall : ∀ c ∈ ext.reverse, decide (c ≠ sep) = true := by
    intro c hc
    have hne : c ≠ sep := fun e => h (by simpa [e] using hc)
    simpa using hne
  unfold afterLast
  rw [List.reverse_append, List.takeWhile_append_of_pos hall, List.reverse_append,
    List.reverse_reverse]

theorem throughLast_append {sep : CodePoint} {ext : Text} (h : sep ∉ ext) (t : Text) :
    throughLast sep (t ++ ext) = throughLast sep t := by
  have hall : ∀ c ∈ ext.reverse, decide (c ≠ sep) = true := by
    intro c hc
    have hne : c ≠ sep := fun e => h (by simpa [e] using hc)
    simpa using hne
  unfold throughLast
  rw [List.reverse_append, List.dropWhile_append_of_pos hall]

theorem throughLast_concat (sep : CodePoint) (t : Text) : throughLast sep (t ++ [sep]) = t ++ [sep] := by
  unfold throughLast
  rw [List.reverse_append]
  simp

theorem afterLast_concat (sep : CodePoint) (t : Text) : afterLast sep (t ++ [sep]) = [] := by
  unfold afterLast
  rw [List.reverse_append]
  simp

/-- Last names are those of the text behind the last slash. -/
theorem baseName_append {s ext : Text} (h : CodePoint.slash ∉ ext) :
    baseName (s ++ ext) = baseName s ++ ext :=
  afterLast_append h s

theorem throughLast_eq_nil {sep : CodePoint} {t : Text} (h : sep ∉ t) : throughLast sep t = [] := by
  have hnil := throughLast_append h []
  rw [List.nil_append] at hnil
  rw [hnil]
  rfl

theorem getLast?_throughLast (sep : CodePoint) (t : Text) :
    throughLast sep t = [] ∨ (throughLast sep t).getLast? = some sep := by
  unfold throughLast
  rw [List.reverse_eq_nil_iff, List.getLast?_reverse]
  cases hd : t.reverse.dropWhile (· ≠ sep) with
  | nil => exact .inl rfl
  | cons c rest =>
    have hc := List.head?_dropWhile_not (fun c => decide (c ≠ sep)) t.reverse
    rw [hd] at hc
    exact .inr (by simpa using hc)

/-! ## §4. Written paths. -/

/-- What a path can start with. -/
def IsRoot (root : Text) : Prop := root = [] ∨ root = "/" ∨ root = "//"

/-- A path as it is written: what it starts with, and names with a slash between each two. -/
def written (root : Text) (names : List Text) : Text := root ++ Text.joinWith "/" names

variable {root : Text} {ns : List Text} {n : Text}

theorem written_nil : written root [] = root := by
  unfold written
  simp [Text.joinWith, List.intercalate]

/-- The path of one more name: a slash stands in front of it unless it is the first. -/
theorem written_concat :
    written root (ns ++ [n]) = (if ns = [] then root else written root ns ++ [CodePoint.slash]) ++ n := by
  unfold written
  rw [Text.joinWith_concat, slash_text]
  split
  · rfl
  · simp only [List.append_assoc]

/-- The last code point of a path with names is that of its last name. -/
theorem getLast?_written (hn : IsPart n) : (written root (ns ++ [n])).getLast? ≠ some CodePoint.slash := by
  rw [written_concat, List.getLast?_append]
  cases hlast : n.getLast? with
  | none => exact absurd (List.getLast?_eq_none_iff.1 hlast) hn.1
  | some c =>
    rintro ⟨rfl⟩
    exact hn.2 (List.mem_of_getLast? hlast)

theorem endsWith_slash_iff (s : Text) :
    s.endsWith [CodePoint.slash] = true ↔ s.getLast? = some CodePoint.slash := by
  unfold Text.endsWith
  rw [List.isSuffixOf_iff_suffix]
  constructor
  · rintro ⟨init, rfl⟩
    simp
  · intro h
    obtain ⟨init, rfl⟩ := List.getLast?_eq_some_iff.1 h
    exact ⟨init, rfl⟩

theorem not_endsWith_written (hn : IsPart n) : Text.endsWith (written root (ns ++ [n])) "/" = false := by
  rw [Bool.eq_false_iff, slash_text]
  intro h
  exact getLast?_written hn ((endsWith_slash_iff _).1 h)

/-- What stands before the last name ends with a slash, if there is anything. -/
theorem throughLast_front (hroot : IsRoot root) :
    throughLast CodePoint.slash (if ns = [] then root else written root ns ++ [CodePoint.slash])
      = if ns = [] then root else written root ns ++ [CodePoint.slash] := by
  split
  · rcases hroot with rfl | rfl | rfl <;> rfl
  · exact throughLast_concat _ _

theorem baseName_written (hroot : IsRoot root) (hn : IsPart n) :
    baseName (written root (ns ++ [n])) = n := by
  rw [written_concat, baseName_append hn.2]
  have hnil : baseName (if ns = [] then root else written root ns ++ [CodePoint.slash]) = [] := by
    split
    · rcases hroot with rfl | rfl | rfl <;> rfl
    · exact afterLast_concat _ _
  rw [hnil, List.nil_append]

theorem all_slash_root (hroot : IsRoot root) : root.all (· = CodePoint.slash) = true := by
  rcases hroot with rfl | rfl | rfl <;> rfl

theorem dirName_written (hroot : IsRoot root) (hns : ∀ m ∈ ns, IsPart m) (hn : IsPart n) :
    dirName (written root (ns ++ [n])) = written root ns := by
  unfold dirName
  rw [written_concat, throughLast_append hn.2, throughLast_front hroot]
  rcases List.eq_nil_or_concat ns with rfl | ⟨init, m, rfl⟩
  · simp only [if_true, all_slash_root hroot, written_nil]
  · rw [List.concat_eq_append] at hns ⊢
    have hm : IsPart m := hns m (by simp)
    have hne : init ++ [m] ≠ [] := by simp
    obtain ⟨c, hc⟩ : ∃ c, (written root (init ++ [m])).getLast? = some c := by
      cases hlast : (written root (init ++ [m])).getLast? with
      | some c => exact ⟨c, rfl⟩
      | none =>
        rw [List.getLast?_eq_none_iff, written_concat, List.append_eq_nil_iff] at hlast
        exact absurd hlast.2 hm.1
    have hcs : c ≠ CodePoint.slash := by
      rintro rfl
      exact getLast?_written hm hc
    obtain ⟨front, hfront⟩ := List.getLast?_eq_some_iff.1 hc
    have hall : (written root (init ++ [m]) ++ [CodePoint.slash]).all (· = CodePoint.slash) = false := by
      rw [hfront]
      simp [hcs]
    simp only [if_neg hne, hall]
    show (written root (init ++ [m]) ++ [CodePoint.slash]).rdropWhile (· = CodePoint.slash) = _
    rw [List.rdropWhile_concat_pos _ _ _ (by simp), hfront,
      List.rdropWhile_concat_neg _ _ _ (by simpa using hcs)]

theorem isAbsolute_of_isPart (hn : IsPart n) : isAbsolute n = false := by
  unfold isAbsolute
  cases n with
  | nil => rfl
  | cons c rest =>
    have hc : c ≠ CodePoint.slash := fun e => hn.2 (by simp [e])
    simpa using hc

/-- The last name of a path with one more name. -/
theorem baseName_join (dir : Text) (hn : IsPart n) : baseName (join dir n) = n := by
  have hslash : ∀ s : Text, baseName (s ++ [CodePoint.slash]) = [] := afterLast_concat CodePoint.slash
  unfold join
  rw [isAbsolute_of_isPart hn, if_neg (by simp)]
  split
  · rename_i hend
    rw [baseName_append hn.2]
    rcases List.eq_nil_or_concat dir with rfl | ⟨init, c, rfl⟩
    · rfl
    · have hc : c = CodePoint.slash := by simpa using hend
      rw [List.concat_eq_append, hc, hslash, List.nil_append]
  · rw [List.append_cons, baseName_append hn.2, hslash, List.nil_append]

/-- A path seen from a written one. -/
theorem join_written (hroot : IsRoot root) (hns : ∀ m ∈ ns, IsPart m) (hn : IsPart n) :
    join (written root ns) n = written root (ns ++ [n]) := by
  unfold join
  rw [isAbsolute_of_isPart hn, written_concat]
  rcases List.eq_nil_or_concat ns with rfl | ⟨init, m, rfl⟩
  · rw [written_nil]
    rcases hroot with rfl | rfl | rfl <;> rfl
  · rw [List.concat_eq_append] at hns ⊢
    have hm : IsPart m := hns m (by simp)
    have hne : init ++ [m] ≠ [] := by simp
    have hempty : (written root (init ++ [m])).isEmpty = false := by
      rw [written_concat]
      simp [hm.1]
    simp only [hempty, if_neg hne, Bool.false_or, decide_eq_false (getLast?_written hm)]
    simp

theorem isAbsolute_written (hroot : IsRoot root) (hns : ∀ m ∈ ns, IsPart m) :
    isAbsolute (written root ns) = decide (root ≠ []) := by
  rcases hroot with rfl | rfl | rfl
  · cases ns with
    | nil => rfl
    | cons m rest =>
      have hm := hns m (List.mem_cons_self ..)
      unfold written isAbsolute
      cases m with
      | nil => exact absurd rfl hm.1
      | cons c m =>
        have hc : c ≠ CodePoint.slash := fun e => hm.2 (by simp [e])
        cases rest <;> simp [Text.joinWith, List.intercalate, hc]
  · rfl
  · rfl

/-- A written path with names, seen from a written one. -/
theorem join_written_append {root : Text} {ns ms : List Text} (hroot : IsRoot root)
    (hns : ∀ m ∈ ns, IsPart m) (hms : ∀ m ∈ ms, IsPart m) (hne : ms ≠ []) :
    join (written root ns) (written [] ms) = written root (ns ++ ms) := by
  have habs : isAbsolute (written [] ms) = false := isAbsolute_written (.inl rfl) hms
  unfold join
  rw [habs, if_neg Bool.false_ne_true]
  rcases List.eq_nil_or_concat ns with rfl | ⟨init, m, rfl⟩
  · rw [written_nil]
    rcases hroot with rfl | rfl | rfl <;> rfl
  · rw [List.concat_eq_append] at hns ⊢
    have hm : IsPart m := hns m (by simp)
    have hempty : (written root (init ++ [m])).isEmpty = false := by
      rw [written_concat]
      simp [hm.1]
    rw [hempty, Bool.false_or, if_neg (by simpa using getLast?_written hm)]
    unfold written
    rw [Text.joinWith_append "/" hne (by simp), slash_text]
    simp

theorem names_slash (t : Text) : names (CodePoint.slash :: t) = names t := by
  unfold names
  have hsplit : Text.split CodePoint.slash (CodePoint.slash :: t)
      = [] :: Text.split CodePoint.slash t := Text.split_append (t := []) (by simp) t
  rw [hsplit]
  rfl

theorem names_of_isPart (hn : IsPart n) : names n = [n] := by
  unfold names
  rw [Text.split_of_not_mem hn.2]
  exact List.filter_cons_of_pos (by simpa using hn.1)

/-- The names of a written path. -/
theorem names_written (hroot : IsRoot root) (hns : ∀ m ∈ ns, IsPart m) :
    names (written root ns) = ns := by
  have hbare : names (Text.joinWith "/" ns) = ns := by
    cases ns with
    | nil => rfl
    | cons m rest =>
      unfold names
      rw [slash_text, Text.split_joinWith (List.cons_ne_nil m rest) fun p hp => (hns p hp).2]
      rw [List.filter_eq_self]
      intro p hp
      simpa using (hns p hp).1
  unfold written
  rcases hroot with rfl | rfl | rfl
  · exact hbare
  · exact (names_slash _).trans hbare
  · exact (names_slash _).trans ((names_slash _).trans hbare)

end Path

end ModuleBuild
