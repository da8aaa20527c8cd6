/-
  ModuleBuild.Text.NameSet
  ────────────────────────
  **SETS OF NAMES, IN ORDER.**

  A set of names is the strictly ascending list of its members, so two sets
  with the same members are equal.  The names of a directory and the names
  that a walk prunes are such sets.

  Main results:
    * `mem_insert`, `mem_ofList`, `mem_erase` — membership of each operation;
    * `ext_mem` — sets with the same members are equal.
-/
import ModuleBuild.Text.Basic

namespace ModuleBuild

namespace Text

instance : DecidableLT Text := inferInstanceAs (DecidableLT (List CodePoint))

/-- A strictly ascending list of texts with one more text in its place. -/
def insertInOrder (n : Text) : List Text → List Text
  | [] => [n]
  | m :: ms => if n < m then n :: m :: ms else if n = m then m :: ms else m :: insertInOrder n ms

theorem mem_insertInOrder {n k : Text} {ms : List Text} :
    k ∈ insertInOrder n ms ↔ k = n ∨ k ∈ ms := by
  induction ms with
  | nil => simp [insertInOrder]
  | cons m ms ih =>
    unfold insertInOrder
    split
    · simp
    · split
      · rename_i h; subst h; simp
      · simp [ih]; grind

theorem pairwise_insertInOrder {n : Text} {ms : List Text} (h : ms.Pairwise (· < ·)) :
    (insertInOrder n ms).Pairwise (· < ·) := by
  induction ms with
  | nil => simp [insertInOrder]
  | cons m ms ih =>
    have hm := (List.pairwise_cons.1 h).1
    have hms := (List.pairwise_cons.1 h).2
    unfold insertInOrder
    split
    · rename_i hlt
      refine List.pairwise_cons.2 ⟨?_, h⟩
      intro k hk
      rcases List.mem_cons.1 hk with rfl | hk
      · exact hlt
      · exact List.lt_trans hlt (hm k hk)
    · split
      · exact h
      · rename_i hlt hne
        refine List.pairwise_cons.2 ⟨?_, ih hms⟩
        intro k hk
        rcases mem_insertInOrder.1 hk with rfl | hk
        · rcases List.le_total m k with hle | hle
          · exact Classical.byContradiction fun hmk =>
              hne (List.le_antisymm (List.not_lt.1 hmk) hle)
          · exact Classical.byContradiction fun hmk =>
              hne (List.le_antisymm (List.not_lt.1 hmk) (List.not_lt.1 hlt))
        · exact hm k hk

end Text

/-- A finite set of names, as the ascending list of its members. -/
structure NameSet where
  toList : List Text
  ascending : toList.Pairwise (· < ·)
  deriving DecidableEq

namespace NameSet

/-- The set without members. -/
def empty : NameSet := ⟨[], List.Pairwise.nil⟩

/-- The set with one more member. -/
def insert (s : NameSet) (n : Text) : NameSet :=
  ⟨Text.insertInOrder n s.toList, Text.pairwise_insertInOrder s.ascending⟩

/-- The set with more members. -/
def insertMany (s : NameSet) (ns : List Text) : NameSet := ns.foldl insert s

/-- The set of the names in a list. -/
def ofList (ns : List Text) : NameSet := empty.insertMany ns

/-- The set without one name. -/
def erase (s : NameSet) (n : Text) : NameSet :=
  ⟨s.toList.filter (· ≠ n), s.ascending.filter _⟩

/-- Whether a name is a member. -/
def contains (s : NameSet) (n : Text) : Bool := s.toList.contains n

instance : Membership Text NameSet := ⟨fun s n => n ∈ s.toList⟩

theorem mem_def {s : NameSet} {n : Text} : n ∈ s ↔ n ∈ s.toList := Iff.rfl

@[simp] theorem contains_iff {s : NameSet} {n : Text} : s.contains n = true ↔ n ∈ s := by
  simp [contains, mem_def]

@[simp] theorem not_mem_empty {n : Text} : ¬ n ∈ empty := by
  simp [mem_def, empty]

@[simp] theorem mem_insert {s : NameSet} {n k : Text} : k ∈ s.insert n ↔ k = n ∨ k ∈ s := by
  simp [mem_def, insert, Text.mem_insertInOrder]

@[simp] theorem mem_insertMany {s : NameSet} {ns : List Text} {k : Text} :
    k ∈ s.insertMany ns ↔ k ∈ ns ∨ k ∈ s := by
  induction ns generalizing s with
  | nil => simp [insertMany]
  | cons n ns ih =>
    have := ih (s := s.insert n)
    simp only [insertMany, List.foldl_cons] at this ⊢
    rw [this]
    simp
    grind

@[simp] theorem mem_ofList {ns : List Text} {k : Text} : k ∈ ofList ns ↔ k ∈ ns := by
  simp [ofList]

@[simp] theorem mem_erase {s : NameSet} {n k : Text} : k ∈ s.erase n ↔ k ∈ s ∧ k ≠ n := by
  simp [mem_def, erase]

/-- Two ascending lists with the same members are equal. -/
theorem eq_of_pairwise_of_mem {l k : List Text} (hl : l.Pairwise (· < ·))
    (hk : k.Pairwise (· < ·)) (h : ∀ n, n ∈ l ↔ n ∈ k) : l = k := by
  induction l generalizing k with
  | nil =>
    cases k with
    | nil => rfl
    | cons b bs => simpa using h b
  | cons a as ih =>
    cases k with
    | nil => simpa using h a
    | cons b bs =>
      have ha := List.pairwise_cons.1 hl
      have hb := List.pairwise_cons.1 hk
      have hab : a = b := by
        rcases List.mem_cons.1 ((h a).1 (by simp)) with e | e
        · exact e
        · rcases List.mem_cons.1 ((h b).2 (by simp)) with e' | e'
          · exact e'.symm
          · exact absurd (List.lt_trans (hb.1 a e) (ha.1 b e')) (List.lt_irrefl b)
      subst hab
      congr 1
      refine ih ha.2 hb.2 fun n => ?_
      constructor
      · intro hn
        rcases List.mem_cons.1 ((h n).1 (by simp [hn])) with e | e
        · subst e; exact absurd (ha.1 n hn) (List.lt_irrefl n)
        · exact e
      · intro hn
        rcases List.mem_cons.1 ((h n).2 (by simp [hn])) with e | e
        · subst e; exact absurd (hb.1 n hn) (List.lt_irrefl n)
        · exact e

/-- Sets with the same members are equal. -/
theorem ext_mem {s t : NameSet} (h : ∀ n, n ∈ s ↔ n ∈ t) : s = t := by
  have := eq_of_pairwise_of_mem s.ascending t.ascending h
  cases s; cases t; cases this; rfl

end NameSet

end ModuleBuild
