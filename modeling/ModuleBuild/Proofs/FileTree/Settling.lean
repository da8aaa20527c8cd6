/-
  ModuleBuild.Proofs.FileTree.Settling
  ────────────────────────────────────
  **WHERE MISSING NAMES WOULD LIE.**

  When directories are missing on the way, names settle where the missing ones
  would be made: the first of the names lead to a directory, nothing has the
  next name in it, and the rest go straight down from there.

  Making the missing directories takes the names to the place where they
  settle.  Taking something away can only make names settle at or below what
  was taken.

  Main results:
    * `Settles.det` — names settle at one place;
    * `Settles.eq_of_opened` — once the directories are made, names lead to where they settle;
    * `Settles.of_less` — where names settle after something was taken away.
-/
import ModuleBuild.Proofs.FileTree.Leading

namespace ModuleBuild

namespace FileTree

variable {t t' : FileTree} {dir d l : Location} {n : Text} {ns xs ys : List Text}

/-! ## §1. What lies below what. -/

theorem ne_none_of_eq_some {e : Entry} {k : Location} (h : t.entryAt? k = some e) :
    t.entryAt? k ≠ none := by
  rw [h]
  simp

/-- Something lies below a location only if a directory is there. -/
theorem isDirectory_of_below {k : Location} (h : t.entryAt? k ≠ none) (hl : l <+: k) (hne : l ≠ k) :
    t.entryAt? l = some .directory := by
  obtain ⟨tail, rfl⟩ := hl
  cases tail with
  | nil => exact absurd (List.append_nil l).symm hne
  | cons m rest => exact isDirectory_of_append h

/-- Below nothing lies nothing. -/
theorem entryAt?_eq_none_of_below {k : Location} (h : t.entryAt? l = none) (hl : l <+: k) :
    t.entryAt? k = none := by
  by_contra hsome
  by_cases hne : l = k
  · exact hsome (hne ▸ h)
  · rw [isDirectory_of_below hsome hl hne] at h
    cases h

/-- Below a directory, and above it, lie directories only. -/
theorem isDirectory_of_above {k : Location} (h : t.entryAt? k = some .directory) (hl : l <+: k) :
    t.entryAt? l = some .directory := by
  by_cases hne : l = k
  · exact hne ▸ h
  · exact isDirectory_of_below (ne_none_of_eq_some h) hl hne

/-! ## §2. Straight ways. -/

/-- A name leads only to something. -/
theorem Leads.ne_none (h : Leads t dir (n :: ns) d) (hn : Path.IsName n) :
    t.entryAt? (dir ++ [Utf8.nameForm n]) ≠ none := by
  cases h with
  | here => exact absurd rfl hn.2.1
  | up => exact absurd rfl hn.2.2
  | into _ _ he => exact ne_none_of_eq_some he
  | through _ _ he => exact ne_none_of_eq_some he

/-- Without links on the way names lead straight down. -/
theorem Leads.eq_append (hns : ∀ m ∈ ns, Path.IsName m) :
    ∀ {dir : Location}, Leads t dir ns d →
      (∀ k path, k ≠ [] → k <+: ns.map Utf8.nameForm → t.entryAt? (dir ++ k) ≠ some (.link path)) →
      d = dir ++ ns.map Utf8.nameForm := by
  induction ns with
  | nil =>
    intro dir h _
    cases h
    exact (List.append_nil _).symm
  | cons n ns ih =>
    intro dir h hlink
    have hn := hns n (List.mem_cons_self ..)
    cases h with
    | here => exact absurd rfl hn.2.1
    | up => exact absurd rfl hn.2.2
    | through _ _ he => exact absurd he (hlink [Utf8.nameForm n] _ (by simp) (by simp))
    | into _ _ _ h =>
      have hd := ih (fun m hm => hns m (List.mem_cons_of_mem n hm)) h (by
        intro k path hk hpre
        rw [List.append_assoc]
        exact hlink (Utf8.nameForm n :: k) path (by simp) (by simpa using hpre))
      rw [hd, List.append_assoc]
      rfl

/-- Names of directories lead from one into the next. -/
theorem leads_map (hns : ∀ m ∈ ns, Path.IsName m) :
    ∀ {dir : Location}, t.entryAt? (dir ++ ns.map Utf8.nameForm) = some .directory →
      Leads t dir ns (dir ++ ns.map Utf8.nameForm) := by
  induction ns with
  | nil =>
    intro dir _
    rw [List.map_nil, List.append_nil]
    exact .nil dir
  | cons n ns ih =>
    intro dir hdir
    have hn := hns n (List.mem_cons_self ..)
    rw [List.map_cons, List.append_cons] at hdir ⊢
    exact .into hn.2.1 hn.2.2 (isDirectory_of_above hdir (List.prefix_append ..))
      (ih (fun m hm => hns m (List.mem_cons_of_mem n hm)) hdir)

/-- Names of directories, as the system writes them, lead straight down. -/
theorem leads_append (hns : ∀ m ∈ ns, Path.IsName m ∧ Utf8.nameForm m = m) {dir : Location}
    (hdir : t.entryAt? (dir ++ ns) = some .directory) : Leads t dir ns (dir ++ ns) := by
  have hforms : ns.map Utf8.nameForm = ns := by
    rw [List.map_congr_left fun m hm => (hns m hm).2, List.map_id']
  have hleads : Leads t dir ns (dir ++ ns.map Utf8.nameForm) :=
    leads_map (fun m hm => (hns m hm).1) (by rwa [hforms])
  rwa [hforms] at hleads

/-! ## §3. Settling. -/

/-- Names settle at a location: the first of them lead to a directory, where nothing has the next
name, and the others go straight down from there. -/
def Settles (t : FileTree) (dir : Location) (ns : List Text) (l : Location) : Prop :=
  ∃ xs ys d, ns = xs ++ ys ∧ Leads t dir xs d ∧ l = d ++ ys.map Utf8.nameForm ∧
    (∀ m ∈ ys, Path.IsName m) ∧ ∀ m ∈ ys.head?, t.entryAt? (d ++ [Utf8.nameForm m]) = none

theorem Leads.settles (h : Leads t dir ns d) : Settles t dir ns d :=
  ⟨ns, [], d, (List.append_nil ns).symm, h, (List.append_nil d).symm, by simp, by simp⟩

/-- If names lead further than to the place where the next one is missing, no name is missing. -/
theorem Leads.eq_nil_of_missing {mid : Location} {zs : List Text} (h : Leads t dir xs mid)
    (h' : Leads t dir (xs ++ zs) d) (hname : ∀ m ∈ zs.head?, Path.IsName m)
    (hmissing : ∀ m ∈ zs.head?, t.entryAt? (mid ++ [Utf8.nameForm m]) = none) : zs = [] := by
  cases zs with
  | nil => rfl
  | cons z zs =>
    obtain ⟨mid', h1, h2⟩ := h'.split rfl
    rw [← h.det h1] at h2
    exact absurd (hmissing z rfl) (h2.ne_none (hname z rfl))

/-- **Names settle at one place.** -/
theorem Settles.det {l' : Location} (h : Settles t dir ns l) (h' : Settles t dir ns l') : l = l' := by
  obtain ⟨xs, ys, d, hns, hd, rfl, hnames, hmissing⟩ := h
  obtain ⟨xs', ys', d', hns', hd', rfl, hnames', hmissing'⟩ := h'
  rw [hns] at hns'
  -- one of the two leads as far as the other, and further only if nothing is missing there
  rcases List.append_eq_append_iff.1 hns' with ⟨zs, rfl, rfl⟩ | ⟨zs, rfl, rfl⟩
  · have hzs : zs = [] := by
      refine hd.eq_nil_of_missing hd' (fun m hm => hnames m ?_) (fun m hm => hmissing m ?_)
      · exact List.mem_append_left ys' (List.mem_of_mem_head? hm)
      · cases zs with
        | nil => cases hm
        | cons z zs => exact hm
    subst hzs
    rw [List.append_nil] at hd'
    rw [hd.det hd', List.nil_append]
  · have hzs : zs = [] := by
      refine hd'.eq_nil_of_missing hd (fun m hm => hnames' m ?_) (fun m hm => hmissing' m ?_)
      · exact List.mem_append_left ys (List.mem_of_mem_head? hm)
      · cases zs with
        | nil => cases hm
        | cons z zs => exact hm
    subst hzs
    rw [List.append_nil] at hd
    rw [hd.det hd', List.nil_append]

/-- One name more settles below, if nothing is there. -/
theorem Settles.concat (h : Settles t dir ns l) (hn : Path.IsName n)
    (hl : t.entryAt? (l ++ [Utf8.nameForm n]) = none) :
    Settles t dir (ns ++ [n]) (l ++ [Utf8.nameForm n]) := by
  obtain ⟨xs, ys, d, rfl, hd, rfl, hnames, hmissing⟩ := h
  refine ⟨xs, ys ++ [n], d, List.append_assoc .., hd, ?_, ?_, ?_⟩
  · rw [List.map_append, List.append_assoc]
    rfl
  · intro m hm
    rcases List.mem_append.1 hm with hm | hm
    · exact hnames m hm
    · rw [List.mem_singleton.1 hm]
      exact hn
  · intro m hm
    cases ys with
    | nil =>
      cases hm
      rw [List.map_nil, List.append_nil] at hl
      exact hl
    | cons y ys => exact hmissing m hm

/-- Names that settle lead there, or the last of them is missing. -/
theorem Settles.cases_concat (h : Settles t dir (ns ++ [n]) l) :
    Leads t dir (ns ++ [n]) l
      ∨ ∃ m, Settles t dir ns m ∧ l = m ++ [Utf8.nameForm n] ∧ t.entryAt? l = none := by
  obtain ⟨xs, ys, d, hns, hd, rfl, hnames, hmissing⟩ := h
  rcases List.eq_nil_or_concat ys with rfl | ⟨zs, z, rfl⟩
  · rw [List.append_nil] at hns
    rw [hns, List.map_nil, List.append_nil]
    exact .inl hd
  · rw [List.concat_eq_append] at hns hnames hmissing ⊢
    rw [← List.append_assoc] at hns
    obtain ⟨hinit, hlast⟩ := List.append_inj' hns rfl
    cases hlast
    refine .inr ⟨d ++ zs.map Utf8.nameForm, ⟨xs, zs, d, hinit, hd, rfl, ?_, ?_⟩, ?_, ?_⟩
    · exact fun m hm => hnames m (List.mem_append_left _ hm)
    · intro m hm
      cases zs with
      | nil => cases hm
      | cons z zs => exact hmissing m hm
    · rw [List.map_append, List.append_assoc]
      rfl
    · -- below the first missing name lies nothing
      cases zs with
      | nil => exact hmissing n rfl
      | cons z zs =>
        refine entryAt?_eq_none_of_below (hmissing z rfl) ?_
        simp

/-! ## §4. Directories that are made. -/

/-- A tree with directories made on the way to a location, where nothing was. -/
def Opened (t t' : FileTree) (l : Location) : Prop :=
  ∀ k, t'.entryAt? k = t.entryAt? k
    ∨ (t.entryAt? k = none ∧ t'.entryAt? k = some .directory ∧ k <+: l)

theorem Opened.extends (h : Opened t t' l) : Extends t t' := by
  intro k e he
  rcases h k with hk | ⟨hk, -⟩
  · rw [hk, he]
  · rw [he] at hk
    cases hk

/-- What is missing on the way to a directory is nothing. -/
theorem Opened.eq_of_isDirectory (h : Opened t t' l) (hl : t.entryAt? l = some .directory)
    (k : Location) : t'.entryAt? k = t.entryAt? k := by
  rcases h k with hk | ⟨hk, -, hpre⟩
  · exact hk
  · rw [isDirectory_of_above hl hpre] at hk
    cases hk

/-- **Once the directories are made, names lead to where they settle.** -/
theorem Settles.eq_of_opened (h : Settles t dir ns l) (hopen : Opened t t' l)
    (hd : Leads t' dir ns d) : d = l := by
  obtain ⟨xs, ys, mid, rfl, hmid, rfl, hnames, hmissing⟩ := h
  obtain ⟨mid', h1, h2⟩ := hd.split rfl
  rw [← (hmid.grows hopen.extends.grows).det h1] at h2
  refine h2.eq_append hnames ?_
  -- what is new on the way down is a directory, and nothing else lies there
  intro k path hk hpre hlink
  cases ys with
  | nil => exact hk (List.prefix_nil.1 hpre)
  | cons y ys =>
    have hbelow : mid ++ [Utf8.nameForm y] <+: mid ++ k := by
      rw [List.prefix_append_right_inj]
      cases k with
      | nil => exact absurd rfl hk
      | cons m k =>
        rw [List.map_cons, List.cons_prefix_cons] at hpre
        rw [hpre.1]
        simp
    have hnone := entryAt?_eq_none_of_below (hmissing y rfl) hbelow
    rcases hopen (mid ++ k) with heq | ⟨-, hdir, -⟩
    · rw [heq, hnone] at hlink
      cases hlink
    · rw [hdir] at hlink
      cases hlink

/-! ## §5. What is taken away. -/

/-- **Where names settle after something was taken away**: where they led, or below something that
went. -/
theorem Settles.of_less (h : Settles t' dir ns l) (hless : Extends t' t) (hd : Leads t dir ns d) :
    l = d ∨ ∃ mid y ys, Leads t mid (y :: ys) d ∧ (∀ m ∈ y :: ys, Path.IsName m) ∧
      t'.entryAt? (mid ++ [Utf8.nameForm y]) = none ∧
      t.entryAt? (mid ++ [Utf8.nameForm y]) ≠ none ∧ mid ++ [Utf8.nameForm y] <+: l := by
  obtain ⟨xs, ys, mid, rfl, hmid, rfl, hnames, hmissing⟩ := h
  obtain ⟨mid', h1, h2⟩ := hd.split rfl
  rw [← (hmid.grows hless.grows).det h1] at h2
  cases ys with
  | nil =>
    cases h2
    exact .inl (List.append_nil _)
  | cons y ys =>
    refine .inr ⟨mid, y, ys, h2, hnames, hmissing y rfl, ?_, ?_⟩
    · exact h2.ne_none (hnames y (List.mem_cons_self ..))
    · simp

end FileTree

end ModuleBuild
