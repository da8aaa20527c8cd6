/-
  ModuleBuild.Proofs.FileTree.RealPlace
  ─────────────────────────────────────
  **THE REAL PATH OF WHERE THE SYSTEM GETS TO.**

  The system follows a path in one go and counts the links that it passes.
  Real paths are resolved by a recursion of their own: the path of a link is
  resolved first, apart from what stands behind it, and a link that is met
  while it is being resolved is a loop.

  Where the system gets to a directory, the resolution gets there too.  Names
  that lead somewhere pass a number of links that is settled by the names, and
  the path of a link passes fewer than the names it stands in; so no link is
  met while it is being resolved.

  Main results:
    * `Enters.leadsBy` — what is entered is led to through no more links than were allowed;
    * `LeadsBy.exists_realFrom` — names that lead to a directory are resolved to it;
    * `exists_realPath_opened` — the real path of what lies below a directory that was opened;
    * `isWithin_absolute` — where no name leads up, a root and its absolute form are one.
-/
import ModuleBuild.Proofs.FileTree.RealAlike
import ModuleBuild.Proofs.FileTree.Within
import ModuleBuild.Proofs.Path.Dotless
import ModuleBuild.Proofs.Path.FormBytes

namespace ModuleBuild

namespace FileTree

/-! ## §1. How many links are passed. -/

/-- Names lead from a directory to another through so many links: the path of a link leads somewhere,
and what stands behind the link leads on from there. -/
inductive LeadsBy (t : FileTree) : Nat → Location → List Text → Location → Prop
  | nil (dir : Location) : LeadsBy t 0 dir [] dir
  | here {m : Nat} {dir d : Location} {rest : List Text} :
      LeadsBy t m dir rest d → LeadsBy t m dir (Path.here :: rest) d
  | up {m : Nat} {dir d : Location} {rest : List Text} :
      LeadsBy t m dir.dropLast rest d → LeadsBy t m dir (Path.up :: rest) d
  | into {m : Nat} {dir d : Location} {name : Text} {rest : List Text} :
      name ≠ Path.here → name ≠ Path.up →
      t.entryAt? (dir ++ [Utf8.nameForm name]) = some .directory →
      LeadsBy t m (dir ++ [Utf8.nameForm name]) rest d → LeadsBy t m dir (name :: rest) d
  | through {inner outer : Nat} {dir mid d : Location} {name : Text} {rest : List Text} {path : Text} :
      name ≠ Path.here → name ≠ Path.up →
      t.entryAt? (dir ++ [Utf8.nameForm name]) = some (.link path) →
      LeadsBy t inner (linkStart (dir ++ [Utf8.nameForm name]) path) (Path.names path) mid →
      LeadsBy t outer mid rest d → LeadsBy t (inner + 1 + outer) dir (name :: rest) d

variable {t : FileTree} {m m' links : Nat} {dir d d' l : Location} {ns xs ys tail pieces : List Text}
  {name path start p q r : Text} {trail : List Stem} {base : List Text}

/-- Names lead to one place, through one number of links. -/
theorem LeadsBy.det (h : LeadsBy t m dir ns d) (h' : LeadsBy t m' dir ns d') : m = m' ∧ d = d' := by
  -- the first name, and what has it, decide the constructor
  induction h generalizing m' d' with
  | nil dir => cases h'; exact ⟨rfl, rfl⟩
  | here _ ih =>
    cases h' with
    | here h' => exact ih h'
    | into h1 => exact absurd rfl h1
    | through h1 => exact absurd rfl h1
  | up _ ih =>
    cases h' with
    | up h' => exact ih h'
    | into _ h2 => exact absurd rfl h2
    | through _ h2 => exact absurd rfl h2
  | into h1 h2 he _ ih =>
    cases h' with
    | here => exact absurd rfl h1
    | up => exact absurd rfl h2
    | into _ _ _ h' => exact ih h'
    | through _ _ he' => rw [he] at he'; cases he'
  | through h1 h2 he _ _ ihinner ihouter =>
    cases h' with
    | here => exact absurd rfl h1
    | up => exact absurd rfl h2
    | into _ _ he' => rw [he] at he'; cases he'
    | through _ _ he' hinner houter =>
      rw [he] at he'
      cases he'
      obtain ⟨rfl, rfl⟩ := ihinner hinner
      obtain ⟨rfl, rfl⟩ := ihouter houter
      exact ⟨rfl, rfl⟩

/-- Names pass the links that the first of them pass, and those that the others do. -/
theorem LeadsBy.split (h : LeadsBy t m dir ns d) :
    ∀ {xs ys : List Text}, ns = xs ++ ys →
      ∃ k k' mid, m = k + k' ∧ LeadsBy t k dir xs mid ∧ LeadsBy t k' mid ys d := by
  -- before the first name there is nothing to split
  have hnone : ∀ {m : Nat} {dir d : Location} {ns ys : List Text}, LeadsBy t m dir ns d → ns = [] ++ ys →
      ∃ k k' mid, m = k + k' ∧ LeadsBy t k dir [] mid ∧ LeadsBy t k' mid ys d := by
    rintro m dir d _ ys h rfl
    exact ⟨0, m, dir, (Nat.zero_add m).symm, .nil dir, h⟩
  induction h with
  | nil dir =>
    intro xs ys hns
    obtain ⟨rfl, rfl⟩ := List.append_eq_nil_iff.1 hns.symm
    exact ⟨0, 0, dir, rfl, .nil dir, .nil dir⟩
  | here h ih =>
    rintro (_ | ⟨x, xs⟩) ys hns
    · exact hnone (.here h) hns
    · obtain ⟨rfl, hrest⟩ := List.cons.inj hns
      obtain ⟨k, k', mid, hsum, h1, h2⟩ := ih hrest
      exact ⟨k, k', mid, hsum, .here h1, h2⟩
  | up h ih =>
    rintro (_ | ⟨x, xs⟩) ys hns
    · exact hnone (.up h) hns
    · obtain ⟨rfl, hrest⟩ := List.cons.inj hns
      obtain ⟨k, k', mid, hsum, h1, h2⟩ := ih hrest
      exact ⟨k, k', mid, hsum, .up h1, h2⟩
  | into hne hne' he h ih =>
    rintro (_ | ⟨x, xs⟩) ys hns
    · exact hnone (.into hne hne' he h) hns
    · obtain ⟨rfl, hrest⟩ := List.cons.inj hns
      obtain ⟨k, k', mid, hsum, h1, h2⟩ := ih hrest
      exact ⟨k, k', mid, hsum, .into hne hne' he h1, h2⟩
  | @through inner outer dir _ d name rest path hne hne' he hinner houter _ ih =>
    rintro (_ | ⟨x, xs⟩) ys hns
    · exact hnone (.through hne hne' he hinner houter) hns
    · obtain ⟨rfl, hrest⟩ := List.cons.inj hns
      obtain ⟨k, k', mid, hsum, h1, h2⟩ := ih hrest
      exact ⟨inner + 1 + k, k', mid, by omega, .through hne hne' he hinner h1, h2⟩

/-- **What is entered is led to through no more links than were allowed.** -/
theorem Enters.leadsBy (h : Enters t links dir ns d) : ∃ m ≤ links, LeadsBy t m dir ns d := by
  induction h with
  | nil links dir => exact ⟨0, Nat.zero_le _, .nil _⟩
  | here _ ih =>
    obtain ⟨m, hm, hleads⟩ := ih
    exact ⟨m, hm, .here hleads⟩
  | up _ ih =>
    obtain ⟨m, hm, hleads⟩ := ih
    exact ⟨m, hm, .up hleads⟩
  | into h1 h2 _ he _ ih =>
    obtain ⟨m, hm, hleads⟩ := ih
    exact ⟨m, hm, .into h1 h2 he hleads⟩
  | through h1 h2 _ he _ _ ih =>
    obtain ⟨m, hm, hleads⟩ := ih
    obtain ⟨inner, outer, mid, hsum, hinner, houter⟩ := hleads.split rfl
    refine ⟨inner + 1 + outer, by omega, .through h1 h2 he ?_ houter⟩
    unfold linkStart
    rwa [List.dropLast_concat]

/-- Where links are passed there are some. -/
theorem LeadsBy.exists_link (h : LeadsBy t m dir ns d) (hm : 0 < m) :
    ∃ k path, t.entryAt? k = some (.link path) := by
  induction h with
  | nil => exact absurd hm (lt_irrefl 0)
  | here _ ih => exact ih hm
  | up _ ih => exact ih hm
  | into _ _ _ _ ih => exact ih hm
  | through _ _ he => exact ⟨_, _, he⟩

/-! ## §2. Links that can be read. -/

/-- The path of each link has a form in the system, and no link lies so deep that the system does not
take its path. -/
structure ReadableLinks (t : FileTree) : Prop where
  nameable : ∀ k path, t.entryAt? k = some (.link path) → Nameable path
  short : ∀ k path, t.entryAt? k = some (.link path) → Utf8.byteCount (pathOf k) < pathBytesLimit

/-- The path of a place is as long as it is with the names that led there. -/
theorem byteCount_pathOf_map (l : List Text) :
    Utf8.byteCount (pathOf (l.map Utf8.nameForm)) = Utf8.byteCount (pathOf l) := by
  have hcons : ∀ l, Utf8.byteCount (pathOf l) = 1 + Utf8.byteCount (Text.joinWith "/" l) := fun l =>
    byteCount_append [CodePoint.slash] (Text.joinWith "/" l)
  rw [hcons, hcons]
  by_cases hl : l = []
  · rw [hl]
    rfl
  · have hsum := Text.sum_byteCount hl
    have hforms := Text.sum_byteCount (show l.map Utf8.nameForm ≠ [] by simpa using hl)
    rw [List.map_map] at hforms
    have hsame : (l.map ((fun n => Utf8.byteCount n + 1) ∘ Utf8.nameForm))
        = l.map fun n => Utf8.byteCount n + 1 :=
      List.map_congr_left fun n _ => congrArg (· + 1) (Utf8.byteCount_nameForm n)
    rw [hsame] at hforms
    omega

/-- A link is read where it lies. -/
theorem linkAt?_rooted (hlinks : ReadableLinks t) (he : t.entryAt? (base.map Utf8.nameForm) = some (.link path)) :
    t.linkAt? (.rooted base) = some path := by
  have hshort : ¬ pathBytesLimit ≤ Utf8.byteCount (Stem.rooted base).path :=
    Nat.not_le.2 ((byteCount_pathOf_map base).symm.trans_lt (hlinks.short _ _ he))
  have hplace : (Stem.rooted base).names t.workingDir = base := rfl
  unfold linkAt?
  rw [if_neg hshort, hplace, he]

/-- Where there is no link none is read. -/
theorem linkAt?_rooted_eq_none (he : ∀ path, t.entryAt? (base.map Utf8.nameForm) ≠ some (.link path)) :
    t.linkAt? (.rooted base) = none := by
  cases hlink : t.linkAt? (.rooted base) with
  | none => rfl
  | some path => exact absurd (linkAt?_eq_some hlink).2 (he path)

/-! ## §3. Resolving. -/

/-- Names that the system can have. -/
def Given (ns : List Text) : Prop := ∀ n ∈ ns, Path.IsName n ∧ Nameable n

theorem Given.append (h : Given xs) (h' : Given ys) : Given (xs ++ ys) := List.forall_mem_append.2 ⟨h, h'⟩

theorem Given.concat (h : Given base) (hname : Path.IsName name) (hnameable : Nameable name) :
    Given (base ++ [name]) :=
  h.append fun n hn => by rw [List.mem_singleton.1 hn]; exact ⟨hname, hnameable⟩

theorem Given.checkPath (h : Given base) : checkPath (Stem.rooted base).path = .ok () :=
  (checkPath_pathOf fun n hn => (h n hn).1).2 fun n hn => (h n hn).2

/-- A name that is no link is resolved to itself. -/
theorem realFrom_rooted_name (hname : Path.IsName name) (hgiven : Given (base ++ [name]))
    (hnone : t.linkAt? (.rooted (base ++ [name])) = none) :
    realFrom t links trail (.rooted base) (name :: pieces)
      = realFrom t links trail (.rooted (base ++ [name])) pieces := by
  have hpush : (Stem.rooted base).push name = .rooted (base ++ [name]) := rfl
  rw [realFrom_named hname.1.1 hname.2.1 hname.2.2, hpush, hgiven.checkPath, hnone]

/-- A link that is not being resolved is resolved to what its path is. -/
theorem realFrom_rooted_link {s : Stem} (hname : Path.IsName name) (hgiven : Given (base ++ [name]))
    (hlink : t.linkAt? (.rooted (base ++ [name])) = some path) (hnot : Stem.rooted (base ++ [name]) ∉ trail)
    (hpath : realFrom t links (.rooted (base ++ [name]) :: trail)
      (if Path.isAbsolute path then .rooted [] else .rooted base) (Text.split CodePoint.slash path)
        = .ok (.resolved s)) :
    realFrom t (links + 1) trail (.rooted base) (name :: pieces)
      = realFrom t (links + 1) trail s pieces := by
  have hpush : (Stem.rooted base).push name = .rooted (base ++ [name]) := rfl
  have hcontains : ¬ trail.contains (Stem.rooted (base ++ [name])) = true := fun hc =>
    hnot (List.contains_iff_mem.1 hc)
  rw [realFrom_named hname.1.1 hname.2.1 hname.2.2, hpush, hgiven.checkPath, hlink]
  dsimp only
  rw [if_neg hcontains, hpath]

/-- Pieces that are passed over are not looked at. -/
theorem exists_realFrom_cons {s : Stem} {rest : List Text} (h : Path.dotless pieces = name :: rest) :
    ∃ pieces', Path.dotless pieces' = rest
      ∧ realFrom t links trail s pieces = realFrom t links trail s (name :: pieces') := by
  induction pieces with
  | nil => cases h
  | cons x pieces ih =>
    by_cases hx : x = [] ∨ x = Path.here
    · rw [realFrom_skip hx]
      exact ih (by rwa [Path.dotless_skip hx] at h)
    · rw [Path.dotless_cons hx] at h
      obtain ⟨rfl, hrest⟩ := List.cons.inj h
      exact ⟨pieces, hrest, rfl⟩

/-- Pieces that are all passed over lead nowhere else. -/
theorem realFrom_of_dotless_nil {s : Stem} (h : Path.dotless pieces = []) :
    realFrom t links trail s pieces = .ok (.resolved s) := by
  induction pieces with
  | nil => exact realFrom_nil ..
  | cons x pieces ih =>
    by_cases hx : x = [] ∨ x = Path.here
    · rw [realFrom_skip hx]
      exact ih (by rwa [Path.dotless_skip hx] at h)
    · rw [Path.dotless_cons hx] at h
      cases h

/-- A link that is being resolved: its path passes so many links at least. -/
def Busy (t : FileTree) (m : Nat) (s : Stem) : Prop :=
  ∀ path k d, t.entryAt? (s.spot t.workingDir) = some (.link path) →
    LeadsBy t k (linkStart (s.spot t.workingDir) path) (Path.names path) d → m ≤ k

theorem Busy.mono {s : Stem} (h : Busy t m s) (hle : m' ≤ m) : Busy t m' s :=
  fun path k d he hleads => hle.trans (h path k d he hleads)

/-- From a stem the names are resolved to another, whatever stands behind them. -/
def ResolvesTo (t : FileTree) (links : Nat) (trail : List Stem) (base ns base' : List Text) : Prop :=
  ∀ pieces tail : List Text, Path.dotless pieces = Path.dotless ns ++ tail →
    ∃ pieces', Path.dotless pieces' = tail
      ∧ realFrom t links trail (.rooted base) pieces = realFrom t links trail (.rooted base') pieces'

variable {base' mid rest : List Text}

theorem ResolvesTo.nil : ResolvesTo t links trail base [] base :=
  fun pieces _ hpieces => ⟨pieces, hpieces, rfl⟩

theorem ResolvesTo.here (h : ResolvesTo t links trail base rest base') :
    ResolvesTo t links trail base (Path.here :: rest) base' := by
  intro pieces tail hpieces
  rw [Path.dotless_skip (.inr rfl)] at hpieces
  exact h pieces tail hpieces

theorem ResolvesTo.up (h : ResolvesTo t links trail base.dropLast rest base') :
    ResolvesTo t links trail base (Path.up :: rest) base' := by
  intro pieces tail hpieces
  rw [Path.dotless_cons (by decide)] at hpieces
  obtain ⟨rest', hrest, hcons⟩ := exists_realFrom_cons hpieces
  rw [hcons, realFrom_up]
  exact h _ _ hrest

/-- A name at which no link lies is resolved to itself. -/
theorem ResolvesTo.into (hname : Path.IsName name) (hgiven : Given (base ++ [name]))
    (hnone : t.linkAt? (.rooted (base ++ [name])) = none)
    (h : ResolvesTo t links trail (base ++ [name]) rest base') :
    ResolvesTo t links trail base (name :: rest) base' := by
  intro pieces tail hpieces
  rw [Path.dotless_cons (not_or.2 ⟨hname.1.1, hname.2.1⟩)] at hpieces
  obtain ⟨rest', hrest, hcons⟩ := exists_realFrom_cons hpieces
  rw [hcons, realFrom_rooted_name hname hgiven hnone]
  exact h _ _ hrest

/-- A link is resolved to what the names of its path are. -/
theorem ResolvesTo.through (hname : Path.IsName name) (hgiven : Given (base ++ [name]))
    (hlink : t.linkAt? (.rooted (base ++ [name])) = some path)
    (hnot : Stem.rooted (base ++ [name]) ∉ trail)
    (hpath : ResolvesTo t links (.rooted (base ++ [name]) :: trail)
      (if Path.isAbsolute path then [] else base) (Path.names path) mid)
    (h : ResolvesTo t (links + 1) trail mid rest base') :
    ResolvesTo t (links + 1) trail base (name :: rest) base' := by
  -- nothing stands behind the path of the link
  have hresolved : realFrom t links (.rooted (base ++ [name]) :: trail)
      (if Path.isAbsolute path then .rooted [] else .rooted base) (Text.split CodePoint.slash path)
        = .ok (.resolved (.rooted mid)) := by
    obtain ⟨none, hnone, heq⟩ := hpath (Text.split CodePoint.slash path) []
      (by rw [Path.dotless_names, List.append_nil])
    rw [realFrom_of_dotless_nil hnone, apply_ite Stem.rooted] at heq
    exact heq
  intro pieces tail hpieces
  rw [Path.dotless_cons (not_or.2 ⟨hname.1.1, hname.2.1⟩)] at hpieces
  obtain ⟨rest', hrest, hcons⟩ := exists_realFrom_cons hpieces
  rw [hcons, realFrom_rooted_link hname hgiven hlink hnot hresolved]
  exact h _ _ hrest

/-- A link passes more links than its own path does, so it is not among those being resolved. -/
theorem not_mem_trail {s : Stem} {inner : Nat} (htrail : ∀ s ∈ trail, Busy t m s)
    (he : t.entryAt? (s.spot t.workingDir) = some (.link path))
    (hinner : LeadsBy t inner (linkStart (s.spot t.workingDir) path) (Path.names path) d)
    (hless : inner < m) : s ∉ trail :=
  fun hmem => Nat.not_le.2 hless (htrail s hmem path inner d he hinner)

/-- A link is busy with as many links as its own path passes. -/
theorem busy_of_leadsBy {s : Stem} (he : t.entryAt? (s.spot t.workingDir) = some (.link path))
    (h : LeadsBy t m (linkStart (s.spot t.workingDir) path) (Path.names path) d) : Busy t m s := by
  intro path' k d' he' h'
  rw [he] at he'
  cases he'
  exact (h.det h').1.le

/-- **Names that lead to a directory are resolved to it**, and what stands behind them is resolved from
there.  By induction on how they lead: a link is resolved by its own path, which passes fewer links. -/
theorem LeadsBy.exists_realFrom (hlinks : ReadableLinks t) (h : LeadsBy t m dir ns d) :
    ∀ (links : Nat) (trail : List Stem) {base : List Text}, base.map Utf8.nameForm = dir → Given base →
      (∀ n ∈ ns, Path.IsPart n ∧ Nameable n) → m ≤ links → (∀ s ∈ trail, Busy t m s) →
      ∃ base', base'.map Utf8.nameForm = d ∧ Given base' ∧ ResolvesTo t links trail base ns base' := by
  induction h with
  | nil dir =>
    intro links trail base hbase hgiven _ _ _
    exact ⟨base, hbase, hgiven, .nil⟩
  | here _ ih =>
    intro links trail base hbase hgiven hns hm htrail
    obtain ⟨base', hd, hgiven', hreal⟩ := ih links trail hbase hgiven (List.forall_mem_cons.1 hns).2 hm htrail
    exact ⟨base', hd, hgiven', hreal.here⟩
  | up _ ih =>
    intro links trail base hbase hgiven hns hm htrail
    have habove := (List.map_dropLast (f := Utf8.nameForm) (l := base)).trans (congrArg List.dropLast hbase)
    have hless : Given base.dropLast := fun n hn => hgiven n (List.dropLast_subset _ hn)
    obtain ⟨base', hd, hgiven', hreal⟩ := ih links trail habove hless (List.forall_mem_cons.1 hns).2 hm htrail
    exact ⟨base', hd, hgiven', hreal.up⟩
  | @into m dir d name rest h1 h2 he _ ih =>
    intro links trail base hbase hgiven hns hm htrail
    obtain ⟨⟨hpart, hnameable⟩, hrestNs⟩ := List.forall_mem_cons.1 hns
    have hnext : (base ++ [name]).map Utf8.nameForm = dir ++ [Utf8.nameForm name] := by
      rw [List.map_append, hbase]
      rfl
    have hgivenNext := hgiven.concat ⟨hpart, h1, h2⟩ hnameable
    have hnone : t.linkAt? (.rooted (base ++ [name])) = none :=
      linkAt?_rooted_eq_none fun path => by rw [hnext, he]; exact nofun
    obtain ⟨base', hd, hgiven', hreal⟩ := ih links trail hnext hgivenNext hrestNs hm htrail
    exact ⟨base', hd, hgiven', hreal.into ⟨hpart, h1, h2⟩ hgivenNext hnone⟩
  | @through inner outer dir mid d name rest path h1 h2 he hinner _ ihinner ihouter =>
    intro links trail base hbase hgiven hns hm htrail
    obtain ⟨⟨hpart, hnameable⟩, hrestNs⟩ := List.forall_mem_cons.1 hns
    have hnext : (base ++ [name]).map Utf8.nameForm = dir ++ [Utf8.nameForm name] := by
      rw [List.map_append, hbase]
      rfl
    have hspot : (Stem.rooted (base ++ [name])).spot t.workingDir = dir ++ [Utf8.nameForm name] := hnext
    have hgivenNext := hgiven.concat ⟨hpart, h1, h2⟩ hnameable
    obtain ⟨more, rfl⟩ : ∃ more, links = more + 1 := ⟨links - 1, by omega⟩
    -- the path of the link starts at the root or where the link lies
    have hstart : (if Path.isAbsolute path then [] else base).map Utf8.nameForm
        = linkStart (dir ++ [Utf8.nameForm name]) path := by
      unfold linkStart
      rw [List.dropLast_concat]
      split
      · rfl
      · exact hbase
    have hgivenStart : Given (if Path.isAbsolute path then [] else base) := by
      split
      · exact nofun
      · exact hgiven
    have hpath : ∀ n ∈ Path.names path, Path.IsPart n ∧ Nameable n := fun n hn =>
      ⟨isPart_of_mem_names hn, nameable_iff_names.1 (hlinks.nameable _ _ he) n hn⟩
    -- it passes fewer links than those that are being resolved, and as many as its own
    have hbusy : ∀ s ∈ Stem.rooted (base ++ [name]) :: trail, Busy t inner s :=
      List.forall_mem_cons.2 ⟨busy_of_leadsBy (hspot ▸ he) (hspot ▸ hinner),
        fun s hs => (htrail s hs).mono (by omega)⟩
    have hnot := not_mem_trail htrail (hspot ▸ he) (hspot ▸ hinner) (by omega)
    obtain ⟨baseMid, hmid, hgivenMid, hrealPath⟩ := ihinner more (.rooted (base ++ [name]) :: trail) hstart
      hgivenStart hpath (by omega) hbusy
    obtain ⟨base', hd, hgiven', hreal⟩ := ihouter (more + 1) trail hmid hgivenMid hrestNs (by omega)
      fun s hs => (htrail s hs).mono (by omega)
    exact ⟨base', hd, hgiven', .through ⟨hpart, h1, h2⟩ hgivenNext
      (linkAt?_rooted hlinks (hnext.symm ▸ he)) hnot hrealPath hreal⟩

/-- Names behind which no links lie are resolved to themselves. -/
theorem realFrom_linkless :
    ∀ {tail pieces base : List Text}, Path.dotless pieces = tail → Given (base ++ tail) →
      (∀ k, k ≠ [] → k <+: tail → ∀ path, t.entryAt? ((base ++ k).map Utf8.nameForm) ≠ some (.link path)) →
      realFrom t links trail (.rooted base) pieces = .ok (.resolved (.rooted (base ++ tail)))
  | [], pieces, base, hpieces, _, _ => by rw [realFrom_of_dotless_nil hpieces, List.append_nil]
  | name :: tail, pieces, base, hpieces, hgiven, hfree => by
    obtain ⟨rest, hrest, hcons⟩ := exists_realFrom_cons hpieces
    obtain ⟨hname, -⟩ := hgiven name (by simp)
    rw [← List.singleton_append, ← List.append_assoc] at hgiven
    have hnone : t.linkAt? (.rooted (base ++ [name])) = none :=
      linkAt?_rooted_eq_none (hfree [name] (List.cons_ne_nil _ _) ⟨tail, rfl⟩)
    have hnext : Given (base ++ [name]) := fun n hn => hgiven n (List.mem_append_left _ hn)
    rw [hcons, realFrom_rooted_name hname hnext hnone, realFrom_linkless hrest hgiven fun k _ hk path => ?_,
      List.append_assoc]
    · rfl
    · rw [List.append_assoc]
      exact hfree (name :: k) (List.cons_ne_nil _ _) (List.cons_prefix_cons.2 ⟨rfl, hk⟩) path

/-! ## §4. Below a directory that was opened. -/

/-- The links of a tree allow for as many as the system follows. -/
theorem LeadsBy.le_links (h : LeadsBy t m dir ns d) (hm : m ≤ maxLinks) :
    m ≤ t.top.linkCount * pathBytesLimit := by
  rcases Nat.eq_zero_or_pos m with rfl | hpos
  · exact Nat.zero_le _
  · obtain ⟨k, path, he⟩ := h.exists_link hpos
    have hone : 0 < t.top.linkCount := by
      rw [← Forest.length_linkPlaces]
      exact List.length_pos_of_mem (Forest.mem_linkPlaces _ he)
    calc m ≤ maxLinks := hm
      _ ≤ 1 * pathBytesLimit := by decide
      _ ≤ t.top.linkCount * pathBytesLimit := Nat.mul_le_mul_right _ hone

/-- **The real path of what lies below a directory that was opened**, if there are no links between:
the real path of the directory, and the names below it. -/
theorem exists_realPath_opened (hlinks : ReadableLinks t) (hstart : Path.isAbsolute start = true)
    (hopen : t.openDirectory start = .ok l) :
    ∃ base, ∀ (p : Text) (ns : List Text), Path.isAbsolute p = true →
      Path.dotless (Path.names p) = Path.dotless (Path.names start) ++ ns →
      (∀ n ∈ ns, Path.IsName n ∧ Utf8.nameForm n = n ∧ Nameable n) →
      (∀ k, k ≠ [] → k <+: ns → ∀ path, t.entryAt? (l ++ k) ≠ some (.link path)) →
      t.realPath p = .ok ⟨base ++ ns, false⟩ := by
  -- the base is settled by the directory, before it is said which path leads there
  obtain ⟨hlocate, hd⟩ := openDirectory_eq_ok hopen
  obtain ⟨hcheck, -, -, hfollow⟩ := locate_eq_ok_iff.1 hlocate
  obtain ⟨m, hm, hleads⟩ := (enters_of_follow hfollow hd).leadsBy
  have hnameable := nameable_iff_names.1 (checkPath_eq_ok_iff.1 hcheck)
  rw [if_pos hstart] at hleads
  obtain ⟨base, hbase, hgiven, hreal⟩ := hleads.exists_realFrom hlinks
    (t.top.linkCount * pathBytesLimit) [] (show [].map Utf8.nameForm = [] from rfl) nofun
    (fun n hn => ⟨isPart_of_mem_names hn, hnameable n hn⟩) (hleads.le_links hm) nofun
  refine ⟨base, fun p ns hp hnames hns hfree => ?_⟩
  rw [Path.dotless_names] at hnames
  obtain ⟨rest, hrest, heq⟩ := hreal _ _ hnames
  have hforms : ∀ k, k <+: ns → (base ++ k).map Utf8.nameForm = l ++ k := by
    intro k hk
    rw [List.map_append, hbase, List.map_congr_left fun n hn => (hns n (hk.subset hn)).2.1, List.map_id']
  have hgivenBelow : Given (base ++ ns) := hgiven.append fun n hn => ⟨(hns n hn).1, (hns n hn).2.2⟩
  have hplain : realFrom t (t.top.linkCount * pathBytesLimit) [] (.rooted base) rest
      = .ok (.resolved (.rooted (base ++ ns))) :=
    realFrom_linkless hrest hgivenBelow fun k hk hpre path => by
      rw [hforms k hpre]
      exact hfree k hk hpre path
  unfold realPath
  rw [if_pos hp, heq, hplain]
  rfl

/-- **Where no name leads up**, the absolute form of an absolute path has the same real path, so it lies
within it. -/
theorem isWithin_absolute (hproper : Proper t) (hlinks : ReadableLinks t) (hroot : Path.isAbsolute r = true)
    (hup : Path.up ∉ Path.names r) (hopen : t.openDirectory (t.absolute r) = .ok l) :
    t.isWithin (t.absolute r) r = .ok true := by
  obtain ⟨base, hreal⟩ := exists_realPath_opened hlinks (isAbsolute_absolute t r) hopen
  have hnames := names_absolute (fun m hm => (hproper.workingDir m hm).1) hup
  rw [if_pos hroot, List.nil_append] at hnames
  -- both paths have the names of the absolute form, so one base serves for both
  have hself := hreal (t.absolute r) [] (isAbsolute_absolute t r) (List.append_nil _).symm
    nofun fun k hk hpre => absurd (List.prefix_nil.1 hpre) hk
  have hgiven := hreal r [] hroot
    (by rw [hnames, Path.dotless_dotless, List.append_nil])
    nofun fun k hk hpre => absurd (List.prefix_nil.1 hpre) hk
  exact isWithin_iff.2 ⟨_, _, hself, hgiven, rfl, List.prefix_rfl⟩

/-- What lies within what lies within a directory lies within it. -/
theorem isWithin_trans (h : t.isWithin p q = .ok true) (h' : t.isWithin q r = .ok true) :
    t.isWithin p r = .ok true := by
  obtain ⟨inner, middle, hp, hq, -, hle⟩ := isWithin_iff.1 h
  obtain ⟨middle', outer, hq', hr, hroot, hle'⟩ := isWithin_iff.1 h'
  rw [hq] at hq'
  cases hq'
  exact isWithin_iff.2 ⟨inner, outer, hp, hr, hroot, hle'.trans hle⟩

end FileTree

end ModuleBuild
