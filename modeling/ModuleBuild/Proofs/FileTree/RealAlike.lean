/-
  ModuleBuild.Proofs.FileTree.RealAlike
  ─────────────────────────────────────
  **REAL PATHS FROM THE GROUNDS.**

  Resolving a path looks at one place after the other, and goes on where the
  system would stop; it resolves a link before what follows it, and counts
  how many links it is in.  The count starts from the links of the whole tree,
  so trees that agree on some grounds start from different ones.

  But the count is never used up.  The parts that are being resolved are all
  different and each leads to a link; what is written in a part comes from
  the path that was given, up to some name, and is spelled as the system does
  behind that.  There are fewer such parts than the count allows.

  Main results:
    * `length_le_of_met` — the parts that are being resolved are fewer than the count allows;
    * `realFrom_kept` — names that keep to fenced grounds are resolved alike;
    * `realPath_kept`, `isWithin_kept` — so trees agree on what lies within a directory.
-/
import Mathlib.Data.List.Nodup
import Mathlib.Data.List.Perm.Subperm
import Mathlib.Data.List.ProdSigma
import ModuleBuild.FileTree.RealPath
import ModuleBuild.Proofs.FileTree.Checking
import ModuleBuild.Proofs.FileTree.Keeping

namespace ModuleBuild

namespace Utf8

/-- Every character of a text has a byte. -/
theorem length_le_byteCount (t : Text) : t.length ≤ byteCount t := by
  have hone : ∀ c : CodePoint, 1 ≤ (encodeOne c).length := by
    intro c
    unfold encodeOne
    dsimp only
    split
    · exact Nat.le_refl _
    · split
      · exact Nat.le_add_left _ _
      · split <;> exact Nat.le_add_left _ _
  unfold byteCount nameBytes
  induction t with
  | nil => exact Nat.le_refl _
  | cons c t ih =>
    rw [List.length_cons, List.flatMap_cons, List.length_append]
    have hfirst : 1 ≤ (if isEscapedByte c then [UInt8.ofNat (c.code - 0xDC00)] else encodeOne c).length := by
      split
      · exact Nat.le_refl _
      · exact hone c
    omega

end Utf8

/-! ## §1. Links, counted. -/

namespace Forest

/-- The places of the links in a forest. -/
def linkPlaces : Forest → List Location
  | [] => []
  | (_, .file _) :: cs => linkPlaces cs
  | (name, .link _) :: cs => [name] :: linkPlaces cs
  | (name, .directory ds) :: cs => (linkPlaces ds).map (name :: ·) ++ linkPlaces cs

theorem length_linkPlaces (cs : Forest) : cs.linkPlaces.length = cs.linkCount := by
  fun_induction linkPlaces cs with
  | case1 => rw [linkCount, List.length_nil]
  | case2 name content cs ih => rw [linkCount, ih]
  | case3 name path cs ih => rw [linkCount, List.length_cons, ih]
  | case4 name ds cs ih ih' => rw [linkCount, List.length_append, List.length_map, ih, ih']

/-- What lies in a forest is its first node, lies below it, or lies in the others. -/
theorem entryAt?_cons_cases {name : Text} {node : Node} {cs : Forest} {l : Location} {e : Entry}
    (h : entryAt? ((name, node) :: cs) l = some e) (hl : l ≠ []) :
    (l = [name] ∧ node.entry = e)
      ∨ (∃ rest, rest ≠ [] ∧ l = name :: rest ∧ entryAt? node.children rest = some e)
      ∨ entryAt? cs l = some e := by
  obtain ⟨n, rest, rfl⟩ := List.exists_cons_of_ne_nil hl
  by_cases hn : n = name
  · subst hn
    unfold entryAt? at h
    rw [nodeAt?_cons, List.lookup_cons_self] at h
    dsimp only at h
    by_cases hrest : rest = []
    · rw [if_pos hrest] at h
      exact .inl ⟨by rw [hrest], Option.some.inj h⟩
    · rw [if_neg hrest] at h
      exact .inr (.inl ⟨rest, hrest, rfl, h⟩)
  · have hno : (n == name) = false := by simpa using hn
    unfold entryAt? at h
    rw [nodeAt?_cons, List.lookup_cons, hno] at h
    exact .inr (.inr h)

/-- Nothing lies below what is no directory. -/
theorem entryAt?_empty {l : Location} (hl : l ≠ []) : entryAt? [] l = none := by
  obtain ⟨n, rest, rfl⟩ := List.exists_cons_of_ne_nil hl
  rfl

theorem mem_linkPlaces {path : Text} (cs : Forest) :
    ∀ {l : Location}, cs.entryAt? l = some (.link path) → l ∈ cs.linkPlaces := by
  have hne : ∀ {cs : Forest} {l : Location}, cs.entryAt? l = some (.link path) → l ≠ [] := by
    rintro cs l h rfl
    cases h
  -- node by node: an entry is the node itself, below it, or among the nodes behind it
  fun_induction linkPlaces cs with
  | case1 =>
    intro l h
    rw [entryAt?_empty (hne h)] at h
    cases h
  | case2 name content cs ih =>
    intro l h
    rcases entryAt?_cons_cases h (hne h) with ⟨-, hentry⟩ | ⟨rest, hrest, -, hbelow⟩ | hothers
    · cases hentry
    · rw [Node.children, entryAt?_empty hrest] at hbelow
      · cases hbelow
      · simp
    · exact ih hothers
  | case3 name link cs ih =>
    intro l h
    rcases entryAt?_cons_cases h (hne h) with ⟨rfl, -⟩ | ⟨rest, hrest, -, hbelow⟩ | hothers
    · exact List.mem_cons_self ..
    · rw [Node.children, entryAt?_empty hrest] at hbelow
      · cases hbelow
      · simp
    · exact List.mem_cons_of_mem _ (ih hothers)
  | case4 name ds cs ih ih' =>
    intro l h
    rw [List.mem_append, List.mem_map]
    rcases entryAt?_cons_cases h (hne h) with ⟨-, hentry⟩ | ⟨rest, -, rfl, hbelow⟩ | hothers
    · cases hentry
    · exact .inl ⟨rest, ih hbelow, rfl⟩
    · exact .inr (ih' hothers)

end Forest

namespace FileTree

namespace Stem

/-! ## §2. Resolved parts. -/

/-- The place that a part stands for, seen from the working directory. -/
def spot (base : Location) (s : Stem) : Location := (s.names base).map Utf8.nameForm

/-- The names that a part is written with, those that lead up aside. -/
def own : Stem → List Text
  | .rooted names => names
  | .relative _ names => names

/-- The part with other names behind what leads up. -/
def withOwn (ns : List Text) : Stem → Stem
  | .rooted _ => .rooted ns
  | .relative ups _ => .relative ups ns

variable {base : Location} {s b : Stem} {name : Text} {ys : List Text}

theorem spot_rooted (base ns : Location) : (rooted ns).spot base = ns.map Utf8.nameForm := rfl

theorem spot_push (base : Location) (s : Stem) (name : Text) :
    (s.push name).spot base = s.spot base ++ [Utf8.nameForm name] := by
  cases s with
  | rooted ns => exact List.map_append
  | relative ups ns =>
    unfold spot push names
    dsimp only
    rw [← List.append_assoc, List.map_append]
    rfl

theorem spot_above (base : Location) (s : Stem) : s.above.spot base = (s.spot base).dropLast := by
  cases s with
  | rooted ns => exact List.map_dropLast
  | relative ups ns =>
    unfold spot
    rw [← List.map_dropLast]
    congr 1
    cases ns with
    | nil =>
      show base.take (base.length - (ups + 1)) ++ [] = (base.take (base.length - ups) ++ []).dropLast
      rw [List.append_nil, List.append_nil, List.dropLast_eq_take, List.take_take, List.length_take]
      congr 1
      omega
    | cons n ns =>
      show base.take (base.length - ups) ++ (n :: ns).dropLast = (base.take (base.length - ups) ++ n :: ns).dropLast
      rw [List.dropLast_append_of_ne_nil (List.cons_ne_nil n ns)]

theorem own_push (s : Stem) (name : Text) : (s.push name).own = s.own ++ [name] := by cases s <;> rfl

theorem mem_own_above {m : Text} (h : m ∈ s.above.own) : m ∈ s.own := by
  cases s with
  | rooted ns => exact List.dropLast_subset _ h
  | relative ups ns =>
    cases ns with
    | nil => cases h
    | cons n ns => exact List.dropLast_subset _ h

/-- Names as the system writes them. -/
def AllSpelled (ns : List Text) : Prop := ∀ n ∈ ns, Utf8.nameForm n = n

/-- How a part came about behind a part: what is written in it stands behind the root, behind some
names that lead up, or behind the first names of that part. -/
inductive Origin
  | root
  | above (ups : Nat)
  | kept (count : Nat)
  deriving DecidableEq, Inhabited

/-- A part that came about behind another part, by names that are spelled as the system does. -/
inductive Arises (b : Stem) : Stem → Origin → Prop
  | root {ys : List Text} : AllSpelled ys → Arises b (rooted ys) .root
  | above {ups : Nat} {ys : List Text} : AllSpelled ys → Arises b (relative ups ys) (.above ups)
  | kept {count : Nat} {ys : List Text} : count ≤ b.own.length → AllSpelled ys →
      Arises b (b.withOwn (b.own.take count ++ ys)) (.kept count)

theorem withOwn_own (s : Stem) : s.withOwn s.own = s := by cases s <;> rfl

theorem arises_self (b : Stem) : Arises b b (.kept b.own.length) := by
  have hself := @Arises.kept b _ [] (Nat.le_refl b.own.length) (by simp [AllSpelled])
  rwa [List.take_length, List.append_nil, withOwn_own] at hself

/-- A part came about behind that part with a name more. -/
theorem arises_of_push (b : Stem) (name : Text) : Arises (b.push name) b (.kept b.own.length) := by
  have hcount : b.own.length ≤ (b.push name).own.length := by
    rw [own_push, List.length_append]
    exact Nat.le_add_right ..
  have hself := @Arises.kept (b.push name) _ [] hcount (by simp [AllSpelled])
  have hsame : (b.push name).withOwn b.own = b := by cases b <;> rfl
  rwa [own_push, List.take_left, List.append_nil, hsame] at hself

theorem AllSpelled.concat (h : AllSpelled ys) (hname : Utf8.nameForm name = name) :
    AllSpelled (ys ++ [name]) := by
  intro n hn
  rcases List.mem_append.1 hn with hn | hn
  · exact h n hn
  · rw [List.mem_singleton.1 hn]
    exact hname

/-- A name more that is spelled as the system does. -/
theorem Arises.push {o : Origin} (h : Arises b s o) (hname : Utf8.nameForm name = name) :
    Arises b (s.push name) o := by
  cases h with
  | root hys => exact .root (hys.concat hname)
  | above hys => exact .above (hys.concat hname)
  | @kept count ys hcount hys =>
    have hpush : (b.withOwn (b.own.take count ++ ys)).push name
        = b.withOwn (b.own.take count ++ (ys ++ [name])) := by
      rw [← List.append_assoc]
      cases b <;> rfl
    rw [hpush]
    exact .kept hcount (hys.concat hname)

theorem above_withOwn {ns : List Text} (hns : ns ≠ []) (b : Stem) :
    (b.withOwn ns).above = b.withOwn ns.dropLast := by
  obtain ⟨n, rest, rfl⟩ := List.exists_cons_of_ne_nil hns
  cases b <;> rfl

/-- A name less. -/
theorem Arises.up {o : Origin} (h : Arises b s o) : ∃ o, Arises b s.above o := by
  have hless : ∀ {ys : List Text}, AllSpelled ys → AllSpelled ys.dropLast := fun hys n hn =>
    hys n (List.dropLast_subset _ hn)
  have hnil : AllSpelled [] := by simp [AllSpelled]
  cases h with
  | root hys => exact ⟨_, .root (hless hys)⟩
  | @above ups ys hys =>
    cases ys with
    | nil => exact ⟨_, .above hys⟩
    | cons y ys => exact ⟨_, .above (hless hys)⟩
  | @kept count ys hcount hys =>
    rcases List.eq_nil_or_concat ys with rfl | ⟨init, y, rfl⟩
    · -- one of the names that were kept goes, if there are any
      rw [List.append_nil]
      cases hkept : b.own.take count with
      | nil =>
        cases b with
        | rooted ns => exact ⟨_, .root hnil⟩
        | relative ups ns => exact ⟨_, .above hnil⟩
      | cons n rest =>
        have hcount' : (b.own.take count).dropLast = b.own.take (count - 1) := by
          rw [List.dropLast_eq_take, List.take_take, List.length_take]
          congr 1
          omega
        rw [← hkept, above_withOwn (by rw [hkept]; exact List.cons_ne_nil n rest), hcount',
          ← List.append_nil (b.own.take (count - 1))]
        exact ⟨_, .kept (by omega) hnil⟩
    · rw [List.concat_eq_append] at hys ⊢
      rw [above_withOwn (by simp), ← List.append_assoc, List.dropLast_concat]
      exact ⟨_, .kept hcount fun n hn => hys n (List.mem_append_left _ hn)⟩

/-- **Parts that stand for one place and came about alike are one part.** -/
theorem Arises.det {s' : Stem} {o : Origin} (h : Arises b s o) (h' : Arises b s' o)
    (hspot : s.spot base = s'.spot base) : s = s' := by
  have hself : ∀ {ys : List Text}, AllSpelled ys → ys.map Utf8.nameForm = ys := fun hys =>
    (List.map_congr_left hys).trans (List.map_id _)
  -- the origin tells what is in front of the names that came with the links, so these are the same
  cases h with
  | root hys =>
    cases h' with
    | root hys' =>
      rw [spot_rooted, spot_rooted, hself hys, hself hys'] at hspot
      rw [hspot]
  | @above ups ys hys =>
    cases h' with
    | @above _ ys' hys' =>
      have happend : ∀ ys : List Text, (relative ups ys).spot base
          = (base.take (base.length - ups)).map Utf8.nameForm ++ ys.map Utf8.nameForm := fun ys =>
        List.map_append
      rw [happend, happend, hself hys, hself hys'] at hspot
      rw [List.append_cancel_left hspot]
  | @kept count ys hcount hys =>
    cases h' with
    | @kept _ ys' _ hys' =>
      have happend : ∀ ys : List Text, (b.withOwn (b.own.take count ++ ys)).spot base
          = (b.withOwn (b.own.take count)).spot base ++ ys.map Utf8.nameForm := by
        intro ys
        cases b with
        | rooted ns => exact List.map_append
        | relative ups ns =>
          unfold spot names withOwn
          dsimp only
          rw [← List.append_assoc, List.map_append]
      rw [happend, happend, hself hys, hself hys'] at hspot
      rw [List.append_cancel_left hspot]

/-! ## §3. How many parts there are. -/

/-- The names that a part is written with, those that lead up included. -/
def written : Stem → List Text
  | .rooted names => names
  | .relative ups names => List.replicate ups Path.up ++ names

/-- A part that the system can have has so many bytes in its names, each with a slash. -/
theorem sum_written_le (hshort : ¬ pathBytesLimit ≤ Utf8.byteCount s.path) :
    (s.written.map fun n => Utf8.byteCount n + 1).sum ≤ pathBytesLimit := by
  by_cases hne : s.written = []
  · rw [hne]
    exact Nat.zero_le _
  · have hsum := Text.sum_byteCount hne
    have hpath : Utf8.byteCount (Text.joinWith "/" s.written) ≤ Utf8.byteCount s.path := by
      cases s with
      | rooted ns =>
        show _ ≤ Utf8.byteCount ([CodePoint.slash] ++ Text.joinWith "/" ns)
        rw [byteCount_append]
        exact Nat.le_add_left _ _
      | relative ups ns => exact Nat.le_refl _
    omega

/-- The origins that a part can have.  In 4096 bytes a path leads up fewer than 1366 times, with three
bytes for each, and has at most 2048 names, with two bytes or more for each. -/
def origins : List Origin :=
  .root :: ((List.range 1366).map .above ++ (List.range 2049).map .kept)

theorem length_origins : origins.length ≤ pathBytesLimit := by
  unfold origins pathBytesLimit
  rw [List.length_cons, List.length_append, List.length_map, List.length_map, List.length_range,
    List.length_range]
  omega

theorem mul_length_le_sum {k : Nat} {ns : List Text} (h : ∀ n ∈ ns, k ≤ Utf8.byteCount n + 1) :
    k * ns.length ≤ (ns.map fun n => Utf8.byteCount n + 1).sum := by
  induction ns with
  | nil => exact Nat.zero_le _
  | cons n ns ih =>
    have hfirst := h n (List.mem_cons_self ..)
    have hrest := ih fun m hm => h m (List.mem_cons_of_mem _ hm)
    rw [List.length_cons, List.map_cons, List.sum_cons, Nat.mul_add]
    omega

/-- A part that the system can have, with names that are not empty, has one of them. -/
theorem mem_origins {o : Origin} (h : Arises b s o) (hne : ∀ n ∈ s.own, n ≠ [])
    (hshort : ¬ pathBytesLimit ≤ Utf8.byteCount s.path) : o ∈ origins := by
  have hsum := sum_written_le hshort
  unfold pathBytesLimit at hsum
  cases h with
  | root hys => exact List.mem_cons_self ..
  | @above ups ys hys =>
    -- two dots and a slash
    have hup : ∀ n ∈ List.replicate ups Path.up, 3 ≤ Utf8.byteCount n + 1 := by
      intro n hn
      rw [List.eq_of_mem_replicate hn]
      decide
    have hups := mul_length_le_sum hup
    rw [List.length_replicate] at hups
    rw [written, List.map_append, List.sum_append] at hsum
    refine List.mem_cons_of_mem _ (List.mem_append_left _ (List.mem_map_of_mem (List.mem_range.2 ?_)))
    omega
  | @kept count ys hcount hys =>
    -- a letter at least and a slash
    have hown : ∀ n ∈ (b.withOwn (b.own.take count ++ ys)).own, 2 ≤ Utf8.byteCount n + 1 := by
      intro n hn
      have hone := Utf8.length_le_byteCount n
      have hpos := List.length_pos_iff.2 (hne n hn)
      omega
    have hnames := mul_length_le_sum hown
    have hcount' : count ≤ (b.withOwn (b.own.take count ++ ys)).own.length := by
      have hsame : (b.withOwn (b.own.take count ++ ys)).own = b.own.take count ++ ys := by cases b <;> rfl
      rw [hsame, List.length_append, List.length_take]
      omega
    have hpart : ((b.withOwn (b.own.take count ++ ys)).own.map fun n => Utf8.byteCount n + 1).sum
        ≤ ((b.withOwn (b.own.take count ++ ys)).written.map fun n => Utf8.byteCount n + 1).sum := by
      cases b with
      | rooted ns => exact Nat.le_refl _
      | relative ups ns =>
        rw [withOwn, written, List.map_append, List.sum_append]
        exact Nat.le_add_left _ _
    refine List.mem_cons_of_mem _ (List.mem_append_right _ (List.mem_map_of_mem (List.mem_range.2 ?_)))
    omega

end Stem

variable {t0 t u : FileTree} {g : Grounds} {goal : Location → Prop} {b s : Stem} {p root : Text}

/-- A part that came about behind another one, with names that are not empty. -/
structure Stem.From (b s : Stem) : Prop where
  arises : ∃ o, Stem.Arises b s o
  named : ∀ n ∈ s.own, n ≠ []

/-- A part that is met when a link is resolved: it leads to a link that is seen. -/
structure Met (g : Grounds) (t : FileTree) (b s : Stem) : Prop extends Stem.From b s where
  seen : g.seen (s.spot t.workingDir)
  link : t.linkAt? s ≠ none

theorem linkAt?_eq_some {path : Text} (h : t.linkAt? s = some path) :
    ¬ pathBytesLimit ≤ Utf8.byteCount s.path
      ∧ t.entryAt? (s.spot t.workingDir) = some (.link path) := by
  unfold linkAt? at h
  split at h
  · cases h
  · rename_i hshort
    refine ⟨hshort, ?_⟩
    split at h
    · rename_i link hlink
      cases h
      exact hlink
    · cases h

/-- **The parts that are being resolved are fewer than the count allows.** -/
theorem length_le_of_met {parts : List Stem} (hnodup : parts.Nodup) (hmet : ∀ s ∈ parts, Met g t b s) :
    parts.length ≤ t.top.linkCount * pathBytesLimit := by
  classical
  choose! origin harises using fun s (hs : s ∈ parts) => (hmet s hs).arises
  -- the place of a part and how it came about tell it from all others
  have hmap : (parts.map fun s => (s.spot t.workingDir, origin s)).Nodup := by
    refine hnodup.map_on fun s hs s' hs' heq => ?_
    obtain ⟨hspot, horigin⟩ := Prod.mk.inj heq
    exact (harises s hs).det (horigin ▸ harises s' hs') hspot
  -- the place is that of a link, and a part within the limit has one of few origins
  have hsub : (parts.map fun s => (s.spot t.workingDir, origin s))
      ⊆ t.top.linkPlaces ×ˢ Stem.origins := by
    intro x hx
    obtain ⟨s, hs, rfl⟩ := List.mem_map.1 hx
    obtain ⟨path, hpath⟩ := Option.ne_none_iff_exists'.1 (hmet s hs).link
    obtain ⟨hshort, hlink⟩ := linkAt?_eq_some hpath
    exact List.mem_product.2 ⟨Forest.mem_linkPlaces _ hlink,
      Stem.mem_origins (harises s hs) (hmet s hs).named hshort⟩
  have hlength := (hmap.subperm hsub).length_le
  rw [List.length_map, List.length_product, Forest.length_linkPlaces] at hlength
  exact hlength.trans (Nat.mul_le_mul_left _ Stem.length_origins)

/-! ## §4. Names that keep to the grounds. -/

theorem linkAt?_kept (h : Agreeing g t0 t u) (hseen : g.seen (s.spot t0.workingDir)) :
    t.linkAt? s = u.linkAt? s := by
  have hsame : t.entryAt? ((s.names t.workingDir).map Utf8.nameForm)
      = u.entryAt? ((s.names u.workingDir).map Utf8.nameForm) := by
    rw [h.dirLeft, h.dirRight]
    exact h.same _ hseen
  unfold linkAt?
  rw [hsame]

/-- One name that is no dot, by what lies there. -/
theorem realFrom_named {links : Nat} {trail : List Stem} {name : Text} {rest : List Text}
    (h1 : name ≠ []) (h2 : name ≠ Path.here) (h3 : name ≠ Path.up) :
    realFrom t links trail s (name :: rest)
      = match checkPath (s.push name).path with
        | .error f => .error f
        | .ok () =>
          match t.linkAt? (s.push name) with
          | none => realFrom t links trail (s.push name) rest
          | some path =>
            let left := Path.join (s.push name).path (Text.joinWith "/" rest)
            match links with
            | 0 => .ok (.looped left)
            | more + 1 =>
              if trail.contains (s.push name) then .ok (.looped left)
              else
                match realFrom t more (s.push name :: trail)
                  (if Path.isAbsolute path then .rooted [] else s)
                  (Text.split CodePoint.slash path) with
                | .error f => .error f
                | .ok (.looped p) => .ok (.looped (Path.join p (Text.joinWith "/" rest)))
                | .ok (.resolved r) => realFrom t (more + 1) trail r rest := by
  rw [realFrom.eq_def]
  dsimp only
  rw [if_neg (by rintro (h | h); exacts [h1 h, h2 h])]
  exact if_neg h3

theorem realFrom_skip {links : Nat} {trail : List Stem} {name : Text} {rest : List Text}
    (h : name = [] ∨ name = Path.here) :
    realFrom t links trail s (name :: rest) = realFrom t links trail s rest := by
  rw [realFrom.eq_def]
  exact if_pos h

theorem realFrom_up {links : Nat} {trail : List Stem} {rest : List Text} :
    realFrom t links trail s (Path.up :: rest) = realFrom t links trail s.above rest := by
  have hno : ¬ (Path.up = [] ∨ Path.up = Path.here) := by decide
  rw [realFrom.eq_def]
  dsimp only
  rw [if_neg hno, if_pos rfl]

/-- The pieces of a path, those that are empty left out. -/
def solid (pieces : List Text) : List Text := pieces.filter (· ≠ [])

theorem keeps_solid_skip {l : Location} {name : Text} {rest : List Text}
    (hskip : name = [] ∨ name = Path.here) (h : Keeps t g goal l (solid (name :: rest))) :
    Keeps t g goal l (solid rest) := by
  unfold solid at h ⊢
  rcases hskip with rfl | rfl
  · rwa [List.filter_cons_of_neg (by simp)] at h
  · rw [List.filter_cons_of_pos (by decide)] at h
    exact h.here

theorem solid_cons {name : Text} {rest : List Text} (h : name ≠ []) :
    solid (name :: rest) = name :: solid rest :=
  List.filter_cons_of_pos (by simpa using h)

/-- A link on the way of names that keep to the grounds: only names of things follow, and its own path
keeps to them and is spelled as the system does. -/
theorem resolves_link (hf : Fenced t0 g) (h : Agreeing g t0 t u) {name path : Text} {rest : List Text}
    (h2 : name ≠ Path.here) (h3 : name ≠ Path.up)
    (hkeeps : Keeps t0 g goal (s.spot t.workingDir) (name :: rest))
    (hlink : t.linkAt? (s.push name) = some path) :
    (∀ m ∈ rest, Path.IsName m)
      ∧ Keeps t0 g g.home ((if Path.isAbsolute path then .rooted [] else s : Stem).spot t.workingDir)
          (solid (Text.split CodePoint.slash path))
      ∧ Stem.AllSpelled (Text.split CodePoint.slash path) := by
  have hentry := (linkAt?_eq_some hlink).2
  rw [Stem.spot_push] at hentry
  have hentry0 := h.links _ _ hentry
  obtain ⟨hhome, hthings⟩ := hkeeps.link h2 h3 hentry0
  refine ⟨hthings, ?_, fun m hm => ?_⟩
  · have hpath := hf.links _ path hhome hentry0
    unfold linkStart at hpath
    rw [List.dropLast_concat] at hpath
    split at hpath <;> rename_i habs
    · rw [if_pos habs]
      exact hpath
    · rw [if_neg habs]
      exact hpath
  · by_cases hne : m = []
    · rw [hne]
      rfl
    · exact hf.spelled _ path hhome hentry0 m (List.mem_filter.2 ⟨hm, by simpa using hne⟩)

/-- Links that are being resolved in two trees, behind one part: all different, and fewer than the
counts allow. -/
structure Trailing (g : Grounds) (t : FileTree) (b : Stem) (links links' : Nat) (trail : List Stem) :
    Prop where
  nodup : trail.Nodup
  met : ∀ s ∈ trail, Met g t b s
  room : ∀ parts : List Stem, parts.Nodup → (∀ s ∈ parts, Met g t b s) →
    parts.length ≤ links + trail.length ∧ parts.length ≤ links' + trail.length

/-- Two trees resolve names alike, to a part as it is wanted. -/
def ResolveAlike (t u : FileTree) (links links' : Nat) (trail : List Stem) (s : Stem)
    (pieces : List Text) (wanted : Stem → Prop) : Prop :=
  realFrom t links trail s pieces = realFrom u links' trail s pieces
    ∧ ∀ r, realFrom t links trail s pieces = .ok (.resolved r) → wanted r

/-- A part that came about behind `b` and stands for a place at home. -/
def Homing (g : Grounds) (t : FileTree) (b s : Stem) : Prop := Stem.From b s ∧ g.home (s.spot t.workingDir)

variable {links links' : Nat} {trail : List Stem} {name : Text} {rest : List Text}
  {wanted : Stem → Prop}

/-- A link that is not being resolved leaves room for one part more. -/
theorem Trailing.push (h : Trailing g t b links links' trail) (hnew : Met g t b s) (hmem : s ∉ trail) :
    ∃ more more', links = more + 1 ∧ links' = more' + 1 ∧ Trailing g t b more more' (s :: trail) := by
  have hnodup : (s :: trail).Nodup := List.nodup_cons.2 ⟨hmem, h.nodup⟩
  have hmet : ∀ r ∈ s :: trail, Met g t b r := List.forall_mem_cons.2 ⟨hnew, h.met⟩
  obtain ⟨hroom, hroom'⟩ := h.room _ hnodup hmet
  rw [List.length_cons] at hroom hroom'
  obtain ⟨more, rfl⟩ := Nat.exists_eq_succ_of_ne_zero (show links ≠ 0 by omega)
  obtain ⟨more', rfl⟩ := Nat.exists_eq_succ_of_ne_zero (show links' ≠ 0 by omega)
  refine ⟨more, more', rfl, rfl, hnodup, hmet, fun parts hparts hall => ?_⟩
  have hless := h.room parts hparts hall
  rw [List.length_cons]
  omega

/-- A piece that is passed over. -/
theorem ResolveAlike.skip (hskip : name = [] ∨ name = Path.here)
    (h : ResolveAlike t u links links' trail s rest wanted) :
    ResolveAlike t u links links' trail s (name :: rest) wanted := by
  unfold ResolveAlike
  rw [realFrom_skip hskip, realFrom_skip hskip]
  exact h

theorem ResolveAlike.up (h : ResolveAlike t u links links' trail s.above rest wanted) :
    ResolveAlike t u links links' trail s (Path.up :: rest) wanted := by
  unfold ResolveAlike
  rw [realFrom_up, realFrom_up]
  exact h

/-- A name at which no link lies is resolved alike where it is seen. -/
theorem ResolveAlike.named (h : Agreeing g t0 t u) (h1 : name ≠ []) (h2 : name ≠ Path.here)
    (h3 : name ≠ Path.up) (hseen : g.seen ((s.push name).spot t.workingDir))
    (hlink : t.linkAt? (s.push name) = none)
    (hrest : ResolveAlike t u links links' trail (s.push name) rest wanted) :
    ResolveAlike t u links links' trail s (name :: rest) wanted := by
  have hlink' : u.linkAt? (s.push name) = none := by
    rw [← linkAt?_kept h (h.dirLeft ▸ hseen), hlink]
  unfold ResolveAlike
  rw [realFrom_named h1 h2 h3, realFrom_named h1 h2 h3, hlink, hlink']
  cases checkPath (s.push name).path with
  | error failure => exact ⟨rfl, fun r hr => by cases hr⟩
  | ok _ => exact hrest

/-- A link on the way is resolved alike, if its path is and what follows it is. -/
theorem resolveAlike_link (hf : Fenced t0 g) (h : Agreeing g t0 t u)
    (htrail : Trailing g t b links links' trail) (h1 : name ≠ []) (h2 : name ≠ Path.here)
    (h3 : name ≠ Path.up) (hfrom : Stem.From b s) (hpush : Stem.From b (s.push name))
    (hkeeps : Keeps t0 g goal (s.spot t.workingDir) (name :: solid rest))
    (hlink : t.linkAt? (s.push name) ≠ none)
    (hinner : ∀ more more' pieces r, links = more + 1 → Trailing g t b more more' (s.push name :: trail) →
      Stem.From b r → Stem.AllSpelled pieces → Keeps t0 g g.home (r.spot t.workingDir) (solid pieces) →
      ResolveAlike t u more more' (s.push name :: trail) r pieces (Homing g t b))
    (houter : ∀ r, Stem.From b r → Keeps t0 g g.home (r.spot t.workingDir) (solid rest) →
      ResolveAlike t u links links' trail r rest wanted) :
    ResolveAlike t u links links' trail s (name :: rest) wanted := by
  obtain ⟨path, hpath⟩ := Option.ne_none_iff_exists'.1 hlink
  have hseen : g.seen ((s.push name).spot t.workingDir) := by
    rw [Stem.spot_push]
    exact (hkeeps.named h2 h3).start
  have hpath' : u.linkAt? (s.push name) = some path := by
    rw [← linkAt?_kept h (h.dirLeft ▸ hseen), hpath]
  unfold ResolveAlike
  rw [realFrom_named h1 h2 h3, realFrom_named h1 h2 h3, hpath, hpath']
  cases checkPath (s.push name).path with
  | error failure => exact ⟨rfl, fun r hr => by cases hr⟩
  | ok _ =>
    dsimp only
    by_cases hmem : s.push name ∈ trail
    · -- it is being resolved already
      have hcontains : trail.contains (s.push name) = true := List.contains_iff_mem.2 hmem
      cases links <;> cases links' <;>
        exact ⟨by simp only [hcontains, if_true], fun r hr => by simp [hmem] at hr⟩
    · have hcontains : ¬ trail.contains (s.push name) = true := fun hc =>
        hmem (List.contains_iff_mem.1 hc)
      -- the part is new, so neither count is used up
      obtain ⟨more, more', rfl, rfl, htrail'⟩ := htrail.push ⟨hpush, hseen, hlink⟩ hmem
      obtain ⟨hthings, hkept, hspelled⟩ := resolves_link hf h h2 h3 hkeeps hpath
      have hstart : Stem.From b (if Path.isAbsolute path then .rooted [] else s) := by
        split
        · exact ⟨⟨_, .root (by simp [Stem.AllSpelled])⟩, by simp [Stem.own]⟩
        · exact hfrom
      obtain ⟨hsame, hended⟩ := hinner more more' _ _ rfl htrail' hstart hspelled hkept
      dsimp only
      rw [if_neg hcontains, if_neg hcontains, ← hsame]
      cases hres : realFrom t more (s.push name :: trail)
          (if Path.isAbsolute path then .rooted [] else s) (Text.split CodePoint.slash path) with
      | error failure => exact ⟨rfl, fun r hr => by cases hr⟩
      | ok res =>
        cases res with
        | looped left => exact ⟨rfl, fun r hr => by cases hr⟩
        | resolved r =>
          obtain ⟨hfrom', hhome⟩ := hended r hres
          exact houter r hfrom' (hf.keeps_of_home hhome hthings)

/-- **A link that is being resolved is resolved alike**, whatever the counts of links started from, if
they allow for all the parts that can be met. -/
theorem realFrom_nested (hf : Fenced t0 g) (h : Agreeing g t0 t u) (pieces : List Text) :
    ∀ {links' : Nat} {trail : List Stem} {s : Stem}, Trailing g t b links links' trail →
      Stem.From b s → Stem.AllSpelled pieces → Keeps t0 g g.home (s.spot t.workingDir) (solid pieces) →
      ResolveAlike t u links links' trail s pieces (Homing g t b) := by
  -- on the links that may be resolved, and for each number on the pieces that are left
  induction links using Nat.strong_induction_on generalizing pieces with
  | _ links ihlinks =>
    induction pieces with
    | nil =>
      intro links' trail s _ hfrom _ hkeeps
      unfold ResolveAlike
      rw [realFrom_nil, realFrom_nil]
      refine ⟨rfl, fun r hr => ?_⟩
      cases hr
      exact ⟨hfrom, hkeeps.2⟩
    | cons name rest ih =>
      intro links' trail s htrail hfrom hspelled hkeeps
      have hrest : Stem.AllSpelled rest := fun m hm => hspelled m (List.mem_cons_of_mem _ hm)
      by_cases hskip : name = [] ∨ name = Path.here
      · exact .skip hskip (ih htrail hfrom hrest (keeps_solid_skip hskip hkeeps))
      obtain ⟨h1, h2⟩ := not_or.1 hskip
      rw [solid_cons h1] at hkeeps
      by_cases h3 : name = Path.up
      · subst h3
        have hup : Stem.From b s.above :=
          ⟨(hfrom.arises.choose_spec).up, fun n hn => hfrom.named n (Stem.mem_own_above hn)⟩
        exact .up (ih htrail hup hrest (by rw [Stem.spot_above]; exact hkeeps.up))
      have hpush : Stem.From b (s.push name) := by
        obtain ⟨o, ho⟩ := hfrom.arises
        refine ⟨⟨o, ho.push (hspelled name (List.mem_cons_self ..))⟩, fun n hn => ?_⟩
        rw [Stem.own_push] at hn
        rcases List.mem_append.1 hn with hn | hn
        · exact hfrom.named n hn
        · rw [List.mem_singleton.1 hn]
          exact h1
      have hnext := hkeeps.named h2 h3
      rw [← Stem.spot_push] at hnext
      by_cases hlink : t.linkAt? (s.push name) = none
      · exact .named h h1 h2 h3 hnext.start hlink (ih htrail hpush hrest hnext)
      · refine resolveAlike_link hf h htrail h1 h2 h3 hfrom hpush hkeeps hlink ?_ ?_
        · rintro more more' pieces r rfl htrail' hfrom' hspelled' hkeeps'
          exact ihlinks more (Nat.lt_succ_self more) pieces htrail' hfrom' hspelled' hkeeps'
        · exact fun r hfrom' hkeeps' => ih htrail hfrom' hrest hkeeps'

/-- **Names that keep to fenced grounds are resolved alike**, to a part that stands for a goal. -/
theorem realFrom_kept (hf : Fenced t0 g) (hgoal : ∀ l, g.home l → goal l) (h : Agreeing g t0 t u)
    (hroom : ∀ b, Trailing g t b links links' []) (pieces : List Text) :
    ∀ {s : Stem}, (∀ n ∈ s.own, n ≠ []) → Keeps t0 g goal (s.spot t.workingDir) (solid pieces) →
      ResolveAlike t u links links' [] s pieces fun r => goal (r.spot t.workingDir) := by
  induction pieces with
  | nil =>
    intro s _ hkeeps
    unfold ResolveAlike
    rw [realFrom_nil, realFrom_nil]
    refine ⟨rfl, fun r hr => ?_⟩
    cases hr
    exact hkeeps.2
  | cons name rest ih =>
    intro s hnamed hkeeps
    by_cases hskip : name = [] ∨ name = Path.here
    · exact .skip hskip (ih hnamed (keeps_solid_skip hskip hkeeps))
    obtain ⟨h1, h2⟩ := not_or.1 hskip
    rw [solid_cons h1] at hkeeps
    by_cases h3 : name = Path.up
    · subst h3
      exact .up (ih (fun n hn => hnamed n (Stem.mem_own_above hn))
        (by rw [Stem.spot_above]; exact hkeeps.up))
    have hpush : ∀ n ∈ (s.push name).own, n ≠ [] := by
      rw [Stem.own_push]
      exact List.forall_mem_append.2 ⟨hnamed, by simpa using h1⟩
    have hnext := hkeeps.named h2 h3
    rw [← Stem.spot_push] at hnext
    by_cases hlink : t.linkAt? (s.push name) = none
    · exact .named h h1 h2 h3 hnext.start hlink (ih hpush hnext)
    · -- the link is the part behind which all that it leads to comes about
      have hself : Stem.From (s.push name) (s.push name) := ⟨⟨_, Stem.arises_self _⟩, hpush⟩
      have hbefore : Stem.From (s.push name) s := ⟨⟨_, Stem.arises_of_push s name⟩, hnamed⟩
      refine resolveAlike_link hf h (hroom _) h1 h2 h3 hbefore hself hkeeps hlink ?_ ?_
      · rintro more more' pieces r - htrail hfrom hspelled hkept
        exact realFrom_nested hf h pieces htrail hfrom hspelled hkept
      · exact fun r hfrom hkept => ih hfrom.named (hkept.mono hgoal)

/-! ## §5. Real paths. -/

/-- The links of either tree allow for all the parts that can be met. -/
theorem trailing_start (h : Agreeing g t0 t u) (b : Stem) :
    Trailing g t b (t.top.linkCount * pathBytesLimit) (u.top.linkCount * pathBytesLimit) [] where
  nodup := List.nodup_nil
  met := nofun
  room parts hnodup hmet := by
    have hdir : u.workingDir = t.workingDir := h.dirRight.trans h.dirLeft.symm
    have hmet' : ∀ s ∈ parts, Met g u b s := fun s hs =>
      ⟨(hmet s hs).toFrom, hdir ▸ (hmet s hs).seen,
        linkAt?_kept h (h.dirLeft ▸ (hmet s hs).seen) ▸ (hmet s hs).link⟩
    rw [List.length_nil, Nat.add_zero, Nat.add_zero]
    exact ⟨length_le_of_met hnodup hmet, length_le_of_met hnodup hmet'⟩

theorem spot_start (ht : Proper t) (p : Text) :
    (if Path.isAbsolute p then .rooted [] else .relative 0 [] : Stem).spot t.workingDir = t.startOf p := by
  unfold startOf
  split
  · rfl
  · unfold Stem.spot Stem.names
    dsimp only
    rw [Nat.sub_zero, List.take_length, List.append_nil]
    exact (List.map_congr_left fun m hm => (ht.workingDir m hm).2).trans (List.map_id _)

/-- **A path that keeps to fenced grounds has one real path in both trees.** -/
theorem realPath_kept (hf : Fenced t0 g) (hgoal : ∀ l, g.home l → goal l) (h : Agreeing g t0 t u)
    (hp : KeepsPath t0 g goal p) : t.realPath p = u.realPath p := by
  have hdir : t.workingDir = u.workingDir := h.dirLeft.trans h.dirRight.symm
  have hstart : Keeps t0 g goal
      ((if Path.isAbsolute p then .rooted [] else .relative 0 [] : Stem).spot t.workingDir)
      (solid (Text.split CodePoint.slash p)) := by
    rw [spot_start h.proper, startOf_eq h.dirLeft]
    exact hp
  have hnamed : ∀ n ∈ (if Path.isAbsolute p then .rooted [] else .relative 0 [] : Stem).own, n ≠ [] := by
    split <;> exact nofun
  have hres := (realFrom_kept hf hgoal h (trailing_start h) _ hnamed hstart).1
  have habs : ∀ q, t.absolute q = u.absolute q := by
    intro q
    unfold absolute
    rw [hdir]
  unfold realPath
  rw [← hres]
  split
  · rfl
  · rw [checkWorkingDir_kept hf h, hdir]
  · rw [checkWorkingDir_kept hf h, habs]

/-- **What lies within what is the same in both trees**, by paths that keep to fenced grounds. -/
theorem isWithin_kept (hf : Fenced t0 g) (hgoal : ∀ l, g.home l → goal l) (h : Agreeing g t0 t u)
    (hp : KeepsPath t0 g goal p) (hroot : KeepsPath t0 g goal root) :
    t.isWithin p root = u.isWithin p root := by
  unfold isWithin
  rw [realPath_kept hf hgoal h hp, realPath_kept hf hgoal h hroot]

end FileTree

end ModuleBuild
