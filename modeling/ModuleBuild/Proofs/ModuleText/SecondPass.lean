/-
  ModuleBuild.Proofs.ModuleText.SecondPass
  ────────────────────────────────────────
  **WHAT A SECOND RUN OF THE PASSES MEETS.**

  A pass walks over the pieces of a text and completes a piece when the piece
  before it, as the pass has left it, opens a statement.  Completed pieces
  open nothing, so a second run meets only statements that the first has met:
  an opening that is still one was not touched, and the from-pass and the
  bare pass never meet at one piece.

  Main results:
    * `mapSpecifiers_eq_self_iff` — a text is kept exactly if each specifier that is met is kept;
    * `metSpecifiers_second_sublist` — what a second run meets is what the first has made of some of
      the specifiers that it met, in order;
    * `complete_complete_iff` — when completing a text twice is completing it once.
-/
import ModuleBuild.Proofs.ModuleText.Opening

namespace ModuleBuild

namespace ModuleText

/-! ## §1. What is asked of a completing function. -/

/-- A function that completes specifiers: the result opens no statement, is still a specifier that a
pass replaces, brings no quote, and is longer unless nothing was missing. -/
structure Completes (f : Text → Text) : Prop where
  silent : ∀ s, opensFrom (f s) = false ∧ opensBare (f s) = false
  target : ∀ s, isTarget s = true → isTarget (f s) = true
  plain : ∀ s, (∀ c ∈ s, isQuote c = false) → ∀ c ∈ f s, isQuote c = false
  grows : ∀ s, f s = s ∨ s.length < (f s).length

theorem startsWith_append {s start : Text} (h : s.startsWith start = true) (ext : Text) :
    Text.startsWith (s ++ ext) start = true := by
  unfold Text.startsWith at h ⊢
  rw [List.isPrefixOf_iff_prefix] at h ⊢
  exact h.trans (List.prefix_append s ext)

/-- A target with `.js` behind it is a target. -/
theorem isTarget_append {s : Text} (h : isTarget s = true) :
    isTarget (s ++ Specifier.moduleExtension) = true := by
  have hlen : ∀ t : Text, t.getLast? = some CodePoint.slash →
      s ++ Specifier.moduleExtension ≠ t := by
    rintro t ht rfl
    have hs := Specifier.not_endsWith_slash_append s
    rw [(Path.endsWith_slash_iff _).2 ht] at hs
    cases hs
  have hcr : CodePoint.carriageReturn ∉ Specifier.moduleExtension := by decide
  have hlf : CodePoint.lineFeed ∉ Specifier.moduleExtension := by decide
  unfold isTarget Specifier.isRelative at h ⊢
  simp only [Bool.and_eq_true, Bool.or_eq_true, decide_eq_true_eq, Bool.not_eq_true',
    List.contains_eq_mem, decide_eq_false_iff_not] at h ⊢
  obtain ⟨⟨⟨⟨hrel, -⟩, -⟩, hc⟩, hl⟩ := h
  refine ⟨⟨⟨⟨?_, hlen _ (by decide)⟩, hlen _ (by decide)⟩, ?_⟩, ?_⟩
  · exact hrel.imp (startsWith_append · _) (startsWith_append · _)
  · simp [hc, hcr]
  · simp [hl, hlf]

/-- Adding the extension completes specifiers in this sense. -/
theorem completes_addExtension : Completes Specifier.addExtension where
  silent s := not_opens_of_closes Specifier.closes_addExtension
  target s hs := by
    unfold Specifier.addExtension
    split
    · exact hs
    · exact isTarget_append hs
  plain s hs := by
    have hext : ∀ c ∈ Specifier.moduleExtension, isQuote c = false := by decide
    unfold Specifier.addExtension
    split
    · exact hs
    · intro c hc
      rcases List.mem_append.1 hc with hc | hc
      · exact hs c hc
      · exact hext c hc
  grows s := by
    unfold Specifier.addExtension
    split
    · exact .inl rfl
    · right
      rw [List.length_append, Specifier.moduleExtension_eq]
      simp

/-! ## §2. A pass as a scan. -/

/-- The quote at which some pieces start. -/
def firstQuote? (pieces : List Piece) : Option CodePoint := pieces.head?.map Piece.quote

/-- Whether a pass replaces a piece: `run` stands before it and opens a statement, and `next` is the
quote that closes it. -/
def replaces (opens : Text → Bool) (run : Text) (p : Piece) (next : Option CodePoint) : Bool :=
  opens run && next = some p.quote && isTarget p.run

/-- What a pass makes of a piece. -/
def passPiece (opens : Text → Bool) (f : Text → Text) (run : Text) (p : Piece)
    (next : Option CodePoint) : Piece :=
  if replaces opens run p next then ⟨p.quote, f p.run⟩ else p

variable {opens : Text → Bool} {f : Text → Text}

@[simp] theorem quote_passPiece (run : Text) (p : Piece) (next : Option CodePoint) :
    (passPiece opens f run p next).quote = p.quote := by
  unfold passPiece
  split <;> rfl

@[simp] theorem firstQuote?_passPieces (run : Text) (pieces : List Piece) :
    firstQuote? (passPieces opens f run pieces) = firstQuote? pieces := by
  fun_cases passPieces opens f run pieces <;> rfl

theorem replaces_cons (run : Text) (p p' : Piece) (rest : List Piece) :
    replaces opens run p (firstQuote? (p' :: rest))
      = (opens run && p.quote = p'.quote && isTarget p.run) := by
  unfold replaces firstQuote?
  by_cases h : p.quote = p'.quote
  · simp [h]
  · simp [h, Ne.symm h]

/-- A pass goes on behind a piece as it has left it: the quote that closes a specifier opens
nothing, for the specifier is completed. -/
theorem passPieces_cons (hf : ∀ s, opens (f s) = false) (run : Text) (p : Piece)
    (pieces : List Piece) :
    passPieces opens f run (p :: pieces)
      = passPiece opens f run p (firstQuote? pieces)
        :: passPieces opens f (passPiece opens f run p (firstQuote? pieces)).run pieces := by
  cases pieces with
  | nil => simp [passPieces, passPiece, replaces, firstQuote?]
  | cons p' rest =>
    rw [passPieces, passPiece, replaces_cons]
    split
    · cases rest with
      | nil => rfl
      | cons q rest => simp [passPieces, hf]
    · rfl

theorem targetsOf_cons (hf : ∀ s, opens (f s) = false) (run : Text) (p : Piece)
    (pieces : List Piece) :
    targetsOf opens run (p :: pieces)
      = (if replaces opens run p (firstQuote? pieces) then [p.run] else [])
        ++ targetsOf opens (passPiece opens f run p (firstQuote? pieces)).run pieces := by
  cases pieces with
  | nil => simp [targetsOf, replaces, firstQuote?]
  | cons p' rest =>
    rw [targetsOf, passPiece, replaces_cons]
    split
    · cases rest with
      | nil => rfl
      | cons q rest => simp [targetsOf, hf]
    · rfl

/-! ## §3. Pieces and texts that a pass keeps. -/

/-- A pass keeps its pieces exactly if each specifier that it replaces is its own replacement. -/
theorem passPieces_eq_self_iff (run : Text) (pieces : List Piece) :
    passPieces opens f run pieces = pieces ↔ ∀ s ∈ targetsOf opens run pieces, f s = s := by
  fun_induction passPieces opens f run pieces with
  | case1 => simp [targetsOf]
  | case2 => simp [targetsOf]
  | case3 run p p' rest h ih =>
    rw [targetsOf, if_pos h]
    constructor
    · intro heq
      obtain ⟨hp, hrest⟩ := List.cons.inj heq
      intro s hs
      rcases List.mem_cons.1 hs with rfl | hs
      · exact congrArg Piece.run hp
      · exact ih.1 (List.cons.inj hrest).2 s hs
    · intro hall
      rw [hall p.run (by simp), ih.2 fun s hs => hall s (by simp [hs])]
  | case4 run p p' rest h ih =>
    rw [targetsOf, if_neg h, List.cons_eq_cons]
    exact ⟨fun heq => ih.1 heq.2, fun hall => ⟨rfl, ih.2 hall⟩⟩

/-- A pass keeps quotes as they are and brings none. -/
theorem isQuote_passPieces (hf : ∀ s, (∀ c ∈ s, isQuote c = false) → ∀ c ∈ f s, isQuote c = false)
    (run : Text) (pieces : List Piece)
    (h : ∀ p ∈ pieces, isQuote p.quote = true ∧ ∀ c ∈ p.run, isQuote c = false) :
    ∀ p ∈ passPieces opens f run pieces,
      isQuote p.quote = true ∧ ∀ c ∈ p.run, isQuote c = false := by
  fun_induction passPieces opens f run pieces with
  | case1 => exact h
  | case2 => exact h
  | case3 run p p' rest hr ih =>
    have hp := h p (by simp)
    intro q hq
    rcases List.mem_cons.1 hq with rfl | hq
    · exact ⟨hp.1, hf p.run hp.2⟩
    · rcases List.mem_cons.1 hq with rfl | hq
      · exact h q (by simp)
      · exact ih (fun q hq => h q (by simp [hq])) q hq
  | case4 run p p' rest hr ih =>
    intro q hq
    rcases List.mem_cons.1 hq with rfl | hq
    · exact h q (by simp)
    · exact ih (fun q hq => h q (List.mem_cons_of_mem _ hq)) q hq

/-- The pieces of a text that a pass has gone over are those of the text, passed over. -/
theorem cut_pass (opens : Text → Bool) (hf : Completes f) (t : Text) :
    cut (pass opens f t) = ((cut t).1, passPieces opens f (cut t).1 (cut t).2) :=
  cut_glue isQuote_cut.1 (isQuote_passPieces hf.plain _ _ isQuote_cut.2)

theorem pass_eq_self_iff (hf : Completes f) (t : Text) :
    pass opens f t = t ↔ ∀ s ∈ targets opens t, f s = s := by
  unfold targets
  rw [← passPieces_eq_self_iff (f := f)]
  constructor
  · intro h
    have hcut := cut_pass opens hf t
    rw [h] at hcut
    exact (congrArg Prod.snd hcut).symm
  · intro h
    unfold pass
    rw [h]
    exact glue_cut t

/-- A pass that changes something makes the text longer. -/
theorem length_passPieces (opens : Text → Bool) (hf : Completes f) (run : Text) (pieces : List Piece) :
    passPieces opens f run pieces = pieces
      ∨ (glueAll pieces).length < (glueAll (passPieces opens f run pieces)).length := by
  fun_induction passPieces opens f run pieces with
  | case1 => exact .inl rfl
  | case2 => exact .inl rfl
  | case3 run p p' rest h ih =>
    simp only [glueAll, List.length_append, List.length_cons]
    rcases hf.grows p.run with hp | hp
    · rw [hp]
      rcases ih with hrest | hrest
      · exact .inl (by rw [hrest])
      · right
        omega
    · right
      rcases ih with hrest | hrest
      · rw [hrest]
        omega
      · omega
  | case4 run p p' rest h ih =>
    simp only [glueAll, List.length_append, List.length_cons] at ih ⊢
    rcases ih with hrest | hrest
    · exact .inl (by rw [hrest])
    · right
      omega

theorem length_pass (opens : Text → Bool) (hf : Completes f) (t : Text) :
    pass opens f t = t ∨ t.length < (pass opens f t).length := by
  rcases length_passPieces opens hf (cut t).1 (cut t).2 with h | h
  · left
    unfold pass
    rw [h]
    exact glue_cut t
  · right
    calc t.length = (glue (cut t).1 (cut t).2).length := by rw [glue_cut]
      _ < (pass opens f t).length := by
        unfold pass glue
        rw [List.length_append, List.length_append]
        omega

/-- **A text is kept by both passes exactly if each specifier that they meet is its own
completion.** -/
theorem mapSpecifiers_eq_self_iff (hf : Completes f) (t : Text) :
    mapSpecifiers f t = t ↔ ∀ s ∈ metSpecifiers f t, f s = s := by
  unfold mapSpecifiers metSpecifiers
  constructor
  · intro h
    have hfrom : pass opensFrom f t = t := by
      rcases length_pass opensFrom hf t with hk | hk
      · exact hk
      · rcases length_pass opensBare hf (pass opensFrom f t) with hb | hb
        · rw [hb] at h
          exact h
        · rw [h] at hb
          omega
    rw [hfrom] at h ⊢
    intro s hs
    rcases List.mem_append.1 hs with hs | hs
    · exact (pass_eq_self_iff hf t).1 hfrom s hs
    · exact (pass_eq_self_iff hf t).1 h s hs
  · intro h
    have hfrom := (pass_eq_self_iff hf t).2 fun s hs => h s (List.mem_append_left _ hs)
    rw [hfrom] at h ⊢
    exact (pass_eq_self_iff hf t).2 fun s hs => h s (List.mem_append_right _ hs)

/-! ## §4. What a second run meets. -/

/-- A text that opens no statement. -/
def Silent (s : Text) : Prop := opensFrom s = false ∧ opensBare s = false

/-- What a run has become: it is as it was, or it was completed and opens nothing. -/
def Later (s s' : Text) : Prop := s' = s ∨ Silent s'

theorem later_passPiece (hf : Completes f) (run : Text) (p : Piece) (next : Option CodePoint) :
    Later p.run (passPiece opens f run p next).run := by
  unfold passPiece
  split
  · exact .inr (hf.silent p.run)
  · exact .inl rfl

theorem eq_of_later_of_opensFrom {s s' : Text} (h : Later s s') (ho : opensFrom s' = true) :
    s' = s := by
  rcases h with h | h
  · exact h
  · rw [h.1] at ho
    cases ho

theorem eq_of_later_of_opensBare {s s' : Text} (h : Later s s') (ho : opensBare s' = true) :
    s' = s := by
  rcases h with h | h
  · exact h
  · rw [h.2] at ho
    cases ho

theorem replaces_iff (run : Text) (p : Piece) (next : Option CodePoint) :
    replaces opens run p next = true
      ↔ opens run = true ∧ next = some p.quote ∧ isTarget p.run = true := by
  simp [replaces, and_assoc]

theorem passPiece_of_not_opens {run : Text} (h : opens run = false) (p : Piece)
    (next : Option CodePoint) : passPiece opens f run p next = p := by
  simp [passPiece, replaces, h]

/-- If a piece in front of which nothing has changed is a target after a pass, the pass has replaced
it. -/
theorem replaces_of_isTarget_passPiece {run : Text} {p : Piece} {next : Option CodePoint}
    (ho : opens run = true) (hn : next = some p.quote)
    (ht : isTarget (passPiece opens f run p next).run = true) :
    replaces opens run p next = true ∧ (passPiece opens f run p next).run = f p.run := by
  by_cases h : replaces opens run p next = true
  · exact ⟨h, by simp [passPiece, h]⟩
  · have hp : passPiece opens f run p next = p := by simp [passPiece, h]
    rw [hp] at ht
    exact absurd ((replaces_iff run p next).2 ⟨ho, hn, ht⟩) h

section

variable {ra rb rc rd : Text} {p a b c : Piece} {next : Option CodePoint}

/-- A statement that the from-pass meets in the second run is one that it met in the first, and the
specifier is the completed one. -/
theorem replaces_second_from (hab : Later ra rb) (hbc : Later rb rc)
    (ha : a = passPiece opensFrom f ra p next) (hb : b = passPiece opensBare f rb a next)
    (h : replaces opensFrom rc b next = true) :
    replaces opensFrom ra p next = true ∧ b.run = f p.run := by
  obtain ⟨ho, hn, ht⟩ := (replaces_iff rc b next).1 h
  have hcb := eq_of_later_of_opensFrom hbc ho
  rw [hcb] at ho
  have hba := eq_of_later_of_opensFrom hab ho
  -- what opens a from-statement opens no bare one, so the bare pass has kept the piece
  have hkeep : b = a := by rw [hb, passPiece_of_not_opens (opensBare_of_opensFrom ho)]
  rw [hba] at ho
  rw [hkeep, ha] at ht hn ⊢
  rw [quote_passPiece] at hn
  exact replaces_of_isTarget_passPiece ho hn ht

/-- The same of the bare pass. -/
theorem replaces_second_bare (hbc : Later rb rc) (hcd : Later rc rd)
    (hb : b = passPiece opensBare f rb a next) (hc : c = passPiece opensFrom f rc b next)
    (h : replaces opensBare rd c next = true) :
    replaces opensBare rb a next = true ∧ c.run = f a.run := by
  obtain ⟨ho, hn, ht⟩ := (replaces_iff rd c next).1 h
  rw [eq_of_later_of_opensBare hcd ho] at ho
  have hcb := eq_of_later_of_opensBare hbc ho
  have hfrom : opensFrom rc = false := by
    rw [Bool.eq_false_iff]
    intro hf
    rw [opensBare_of_opensFrom hf] at ho
    cases ho
  have hkeep : c = b := by rw [hc, passPiece_of_not_opens hfrom]
  rw [hcb] at ho
  rw [hkeep, hb] at ht hn ⊢
  rw [quote_passPiece] at hn
  exact replaces_of_isTarget_passPiece ho hn ht

end

theorem sublist_step {s s' : Text} {met met' : Bool} {xs ys : List Text}
    (h : met' = true → met = true ∧ s' = f s) (hrest : ys.Sublist (xs.map f)) :
    ((if met' then [s'] else []) ++ ys).Sublist (((if met then [s] else []) ++ xs).map f) := by
  cases met' with
  | true =>
    obtain ⟨hm, hs⟩ := h rfl
    subst hm hs
    simpa using hrest
  | false =>
    cases met with
    | true => simpa using hrest.cons (f s)
    | false => simpa using hrest

/-- **What each pass meets in the second run is what the first run has made of some of the
specifiers that it met, in the same order.**  The runs in front are those that the four passes see,
one after another. -/
theorem targetsOf_second_sublist (hf : Completes f) :
    ∀ (pieces : List Piece) (ra rb rc rd : Text), Later ra rb → Later rb rc → Later rc rd →
      (targetsOf opensFrom rc (passPieces opensBare f rb (passPieces opensFrom f ra pieces))).Sublist
          ((targetsOf opensFrom ra pieces).map f)
        ∧ (targetsOf opensBare rd (passPieces opensFrom f rc
              (passPieces opensBare f rb (passPieces opensFrom f ra pieces)))).Sublist
          ((targetsOf opensBare rb (passPieces opensFrom f ra pieces)).map f)
  | [], _, _, _, _, _, _, _ => by simp [passPieces, targetsOf]
  | p :: pieces, ra, rb, rc, rd, hab, hbc, hcd => by
    have hF : ∀ s, opensFrom (f s) = false := fun s => (hf.silent s).1
    have hB : ∀ s, opensBare (f s) = false := fun s => (hf.silent s).2
    have ha : Later p.run (passPiece opensFrom f ra p (firstQuote? pieces)).run :=
      later_passPiece hf ra p _
    simp only [passPieces_cons hF, passPieces_cons hB, targetsOf_cons hF, targetsOf_cons hB,
      firstQuote?_passPieces]
    -- the piece after the first from-pass, the first bare pass and the second from-pass
    generalize ea : passPiece opensFrom f ra p (firstQuote? pieces) = a at ha ⊢
    have hb : Later a.run (passPiece opensBare f rb a (firstQuote? pieces)).run :=
      later_passPiece hf rb a _
    generalize eb : passPiece opensBare f rb a (firstQuote? pieces) = b at hb ⊢
    have hc : Later b.run (passPiece opensFrom f rc b (firstQuote? pieces)).run :=
      later_passPiece hf rc b _
    generalize ec : passPiece opensFrom f rc b (firstQuote? pieces) = c at hc ⊢
    have hd : Later c.run (passPiece opensBare f rd c (firstQuote? pieces)).run :=
      later_passPiece hf rd c _
    obtain ⟨hfrom, hbare⟩ := targetsOf_second_sublist hf pieces _ _ _ _ hb hc hd
    constructor
    · exact sublist_step (replaces_second_from hab hbc ea.symm eb.symm) hfrom
    · exact sublist_step (replaces_second_bare hbc hcd eb.symm ec.symm) hbare

/-- What the passes meet in a text that they have gone over once. -/
theorem metSpecifiers_second_sublist (hf : Completes f) (t : Text) :
    (metSpecifiers f (mapSpecifiers f t)).Sublist ((metSpecifiers f t).map f) := by
  obtain ⟨hfrom, hbare⟩ := targetsOf_second_sublist hf (cut t).2 (cut t).1 (cut t).1 (cut t).1
    (cut t).1 (.inl rfl) (.inl rfl) (.inl rfl)
  unfold metSpecifiers mapSpecifiers targets
  simp only [cut_pass _ hf, List.map_append]
  exact hfrom.append hbare

/-- **When the second run changes nothing.**  A text is completed once and for all exactly if no
specifier that stays open to completion is met again. -/
theorem mapSpecifiers_twice_iff (hf : Completes f) (t : Text) :
    mapSpecifiers f (mapSpecifiers f t) = mapSpecifiers f t
      ↔ ∀ s ∈ metSpecifiers f t, f (f s) ≠ f s → f s ∉ metSpecifiers f (mapSpecifiers f t) := by
  rw [mapSpecifiers_eq_self_iff hf]
  constructor
  · intro h s _ hs hm
    exact hs (h _ hm)
  · intro h u hu
    obtain ⟨s, hs, rfl⟩ := List.mem_map.1 ((metSpecifiers_second_sublist hf t).subset hu)
    by_contra hne
    exact h s hs hne hu

/-- Whether a specifier that ends in full stops is met, and once completed is met again. -/
def MeetsDotsAgain (t : Text) : Prop :=
  ∃ s ∈ metSpecifiers Specifier.addExtension t, Specifier.endsInDots s = true ∧
    Specifier.addExtension s ∈ metSpecifiers Specifier.addExtension (complete t)

/-- **Completing a text twice is completing it once, unless full stops are met again.** -/
theorem complete_complete_iff (t : Text) :
    complete (complete t) = complete t ↔ ¬ MeetsDotsAgain t := by
  unfold complete MeetsDotsAgain
  rw [mapSpecifiers_twice_iff completes_addExtension]
  constructor
  · rintro h ⟨s, hs, hdots, hm⟩
    refine h s hs ?_ hm
    rw [Ne, Specifier.addExtension_addExtension_iff, hdots]
    decide
  · intro h s hs hne hm
    rw [Ne, Specifier.addExtension_addExtension_iff, Bool.not_eq_false] at hne
    exact h ⟨s, hs, hne, hm⟩

/-- Two directories above, written without a slash at the end. -/
theorem complete_twice_ne_once :
    complete (complete "import \"../..\";\n") ≠ complete "import \"../..\";\n" := by
  decide +kernel

end ModuleText

end ModuleBuild
