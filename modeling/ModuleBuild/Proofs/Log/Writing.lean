/-
  ModuleBuild.Proofs.Log.Writing
  ──────────────────────────────
  **WHAT A LOG WRITES WHEN IT STOPS.**

  A log that is stopped writes the queued records to its sinks, the oldest
  first.  A file that is never rotated gets one line behind another, for each
  record of which a line can be made and written; the other sinks write to no
  file.

  Main results:
    * `tree_writeTo` — a file that is open and never rotated gets the line;
    * `bytesAt_stop` — what the files hold when the log has stopped.
-/
import ModuleBuild.Proofs.FileTree.Contents
import ModuleBuild.Proofs.Log.Lines
import ModuleBuild.Proofs.Log.Starting

namespace ModuleBuild

open FileTree

/-! ## §1. One line. -/

/-- The file of a sink, if it has one. -/
def Sink.file? : Sink → Option LogFile
  | .console _ => none
  | .file f => some f

namespace Journal

variable {now : Moment} {f : LogFile} {r : Record} {w : LogWorld} {t : FileTree} {l : Location}
  {sinks : List Sink}

/-- **A log file that is open and never rotated gets the line of a record**, and nothing if there is
none. -/
theorem tree_writeTo (hrotation : f.maxBytes ≤ 0) (hopen : OpenAt t l) :
    ((writeTo f now r).runOn t).2 = ((f.lineOf? now r).map t.append).getD t := by
  have hnotClosed : ¬ t.openFile = .closed := by
    rw [hopen.openFile]
    simp
  have hkept : ∀ line, wouldFill f t line = false := by
    intro line
    unfold wouldFill
    rw [decide_eq_false (by omega), Bool.and_false, Bool.false_and]
  unfold writeTo LogFile.lineOf?
  rw [Edit.runOn_bind, Edit.runOn_get]
  dsimp only
  rw [if_neg hnotClosed]
  cases hfill : Layout.fill? f.layout (now.format? f.dateLayout) r with
  | none => rfl
  | some text =>
    dsimp only
    rw [Edit.runOn_bind, Edit.runOn_get]
    dsimp only
    rw [hkept, if_neg Bool.false_ne_true]
    rw [Option.bind_some]
    cases Utf8.encode (text ++ [CodePoint.lineFeed]) with
    | error fault => rfl
    | ok bytes => rfl

/-- So its bytes grow by the line, and no other bytes change. -/
theorem bytesAt_writeTo (hrotation : f.maxBytes ≤ 0) (hopen : OpenAt t l) :
    OpenAt ((writeTo f now r).runOn t).2 l
      ∧ ∀ k, ((writeTo f now r).runOn t).2.bytesAt k
        = t.bytesAt k ++ if k = l then (f.lineOf? now r).getD [] else [] := by
  rw [tree_writeTo hrotation hopen]
  cases f.lineOf? now r with
  | none =>
    refine ⟨hopen, fun k => ?_⟩
    show t.bytesAt k = t.bytesAt k ++ if k = l then [] else []
    rw [ite_self, List.append_nil]
  | some line => exact append_openAt hopen line

/-! ## §2. One record. -/

/-- The sinks change the tree as far as they have files, and the state of the log not at all. -/
theorem foldl_emit (sinks : List Sink) (w : LogWorld) :
    (sinks.foldl (emit now r) w).journal = w.journal
      ∧ (sinks.foldl (emit now r) w).tree
        = (sinks.filterMap Sink.file?).foldl (fun t f => ((writeTo f now r).runOn t).2) w.tree := by
  induction sinks generalizing w with
  | nil => exact ⟨rfl, rfl⟩
  | cons s sinks ih =>
    obtain ⟨hjournal, htree⟩ := ih (emit now r w s)
    rw [List.foldl_cons, hjournal, htree]
    cases s with
    | console layout =>
      have hemit : (emit now r w (.console layout)).journal = w.journal
          ∧ (emit now r w (.console layout)).tree = w.tree := by
        unfold emit
        dsimp only
        cases Layout.fill? layout (some (now.format Moment.plainLayout)) r with
        | none => exact ⟨rfl, rfl⟩
        | some text => exact ⟨rfl, rfl⟩
      exact ⟨hemit.1, by rw [hemit.2]; rfl⟩
    | file f => exact ⟨rfl, rfl⟩

theorem journal_deliver (listener : Listener) (w : LogWorld) (r : Record) :
    (deliver now listener w r).journal = w.journal := by
  unfold deliver
  split
  · exact (foldl_emit listener.sinks w).1
  · rfl

/-- Sinks without a file write to none. -/
theorem tree_deliver_unfiled (hsinks : sinks.filterMap Sink.file? = []) (level : Nat) (w : LogWorld)
    (r : Record) : (deliver now ⟨level, sinks⟩ w r).tree = w.tree := by
  unfold deliver
  split
  · rw [(foldl_emit sinks w).2, hsinks]
    rfl
  · rfl

/-- A record that is serious enough is written to the file. -/
theorem tree_deliver_filed (hsinks : sinks.filterMap Sink.file? = [f]) {level : Nat}
    (hlevel : level ≤ r.level.number) (w : LogWorld) :
    (deliver now ⟨level, sinks⟩ w r).tree = ((writeTo f now r).runOn w.tree).2 := by
  unfold deliver
  rw [if_pos hlevel, (foldl_emit sinks w).2, hsinks]
  rfl

/-! ## §3. The whole queue. -/

theorem journal_drained (listener : Listener) (queue : List Record) (w : LogWorld) :
    (queue.foldl (deliver now listener) w).journal = w.journal := by
  induction queue generalizing w with
  | nil => rfl
  | cons r queue ih => rw [List.foldl_cons, ih, journal_deliver]

theorem tree_drained_unfiled (hsinks : sinks.filterMap Sink.file? = []) (level : Nat)
    (queue : List Record) (w : LogWorld) :
    (queue.foldl (deliver now ⟨level, sinks⟩) w).tree = w.tree := by
  induction queue generalizing w with
  | nil => rfl
  | cons r queue ih => rw [List.foldl_cons, ih, tree_deliver_unfiled hsinks]

/-- The file gets the lines of the queued records, in their order. -/
theorem bytesAt_drained (hsinks : sinks.filterMap Sink.file? = [f]) (hrotation : f.maxBytes ≤ 0)
    {level : Nat} {queue : List Record} (hqueue : ∀ r ∈ queue, level ≤ r.level.number)
    {w : LogWorld} (hopen : OpenAt w.tree l) (k : Location) :
    (queue.foldl (deliver now ⟨level, sinks⟩) w).tree.bytesAt k
      = w.tree.bytesAt k ++ if k = l then f.linesOf now queue else [] := by
  induction queue generalizing w with
  | nil =>
    show w.tree.bytesAt k = w.tree.bytesAt k ++ if k = l then [] else []
    rw [ite_self, List.append_nil]
  | cons r queue ih =>
    obtain ⟨hr, hqueue⟩ := List.forall_mem_cons.1 hqueue
    obtain ⟨hopen', hbytes⟩ := @bytesAt_writeTo now f r w.tree l hrotation hopen
    rw [← tree_deliver_filed hsinks hr w] at hopen' hbytes
    rw [List.foldl_cons, ih hqueue hopen', hbytes, List.append_assoc]
    unfold LogFile.linesOf
    by_cases hk : k = l
    · rw [if_pos hk, if_pos hk, if_pos hk, List.flatMap_cons]
    · rw [if_neg hk, if_neg hk, if_neg hk, List.append_nil]

/-- What is on the queue for the file at a location. -/
def pendingAt (now : Moment) (file : Option (Location × LogFile)) (queue : List Record)
    (k : Location) : Bytes :=
  match file with
  | some (l, f) => if k = l then f.linesOf now queue else []
  | none => []

/-- How a file that is kept open is written: it is there, and never rotated. -/
def KeptOpen (t : FileTree) : Option (Location × LogFile) → Prop
  | some (l, f) => OpenAt t l ∧ f.maxBytes ≤ 0
  | none => True

/-- **What the files hold when the log has stopped**: what they held, and behind it what was on the
queue. -/
theorem bytesAt_stop {level : Nat} {file : Option (Location × LogFile)}
    (hlistener : w.journal.listener = some ⟨level, sinks⟩)
    (hsinks : sinks.filterMap Sink.file? = (file.map Prod.snd).toList)
    (hqueue : ∀ r ∈ w.journal.queue, level ≤ r.level.number) (hopen : KeptOpen w.tree file)
    (k : Location) :
    (stop now w).tree.bytesAt k = w.tree.bytesAt k ++ pendingAt now file w.journal.queue k := by
  have hstop : (stop now w).tree
      = (w.journal.queue.foldl (deliver now ⟨level, sinks⟩) w).tree.close := by
    unfold stop
    rw [hlistener]
  rw [hstop, bytesAt_close]
  cases file with
  | none =>
    rw [tree_drained_unfiled hsinks]
    exact (List.append_nil _).symm
  | some place => exact bytesAt_drained hsinks hopen.2 hqueue hopen.1 k

end Journal

end ModuleBuild
