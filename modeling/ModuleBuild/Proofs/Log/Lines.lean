/-
  ModuleBuild.Proofs.Log.Lines
  ────────────────────────────
  **THE LINES OF A LOG FILE.**

  A record has a line in a log file if the layout of the file can be filled
  and what comes of it has bytes.  The layout that the program uses is filled
  by every record; what has no bytes are surrogates, which the name of a part
  of the program or a message may hold: a file name that is no text is
  written with them.

  Main results:
    * `LogFile.lineOf?` — the line of a record;
    * `fill_file` — what the layout of log files makes of a record;
    * `lineOf?_standard` — the records that have a line in it.
-/
import ModuleBuild.Log.Journal
import ModuleBuild.Proofs.Json.Exact

namespace ModuleBuild

/-- The bytes of the line that a record is in a log file, if a line can be made of it and written. -/
def LogFile.lineOf? (f : LogFile) (now : Moment) (r : Record) : Option Bytes :=
  (Layout.fill? f.layout (now.format? f.dateLayout) r).bind fun text =>
    (Utf8.encode (text ++ [CodePoint.lineFeed])).toOption

/-- The bytes of the lines of some records, of those that have one. -/
def LogFile.linesOf (f : LogFile) (now : Moment) (rs : List Record) : Bytes :=
  rs.flatMap fun r => (f.lineOf? now r).getD []

/-! ## §1. Texts that have bytes. -/

/-- A text has bytes if there is no surrogate in it. -/
theorem encode_toOption (t : Text) :
    (Utf8.encode t).toOption = if t.IsUnicode then some (t.flatMap Utf8.encodeOne) else none := by
  split
  · rename_i h
    rw [Utf8.encode_of_scalar h]
    rfl
  · rename_i h
    unfold Utf8.encode
    cases hfault : Utf8.surrogates? 0 t with
    | some fault => rfl
    | none => exact absurd (Utf8.isSurrogate_of_surrogates? hfault) h

theorem isUnicode_characters (cs : List Char) : Text.IsUnicode (cs.map CodePoint.ofChar) := by
  intro c hc
  obtain ⟨a, -, rfl⟩ := List.mem_map.1 hc
  have hvalid : a.toNat < 0xD800 ∨ (0xDFFF < a.toNat ∧ a.toNat < 0x110000) := a.valid
  unfold CodePoint.isSurrogate CodePoint.ofChar
  rw [Bool.and_eq_false_iff, decide_eq_false_iff_not, decide_eq_false_iff_not]
  dsimp only
  omega

theorem isUnicode_ofString (s : String) : (Text.ofString s).IsUnicode :=
  isUnicode_characters s.toList

/-! ## §2. The layout of log files. -/

namespace Layout

/-- What stands between fields. -/
def between (t : Text) : List Piece := t.map Piece.literal

/-- A field that is written as it is. -/
def plainField (name : Text) : Piece := .field name { manner := .plain }

theorem write_plainField {time : Option Text} {r : Record} {name t : Text}
    (h : valueOf? time r name = some (.text t)) :
    Piece.write? time r (plainField name) = some t := by
  show (valueOf? time r name).bind _ = _
  rw [h]
  show some (List.replicate (0 - t.length) (CodePoint.ofChar ' ') ++ t) = some t
  rw [Nat.zero_sub]
  rfl

theorem write_between (time : Option Text) (r : Record) (t : Text) :
    (between t).mapM (Piece.write? time r) = some (t.map ([·])) := by
  unfold between
  induction t with
  | nil => rfl
  | cons c t ih =>
    rw [List.map_cons, List.mapM_cons, ih]
    rfl

/-- **What the layout of log files makes of a record.** -/
theorem fill_file (time : Text) (r : Record) :
    fill? file (some time) r = some (Text.join
      ["[", time, "] - ", r.level.name, " - ", r.loggerName, " - ", r.message]) := by
  have hpieces : pieces? file = some (between "[" ++ plainField "asctime" ::
      (between "] - " ++ plainField "levelname" :: (between " - " ++ plainField "name" ::
        (between " - " ++ [plainField "message"])))) := by decide
  unfold fill?
  rw [hpieces, Option.bind_eq_bind, Option.bind_some]
  simp only [List.mapM_append, List.mapM_cons, List.mapM_nil, write_between]
  rw [write_plainField (t := time) rfl, write_plainField (t := r.level.name) rfl,
    write_plainField (t := r.loggerName) rfl, write_plainField (t := r.message) rfl]
  rfl

end Layout

theorem Moment.format_fileLayout (m : Moment) :
    m.format Moment.fileLayout = Text.join
      [Text.ofNat m.year, "-", Text.inBase 10 2 m.month, "-", Text.inBase 10 2 m.day, "T",
        Text.inBase 10 2 m.hour, ":", Text.inBase 10 2 m.minute, ":",
        Text.inBase 10 2 m.second] := rfl

theorem Moment.isUnicode_format_fileLayout (m : Moment) :
    (m.format Moment.fileLayout).IsUnicode := by
  have hnumber (width n : Nat) : (Text.inBase 10 width n).IsUnicode := isUnicode_characters _
  have hyear : (Text.ofNat m.year).IsUnicode := isUnicode_characters _
  have hnil : Text.IsUnicode [] := by decide
  rw [format_fileLayout]
  simp only [Text.join_cons, Text.join_nil, Text.isUnicode_append, isUnicode_ofString, hnumber,
    hyear, hnil, and_self]

/-- The line of a record in the layout of log files. -/
def standardLine (now : Moment) (r : Record) : Text :=
  Text.join ["[", now.format Moment.fileLayout, "] - ", r.level.name, " - ", r.loggerName, " - ",
    r.message, [CodePoint.lineFeed]]

theorem isUnicode_standardLine (now : Moment) (r : Record) :
    (standardLine now r).IsUnicode ↔ (r.loggerName ++ r.message).IsUnicode := by
  have hlevel : r.level.name.IsUnicode := by cases r.level <;> decide
  have hend : Text.IsUnicode [CodePoint.lineFeed] := by decide
  have hnil : Text.IsUnicode [] := by decide
  unfold standardLine
  simp only [Text.join_cons, Text.join_nil, Text.isUnicode_append, isUnicode_ofString, hlevel,
    now.isUnicode_format_fileLayout, hend, hnil, and_true, true_and]

/-- **The records that have a line in the layout of log files**: those whose name and message hold no
surrogate. -/
theorem lineOf?_standard {f : LogFile} (hlayout : f.layout = Layout.file)
    (hdate : f.dateLayout = Moment.fileLayout) (now : Moment) (r : Record) :
    f.lineOf? now r = if (r.loggerName ++ r.message).IsUnicode then
      some ((standardLine now r).flatMap Utf8.encodeOne) else none := by
  have htime : now.format? Moment.fileLayout = some (now.format Moment.fileLayout) := rfl
  unfold LogFile.lineOf?
  have hline : Text.join ["[", now.format Moment.fileLayout, "] - ", r.level.name, " - ",
      r.loggerName, " - ", r.message] ++ [CodePoint.lineFeed] = standardLine now r := by
    unfold standardLine
    simp only [Text.join_cons, Text.join_nil, List.append_assoc, List.append_nil]
  rw [hlayout, hdate, htime, Layout.fill_file, Option.bind_some, hline, encode_toOption]
  simp only [isUnicode_standardLine]

end ModuleBuild
