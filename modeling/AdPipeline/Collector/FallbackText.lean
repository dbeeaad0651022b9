import AdPipeline.Collector.FallbackDirectory
import AdPipeline.Lib.Lines
import AdPipeline.Platform.JsonText

/-!
# The text of the fallback files

`FallbackWriter.append` writes a record as a line of JSON behind the bytes of the current file, and
`AdminController.replayFile` reads a file back: it decodes the bytes, cuts the text into lines,
drops the blank ones, parses the others and takes three fields of each. The parser is a parameter
that gives back what the writer wrote.

`Holds` relates the bytes of the files to the lines of `FallbackDirectory`. Appending and renaming
keep it, and where it holds, the records that are read are those of the lines.
-/

namespace AdPipeline.Collector

/-- The fields that are written of a record. -/
def FallbackRecord.fields (r : FallbackRecord) (now : Instant) : List (String × String) :=
  [("topic", r.topic), ("key", r.key), ("payload", r.payload), ("fallback_ts", Time.toText now)]

namespace FallbackText

open FallbackDirectory

/-- File names and the bytes of the files. -/
abbrev Files := AList fun _ : String => ByteArray

/-- The line of a record appended at a time. -/
def line (now : Instant) (r : FallbackRecord) : String :=
  Json.writeValueAsString (Json.ofTexts (r.fields now))

/-- `FallbackWriter.append`: the file is created when it is not there. -/
def append (files : Files) (now : Instant) (r : FallbackRecord) : Files :=
  files.insert (hourFile now)
    ((files.lookup (hourFile now)).getD ByteArray.empty ++ (line now r ++ "\n").toUTF8)

/-- `Files.move` without replacement. -/
def move (files : Files) (source target : String) : Option Files :=
  match files.lookup source with
  | none => none
  | some bytes =>
    if target ∈ files then none
    else some (AList.insert target bytes (AList.erase source files))

/-- `Files.readAllLines`, unless the bytes are not UTF-8. -/
def readAllLines (bytes : ByteArray) : Option (List String) :=
  (String.fromUTF8? bytes).map fun text => (Lib.lines text.toList).map String.ofList

variable (readTree : String → Option Json)

/-- The record that is published of a line. -/
def replayLine (line : String) : Option FallbackRecord := do
  let n ← readTree line
  return ⟨(← n.get "topic").asText, (← n.get "key").asText, (← n.get "payload").asText⟩

/-- The records that `replayFile` publishes of a file, in the order of its lines. -/
def replayFile (bytes : ByteArray) : Option (List FallbackRecord) := do
  let lines ← readAllLines bytes
  (lines.filter fun l => !Text.isBlank l).mapM (replayLine readTree)

/-- The records read from the file of a name, unless it is not there or cannot be read. -/
def readBack (files : Files) (name : String) : Option (List FallbackRecord) :=
  (files.lookup name).bind (replayFile readTree)

/-! ## One line -/

/-- The line of a record is one line. -/
theorem isLine_line (now : Instant) (r : FallbackRecord) : Lib.IsLine (line now r).toList := by
  have hprintable : ∀ c ∈ (line now r).toList, 0x20 ≤ c.toNat := fun c hc =>
    Json.printable_ofTexts hc
  constructor
  · intro h
    exact absurd (hprintable _ h) (by decide)
  · intro h
    exact absurd (hprintable _ h) (by decide)

/-- It is not blank. -/
theorem isBlank_line (now : Instant) (r : FallbackRecord) : Text.isBlank (line now r) = false := by
  rw [Text.isBlank, line, Json.writeValueAsString_ofTexts, String.toList_append,
    String.toList_append, List.append_assoc, List.all_append, Bool.and_eq_false_iff]
  left
  decide

variable {readTree}

/-- A parser that reads the line back gives the record. -/
theorem replayLine_line (h : Json.ReadsBack readTree) (now : Instant) (r : FallbackRecord) :
    replayLine readTree (line now r) = some r := by
  have hnames : ((r.fields now).map Prod.fst).Nodup := by
    show ["topic", "key", "payload", "fallback_ts"].Nodup
    decide
  rw [replayLine, line, h _ hnames]
  rfl

/-- The lines of the fallback files, as `append` writes them and `replayFile` reads them. -/
def format (h : Json.ReadsBack readTree) :
    Lib.LineFormat (Instant × FallbackRecord) FallbackRecord where
  encode a := (line a.1 a.2).toList
  decode l := replayLine readTree (String.ofList l)
  skips l := Text.isBlank (String.ofList l)
  value := Prod.snd
  isLine a := isLine_line a.1 a.2
  skips_encode a := by rw [String.ofList_toList, isBlank_line]
  decode_encode a := by rw [String.ofList_toList, replayLine_line h]

/-! ## One file -/

/-- The text of a file to which these records were appended. -/
def fileText (written : List (Instant × FallbackRecord)) : String :=
  String.ofList (written.flatMap fun a => (line a.1 a.2).toList ++ ['\n'])

/-- The bytes are those of a file of these records, whenever each was appended. -/
def Written (bytes : ByteArray) (rs : List FallbackRecord) : Prop :=
  ∃ written : List (Instant × FallbackRecord),
    written.map Prod.snd = rs ∧ bytes = (fileText written).toUTF8

theorem written_nil : Written ByteArray.empty [] := ⟨[], rfl, rfl⟩

/-- The bytes of a line behind those of a file are those of the longer file. -/
theorem Written.append {bytes : ByteArray} {rs : List FallbackRecord} (h : Written bytes rs)
    (now : Instant) (r : FallbackRecord) :
    Written (bytes ++ (line now r ++ "\n").toUTF8) (rs ++ [r]) := by
  obtain ⟨written, rfl, rfl⟩ := h
  refine ⟨written ++ [(now, r)], by rw [List.map_append]; rfl, ?_⟩
  have hline : line now r ++ "\n" = String.ofList ((line now r).toList ++ ['\n']) := by
    rw [String.ofList_append, String.ofList_toList]
  rw [fileText, fileText, List.flatMap_append, String.ofList_append, List.flatMap_singleton, hline]
  rfl

theorem readAllLines_toUTF8 (text : String) :
    readAllLines text.toUTF8 = some ((Lib.lines text.toList).map String.ofList) := by
  have hvalid : text.toUTF8.IsValidUTF8 := text.isValidUTF8
  rw [readAllLines, String.fromUTF8?, dif_pos hvalid]
  rfl

/-- The records of a file are read back in order. -/
theorem Written.replayFile (h : Json.ReadsBack readTree) {bytes : ByteArray}
    {rs : List FallbackRecord} (hb : Written bytes rs) :
    FallbackText.replayFile readTree bytes = some rs := by
  obtain ⟨written, rfl, rfl⟩ := hb
  have hread := (format h).read_write written
  rw [Lib.LineFormat.read, Lib.LineFormat.write] at hread
  simp only [format] at hread
  rw [FallbackText.replayFile, readAllLines_toUTF8, fileText, String.toList_ofList]
  simp only [Option.bind_eq_bind, Option.bind_some, List.filter_map, List.mapM_map]
  exact hread

/-! ## The directory -/

/-- The bytes of the files are those of the lines of the directory. -/
def Holds (files : Files) (dir : FallbackDirectory) : Prop :=
  ∀ name, Option.Rel (fun bytes lines => Written bytes (lines.map FallbackLine.record))
    (files.lookup name) (dir.lookup name)

theorem holds_empty : Holds ∅ ∅ := fun name => by
  rw [AList.lookup_empty, AList.lookup_empty]
  exact .none

variable {files : Files} {dir : FallbackDirectory}

/-- There are the same files. -/
theorem Holds.mem_iff (h : Holds files dir) (name : String) : name ∈ files ↔ name ∈ dir := by
  rw [← AList.lookup_isSome, ← AList.lookup_isSome]
  have hname := h name
  generalize files.lookup name = bytes, dir.lookup name = lines at hname
  cases hname <;> rfl

/-- What a file holds when none is taken for an empty one. -/
theorem Holds.written (h : Holds files dir) (name : String) :
    Written ((files.lookup name).getD ByteArray.empty)
      ((dir.linesOf name).map FallbackLine.record) := by
  have hname := h name
  rw [linesOf]
  generalize files.lookup name = bytes, dir.lookup name = lines at hname
  cases hname with
  | none => exact written_nil
  | some hb => exact hb

/-- An append to the files is an append to the directory. -/
theorem Holds.append (h : Holds files dir) (now : Instant) (l : FallbackLine) :
    Holds (FallbackText.append files now l.record) (dir.append now l) := by
  intro name
  rw [FallbackText.append, FallbackDirectory.append]
  by_cases hname : name = hourFile now
  · subst hname
    have hb := (h.written (hourFile now)).append now l.record
    rw [← List.map_singleton, ← List.map_append] at hb
    rw [AList.lookup_insert, AList.lookup_insert]
    exact .some hb
  · rw [AList.lookup_insert_ne hname, AList.lookup_insert_ne hname]
    exact h name

/-- A renaming of a file is one in the directory, and fails where that fails. -/
theorem Holds.move (h : Holds files dir) (source target : String) :
    Option.Rel Holds (FallbackText.move files source target) (dir.move source target) := by
  have hsource := h source
  rw [FallbackText.move, FallbackDirectory.move]
  generalize files.lookup source = bytes, dir.lookup source = lines at hsource
  cases hsource with
  | none => exact .none
  | some hb =>
      by_cases htarget : target ∈ dir
      · simp only [if_pos htarget, if_pos ((h.mem_iff target).2 htarget)]
        exact .none
      · simp only [if_neg htarget, if_neg (mt (h.mem_iff target).1 htarget)]
        refine .some fun name => ?_
        by_cases hname : name = target
        · subst hname
          rw [AList.lookup_insert, AList.lookup_insert]
          exact .some hb
        · rw [AList.lookup_insert_ne hname, AList.lookup_insert_ne hname]
          by_cases hsame : name = source
          · subst hsame
            rw [AList.lookup_erase, AList.lookup_erase]
            exact .none
          · rw [AList.lookup_erase_ne hsame, AList.lookup_erase_ne hsame]
            exact h name

/-- The records read from a file are those of its lines. -/
theorem Holds.readBack (hread : Json.ReadsBack readTree) (h : Holds files dir) {name : String}
    (hname : name ∈ files) :
    FallbackText.readBack readTree files name =
      some ((dir.linesOf name).map FallbackLine.record) := by
  obtain ⟨bytes, hbytes⟩ := Option.isSome_iff_exists.1 (AList.lookup_isSome.2 hname)
  have hb := h.written name
  rw [hbytes, Option.getD_some] at hb
  rw [FallbackText.readBack, hbytes, Option.bind_some, hb.replayFile hread]

/-! ## A run of appends -/

/-- The files after a sequence of appends, none of which found a file. -/
def appendAll (calls : List (Instant × FallbackRecord)) : Files :=
  calls.foldl (fun files a => append files a.1 a.2) ∅

/-- The records of the appends that went to a file. -/
def appendedTo (name : String) (calls : List (Instant × FallbackRecord)) : List FallbackRecord :=
  (calls.filter fun a => hourFile a.1 = name).map Prod.snd

/-- One more append adds its record to the file of its hour. -/
theorem appendedTo_concat (name : String) (calls : List (Instant × FallbackRecord))
    (a : Instant × FallbackRecord) :
    appendedTo name (calls ++ [a]) =
      appendedTo name calls ++ if hourFile a.1 = name then [a.2] else [] := by
  rw [appendedTo, appendedTo, List.filter_append, List.map_append]
  split_ifs with h <;> simp [h]

/-- The files after a sequence of appends hold the records of the appends. -/
theorem holds_appendAll (calls : List (Instant × FallbackRecord)) :
    ∃ dir : FallbackDirectory, Holds (appendAll calls) dir ∧
      (∀ name, (dir.linesOf name).map FallbackLine.record = appendedTo name calls) ∧
      ∀ a ∈ calls, hourFile a.1 ∈ dir := by
  induction calls using List.reverseRecOn with
  | nil => exact ⟨∅, holds_empty, fun _ => rfl, fun _ h => absurd h List.not_mem_nil⟩
  | append_singleton calls a ih =>
      obtain ⟨dir, hdir, hlines, hmem⟩ := ih
      -- the number of a line says nothing of its text
      refine ⟨dir.append a.1 ⟨calls.length, a.2⟩, ?_, fun name => ?_, fun b hb => ?_⟩
      · rw [appendAll, List.foldl_append]
        exact hdir.append a.1 ⟨calls.length, a.2⟩
      · rw [appendedTo_concat, ← hlines]
        split_ifs with hname
        · subst hname
          rw [linesOf_append_self, List.map_append]
          rfl
        · rw [linesOf_append_of_ne dir _ (Ne.symm hname), List.append_nil]
      · rw [FallbackDirectory.append, AList.mem_insert]
        rcases List.mem_append.1 hb with hb | hb
        · exact .inr (hmem b hb)
        · exact .inl (by rw [List.mem_singleton.1 hb])

/-- Every append is in a file, and each file is read back as the records appended to it, in order
and each once. -/
theorem replay_reads_appends (h : Json.ReadsBack readTree)
    (calls : List (Instant × FallbackRecord)) :
    (∀ a ∈ calls, hourFile a.1 ∈ appendAll calls) ∧
      ∀ name ∈ appendAll calls,
        readBack readTree (appendAll calls) name = some (appendedTo name calls) := by
  obtain ⟨dir, hdir, hlines, hmem⟩ := holds_appendAll calls
  constructor
  · intro a ha
    exact (hdir.mem_iff _).2 (hmem a ha)
  · intro name hname
    rw [hdir.readBack h hname, hlines]

/-- A payload of nested JSON with a line break and a line separator in it, and one of line ends. -/
theorem replay_reads_appends_nested :
    readBack Json.readTexts
        (appendAll [(⟨0⟩, ⟨"ad.click", "r\"1\u2028", "\x7b\"q\":\"a\\nb\\\\\",\n\"c\":1\x7d"⟩),
          (⟨1⟩, ⟨"dlq", "", "\r\n\t"⟩)]) "fallback-19700101-00.jsonl" =
      some [⟨"ad.click", "r\"1\u2028", "\x7b\"q\":\"a\\nb\\\\\",\n\"c\":1\x7d"⟩,
        ⟨"dlq", "", "\r\n\t"⟩] := by
  have hread := replay_reads_appends Json.readsBack_readTexts
    [(⟨0⟩, ⟨"ad.click", "r\"1\u2028", "\x7b\"q\":\"a\\nb\\\\\",\n\"c\":1\x7d"⟩),
      (⟨1⟩, ⟨"dlq", "", "\r\n\t"⟩)]
  have hfile : hourFile ⟨0⟩ = "fallback-19700101-00.jsonl" := by decide
  have hsame : hourFile ⟨1⟩ = "fallback-19700101-00.jsonl" := by decide
  rw [← hfile, hread.2 _ (hread.1 _ List.mem_cons_self), appendedTo]
  simp [hfile, hsame]

end FallbackText

end AdPipeline.Collector
