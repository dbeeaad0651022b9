import AdPipeline.Platform.Time
import Mathlib.Data.List.AList

/-!
# The fallback directory

The directory maps file names to the lines of the files. `FallbackWriter` appends to the file of the
current hour, and a replayed file is renamed out of the pending ones. A line is kept with the record
it was written from and with the number of that record, which the code does not have: a record that
a replay fails to publish is appended again under its old number.
-/

namespace AdPipeline.Collector

/-- What a line of a fallback file says. -/
structure FallbackRecord where
  topic : String
  key : String
  payload : String
deriving DecidableEq

/-- A line, with the number of its record. -/
structure FallbackLine where
  id : ℕ
  record : FallbackRecord
deriving DecidableEq

/-- File names and their lines. -/
abbrev FallbackDirectory := AList fun _ : String => List FallbackLine

namespace FallbackDirectory

/-- The file an append at a time goes to. -/
def hourFile (now : Instant) : String := "fallback-" ++ Time.hourText now ++ ".jsonl"

/-- The names `pendingFiles` lists. -/
def isPending (name : String) : Bool :=
  Text.startsWith name "fallback-" && Text.endsWith name ".jsonl"

/-- The name a replayed file is given. -/
def doneName (name : String) : String := name ++ ".done"

/-- The lines of a file, none when there is no such file. -/
def linesOf (dir : FallbackDirectory) (name : String) : List FallbackLine :=
  (dir.lookup name).getD []

/-- `FallbackWriter.append`: the file is created when it is not there. -/
def append (dir : FallbackDirectory) (now : Instant) (line : FallbackLine) : FallbackDirectory :=
  dir.insert (hourFile now) (dir.linesOf (hourFile now) ++ [line])

/-- `Files.move` without replacement: it fails when the source is gone or the target is there. -/
def move (dir : FallbackDirectory) (source target : String) : Option FallbackDirectory :=
  match dir.lookup source with
  | none => none
  | some lines =>
    if target ∈ dir then none
    else some (AList.insert target lines (AList.erase source dir))

/-- `pendingFiles`, in name order. -/
def pendingFiles (dir : FallbackDirectory) : List String :=
  (dir.keys.filter isPending).insertionSort Text.compareLe

/-- The record with this number is a line of a pending file other than the one named. -/
def PendingBeside (dir : FallbackDirectory) (name : String) (id : ℕ) : Prop :=
  ∃ other, other ≠ name ∧ isPending other = true ∧ id ∈ (dir.linesOf other).map FallbackLine.id

/-- The record with this number is a line of a pending file. -/
def Pending (dir : FallbackDirectory) (id : ℕ) : Prop :=
  ∃ name, isPending name = true ∧ id ∈ (dir.linesOf name).map FallbackLine.id

/-- The current file is pending. -/
theorem isPending_hourFile (now : Instant) : isPending (hourFile now) = true := by
  unfold isPending hourFile
  rw [Bool.and_eq_true]
  exact ⟨Text.startsWith_append _ _ _, Text.endsWith_append _ _⟩

/-- A renamed file is no longer pending. -/
theorem isPending_doneName (name : String) : isPending (doneName name) = false := by
  unfold isPending doneName Text.endsWith
  rw [Bool.and_eq_false_iff]
  right
  -- the names end in different characters
  rw [String.toList_append, List.isSuffixOf, List.reverse_append]
  simp [List.isPrefixOf]

/-- The new name of a file is not the name of a pending one. -/
theorem doneName_ne_of_isPending {file : String} (h : isPending file = true) (name : String) :
    doneName name ≠ file := by
  rintro rfl
  rw [isPending_doneName] at h
  cases h

theorem doneName_injective : Function.Injective doneName := by
  intro a b h
  have hlist := congrArg String.toList h
  rw [doneName, doneName, String.toList_append, String.toList_append] at hlist
  exact String.toList_inj.1 (List.append_cancel_right hlist)

theorem doneName_ne (name : String) : doneName name ≠ name := by
  intro h
  have hlength := congrArg String.length h
  rw [doneName, String.length_append] at hlength
  simp at hlength

/-- An append adds no renamed file. -/
theorem doneName_mem_append (dir : FallbackDirectory) (now : Instant) (line : FallbackLine)
    (name : String) : doneName name ∈ dir.append now line ↔ doneName name ∈ dir := by
  rw [append, AList.mem_insert]
  exact or_iff_right (doneName_ne_of_isPending (isPending_hourFile now) name)

theorem linesOf_append_self (dir : FallbackDirectory) (now : Instant) (line : FallbackLine) :
    (dir.append now line).linesOf (hourFile now) = dir.linesOf (hourFile now) ++ [line] := by
  rw [linesOf, append, AList.lookup_insert, Option.getD_some]

theorem linesOf_append_of_ne (dir : FallbackDirectory) {now : Instant} (line : FallbackLine)
    {name : String} (h : name ≠ hourFile now) :
    (dir.append now line).linesOf name = dir.linesOf name := by
  rw [linesOf, append, AList.lookup_insert_ne h, linesOf]

/-- The lines after an append are the lines before it, and the new one in the current file. -/
theorem mem_linesOf_append {dir : FallbackDirectory} {now : Instant} {line l : FallbackLine}
    {name : String} : l ∈ (dir.append now line).linesOf name ↔
      l ∈ dir.linesOf name ∨ (name = hourFile now ∧ l = line) := by
  by_cases h : name = hourFile now
  · subst h
    simp [linesOf_append_self]
  · simp [linesOf_append_of_ne dir line h, h]

/-- A successful move takes the lines of the source to a name that was free. -/
theorem move_eq_some {dir dir' : FallbackDirectory} {source target : String}
    (h : dir.move source target = some dir') :
    dir.linesOf target = [] ∧ (target ≠ source → dir'.linesOf source = []) ∧
      dir'.linesOf target = dir.linesOf source ∧
      ∀ name, name ≠ source → name ≠ target → dir'.linesOf name = dir.linesOf name := by
  unfold move at h
  split at h
  · cases h
  · rename_i lines hlines
    split_ifs at h with htarget
    obtain rfl := Option.some.inj h
    refine ⟨?_, fun hne => ?_, ?_, fun name hs ht => ?_⟩
    · rw [linesOf, AList.lookup_eq_none.2 htarget, Option.getD_none]
    · rw [linesOf, AList.lookup_insert_ne hne.symm, AList.lookup_erase, Option.getD_none]
    · rw [linesOf, AList.lookup_insert, linesOf, hlines]
    · rw [linesOf, AList.lookup_insert_ne ht, AList.lookup_erase_ne hs, linesOf]

/-- A move fails when the source is gone or the target is there. -/
theorem move_eq_none {dir : FallbackDirectory} {source target : String}
    (h : dir.move source target = none) : source ∉ dir ∨ target ∈ dir := by
  unfold move at h
  split at h
  · rename_i hlookup
    exact .inl (AList.lookup_eq_none.1 hlookup)
  · split_ifs at h with htarget
    exact .inr htarget

/-- The names after a move. -/
theorem mem_move {dir dir' : FallbackDirectory} {source target : String}
    (h : dir.move source target = some dir') {name : String} :
    name ∈ dir' ↔ name = target ∨ (name ≠ source ∧ name ∈ dir) := by
  unfold move at h
  split at h
  · cases h
  · split_ifs at h
    obtain rfl := Option.some.inj h
    rw [AList.mem_insert, AList.mem_erase]

/-- A move needs its source, and its target free. -/
theorem mem_of_move {dir dir' : FallbackDirectory} {source target : String}
    (h : dir.move source target = some dir') : source ∈ dir ∧ target ∉ dir := by
  unfold move at h
  split at h
  · cases h
  · rename_i lines hlookup
    split_ifs at h with htarget
    exact ⟨AList.lookup_isSome.1 (by rw [hlookup]; rfl), htarget⟩

/-- Only the names of the directory can be pending. -/
theorem Pending.exists_mem_keys {dir : FallbackDirectory} {id : ℕ} (h : dir.Pending id) :
    ∃ name ∈ dir.keys, isPending name = true := by
  obtain ⟨name, hname, hid⟩ := h
  refine ⟨name, ?_, hname⟩
  by_contra hkey
  rw [linesOf, AList.lookup_eq_none.2 hkey] at hid
  cases hid

theorem Pending.append {dir : FallbackDirectory} {id : ℕ} (h : dir.Pending id) (now : Instant)
    (line : FallbackLine) : (dir.append now line).Pending id := by
  obtain ⟨name, hname, hid⟩ := h
  obtain ⟨l, hl, rfl⟩ := List.mem_map.1 hid
  exact ⟨name, hname, List.mem_map_of_mem (mem_linesOf_append.2 (.inl hl))⟩

/-- An appended record is pending. -/
theorem pending_append_self (dir : FallbackDirectory) (now : Instant) (line : FallbackLine) :
    (dir.append now line).Pending line.id :=
  ⟨hourFile now, isPending_hourFile now,
    List.mem_map_of_mem (mem_linesOf_append.2 (.inr ⟨rfl, rfl⟩))⟩

/-- Renaming a replayed file leaves the records of the other pending files pending. -/
theorem pending_move_iff {dir dir' : FallbackDirectory} {name : String}
    (h : dir.move name (doneName name) = some dir') {id : ℕ} :
    dir'.Pending id ↔ dir.PendingBeside name id := by
  obtain ⟨-, hsource, -, hother⟩ := move_eq_some h
  have hne := doneName_ne name
  constructor
  · rintro ⟨other, hp, hid⟩
    have hon : other ≠ name := by
      rintro rfl
      rw [hsource hne] at hid
      cases hid
    have hod : other ≠ doneName name := (doneName_ne_of_isPending hp name).symm
    exact ⟨other, hon, hp, hother other hon hod ▸ hid⟩
  · rintro ⟨other, hon, hp, hid⟩
    have hod : other ≠ doneName name := (doneName_ne_of_isPending hp name).symm
    exact ⟨other, hp, (hother other hon hod).symm ▸ hid⟩

/-! ## The lines of the pending files -/

/-- All lines of the pending files, file by file. -/
def pendingLines (dir : FallbackDirectory) : List FallbackLine :=
  (pendingFiles dir).flatMap dir.linesOf

theorem perm_pendingFiles (dir : FallbackDirectory) :
    (pendingFiles dir).Perm (dir.keys.filter isPending) :=
  List.perm_insertionSort _ _

theorem mem_pendingFiles {dir : FallbackDirectory} {name : String} :
    name ∈ pendingFiles dir ↔ name ∈ dir ∧ isPending name = true := by
  rw [(perm_pendingFiles dir).mem_iff, List.mem_filter, AList.mem_keys]

theorem nodup_pendingFiles (dir : FallbackDirectory) : (pendingFiles dir).Nodup :=
  (perm_pendingFiles dir).nodup_iff.2 (dir.keys_nodup.filter _)

theorem linesOf_of_notMem {dir : FallbackDirectory} {name : String} (h : name ∉ dir) :
    dir.linesOf name = [] := by
  rw [linesOf, AList.lookup_eq_none.2 h, Option.getD_none]

/-- The lines of one pending file, and those of the others. -/
theorem perm_pendingLines (dir : FallbackDirectory) {name : String} (h : isPending name = true) :
    (pendingLines dir).Perm
      (dir.linesOf name ++ ((pendingFiles dir).erase name).flatMap dir.linesOf) := by
  by_cases hmem : name ∈ pendingFiles dir
  · have hperm := (List.perm_cons_erase hmem).flatMap_right dir.linesOf
    rwa [List.flatMap_cons] at hperm
  · have hdir : name ∉ dir := fun hdir => hmem (mem_pendingFiles.2 ⟨hdir, h⟩)
    rw [List.erase_of_not_mem hmem, linesOf_of_notMem hdir]
    exact .refl _

/-- The pending files of a directory in which one name was written. -/
theorem perm_pendingFiles_insert (dir : FallbackDirectory) (name : String)
    (lines : List FallbackLine) :
    (pendingFiles (AList.insert name lines dir)).Perm
      (if isPending name then name :: (pendingFiles dir).erase name else pendingFiles dir) := by
  have hkeys : ((AList.insert name lines dir).keys.filter isPending).Perm
      (if isPending name then name :: (dir.keys.filter isPending).erase name
        else dir.keys.filter isPending) := by
    rw [AList.keys_insert]
    split_ifs with hp
    · rw [List.filter_cons_of_pos hp, List.erase_filter]
    · rw [List.filter_cons_of_neg hp, ← List.erase_filter, List.erase_of_not_mem]
      intro hmem
      exact hp (List.mem_filter.1 hmem).2
  refine (perm_pendingFiles _).trans (hkeys.trans ?_)
  split_ifs with hp
  · exact ((perm_pendingFiles dir).symm.erase name).cons name
  · exact (perm_pendingFiles dir).symm

/-- An append adds its line. -/
theorem perm_pendingLines_append (dir : FallbackDirectory) (now : Instant) (line : FallbackLine) :
    (pendingLines (dir.append now line)).Perm (line :: pendingLines dir) := by
  have hp := isPending_hourFile now
  have hfiles : ((pendingFiles (dir.append now line)).erase (hourFile now)).Perm
      ((pendingFiles dir).erase (hourFile now)) := by
    have hinsert := (perm_pendingFiles_insert dir (hourFile now)
      (dir.linesOf (hourFile now) ++ [line])).erase (hourFile now)
    rwa [if_pos hp, List.erase_cons_head] at hinsert
  have hothers : ((pendingFiles (dir.append now line)).erase (hourFile now)).flatMap
        (dir.append now line).linesOf =
      ((pendingFiles (dir.append now line)).erase (hourFile now)).flatMap dir.linesOf := by
    apply List.flatMap_congr
    intro name hname
    refine linesOf_append_of_ne dir line ?_
    rintro rfl
    exact (nodup_pendingFiles _).not_mem_erase hname
  refine (perm_pendingLines _ hp).trans ?_
  rw [hothers, linesOf_append_self, List.append_assoc, List.singleton_append]
  refine (((hfiles.flatMap_right dir.linesOf).cons line).append_left _).trans ?_
  exact List.perm_middle.trans ((perm_pendingLines dir hp).symm.cons line)

/-- A renamed file is taken out of the pending ones. -/
theorem perm_pendingFiles_move {dir dir' : FallbackDirectory} {name : String}
    (h : dir.move name (doneName name) = some dir') :
    (pendingFiles dir').Perm ((pendingFiles dir).erase name) := by
  unfold move at h
  split at h
  · cases h
  · split_ifs at h with htarget
    obtain rfl := Option.some.inj h
    refine (perm_pendingFiles_insert _ _ _).trans ?_
    rw [isPending_doneName, if_neg Bool.false_ne_true]
    refine (perm_pendingFiles _).trans ?_
    rw [AList.keys_erase, ← List.erase_filter]
    exact (perm_pendingFiles dir).symm.erase name

/-- Renaming takes out the lines of the file. -/
theorem perm_pendingLines_move {dir dir' : FallbackDirectory} {name : String}
    (hp : isPending name = true) (h : dir.move name (doneName name) = some dir') :
    (pendingLines dir).Perm (dir.linesOf name ++ pendingLines dir') := by
  obtain ⟨-, -, -, hother⟩ := move_eq_some h
  have hlines : (pendingFiles dir').flatMap dir'.linesOf =
      (pendingFiles dir').flatMap dir.linesOf := by
    apply List.flatMap_congr
    intro other hmem
    refine hother other ?_ ?_
    · rintro rfl
      have hmem' := (perm_pendingFiles_move h).mem_iff.1 hmem
      exact (nodup_pendingFiles dir).not_mem_erase hmem'
    · exact (doneName_ne_of_isPending (mem_pendingFiles.1 hmem).2 name).symm
  refine (perm_pendingLines dir hp).trans (List.Perm.append_left _ ?_)
  rw [pendingLines, hlines]
  exact (perm_pendingFiles_move h).symm.flatMap_right dir.linesOf

end FallbackDirectory

end AdPipeline.Collector
