import Mathlib.Data.List.Basic

/-!
# Files of lines

`lines` cuts a text as `BufferedReader.readLine` does: a line ends at a line feed, at a carriage
return, or at the two in that order, and the last line need not end at all. A `LineFormat` writes
one record a line and reads the lines back, dropping some of them. What it reads from what it wrote
are the records, in order (`read_write`).
-/

namespace AdPipeline.Lib

/-- The lines of a text, the first of which continues `current`. -/
def linesFrom (current : List Char) : List Char → List (List Char)
  | [] => if current = [] then [] else [current]
  | '\n' :: cs => current :: linesFrom [] cs
  | '\r' :: '\n' :: cs => current :: linesFrom [] cs
  | '\r' :: cs => current :: linesFrom [] cs
  | c :: cs => linesFrom (current ++ [c]) cs

/-- The lines of a text, without their ends. -/
def lines (cs : List Char) : List (List Char) := linesFrom [] cs

/-- A text that is read as one line: it holds neither a line feed nor a carriage return. -/
def IsLine (l : List Char) : Prop := '\n' ∉ l ∧ '\r' ∉ l

/-- Reading goes on to the end of the line. -/
theorem linesFrom_append {l : List Char} (h : IsLine l) (current cs : List Char) :
    linesFrom current (l ++ '\n' :: cs) = (current ++ l) :: lines cs := by
  induction l generalizing current with
  | nil => rw [List.nil_append, linesFrom, List.append_nil, lines]
  | cons c l ih =>
      have hn : c ≠ '\n' := fun hc => h.1 (hc ▸ List.mem_cons_self)
      have hr : c ≠ '\r' := fun hc => h.2 (hc ▸ List.mem_cons_self)
      have hl : IsLine l := ⟨fun hc => h.1 (.tail _ hc), fun hc => h.2 (.tail _ hc)⟩
      rw [List.cons_append, linesFrom, ih hl, List.append_assoc, List.singleton_append]
      all_goals simp [hn, hr]

theorem lines_append {l : List Char} (h : IsLine l) (cs : List Char) :
    lines (l ++ '\n' :: cs) = l :: lines cs :=
  linesFrom_append h [] cs

/-- A way to write records of `ρ` as lines and to read the lines as `τ`. -/
structure LineFormat (ρ τ : Type*) where
  encode : ρ → List Char
  decode : List Char → Option τ
  /-- The lines that are not read. -/
  skips : List Char → Bool
  /-- What is read of a record. -/
  value : ρ → τ
  isLine : ∀ r, IsLine (encode r)
  skips_encode : ∀ r, skips (encode r) = false
  decode_encode : ∀ r, decode (encode r) = some (value r)

namespace LineFormat

variable {ρ τ : Type*} (F : LineFormat ρ τ)

/-- The text of a file with these records. -/
def write (rs : List ρ) : List Char := rs.flatMap fun r => F.encode r ++ ['\n']

/-- What is read from a file, unless a line cannot be read. -/
def read (cs : List Char) : Option (List τ) :=
  ((lines cs).filter fun l => !F.skips l).mapM F.decode

/-- There is one line for each record. -/
theorem lines_write (rs : List ρ) : lines (F.write rs) = rs.map F.encode := by
  induction rs with
  | nil => rfl
  | cons r rs ih =>
      rw [write, List.flatMap_cons, List.append_assoc, List.singleton_append,
        lines_append (F.isLine r), List.map_cons, ← ih, write]

/-- No line that was written is dropped. -/
theorem filter_encode (rs : List ρ) :
    (rs.map F.encode).filter (fun l => !F.skips l) = rs.map F.encode := by
  apply List.filter_eq_self.2
  intro l hl
  obtain ⟨r, -, rfl⟩ := List.mem_map.1 hl
  rw [F.skips_encode, Bool.not_false]

theorem mapM_decode (rs : List ρ) :
    (rs.map F.encode).mapM F.decode = some (rs.map F.value) := by
  induction rs with
  | nil => rfl
  | cons r rs ih =>
      rw [List.map_cons, List.mapM_cons, F.decode_encode, ih]
      rfl

/-- The records are read back, in order and each once. -/
theorem read_write (rs : List ρ) : F.read (F.write rs) = some (rs.map F.value) := by
  rw [read, lines_write, filter_encode, mapM_decode]

end LineFormat

end AdPipeline.Lib
