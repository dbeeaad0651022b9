import AdPipeline.Platform.Json

/-!
# Objects of texts, written and read back

What the writer of `Json` makes of an object whose fields are all texts: every character of it is
printable, and a reader of such objects by the grammar of JSON gets the object back. The services
hand what they read to the parser of Jackson; this reader says no more than what is known of that
one on such objects (`ReadsBack`), and that there is a reader that does it.
-/

namespace AdPipeline

namespace Json

/-- An object whose fields are texts. -/
def ofTexts (texts : List (String × String)) : Json := .obj (texts.map fun t => (t.1, .str t.2))

/-- A reader that gives back the objects of texts that were written, if no name is repeated. -/
def ReadsBack (readTree : String → Option Json) : Prop :=
  ∀ texts : List (String × String), (texts.map Prod.fst).Nodup →
    readTree (writeValueAsString (ofTexts texts)) = some (ofTexts texts)

/-! ## What is written -/

/-- A name and its text, as they are written. -/
def writeMember (t : String × String) : String := writeText t.1 ++ ":" ++ writeText t.2

theorem writeFields_texts (texts : List (String × String)) :
    writeFields (texts.map fun t => (t.1, .str t.2)) = texts.map writeMember := by
  induction texts with
  | nil => rfl
  | cons t ts ih =>
      rw [List.map_cons, List.map_cons, writeFields, ih]
      rfl

theorem writeValueAsString_ofTexts (texts : List (String × String)) :
    writeValueAsString (ofTexts texts) =
      "\x7b" ++ String.intercalate "," (texts.map writeMember) ++ "\x7d" := by
  rw [ofTexts, writeValueAsString, writeFields_texts]

/-- The digits of hexadecimal numbers, read back. -/
def hexValue (c : Char) : Option ℕ :=
  if '0' ≤ c ∧ c ≤ '9' then some (c.toNat - 48)
  else if 'A' ≤ c ∧ c ≤ 'F' then some (c.toNat - 55)
  else if 'a' ≤ c ∧ c ≤ 'f' then some (c.toNat - 87)
  else none

theorem hexValue_hexDigit {n : ℕ} (h : n < 16) : hexValue (hexDigit n) = some n := by
  have hall : ∀ k < 16, hexValue (hexDigit k) = some k := by decide
  exact hall n h

/-- The character behind a backslash. -/
def unescapeChar (c : Char) : Option Char :=
  if c = '"' ∨ c = '\\' ∨ c = '/' then some c
  else if c = 'b' then some (Char.ofNat 0x08)
  else if c = 't' then some '\t'
  else if c = 'n' then some '\n'
  else if c = 'f' then some (Char.ofNat 0x0C)
  else if c = 'r' then some '\r'
  else none

/-- The characters of a text up to its closing quotation mark, and what is behind it. -/
def readChars : List Char → Option (List Char × List Char)
  | [] => none
  | '"' :: rest => some ([], rest)
  | '\\' :: 'u' :: c₁ :: c₂ :: c₃ :: c₄ :: rest => do
    let n := 4096 * (← hexValue c₁) + 256 * (← hexValue c₂) + 16 * (← hexValue c₃) + (← hexValue c₄)
    -- one half of a surrogate pair is not a character
    if n.isValidChar then
      let (text, rest) ← readChars rest
      return (Char.ofNat n :: text, rest)
    else none
  | '\\' :: c :: rest => do
    let e ← unescapeChar c
    let (text, rest) ← readChars rest
    return (e :: text, rest)
  | c :: rest =>
    if c.toNat < 0x20 then none
    else do
      let (text, rest) ← readChars rest
      return (c :: text, rest)

/-- A control character given by its number. -/
theorem readChars_number {n : ℕ} (h : n < 0x20) (rest : List Char) :
    readChars ('\\' :: 'u' :: '0' :: '0' :: hexDigit (n / 16) :: hexDigit (n % 16) :: rest) =
      (readChars rest).map fun r => (Char.ofNat n :: r.1, r.2) := by
  have hzero : hexValue '0' = some 0 := by decide
  have hhigh : hexValue (hexDigit (n / 16)) = some (n / 16) := hexValue_hexDigit (by omega)
  have hlow : hexValue (hexDigit (n % 16)) = some (n % 16) := hexValue_hexDigit (by omega)
  have hn : 4096 * 0 + 256 * 0 + 16 * (n / 16) + n % 16 = n := by omega
  have hvalid : n.isValidChar := .inl (by omega)
  rw [readChars]
  simp only [hzero, hhigh, hlow, Option.bind_eq_bind, Option.bind_some, hn, if_pos hvalid]
  cases readChars rest <;> rfl

/-- A character behind a backslash. -/
theorem readChars_backslash {c e : Char} (hc : c ≠ 'u') (he : unescapeChar c = some e)
    (rest : List Char) :
    readChars ('\\' :: c :: rest) = (readChars rest).map fun r => (e :: r.1, r.2) := by
  rw [readChars]
  · rw [he]
    cases readChars rest <;> rfl
  · intro c₁ c₂ c₃ c₄ rest' h
    exact absurd h hc

/-- An escaped character is read back. -/
theorem readChars_escapeChar (c : Char) (rest : List Char) :
    readChars (escapeChar c ++ rest) = (readChars rest).map fun r => (c :: r.1, r.2) := by
  unfold escapeChar
  split_ifs with hquote hslash hcontrol
  · subst hquote
    exact readChars_backslash (by decide) (by decide) rest
  · subst hslash
    exact readChars_backslash (by decide) (by decide) rest
  · have hc : Char.ofNat c.toNat = c := Char.ofNat_toNat c
    generalize c.toNat = n at hc hcontrol
    rw [← hc]
    split
    -- the control characters with a short escape, then the others
    · exact readChars_backslash (by decide) (by decide) rest
    · exact readChars_backslash (by decide) (by decide) rest
    · exact readChars_backslash (by decide) (by decide) rest
    · exact readChars_backslash (by decide) (by decide) rest
    · exact readChars_backslash (by decide) (by decide) rest
    · exact readChars_number hcontrol rest
  · rw [List.singleton_append, readChars, if_neg hcontrol]
    · cases readChars rest <;> rfl
    · exact hquote
    · intro c₁ c₂ c₃ c₄ rest' h
      exact absurd h hslash
    · intro c' rest' h
      exact absurd h hslash

/-- The characters of a text are read back up to the closing quotation mark. -/
theorem readChars_escaped (cs rest : List Char) :
    readChars (cs.flatMap escapeChar ++ '"' :: rest) = some (cs, rest) := by
  induction cs with
  | nil => rfl
  | cons c cs ih =>
      rw [List.flatMap_cons, List.append_assoc, readChars_escapeChar, ih]
      rfl

/-- A text in quotation marks. -/
def readText : List Char → Option (String × List Char)
  | '"' :: cs => (readChars cs).map fun r => (String.ofList r.1, r.2)
  | _ => none

theorem toList_writeText (s : String) :
    (writeText s).toList = '"' :: (s.toList.flatMap escapeChar ++ ['"']) := by
  simp only [writeText, String.toList_append, String.toList_ofList]
  rfl

theorem readText_writeText (s : String) (rest : List Char) :
    readText ((writeText s).toList ++ rest) = some (s, rest) := by
  rw [toList_writeText, List.cons_append, List.append_assoc, List.singleton_append, readText,
    readChars_escaped, Option.map_some, String.ofList_toList]

/-! ## Objects -/

/-- A name and its text. -/
def readMember (cs : List Char) : Option ((String × String) × List Char) := do
  let (name, cs) ← readText cs
  match cs with
  | ':' :: cs => (readText cs).map fun r => ((name, r.1), r.2)
  | _ => none

/-- The members of an object up to its closing brace, and what is behind it. Every member takes up
some of the text, so that its length is fuel enough. -/
def readMembers : ℕ → List Char → Option (List (String × String) × List Char)
  | 0, _ => none
  | fuel + 1, cs => do
    let (member, cs) ← readMember cs
    match cs with
    | '}' :: rest => some ([member], rest)
    | ',' :: rest => (readMembers fuel rest).map fun r => (member :: r.1, r.2)
    | _ => none

/-- A JSON text that is an object of texts. -/
def readTexts (s : String) : Option Json :=
  match s.toList with
  | '{' :: cs =>
    if cs = ['}'] then some (ofTexts [])
    else
      match readMembers cs.length cs with
      | some (texts, []) => some (ofTexts texts)
      | _ => none
  | _ => none

theorem readMember_writeMember (t : String × String) (rest : List Char) :
    readMember ((writeMember t).toList ++ rest) = some (t, rest) := by
  have hcolon : ":".toList = [':'] := rfl
  rw [writeMember, String.toList_append, String.toList_append, hcolon, List.append_assoc,
    List.append_assoc, readMember, readText_writeText]
  simp [readText_writeText]

/-- The members behind the first are separated from it by a comma. -/
theorem toList_members (t t' : String × String) (ts : List (String × String)) :
    (String.intercalate "," ((t :: t' :: ts).map writeMember)).toList =
      (writeMember t).toList ++
        ',' :: (String.intercalate "," ((t' :: ts).map writeMember)).toList := by
  rw [List.map_cons, List.map_cons, String.intercalate_cons_cons, String.toList_append,
    String.toList_append, List.append_assoc]
  rfl

/-- The members are read back, if there is fuel for each. -/
theorem readMembers_intercalate (t : String × String) (ts : List (String × String)) {fuel : ℕ}
    (h : ts.length < fuel) (rest : List Char) :
    readMembers fuel ((String.intercalate "," ((t :: ts).map writeMember)).toList ++ '}' :: rest) =
      some (t :: ts, rest) := by
  induction ts generalizing t fuel with
  | nil =>
      obtain ⟨fuel, rfl⟩ := Nat.exists_eq_succ_of_ne_zero (Nat.ne_zero_of_lt h)
      rw [List.map_singleton, String.intercalate_singleton, readMembers, readMember_writeMember]
      rfl
  | cons t' ts ih =>
      obtain ⟨fuel, rfl⟩ := Nat.exists_eq_succ_of_ne_zero (Nat.ne_zero_of_lt h)
      have hfuel : ts.length < fuel := by
        rw [List.length_cons] at h
        omega
      rw [toList_members, List.append_assoc, readMembers, readMember_writeMember]
      simp only [Option.bind_eq_bind, Option.bind_some, List.cons_append, ih t' hfuel]
      rfl

/-- There are no more members than characters. -/
theorem length_lt_members (t : String × String) (ts : List (String × String)) :
    ts.length < (String.intercalate "," ((t :: ts).map writeMember)).toList.length := by
  have hmember : ∀ t : String × String, 0 < (writeMember t).toList.length := by
    intro t
    rw [writeMember, String.toList_append, String.toList_append, toList_writeText]
    simp
  induction ts generalizing t with
  | nil =>
      rw [List.map_singleton, String.intercalate_singleton]
      exact hmember t
  | cons t' ts ih =>
      have hrest := ih t'
      rw [toList_members, List.length_append, List.length_cons, List.length_cons]
      omega

/-- What is written is read back. -/
theorem readsBack_readTexts : ReadsBack readTexts := by
  intro texts _
  cases texts with
  | nil => rfl
  | cons t ts =>
      have htext : (writeValueAsString (ofTexts (t :: ts))).toList =
          '{' :: ((String.intercalate "," ((t :: ts).map writeMember)).toList ++ ['}']) := by
        rw [writeValueAsString_ofTexts, String.toList_append, String.toList_append]
        rfl
      have hlength := length_lt_members t ts
      have hread := fun fuel (h : ts.length < fuel) => readMembers_intercalate t ts h []
      generalize (String.intercalate "," ((t :: ts).map writeMember)).toList = members
        at htext hlength hread
      have hfuel : ts.length < (members ++ ['}']).length := by
        rw [List.length_append]
        exact Nat.lt_add_right _ hlength
      have hne : members ++ ['}'] ≠ ['}'] := by
        intro h
        have hnil : members = [] := by simpa using h
        rw [hnil] at hlength
        simp at hlength
      rw [readTexts, htext]
      simp only [if_neg hne, hread _ hfuel]

/-! ## Printable characters -/

/-- Nothing a text is written with is a control character. -/
theorem printable_writeText {s : String} {c : Char} (h : c ∈ (writeText s).toList) :
    0x20 ≤ c.toNat := by
  have hdigit : ∀ n < 16, 0x20 ≤ (hexDigit n).toNat := by decide
  have hescape : ∀ d : Char, c ∈ escapeChar d → 0x20 ≤ c.toNat := by
    intro d hd
    unfold escapeChar at hd
    split_ifs at hd with hquote hslash hcontrol
    · simp only [List.mem_cons, List.not_mem_nil, or_false] at hd
      rcases hd with rfl | rfl <;> decide
    · simp only [List.mem_cons, List.not_mem_nil, or_false] at hd
      rcases hd with rfl | rfl <;> decide
    · have hhigh := hdigit (d.toNat / 16) (by omega)
      have hlow := hdigit (d.toNat % 16) (by omega)
      split at hd
      all_goals
        simp only [List.mem_cons, List.not_mem_nil, or_false] at hd
        rcases hd with rfl | rfl | rfl | rfl | rfl | rfl
      all_goals first | decide | assumption
    · rw [List.mem_singleton] at hd
      subst hd
      omega
  rw [toList_writeText, List.mem_cons, List.mem_append, List.mem_singleton] at h
  rcases h with rfl | h | rfl
  · decide
  · obtain ⟨d, -, hd⟩ := List.mem_flatMap.1 h
    exact hescape d hd
  · decide

/-- Nor is there one in a whole object of texts. -/
theorem printable_ofTexts {texts : List (String × String)} {c : Char}
    (h : c ∈ (writeValueAsString (ofTexts texts)).toList) : 0x20 ≤ c.toNat := by
  have hmark : ∀ mark ∈ ["\x7b", "\x7d", ",", ":"], c ∈ mark.toList → 0x20 ≤ c.toNat := by
    intro mark hmark hc
    simp only [List.mem_cons, List.not_mem_nil, or_false] at hmark
    rcases hmark with rfl | rfl | rfl | rfl <;> (rw [List.mem_singleton.1 hc]; decide)
  rw [writeValueAsString_ofTexts, String.toList_append, String.toList_append, List.mem_append,
    List.mem_append] at h
  rcases h with (h | h) | h
  · exact hmark _ (by simp) h
  · rcases Text.mem_intercalate h with h | ⟨member, hmember, h⟩
    · exact hmark _ (by simp) h
    · obtain ⟨t, -, rfl⟩ := List.mem_map.1 hmember
      rw [writeMember, String.toList_append, String.toList_append, List.mem_append,
        List.mem_append] at h
      rcases h with (h | h) | h
      · exact printable_writeText h
      · exact hmark _ (by simp) h
      · exact printable_writeText h
  · exact hmark _ (by simp) h

end Json

end AdPipeline
