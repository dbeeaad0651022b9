import Mathlib.Data.List.Infix
import Mathlib.Data.List.Sort
import Mathlib.Data.String.Basic

/-!
# Strings as Kotlin and Python see them

The library functions on text that the services call: `isBlank`, `toLongOrNull`, `lowercase` and
`sortedBy` of Kotlin, and `strip`, `sorted` and `in` of Python. A string is a list of Unicode scalar
values; where the JVM works on UTF-16 code units (the order of `String.compareTo`) the units are
computed. Python orders by code points, and the two orders differ beyond the basic plane only
(`sorted_keys`).
-/

namespace AdPipeline.Text

/-! ## White space -/

/-- `Char.isWhitespace` of Kotlin: `Character.isWhitespace` or `Character.isSpaceChar`. -/
def isWhitespace (c : Char) : Bool :=
  let n := c.toNat
  (0x09 ≤ n && n ≤ 0x0D) || (0x1C ≤ n && n ≤ 0x20) || n == 0xA0 || n == 0x1680 ||
    (0x2000 ≤ n && n ≤ 0x200A) || n == 0x2028 || n == 0x2029 || n == 0x202F || n == 0x205F ||
    n == 0x3000

/-- `CharSequence.isBlank`. -/
def isBlank (s : String) : Bool := s.toList.all isWhitespace

/-- The white space of Python's `str.strip`, which also counts the next-line control. -/
def isSpace (c : Char) : Bool := isWhitespace c || c.toNat == 0x85

/-- `str.strip()`. -/
def strip (s : String) : String :=
  String.ofList (((s.toList.dropWhile isSpace).reverse.dropWhile isSpace).reverse)

/-! ## Prefixes and suffixes -/

/-- `String.startsWith`. -/
def startsWith (s p : String) : Bool := p.toList.isPrefixOf s.toList

/-- `String.endsWith`. -/
def endsWith (s p : String) : Bool := p.toList.isSuffixOf s.toList

theorem startsWith_append (p s t : String) : startsWith (p ++ s ++ t) p = true := by
  unfold startsWith
  rw [String.toList_append, String.toList_append, List.append_assoc, List.isPrefixOf_iff_prefix]
  exact List.prefix_append _ _

theorem endsWith_append (s p : String) : endsWith (s ++ p) p = true := by
  unfold endsWith
  rw [String.toList_append, List.isSuffixOf_iff_suffix]
  exact List.suffix_append _ _

/-! ## Replacement -/

/-- The rest of a text behind `skip` characters, with the occurrences of `old` replaced. -/
def replaceFrom (old new : List Char) (skip : ℕ) : List Char → List Char
  | [] => []
  | c :: cs =>
    if 0 < skip then replaceFrom old new (skip - 1) cs
    else if old.isPrefixOf (c :: cs) then new ++ replaceFrom old new (old.length - 1) cs
    else c :: replaceFrom old new 0 cs

/-- `String.replace(old, new)` for an `old` that is not empty. -/
def replace (s old new : String) : String :=
  String.ofList (replaceFrom old.toList new.toList 0 s.toList)

/-! ## Letter case -/

/-- `Character.toLowerCase` as far as ASCII is concerned. The Kelvin sign is the one character
outside ASCII whose lower case is a single ASCII character; the others stay outside ASCII and are
left as they are. -/
def lowercaseChar (c : Char) : Char := if c = '\u212A' then 'k' else c.toLower

/-- `String.lowercase()`, up to the characters that keep a string out of ASCII. -/
def lowercase (s : String) : String := String.ofList (s.toList.map lowercaseChar)

/-! ## Decimal numbers -/

/-- The zeros of the decimal digit ranges in the basic multilingual plane. -/
def digitZeros : List ℕ :=
  [0x30, 0x660, 0x6F0, 0x7C0, 0x966, 0x9E6, 0xA66, 0xAE6, 0xB66, 0xBE6, 0xC66, 0xCE6, 0xD66, 0xDE6,
    0xE50, 0xED0, 0xF20, 0x1040, 0x1090, 0x17E0, 0x1810, 0x1946, 0x19D0, 0x1A80, 0x1A90, 0x1B50,
    0x1BB0, 0x1C40, 0x1C50, 0xA620, 0xA8D0, 0xA900, 0xA9D0, 0xA9F0, 0xAA50, 0xABF0, 0xFF10]

/-- `Character.digit(c, 10)`, `none` for `-1`. -/
def digit (c : Char) : Option ℕ :=
  (digitZeros.find? fun z => z ≤ c.toNat && c.toNat < z + 10).map fun z => c.toNat - z

/-- The digits read so far, continued. -/
def digitsToNat (acc : ℕ) : List Char → Option ℕ
  | [] => some acc
  | c :: cs => (digit c).bind fun d => digitsToNat (10 * acc + d) cs

/-- `Long.MIN_VALUE`. -/
def longMin : ℤ := -9223372036854775808

/-- `Long.MAX_VALUE`. -/
def longMax : ℤ := 9223372036854775807

/-- A value that fits a `Long`. -/
def inLong (n : ℤ) : Option ℤ := if longMin ≤ n ∧ n ≤ longMax then some n else none

/-- `String.toLongOrNull()`. -/
def toLongOrNull (s : String) : Option ℤ :=
  match s.toList with
  | [] => none
  | c :: cs =>
    if c < '0' then
      -- a possible leading sign, which must not stand alone
      if cs = [] then none
      else if c = '-' then (digitsToNat 0 cs).bind fun n => inLong (-n)
      else if c = '+' then (digitsToNat 0 cs).bind fun n => inLong n
      else none
    else (digitsToNat 0 (c :: cs)).bind fun n => inLong n

theorem inLong_bounds {n m : ℤ} (h : inLong n = some m) : m = n ∧ longMin ≤ m ∧ m ≤ longMax := by
  unfold inLong at h
  split at h
  · obtain rfl : n = m := by simpa using h
    exact ⟨rfl, by assumption⟩
  · cases h

/-- What `toLongOrNull` returns fits a `Long`. -/
theorem toLongOrNull_bounds {s : String} {n : ℤ} (h : toLongOrNull s = some n) :
    longMin ≤ n ∧ n ≤ longMax := by
  have hbind : ∀ (o : Option ℕ) (f : ℕ → ℤ), (o.bind fun k => inLong (f k)) = some n →
      longMin ≤ n ∧ n ≤ longMax := by
    intro o f ho
    obtain ⟨k, -, hk⟩ := Option.bind_eq_some_iff.1 ho
    exact (inLong_bounds hk).2
  unfold toLongOrNull at h
  split at h
  · cases h
  · split_ifs at h
    · exact hbind _ (fun k => -(k : ℤ)) h
    · exact hbind _ (fun k => (k : ℤ)) h
    · exact hbind _ (fun k => (k : ℤ)) h

/-! ## The order of strings on the JVM -/

/-- The UTF-16 code units of a character. -/
def utf16Char (c : Char) : List ℕ :=
  if c.toNat < 0x10000 then [c.toNat]
  else [0xD800 + (c.toNat - 0x10000) / 0x400, 0xDC00 + (c.toNat - 0x10000) % 0x400]

/-- The UTF-16 code units of a string. -/
def utf16 (s : String) : List ℕ := s.toList.flatMap utf16Char

/-- `a.compareTo(b) <= 0`. -/
def compareLe (a b : String) : Prop := utf16 a ≤ utf16 b

instance : DecidableRel compareLe := fun a b => inferInstanceAs (Decidable (utf16 a ≤ utf16 b))

/-- A character is not a surrogate and lies within the seventeen planes. -/
theorem scalarValue (c : Char) :
    (c.toNat < 0xD800 ∨ 0xDFFF < c.toNat) ∧ c.toNat < 0x110000 := by
  rcases c.valid with h | h
  · have : c.toNat < 0xD800 := h
    omega
  · exact ⟨.inr h.1, h.2⟩

/-- The first code unit of a character determines where the character ends. -/
theorem utf16Char_append_inj {c d : Char} {s t : List ℕ}
    (h : utf16Char c ++ s = utf16Char d ++ t) : c = d ∧ s = t := by
  have hc := scalarValue c
  have hd := scalarValue d
  unfold utf16Char at h
  split_ifs at h with hc' hd' hd'
  · simp only [List.cons_append, List.nil_append, List.cons.injEq] at h
    exact ⟨Char.toNat_inj.1 h.1, h.2⟩
  · simp only [List.cons_append, List.nil_append, List.cons.injEq] at h
    omega
  · simp only [List.cons_append, List.nil_append, List.cons.injEq] at h
    omega
  · simp only [List.cons_append, List.nil_append, List.cons.injEq] at h
    exact ⟨Char.toNat_inj.1 (by omega), h.2.2⟩

theorem utf16Char_ne_nil (c : Char) : utf16Char c ≠ [] := by
  unfold utf16Char
  split_ifs <;> simp

/-- Distinct strings have distinct code units. -/
theorem utf16_injective : Function.Injective utf16 := by
  have hlist : ∀ l m : List Char, l.flatMap utf16Char = m.flatMap utf16Char → l = m := by
    intro l
    induction l with
    | nil =>
        intro m h
        cases m with
        | nil => rfl
        | cons d m => simp [utf16Char_ne_nil] at h
    | cons c l ih =>
        intro m h
        cases m with
        | nil => simp [utf16Char_ne_nil] at h
        | cons d m =>
            obtain ⟨rfl, hrest⟩ := utf16Char_append_inj h
            rw [ih m hrest]
  intro a b h
  exact String.toList_inj.1 (hlist _ _ h)

theorem compareLe_total (a b : String) : compareLe a b ∨ compareLe b a := le_total _ _

theorem compareLe_trans {a b c : String} (h : compareLe a b) (h' : compareLe b c) :
    compareLe a c := le_trans h h'

theorem compareLe_antisymm {a b : String} (h : compareLe a b) (h' : compareLe b a) : a = b :=
  utf16_injective (le_antisymm h h')

/-! ## Sorting the entries of a map -/

variable {α : Type*}

/-- `entries.sortedBy { it.key }`. -/
def sortedByKey (entries : List (String × α)) : List (String × α) :=
  entries.insertionSort fun x y => compareLe x.1 y.1

theorem perm_sortedByKey (entries : List (String × α)) : (sortedByKey entries).Perm entries :=
  List.perm_insertionSort _ _

theorem pairwise_sortedByKey (entries : List (String × α)) :
    (sortedByKey entries).Pairwise fun x y => compareLe x.1 y.1 := by
  have : Std.Total fun x y : String × α => compareLe x.1 y.1 :=
    ⟨fun x y => compareLe_total x.1 y.1⟩
  have : IsTrans (String × α) fun x y => compareLe x.1 y.1 :=
    ⟨fun _ _ _ h h' => compareLe_trans h h'⟩
  exact List.pairwise_insertionSort _ _

/-- Sorting looks at the keys only. -/
theorem sortedByKey_map {β : Type*} (f : α → β) (entries : List (String × α)) :
    sortedByKey (entries.map fun e => (e.1, f e.2)) =
      (sortedByKey entries).map fun e => (e.1, f e.2) := by
  unfold sortedByKey
  exact (List.map_insertionSort (fun x y : String × α => compareLe x.1 y.1)
    (fun x y : String × β => compareLe x.1 y.1) (fun e => (e.1, f e.2)) entries
    fun _ _ _ _ => Iff.rfl).symm

/-- Sorting the entries of a map depends on the map only, not on the order of its entries. -/
theorem sortedByKey_eq_of_perm {l m : List (String × α)} (hl : (l.map Prod.fst).Nodup)
    (h : l.Perm m) : sortedByKey l = sortedByKey m := by
  have hperm : (sortedByKey l).Perm (sortedByKey m) :=
    (perm_sortedByKey l).trans (h.trans (perm_sortedByKey m).symm)
  refine List.Perm.eq_of_pairwise ?_ (pairwise_sortedByKey l) (pairwise_sortedByKey m) hperm
  intro x y hx hy hxy hyx
  have hkey : x.1 = y.1 := compareLe_antisymm hxy hyx
  have hxl : x ∈ l := (perm_sortedByKey l).mem_iff.1 hx
  have hyl : y ∈ l := h.mem_iff.2 ((perm_sortedByKey m).mem_iff.1 hy)
  exact List.inj_on_of_nodup_map hl hxl hyl hkey

/-! ## Sorting in Python -/

/-- The code points of a string. -/
def codePoints (s : String) : List ℕ := s.toList.map Char.toNat

/-- `sorted(keys)`. -/
def sorted (keys : List String) : List String :=
  keys.insertionSort fun a b => codePoints a ≤ codePoints b

/-- The characters of a string come before the surrogates. -/
def BelowSurrogates (s : String) : Prop := ∀ c ∈ s.toList, c.toNat < 0xD800

instance : DecidablePred BelowSurrogates :=
  fun s => List.decidableBAll (fun c : Char => c.toNat < 0xD800) s.toList

/-- Below the surrogates a code point is its own code unit. -/
theorem utf16_eq_codePoints {s : String} (h : BelowSurrogates s) : utf16 s = codePoints s := by
  unfold utf16 codePoints
  rw [← List.flatMap_singleton' (s.toList.map Char.toNat), List.flatMap_map]
  refine List.flatMap_congr fun c hc => ?_
  have := h c hc
  rw [utf16Char, if_pos (by omega)]

/-- Python and the JVM sort keys below the surrogates alike. -/
theorem sorted_keys {entries : List (String × α)} (h : ∀ e ∈ entries, BelowSurrogates e.1) :
    sorted (entries.map Prod.fst) = (sortedByKey entries).map Prod.fst := by
  unfold sorted sortedByKey
  refine (List.map_insertionSort _ _ Prod.fst entries fun x hx y hy => ?_).symm
  rw [compareLe, utf16_eq_codePoints (h x hx), utf16_eq_codePoints (h y hy)]

/-! ## Parts of a joined text -/

/-- A part that is joined is contained in the text. -/
theorem infix_intercalate (sep : String) {part : String} {parts : List String} (h : part ∈ parts) :
    part.toList <:+: (String.intercalate sep parts).toList := by
  induction parts with
  | nil => cases h
  | cons p ps ih =>
      by_cases hnil : ps = []
      · subst hnil
        rw [String.intercalate_singleton, List.mem_singleton.1 h]
      · rw [String.intercalate_cons_of_ne_nil hnil, String.toList_append]
        rcases List.mem_cons.1 h with rfl | hmem
        · rw [String.toList_append, List.append_assoc]
          exact (List.prefix_append _ _).isInfix
        · exact (ih hmem).trans (List.suffix_append _ _).isInfix

/-- A joined text has the characters of the separator and of the parts. -/
theorem mem_intercalate {sep : String} {parts : List String} {c : Char}
    (h : c ∈ (String.intercalate sep parts).toList) :
    c ∈ sep.toList ∨ ∃ p ∈ parts, c ∈ p.toList := by
  induction parts with
  | nil => cases h
  | cons p ps ih =>
      by_cases hnil : ps = []
      · subst hnil
        rw [String.intercalate_singleton] at h
        exact .inr ⟨p, List.mem_cons_self, h⟩
      · rw [String.intercalate_cons_of_ne_nil hnil, String.toList_append, String.toList_append,
          List.mem_append, List.mem_append] at h
        rcases h with (h | h) | h
        · exact .inr ⟨p, List.mem_cons_self, h⟩
        · exact .inl h
        · rcases ih h with hsep | ⟨q, hq, hc⟩
          · exact .inl hsep
          · exact .inr ⟨q, List.mem_cons_of_mem p hq, hc⟩

/-- `part in text`. -/
def contains (text part : String) : Bool := part.toList <:+: text.toList

theorem contains_eq_true {text part : String} :
    contains text part = true ↔ part.toList <:+: text.toList := by
  rw [contains, decide_eq_true_eq]

end AdPipeline.Text
