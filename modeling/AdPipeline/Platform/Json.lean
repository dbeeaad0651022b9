import AdPipeline.Platform.Text
import Mathlib.Data.Rat.Floor

/-!
# Trees of Jackson

`Json` is a `JsonNode`: what a request body was read into, and what the services write out. The
accessors are those of Jackson, with its coercions (`asText` of a number, `asLong` of a fraction).
An object lists its fields in insertion order.
-/

namespace AdPipeline

/-- The value of a `DoubleNode`. The text of a finite double is the JVM's, kept with the value. -/
inductive Double where
  | finite (value : ℚ) (text : String)
  | infinite (negative : Bool)
deriving DecidableEq

/-- `com.fasterxml.jackson.databind.JsonNode`. -/
inductive Json where
  | null
  | bool (b : Bool)
  | int (n : ℤ)
  | double (d : Double)
  | str (s : String)
  | arr (elements : List Json)
  | obj (fields : List (String × Json))

/-- The fields of an `ObjectNode`. -/
abbrev Fields := List (String × Json)

namespace Fields

/-- `ObjectNode.get`. -/
def get (fields : Fields) (name : String) : Option Json :=
  (fields.find? fun f => f.1 = name).map Prod.snd

/-- `ObjectNode.put` and `set`: a field keeps its place when its value is replaced. -/
def put (fields : Fields) (name : String) (value : Json) : Fields :=
  match fields with
  | [] => [(name, value)]
  | f :: fs => if f.1 = name then (name, value) :: fs else f :: put fs name value

@[simp] theorem get_put_self (fields : Fields) (name : String) (value : Json) :
    (fields.put name value).get name = some value := by
  induction fields with
  | nil => simp [put, get]
  | cons f fs ih =>
      unfold put
      split_ifs with h
      · simp [get]
      · rw [get, List.find?_cons_of_neg (by simpa using h)]
        exact ih

theorem get_put_of_ne (fields : Fields) {name other : String} (value : Json)
    (h : other ≠ name) : (fields.put name value).get other = fields.get other := by
  induction fields with
  | nil => simp [put, get, h.symm]
  | cons f fs ih =>
      unfold put
      split_ifs with hf
      · simp [get, hf, h.symm]
      · unfold get at ih ⊢
        by_cases hfo : f.1 = other
        · rw [List.find?_cons_of_pos (by simpa using hfo),
            List.find?_cons_of_pos (by simpa using hfo)]
        · rw [List.find?_cons_of_neg (by simpa using hfo),
            List.find?_cons_of_neg (by simpa using hfo)]
          exact ih

/-- `ObjectNode.put(name, text)`, where a null text puts a null node. -/
def putText (fields : Fields) (name : String) (text : Option String) : Fields :=
  fields.put name (text.elim .null .str)

end Fields

namespace Json

/-- `JsonNode.get(name)`: null for anything but an object with the field. -/
def get : Json → String → Option Json
  | obj fields, name => Fields.get fields name
  | _, _ => none

/-- `JsonNode.has(name)`. -/
def has (node : Json) (name : String) : Bool := (node.get name).isSome

def isObject : Json → Bool
  | obj _ => true
  | _ => false

def isNull : Json → Bool
  | null => true
  | _ => false

def isTextual : Json → Bool
  | str _ => true
  | _ => false

def isNumber : Json → Bool
  | int _ => true
  | double _ => true
  | _ => false

/-- `isContainerNode`: an array or an object. -/
def isContainer : Json → Bool
  | arr _ => true
  | obj _ => true
  | _ => false

/-- `asText()`: empty for containers. -/
def asText : Json → String
  | null => "null"
  | bool b => if b then "true" else "false"
  | int n => toString n
  | double (.finite _ text) => text
  | double (.infinite negative) => if negative then "-Infinity" else "Infinity"
  | str s => s
  | arr _ => ""
  | obj _ => ""

/-- `(long) d` on a rational: truncation towards zero, then saturation. -/
def saturate (q : ℚ) : ℤ := max Text.longMin (min Text.longMax (if 0 ≤ q then ⌊q⌋ else ⌈q⌉))

/-- `BigInteger.longValue()`: the low 64 bits. -/
def lowLong (n : ℤ) : ℤ := (n + 2 ^ 63) % 2 ^ 64 - 2 ^ 63

/-- `asLong()` of a numeric node. -/
def asLong : Json → ℤ
  | int n => lowLong n
  | double (.finite value _) => saturate value
  | double (.infinite negative) => if negative then Text.longMin else Text.longMax
  | _ => 0

/-- A number that fits a `Long` is its own low 64 bits. -/
theorem lowLong_of_bounds {n : ℤ} (h : Text.longMin ≤ n ∧ n ≤ Text.longMax) :
    lowLong n = n := by
  unfold Text.longMin Text.longMax at h
  unfold lowLong
  omega

theorem lowLong_bounds (n : ℤ) :
    Text.longMin ≤ lowLong n ∧ lowLong n ≤ Text.longMax := by
  unfold Text.longMin Text.longMax lowLong
  omega

/-- Wrapping before an addition makes no difference. -/
theorem lowLong_add (m n : ℤ) : lowLong (lowLong m + n) = lowLong (m + n) := by
  unfold lowLong
  omega

/-- What `asLong` returns fits a `Long`. -/
theorem asLong_bounds (v : Json) : Text.longMin ≤ v.asLong ∧ v.asLong ≤ Text.longMax := by
  have hle : Text.longMin ≤ Text.longMax := by decide
  have hzero : Text.longMin ≤ 0 ∧ (0 : ℤ) ≤ Text.longMax := by decide
  cases v with
  | int n => exact lowLong_bounds n
  | double d =>
      cases d with
      | finite value text => exact ⟨le_max_left _ _, max_le hle (min_le_left _ _)⟩
      | infinite negative => cases negative <;> exact ⟨by decide, by decide⟩
  | _ => exact hzero

/-! ## Writing -/

/-- A hexadecimal digit, in upper case. -/
def hexDigit (n : ℕ) : Char := Char.ofNat (if n < 10 then 48 + n else 55 + n)

/-- A character inside a JSON string. -/
def escapeChar (c : Char) : List Char :=
  if c = '"' then ['\\', '"']
  else if c = '\\' then ['\\', '\\']
  else if c.toNat < 0x20 then
    match c.toNat with
    | 0x08 => ['\\', 'b']
    | 0x09 => ['\\', 't']
    | 0x0A => ['\\', 'n']
    | 0x0C => ['\\', 'f']
    | 0x0D => ['\\', 'r']
    | n => ['\\', 'u', '0', '0', hexDigit (n / 16), hexDigit (n % 16)]
  else [c]

def writeText (s : String) : String :=
  "\"" ++ String.ofList (s.toList.flatMap escapeChar) ++ "\""

mutual

/-- `mapper.writeValueAsString`. -/
def writeValueAsString : Json → String
  | null => "null"
  | bool b => if b then "true" else "false"
  | int n => toString n
  | double (.finite _ text) => text
  | double (.infinite negative) => writeText (if negative then "-Infinity" else "Infinity")
  | str s => writeText s
  | arr elements => "[" ++ String.intercalate "," (writeElements elements) ++ "]"
  | obj fields => "\x7b" ++ String.intercalate "," (writeFields fields) ++ "\x7d"

def writeElements : List Json → List String
  | [] => []
  | x :: xs => writeValueAsString x :: writeElements xs

def writeFields : List (String × Json) → List String
  | [] => []
  | (name, x) :: xs => (writeText name ++ ":" ++ writeValueAsString x) :: writeFields xs

end

end Json

end AdPipeline
