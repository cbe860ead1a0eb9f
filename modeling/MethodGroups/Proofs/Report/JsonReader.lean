import MethodGroups.Report.Json
import Mathlib.Data.Nat.Digits.Defs

/-!
# A reader of JSON

The reader takes a value from the start of a text and leaves what follows it.  Blanks may stand
before and behind every value and every mark.  Each part that is found makes the text shorter, so
reading ends, however deep the values nest.
-/

namespace MethodGroups.Report.Json

/-- A JSON value.  A number is a whole number times a power of ten, and the members of an object
are in the order of the text. -/
inductive Value where
  | null
  | bool (value : Bool)
  | number (mantissa exponent : Int)
  | string (content : String)
  | array (items : List Value)
  | object (members : List (String × Value))

/-- Something at the start of a text, and what is left of the text. -/
structure Found (Item : Type) (text : List Char) where
  item : Item
  rest : List Char
  shorter : rest.length < text.length

namespace Found

variable {Item Other : Type} {inner outer : List Char}

/-- What was found as a part of a longer text. -/
def within (found : Found Item inner) (longer : inner.length ≤ outer.length) : Found Item outer :=
  ⟨found.item, found.rest, Nat.lt_of_lt_of_le found.shorter longer⟩

/-- What was found, made into something else. -/
def map (change : Item → Other) (found : Found Item inner) : Found Other inner :=
  ⟨change found.item, found.rest, found.shorter⟩

end Found

/-! ## Blanks and marks -/

/-- The characters that may stand between the parts of a text. -/
def isSpace (c : Char) : Bool := c ∈ [' ', '\t', '\n', '\r']

/-- A text from behind the blanks at its start. -/
def skip (text : List Char) : List Char := text.dropWhile isSpace

theorem length_skip_le (text : List Char) : (skip text).length ≤ text.length :=
  (List.dropWhile_suffix isSpace).length_le

/-- A mark at the start of a text. -/
def mark? (mark : Char) : (text : List Char) → Option (Found Unit text)
  | [] => none
  | c :: text =>
      if c = mark then some ⟨(), skip text, Nat.lt_succ_of_le (length_skip_le text)⟩ else none

/-! ## Strings -/

/-- The value of a hexadecimal digit. -/
def hexValue? (c : Char) : Option Nat :=
  if c.isDigit then some (c.toNat - '0'.toNat)
  else if 'a' ≤ c ∧ c ≤ 'f' then some (c.toNat - 'a'.toNat + 10)
  else if 'A' ≤ c ∧ c ≤ 'F' then some (c.toNat - 'A'.toNat + 10)
  else none

/-- The value of hexadecimal digits. -/
def hexNumber? (digits : List Char) : Option Nat :=
  digits.foldlM (fun number digit => (hexValue? digit).map (16 * number + ·)) 0

/-- What a character stands for behind a backslash. -/
def unescape : Char → Option Char
  | '"' => some '"'
  | '\\' => some '\\'
  | '/' => some '/'
  | 'b' => some '\x08'
  | 'f' => some '\x0c'
  | 'n' => some '\n'
  | 'r' => some '\r'
  | 't' => some '\t'
  | _ => none

/-- A code point in front of those that were read. -/
def prepend (point : Nat) (read : List Nat × List Char) : List Nat × List Char :=
  (point :: read.1, read.2)

/-- The code points up to the closing quote, and what follows it.  An escape of four digits is a
code point of its own, also where it is half of a pair.  A control character has to be escaped. -/
def points : List Char → Option (List Nat × List Char)
  | [] => none
  | '"' :: after => some ([], after)
  | '\\' :: 'u' :: a :: b :: c :: d :: text => do
      (points text).map (prepend (← hexNumber? [a, b, c, d]))
  | '\\' :: shown :: text => do (points text).map (prepend (← unescape shown).toNat)
  | c :: text => if c.toNat < 0x20 then none else (points text).map (prepend c.toNat)

/-- The characters that code points stand for.  A surrogate needs the other half of its pair. -/
def characters : List Nat → Option (List Char)
  | [] => some []
  | point :: rest =>
      if point.isValidChar then (characters rest).map (Char.ofNat point :: ·)
      else
        match rest with
        | [] => none
        | low :: others =>
            if point < 0xdc00 ∧ 0xdc00 ≤ low ∧ low < 0xe000 then
              (characters others).map
                (Char.ofNat (0x10000 + (point - 0xd800) * 0x400 + (low - 0xdc00)) :: ·)
            else none

theorem length_of_points {text after : List Char} {read : List Nat}
    (found : points text = some (read, after)) : after.length < text.length := by
  fun_induction points text generalizing read with
  | case1 => cases found
  | case2 => cases found; exact Nat.lt_succ_self _
  | case3 a b c d text ih =>
    obtain ⟨point, -, found⟩ := Option.bind_eq_some_iff.mp found
    obtain ⟨⟨others, rest⟩, inner, ⟨⟩⟩ := Option.map_eq_some_iff.mp found
    have shorter : rest.length < text.length := ih inner
    simp only [List.length_cons]
    omega
  | case4 shown text _ ih =>
    obtain ⟨meant, -, found⟩ := Option.bind_eq_some_iff.mp found
    obtain ⟨⟨others, rest⟩, inner, ⟨⟩⟩ := Option.map_eq_some_iff.mp found
    exact Nat.lt_succ_of_lt (Nat.lt_succ_of_lt (ih inner))
  | case5 => cases found
  | case6 c text _ _ _ _ ih =>
    obtain ⟨⟨others, rest⟩, inner, ⟨⟩⟩ := Option.map_eq_some_iff.mp found
    exact Nat.lt_succ_of_lt (ih inner)

/-- A string at the start of a text. -/
def string? : (text : List Char) → Option (Found String text)
  | '"' :: text =>
      match found : points text with
      | none => none
      | some (read, after) =>
          (characters read).map fun content =>
            ⟨String.ofList content, skip after,
              Nat.lt_of_le_of_lt (length_skip_le after)
                (Nat.lt_succ_of_lt (length_of_points found))⟩
  | _ => none

/-! ## Words -/

/-- Whether a character belongs to a word: a number or one of the three names. -/
def isWordChar (c : Char) : Bool := c.isAlphanum || c ∈ ['+', '-', '.']

/-- A sign and what follows it. -/
def sign : List Char → Int × List Char
  | '-' :: text => (-1, text)
  | text => (1, text)

/-- The digits behind a point, if there is a point, and what follows them. -/
def fraction? : List Char → Option (List Char × List Char)
  | '.' :: text =>
      let digits := text.takeWhile Char.isDigit
      if digits.isEmpty then none else some (digits, text.dropWhile Char.isDigit)
  | text => some ([], text)

/-- The power of ten that a word ends with. -/
def power? : List Char → Option Int
  | [] => some 0
  | c :: text =>
      let (factor, digits) :=
        match text with
        | '+' :: digits => (1, digits)
        | text => sign text
      if (c = 'e' ∨ c = 'E') ∧ ¬digits.isEmpty ∧ digits.all Char.isDigit then
        some (factor * Nat.ofDigitChars 10 digits 0)
      else none

/-- The number that a word denotes.  Only a zero that stands alone may be the first of the digits
before the point. -/
def number? (word : List Char) : Option Value := do
  let (factor, word) := sign word
  let whole := word.takeWhile Char.isDigit
  if whole.isEmpty ∨ whole.head? = some '0' ∧ whole ≠ ['0'] then none
  else
    let (fraction, word) ← fraction? (word.dropWhile Char.isDigit)
    let power ← power? word
    return .number (factor * Nat.ofDigitChars 10 (whole ++ fraction) 0) (power - fraction.length)

/-- The value that a word denotes. -/
def wordValue? (word : List Char) : Option Value :=
  if word = "null".toList then some .null
  else if word = "true".toList then some (.bool true)
  else if word = "false".toList then some (.bool false)
  else number? word

/-- A word at the start of a text. -/
def word? : (text : List Char) → Option (Found Value text)
  | [] => none
  | c :: text =>
      if isWordChar c then
        (wordValue? (c :: text.takeWhile isWordChar)).map fun value =>
          ⟨value, skip (text.dropWhile isWordChar),
            Nat.lt_succ_of_le <| (length_skip_le _).trans
              (List.dropWhile_suffix isWordChar).length_le⟩
      else none

/-! ## Values -/

mutual

/-- A value at the start of a text. -/
def value? : (text : List Char) → Option (Found Value text)
  | '\x7b' :: text =>
      have inside : (skip text).length ≤ text.length := length_skip_le text
      match mark? '\x7d' (skip text) with
      | some closed => some ((closed.map fun _ => .object []).within (Nat.le_succ_of_le inside))
      | none => (members? (skip text)).map
          fun members => (members.map .object).within (Nat.le_succ_of_le inside)
  | '[' :: text =>
      have inside : (skip text).length ≤ text.length := length_skip_le text
      match mark? ']' (skip text) with
      | some closed => some ((closed.map fun _ => .array []).within (Nat.le_succ_of_le inside))
      | none => (items? (skip text)).map
          fun items => (items.map .array).within (Nat.le_succ_of_le inside)
  | '"' :: text => (string? ('"' :: text)).map (Found.map .string)
  | text => word? text
termination_by text => (text.length, 0)
decreasing_by all_goals exact .left _ _ (Nat.lt_succ_of_le inside)

/-- The items up to the bracket that closes an array. -/
def items? (text : List Char) : Option (Found (List Value) text) := do
  let value ← value? text
  match mark? ',' value.rest with
  | some comma =>
      have before : comma.rest.length < text.length := comma.shorter.trans value.shorter
      let others ← items? comma.rest
      return (others.map (value.item :: ·)).within before.le
  | none =>
      let closed ← mark? ']' value.rest
      return (closed.map fun _ => [value.item]).within value.shorter.le
termination_by (text.length, 1)
decreasing_by
  · exact .right _ Nat.zero_lt_one
  · exact .left _ _ before

/-- A member at the start of a text. -/
def member? (text : List Char) : Option (Found (String × Value) text) := do
  let name ← string? text
  let colon ← mark? ':' name.rest
  have inside : colon.rest.length < text.length := colon.shorter.trans name.shorter
  let value ← value? colon.rest
  return (value.map (name.item, ·)).within inside.le
termination_by (text.length, 0)
decreasing_by exact .left _ _ inside

/-- The members up to the brace that closes an object. -/
def members? (text : List Char) : Option (Found (List (String × Value)) text) := do
  let member ← member? text
  match mark? ',' member.rest with
  | some comma =>
      have before : comma.rest.length < text.length := comma.shorter.trans member.shorter
      let others ← members? comma.rest
      return (others.map (member.item :: ·)).within before.le
  | none =>
      let closed ← mark? '\x7d' member.rest
      return (closed.map fun _ => [member.item]).within member.shorter.le
termination_by (text.length, 1)
decreasing_by
  · exact .right _ Nat.zero_lt_one
  · exact .left _ _ before

end

/-- The value that a text denotes. -/
def parse? (text : String) : Option Value := do
  let found ← value? (skip text.toList)
  if found.rest.isEmpty then some found.item else none

end MethodGroups.Report.Json
