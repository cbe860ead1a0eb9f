import MethodGroups.Toml.Reader

/-!
# Blanks, lines, comments and digits
-/

namespace MethodGroups.Toml

namespace Reader

/-- Whether a character may stand in a comment: a tab, or no control character. -/
def isText (c : Char) : Bool := c = '\t' || (0x20 ≤ c.toNat && c.toNat ≠ 0x7f)

/-- Whether a character separates words of a line. -/
def isGap (c : Char) : Bool := c = ' ' || c = '\t'

/-- Skip blanks and tabs. -/
def gap : Reader Unit := do
  let _ ← takeWhile isGap

/-- Take a line feed, with or without a carriage return before it. -/
def newline : Reader Unit := char '\n' <|> exactly ['\r', '\n']

/-- Take a comment up to the end of its line. -/
def comment : Reader Unit := do
  char '#'
  let _ ← takeWhile isText

/-- Take the end of a line, or find the end of the text. -/
def lineEnd : Reader Unit := newline <|> atEnd

/-- Take what may follow the last word of a line. -/
def lineTail : Reader Unit := do
  gap
  let _ ← maybe comment
  lineEnd

/-- Skip blanks, line ends and comments. -/
def spaciousGap : Reader Unit := do
  let _ ← many ((do let _ ← takeWhile₁ isGap) <|> newline <|> comment *> newline)

/-- A value with blanks around it. -/
def spaced {Value : Type} (reader : Reader Value) : Reader Value := gap *> reader <* gap

/-- Whether a character is a decimal digit. -/
def isDigit (c : Char) : Bool := '0' ≤ c && c ≤ '9'

/-- Whether a character is a hexadecimal digit. -/
def isHexDigit (c : Char) : Bool :=
  isDigit c || ('a' ≤ c && c ≤ 'f') || ('A' ≤ c && c ≤ 'F')

/-- The value of a digit in any base up to sixteen. -/
def digitValue (c : Char) : Nat :=
  if isDigit c then c.toNat - '0'.toNat
  else if 'a' ≤ c then c.toNat - 'a'.toNat + 10
  else c.toNat - 'A'.toNat + 10

/-- The number that digits denote in a base. -/
def digitsValue (base : Nat) (digits : List Char) : Nat :=
  digits.foldl (fun value c => value * base + digitValue c) 0

/-- Take exactly as many digits of a class as given. -/
def digits (accepts : Char → Bool) (count : Nat) : Reader (List Char) :=
  (List.replicate count ()).mapM fun _ => satisfy accepts

/-- Take digits of a class.  Single underscores may stand between them. -/
def groupedDigits (accepts : Char → Bool) : Reader (List Char) := do
  let first ← satisfy accepts
  let rest ← many (satisfy accepts <|> char '_' *> satisfy accepts)
  return first :: rest

end Reader

end MethodGroups.Toml
