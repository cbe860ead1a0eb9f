import MethodGroups.Toml.Lexeme

/-!
# TOML strings

Strings in double quotes know escapes, strings in single quotes do not.  In three
quotes of either kind a string may span lines; a line end right after the opening
quotes does not belong to it, every other one is read as a line feed, and up to
two quotes may stand together anywhere, also before the closing ones.
-/

namespace MethodGroups.Toml.Reader

/-- Whether a number is that of a character. -/
def isScalar (code : Nat) : Bool := code < 0xd800 || (0xdfff < code && code < 0x110000)

/-- Take a character given by so many hexadecimal digits. -/
def codePoint (count : Nat) : Reader Char := do
  let code := digitsValue 16 (← digits isHexDigit count)
  require (isScalar code)
  return Char.ofNat code

/-- Take what follows the backslash of an escape. -/
def escapeTail : Reader Char := do
  match ← satisfy fun _ => true with
  | 'b' => return '\x08'
  | 't' => return '\t'
  | 'n' => return '\n'
  | 'f' => return '\x0c'
  | 'r' => return '\r'
  | '"' => return '"'
  | '\\' => return '\\'
  | 'u' => codePoint 4
  | 'U' => codePoint 8
  | _ => failure

/-- Take an escaped character. -/
def escape : Reader Char := char '\\' *> escapeTail

/-- Whether a character stands for itself in double quotes. -/
def isBasic (c : Char) : Bool := isText c && c ≠ '"' && c ≠ '\\'

/-- Whether a character stands for itself in single quotes. -/
def isLiteral (c : Char) : Bool := isText c && c ≠ '\''

/-- Take a string in double quotes. -/
def basicString : Reader String := do
  char '"'
  let content ← many (satisfy isBasic <|> escape)
  char '"'
  return String.ofList content

/-- Take a string in single quotes. -/
def literalString : Reader String := do
  char '\''
  let content ← takeWhile isLiteral
  char '\''
  return String.ofList content

/-- Take a backslash at the end of a line, with all blanks and line ends that
follow. -/
def lineJoin : Reader Unit := do
  char '\\'
  gap
  newline
  let _ ← many ((do let _ ← takeWhile₁ isGap) <|> newline)

/-- Take the quotes that stand together here if they are few enough to belong to
the string. -/
def innerQuotes (quote : Char) : Reader (List Char) := do
  let quotes ← takeWhile₁ (· = quote)
  require (quotes.length < 3)
  return quotes

/-- Take the closing quotes, and give those before the last three. -/
def closingQuotes (quote : Char) : Reader (List Char) := do
  let quotes ← takeWhile₁ (· = quote)
  require (3 ≤ quotes.length && quotes.length ≤ 5)
  return quotes.drop 3

/-- Take a string in three quotes, given the readers of its other parts. -/
def multiline (quote : Char) (part : Reader (List Char)) : Reader String := do
  exactly (List.replicate 3 quote)
  let _ ← maybe newline
  let parts ← many (part <|> (do newline; return ['\n']) <|> innerQuotes quote)
  let closing ← closingQuotes quote
  return String.ofList (parts.flatten ++ closing)

/-- Take a string in three double quotes. -/
def multilineBasic : Reader String :=
  multiline '"' <|
    takeWhile₁ isBasic <|> (do return [← escape]) <|> (do lineJoin; return [])

/-- Take a string in three single quotes. -/
def multilineLiteral : Reader String := multiline '\'' (takeWhile₁ isLiteral)

/-- Take a string of any form. -/
def string : Reader String :=
  multilineBasic <|> basicString <|> multilineLiteral <|> literalString

end MethodGroups.Toml.Reader
