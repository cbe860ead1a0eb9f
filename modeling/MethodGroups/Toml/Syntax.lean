import MethodGroups.Toml.DateTime
import MethodGroups.Toml.Number
import MethodGroups.Toml.Quoted
import MethodGroups.Toml.Table

/-!
# Keys and values

Keys are bare words or strings, joined by dots.  Values may be nested in arrays,
which may span lines, and in tables in braces, which may not.
-/

namespace MethodGroups.Toml

/-- Arrays and tables in braces may be nested this deep. -/
def maxNesting : Nat := 79

/-- A dotted key has at most this many parts. -/
def maxKeyParts : Nat := 79

namespace Reader

/-- Whether a character may stand in a bare key. -/
def isBare (c : Char) : Bool :=
  isDigit c || ('a' ≤ c && c ≤ 'z') || ('A' ≤ c && c ≤ 'Z') || c = '_' || c = '-'

/-- Take one part of a key. -/
def keyPart : Reader String :=
  basicString <|> literalString <|> (do return String.ofList (← takeWhile₁ isBare))

/-- Take a key. -/
def key : Reader (List String) := do
  let path ← separated (spaced keyPart) (char '.')
  require (path.length ≤ maxKeyParts)
  return path

/-- Take a truth value. -/
def boolean : Reader Bool :=
  (do exactly "true".toList; return true) <|> (do exactly "false".toList; return false)

/-- Take a value that contains no other value. -/
def scalar : Reader Value :=
  .string <$> string <|> .boolean <$> boolean <|> .dateTime <$> dateTime <|>
    .float <$> float <|> .integer <$> integer

/-- Take an array, given the reader of its items. -/
def array (item : Reader Value) : Reader Value := do
  char '['
  let items ← maybe do
    let items ← separated (spaciousGap *> item <* spaciousGap) (char ',')
    let _ ← maybe (char ',')
    return items
  spaciousGap
  char ']'
  return .array (items.getD [])

/-- Take a key and a value, given the reader of the value. -/
def keyValue (value : Reader Value) : Reader (List String × Value) := do
  let path ← key
  char '='
  gap
  return (path, ← value)

/-- Take a table in braces, given the reader of its values. -/
def inlineTable (value : Reader Value) : Reader Value := do
  char '\x7b'
  let pairs ← maybe (separated (keyValue value <* gap) (char ','))
  gap
  char '\x7d'
  let entries : Option Entries :=
    (pairs.getD []).foldlM (fun entries (path, value) => Entries.assign path value entries) []
  match entries with
  | some entries => return .table .braces entries
  | none => failure

/-- Take a value with at most so many levels of nesting. -/
def value : Nat → Reader Value
  | 0 => scalar
  | levels + 1 => scalar <|> array (value levels) <|> inlineTable (value levels)

end Reader

end MethodGroups.Toml
