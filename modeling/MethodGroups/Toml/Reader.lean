/-!
# Readers

A reader takes a value off the front of a text, or fails.  A failed alternative
takes nothing, so the next one starts at the same place.
-/

namespace MethodGroups.Toml

/-- Takes a value off the front of a text, or fails. -/
abbrev Reader (Value : Type) := StateT (List Char) Option Value

namespace Reader

variable {Value Other : Type}

/-- Take one character of a class. -/
def satisfy (accepts : Char → Bool) : Reader Char
  | c :: rest => if accepts c then some (c, rest) else none
  | [] => none

/-- Take one given character. -/
def char (expected : Char) : Reader Unit := do
  let _ ← satisfy (· = expected)

/-- Take the given characters. -/
def exactly (expected : List Char) : Reader Unit := expected.forM char

/-- Take as many characters of a class as there are. -/
def takeWhile (accepts : Char → Bool) : Reader (List Char) := fun text =>
  some (text.takeWhile accepts, text.dropWhile accepts)

/-- Take one or more characters of a class. -/
def takeWhile₁ (accepts : Char → Bool) : Reader (List Char) := do
  let first ← satisfy accepts
  let rest ← takeWhile accepts
  return first :: rest

/-- Succeed at the end of the text. -/
def atEnd : Reader Unit
  | [] => some ((), [])
  | _ :: _ => none

/-- Fail unless a condition holds. -/
def require (condition : Bool) : Reader Unit :=
  if condition then pure () else failure

/-- Take a value if there is one. -/
def maybe (reader : Reader Value) : Reader (Option Value) :=
  (some <$> reader) <|> pure none

/-- Take values, one after the other, as long as the reader succeeds and makes
progress. -/
def many (reader : Reader Value) : Reader (List Value) := fun text => some (collect text)
where
  /-- The values at the front of a text, and what is left of it. -/
  collect (text : List Char) : List Value × List Char :=
    match reader text with
    | none => ([], text)
    | some (value, rest) =>
        if _progress : rest.length < text.length then
          let (values, left) := collect rest
          (value :: values, left)
        else ([], text)
  termination_by text.length

/-- Take values with a separator between them, at least one. -/
def separated (item : Reader Value) (separator : Reader Other) : Reader (List Value) := do
  let first ← item
  let rest ← many (separator *> item)
  return first :: rest

/-- Take a value, and give the characters that it took instead. -/
def spelling (reader : Reader Value) : Reader String := fun text =>
  (reader text).map fun (_, rest) => (String.ofList (text.take (text.length - rest.length)), rest)

end Reader

end MethodGroups.Toml
