/-!
# Lines of a source

A source is cut into lines after each line terminator, which stays at the end of
its line.  A terminator at the very end opens no further line, and an empty
source is one empty line.  Positions are counted in characters.
-/

namespace MethodGroups.Report

/-- Whether a character ends a line by itself.  A carriage return followed by a
line feed ends a line together with it. -/
def isTerminator (c : Char) : Bool :=
  c ∈ ['\n', '\r', '\x0b', '\x0c', '\u0085', '\u2028', '\u2029']

/-- Whether a character is white space in the sense of Unicode. -/
def isBlank (c : Char) : Bool :=
  let code := c.toNat
  (0x09 ≤ code && code ≤ 0x0d) || code = 0x20 || code = 0x85 || code = 0xa0 || code = 0x1680 ||
    (0x2000 ≤ code && code ≤ 0x200a) || code = 0x2028 || code = 0x2029 || code = 0x202f ||
    code = 0x205f || code = 0x3000

/-- Cut a text after each line terminator. -/
def cut : List Char → List (List Char)
  | [] => []
  | '\r' :: '\n' :: rest => ['\r', '\n'] :: cut rest
  | c :: rest =>
      if isTerminator c then [c] :: cut rest
      else
        match cut rest with
        | [] => [[c]]
        | line :: lines => (c :: line) :: lines

/-- A line with its terminator, and the number of characters before it. -/
structure Line where
  start : Nat
  chars : List Char
  deriving DecidableEq, Repr, Inhabited

namespace Line

/-- The number of characters, terminator included. -/
def length (line : Line) : Nat := line.chars.length

/-- The line without white space at its end. -/
def trimmed (line : Line) : List Char := (line.chars.reverse.dropWhile isBlank).reverse

/-- The number of columns that the character at an index of the line takes up.  A
tab reaches to the next multiple of four, counted in characters. -/
def columns (line : Line) (index : Nat) : Nat :=
  if line.trimmed[index]? = some '\t' then 4 - index % 4 else 1

/-- Lines with the number of characters before each, given the number before the
first one. -/
def place : Nat → List (List Char) → List Line
  | _, [] => []
  | start, chars :: rest => ⟨start, chars⟩ :: place (start + chars.length) rest

/-- The lines of a source. -/
def ofSource (source : String) : List Line :=
  match place 0 (cut source.toList) with
  | [] => [⟨0, []⟩]
  | lines => lines

end Line

/-- The number of characters of a source, given by its lines. -/
def totalLength (lines : List Line) : Nat :=
  lines.foldr (fun line total => line.length + total) 0

/-- The index of the line that contains a position; the end of the source belongs
to the last line. -/
def lineAt? (lines : List Line) (position : Nat) : Option Nat :=
  if position ≤ totalLength lines then
    some ((lines.filter fun line => line.start ≤ position).length - 1)
  else none

/-- Cutting a text into lines loses nothing. -/
theorem flatten_cut (text : List Char) : (cut text).flatten = text := by
  fun_induction cut text <;> simp_all

end MethodGroups.Report
