/-!
# Inked text

The rows of a report are made of pieces of text, each in one of a few inks.  On a
terminal the inks are colors; without colors only the text remains.
-/

namespace MethodGroups.Report

/-- The inks of a report. -/
inductive Ink where
  | plain
  /-- The error and the text it is about. -/
  | red
  /-- The frame. -/
  | margin
  /-- The frame beside rows without a line number. -/
  | skipped
  /-- Source text around the error. -/
  | unimportant
  /-- The heading of a closing remark. -/
  | note
  deriving DecidableEq, Repr, Inhabited

/-- The terminal code that selects an ink. -/
def Ink.code? : Ink → Option String
  | .plain => none
  | .red => some "31"
  | .margin => some "38;5;246"
  | .skipped => some "38;5;240"
  | .unimportant => some "38;5;249"
  | .note => some "38;5;115"

/-- A text in one ink. -/
structure Piece where
  ink : Ink
  text : String
  deriving DecidableEq, Repr, Inhabited

namespace Piece

/-- A text in the ink of the terminal. -/
def plain (text : String) : Piece := ⟨.plain, text⟩

/-- Blanks in the ink of the terminal. -/
def blanks (count : Nat) : Piece := .plain (String.ofList (List.replicate count ' '))

/-- A number of copies of a character, each a piece of its own. -/
def copies (ink : Ink) (c : Char) (count : Nat) : List Piece :=
  List.replicate count ⟨ink, String.ofList [c]⟩

/-- The piece as it is written, with or without colors. -/
def render (colored : Bool) (piece : Piece) : String :=
  match colored, piece.ink.code? with
  | true, some code => "\x1b[" ++ code ++ "m" ++ piece.text ++ "\x1b[0m"
  | _, _ => piece.text

end Piece

/-- One row of a report. -/
abbrev Row := List Piece

/-- A row as it is written, with the line feed that ends it. -/
def Row.render (colored : Bool) (row : Row) : String :=
  String.join (row.map (Piece.render colored)) ++ "\n"

end MethodGroups.Report
