import MethodGroups.Report.Ink
import MethodGroups.Report.Lines

/-!
# The layout of a report

A report shows the message, the position, the source text in question with an
arrow and a label, and closing remarks, in a frame with line numbers.

A range inside one line is underlined from below.  A range over several lines is
marked at its first and at its last line; without a label only the frame is
drawn.

An end just after the last character of the source still has a line, the last
one.  A range that goes on after it ends in no line, and the mark of its end is
not drawn.
-/

namespace MethodGroups.Report

/-- What a report says. -/
structure Notice where
  /-- The kind of the report, in brackets. -/
  heading : String
  message : String
  /-- What the arrow says about the range. -/
  label : Option String
  /-- The heading and the text of the closing remark. -/
  remark : Option (String × String)
  deriving DecidableEq, Repr, Inhabited

/-- The range of a report: characters from one position to before another one,
with the lines in which it starts and ends. -/
structure Extent where
  start : Nat
  stop : Nat
  first : Nat × Line
  last : Nat × Line
  deriving DecidableEq, Repr, Inhabited

namespace Extent

/-- The extent of a range in a source, if both ends lie in the source. -/
def of? (lines : List Line) (start stop : Nat) : Option Extent := do
  let first ← lineAt? lines start
  let last ← if stop ≤ start then some first else lineAt? lines (stop - 1)
  return ⟨start, stop, (first, ← lines[first]?), (last, ← lines[last]?)⟩

/-- Whether the range goes on after the last line of the source, so that no line
holds its last character. -/
def leavesLastLine (extent : Extent) : Bool :=
  extent.last.2.start + extent.last.2.length < extent.stop

/-- Whether the range starts where the first line of the source ends.  No line is
empty but that of an empty source, so this is the start of the second line. -/
def startsSecondLine (extent : Extent) : Bool :=
  extent.first.1 = 1 && extent.start = extent.first.2.start

/-- The width of the column of line numbers. -/
def numberWidth (extent : Extent) : Nat := (toString (extent.last.1 + 1)).length

/-- Whether the character at an index of a line belongs to the range. -/
def covers (extent : Extent) (line : Line) (index : Nat) : Bool :=
  extent.start ≤ line.start + index && line.start + index < extent.stop

/-- The start of a row with a line number. -/
def numbered (extent : Extent) (index : Nat) : Row :=
  let number := toString (index + 1)
  let padding := String.ofList (List.replicate (extent.numberWidth - number.length) ' ')
  [.plain " ", ⟨.margin, padding ++ number ++ " │"⟩, .plain " "]

/-- The start of a row without a line number, with a bar of the given form. -/
def unnumbered (extent : Extent) (bar : String) : Row :=
  let padding := String.ofList (List.replicate (extent.numberWidth + 1) ' ')
  [.plain " ", ⟨.skipped, padding ++ bar⟩, .plain " "]

/-- The start of an ordinary row without a line number. -/
def blank (extent : Extent) : Row := extent.unnumbered "│"

/-- The text of a line, with the range in red.  White space is shown as blanks. -/
def sourceText (extent : Extent) (line : Line) : Row :=
  line.trimmed.mapIdx (fun index c =>
    let ink := if extent.covers line index then Ink.red else .unimportant
    if isBlank c then Piece.copies ink ' ' (line.columns index) else [⟨ink, String.ofList [c]⟩])
  |>.flatten

/-- The rows that open the frame and name the position. -/
def opening (extent : Extent) : List Row :=
  let indent := Piece.blanks (extent.numberWidth + 2)
  let (index, line) := extent.first
  let position := " <unknown>:" ++ toString (index + 1) ++ ":" ++
    toString (extent.start - line.start + 1) ++ " "
  [[indent, ⟨.margin, "╭"⟩, ⟨.margin, "─"⟩, ⟨.margin, "["⟩, .plain position, ⟨.margin, "]"⟩],
    [indent, ⟨.margin, "│"⟩]]

/-- The row that closes the frame. -/
def closing (extent : Extent) : Row :=
  [⟨.margin, String.ofList (List.replicate (extent.numberWidth + 2) '─' ++ ['╯'])⟩]

/-- The row below a line in which the range is underlined and the arrow starts at
the column in the middle. -/
def underline (extent : Extent) (line : Line) (middle count : Nat) : Row :=
  (List.range count).flatMap fun index =>
    let columns := line.columns index
    if index = middle then
      if extent.covers line index then
        ⟨.red, "┬"⟩ :: Piece.copies .red '─' (columns - 1)
      else ⟨.red, "│"⟩ :: Piece.copies .red ' ' (columns - 1)
    else if extent.covers line index then Piece.copies .red '─' columns
    else [.blanks columns]

/-- The row in which the arrow turns towards the label. -/
def elbow (line : Line) (middle count : Nat) : Row :=
  (List.range count).flatMap fun index =>
    let columns := line.columns index
    if index < middle then [.blanks columns]
    else if index = middle then ⟨.red, "╰"⟩ :: Piece.copies .red '─' (columns - 1)
    else Piece.copies .red '─' columns

/-- The rows of a range inside one line. -/
def singleLine (extent : Extent) (label : Option String) : List Row :=
  let (index, line) := extent.first
  if extent.leavesLastLine then [extent.blank]
  else
    let text := extent.numbered index ++ extent.sourceText line
    match label with
    | none => [text]
    | some label =>
        let middle := (extent.start + extent.stop) / 2 - line.start
        let count := extent.stop - line.start + 2
        [text, extent.blank ++ extent.underline line middle count,
          extent.blank ++ elbow line middle count ++ [.plain (" " ++ label)]]

/-- The row of a line at which a range over several lines is marked. -/
def marked (extent : Extent) (corner : String) (numberedLine : Nat × Line) : Row :=
  extent.numbered numberedLine.1 ++
    [⟨.red, corner⟩, ⟨.red, "─"⟩, ⟨.red, "▶"⟩, ⟨.red, " "⟩] ++
    extent.sourceText numberedLine.2

/-- The row that stands for the lines of a range that are left out. -/
def omitted (extent : Extent) : Row := extent.unnumbered "┆" ++ [⟨.red, "┆"⟩, .blanks 3]

/-- The rows that mark the end of a range over several lines, with the label. -/
def ending (extent : Extent) (label : String) : List Row :=
  let line := extent.last.2
  let reach :=
    (List.range (line.length + 2)).foldr (fun index total => line.columns index + total) 0
  [extent.marked "├" extent.last,
    extent.blank ++ [⟨.red, "│"⟩, .blanks (3 + reach)],
    extent.blank ++ ⟨.red, "╰"⟩ :: Piece.copies .red '─' (3 + reach) ++ [.plain (" " ++ label)]]

/-- The rows of a range over several lines.  If no line holds its end, the last
line is left out like those between, and there is no label. -/
def severalLines (extent : Extent) (label : Option String) : List Row :=
  match label with
  | none =>
      let atLineStart := extent.start = extent.first.2.start
      [extent.unnumbered (if atLineStart then "┆" else "│")]
  | some label =>
      let start := extent.marked "╭" extent.first
      if extent.leavesLastLine then [start, extent.omitted]
      else if extent.first.1 + 1 < extent.last.1 then
        start :: extent.omitted :: extent.ending label
      else start :: extent.ending label

/-- Whether the range stays in one line. -/
def isSingleLine (extent : Extent) : Bool := extent.first.1 = extent.last.1

/-- What stands between the frame and the remark below a labelled range over
several lines.  The remark takes the margin of the first line: the bar of the
range is in it if the range starts at the end of that line. -/
def remarkMargin (extent : Extent) : Row :=
  if extent.startsSecondLine then [⟨.red, "│"⟩, .blanks 3] else [.blanks 4]

/-- The rows of the closing remark.  Below a labelled range over several lines it
is moved to the right, beside the arrow. -/
def remarkRows (extent : Extent) (notice : Notice) : List Row :=
  match notice.remark with
  | none => []
  | some (heading, text) =>
      let beside :=
        if extent.isSingleLine || notice.label.isNone then [] else extent.remarkMargin
      [extent.blank ++ beside,
        extent.blank ++ beside ++ [⟨.note, heading⟩, .plain (": " ++ text)]]

/-- All rows of a frame. -/
def rows (extent : Extent) (notice : Notice) : List Row :=
  let body :=
    if extent.isSingleLine then extent.singleLine notice.label
    else extent.severalLines notice.label
  extent.opening ++ body ++ extent.remarkRows notice ++ [extent.closing]

end Extent

/-- All rows of a report.  A range that leaves the source has no frame. -/
def rows (notice : Notice) (source : String) (start stop : Nat) : List Row :=
  let message : Row := [⟨.red, notice.heading⟩, .plain (" " ++ notice.message)]
  message ::
    match Extent.of? (Line.ofSource source) start stop with
    | some extent => extent.rows notice
    | none => []

end MethodGroups.Report
