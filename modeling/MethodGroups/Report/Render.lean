import MethodGroups.Conversion.Error
import MethodGroups.Report.Json
import MethodGroups.Report.Layout

/-!
# Reports of conversion errors

A conversion error is shown as a drawn report, with or without colors, or as one
JSON object.  Its span is first cut to the source, counted in bytes, and an empty
span gets one byte if the source has one there.  The drawn report takes the two
numbers as positions of characters.
-/

namespace MethodGroups

open Report

/-- How reports are shown. -/
inductive ReportMode where
  | plain
  | colored
  | json
  deriving DecidableEq, Repr, Inhabited

namespace Span

/-- The offsets of a span, cut to a source of the given number of bytes. -/
def clamp (span : Span) (bytes : Nat) : Nat × Nat :=
  let start := min span.start bytes
  let stop := max (min span.stop bytes) start
  if start = stop then (start, min (stop + 1) bytes) else (start, stop)

variable {span : Span} {bytes : Nat}

theorem clamp_bounds (span : Span) (bytes : Nat) :
    (span.clamp bytes).1 ≤ (span.clamp bytes).2 ∧ (span.clamp bytes).2 ≤ bytes := by
  simp only [clamp]
  split <;> omega

/-- A span inside the source stays as it is. -/
theorem clamp_of_inside (nonempty : span.start < span.stop) (inside : span.stop ≤ bytes) :
    span.clamp bytes = (span.start, span.stop) := by
  have start : min span.start bytes = span.start := by omega
  have stop : max (min span.stop bytes) span.start = span.stop := by omega
  rw [clamp, start, stop, if_neg (Nat.ne_of_lt nonempty)]

/-- An empty span gets the byte at its start. -/
theorem clamp_of_empty (empty : span.start = span.stop) (before : span.start < bytes) :
    span.clamp bytes = (span.start, span.start + 1) := by
  have start : min span.start bytes = span.start := by omega
  have stop : max (min span.stop bytes) span.start = span.start := by omega
  rw [clamp, start, stop, if_pos rfl, Nat.min_eq_left before]

end Span

/-- What the arrow of a report says. -/
def Cause.label? : Cause → Option String
  | .notUsable member => some ("`" ++ member ++ "` has no script counterpart")
  | .paramsExpansion _ delegate => some ("converted to `" ++ delegate ++ "` here")
  | .internal _ => none

/-- The remark that closes a report. -/
def Cause.remark? : Cause → Option (String × String)
  | .notUsable _ => none
  | .paramsExpansion _ _ =>
      some ("Help", "use a delegate type that expands param arrays, or a wrapping lambda")
  | .internal _ =>
      some ("Note", "this conversion should have been rejected by overload resolution")

namespace ConversionError

/-- What the report of an error says. -/
def notice (error : ConversionError) : Notice where
  heading := "[" ++ error.cause.code ++ "] Error:"
  message := error.cause.message
  label := error.cause.label?
  remark := error.cause.remark?

/-- The drawn report of an error. -/
def drawn (error : ConversionError) (source : String) (colored : Bool) : String :=
  let (start, stop) := error.span.clamp source.utf8ByteSize
  String.join ((Report.rows error.notice source start stop).map (Row.render colored))

/-- The report of an error as a JSON object. -/
def json (error : ConversionError) (source file : String) : String :=
  let (start, stop) := error.span.clamp source.utf8ByteSize
  Json.object
    [("code", Json.literal error.cause.code), ("severity", Json.literal error.severity.text),
      ("message", Json.literal error.cause.message), ("file", Json.literal file),
      ("start", toString start), ("end", toString stop)]

/-- The report of an error in a mode. -/
def render (error : ConversionError) (source file : String) : ReportMode → String
  | .plain => error.drawn source false
  | .colored => error.drawn source true
  | .json => error.json source file

end ConversionError

end MethodGroups
