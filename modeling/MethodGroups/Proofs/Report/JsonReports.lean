import MethodGroups.Proofs.Report.JsonText
import MethodGroups.Report.Render

/-!
# JSON reports are read back

A report in JSON stays on one line: it holds no character below the blank.  Read as JSON, it is
an object with the texts of the error, whatever characters they are made of, and a range that lies
in the source.
-/

namespace MethodGroups

namespace Report.Json

/-! ## Texts without control characters -/

/-- A text without control characters. -/
def Printable (text : String) : Prop := ∀ c ∈ text.toList, 0x20 ≤ c.toNat

instance : DecidablePred Printable :=
  fun text => List.decidableBAll (fun c : Char => 0x20 ≤ c.toNat) text.toList

@[simp] theorem printable_append {left right : String} :
    Printable (left ++ right) ↔ Printable left ∧ Printable right := by
  simp [Printable, or_imp, forall_and]

theorem le_toNat_hexDigit : ∀ digit < 0x10, 0x20 ≤ (hexDigit digit).toNat := by decide

theorem le_toNat_of_mem_escape {c d : Char} (written : d ∈ escape c) : 0x20 ≤ d.toNat := by
  unfold escape at written
  split at written
  case h_8 =>
    split at written
    case isTrue control =>
      simp only [List.mem_cons, List.not_mem_nil, or_false] at written
      rcases written with rfl | rfl | rfl | rfl | rfl | rfl
      any_goals decide
      · exact le_toNat_hexDigit _ (by omega)
      · exact le_toNat_hexDigit _ (by omega)
    case isFalse printable =>
      rw [List.mem_singleton.mp written]
      exact Nat.le_of_not_lt printable
  all_goals
    simp only [List.mem_cons, List.not_mem_nil, or_false] at written
    rcases written with rfl | rfl <;> decide

theorem printable_literal (content : String) : Printable (literal content) := by
  rw [literal, printable_append, printable_append]
  refine ⟨⟨by decide, ?_⟩, by decide⟩
  rw [Printable, String.toList_ofList]
  intro d written
  obtain ⟨c, -, written⟩ := List.mem_flatMap.mp written
  exact le_toNat_of_mem_escape written

theorem printable_toString (number : Nat) : Printable (toString number) := by
  intro c inside
  have digit := isDigit_of_mem_toString inside
  simp only [Char.isDigit, Bool.and_eq_true, decide_eq_true_eq] at digit
  have zero : '0'.toNat ≤ c.toNat := digit.1
  exact Nat.le_trans (by decide) zero

/-- The names of the members are escaped, so only their values have to be printable. -/
theorem printable_membersText : {fields : List (String × String)} →
    (∀ field ∈ fields, Printable field.2) → Printable (membersText fields)
  | [], _ => by decide
  | [field], printable => by
      rw [membersText, List.map_singleton, String.intercalate_singleton, memberText,
        printable_append, printable_append]
      exact ⟨⟨printable_literal field.1, by decide⟩, printable field List.mem_cons_self⟩
  | first :: second :: fields, printable => by
      rw [List.forall_mem_cons] at printable
      rw [membersText, List.map_cons, List.map_cons, String.intercalate_cons_cons, memberText]
      simp only [printable_append]
      exact ⟨⟨⟨⟨printable_literal first.1, by decide⟩, printable.1⟩, by decide⟩,
        printable_membersText printable.2⟩

theorem printable_object {fields : List (String × String)}
    (printable : ∀ field ∈ fields, Printable field.2) : Printable (object fields) := by
  rw [object, printable_append, printable_append]
  exact ⟨⟨by decide, printable_membersText printable⟩, by decide⟩

end Report.Json

namespace ConversionError

open Report

/-- A report in JSON is free of control characters, and whoever reads it gets the texts of the
error as they are, in the order of the fields, and a range in the source: the span of the error if
it is inside the source, and one byte where an empty span starts. -/
theorem render_json_reads_back (error : ConversionError) (source file : String) :
    (∀ c ∈ (error.render source file .json).toList, 0x20 ≤ c.toNat) ∧
    ∃ start stop : Nat,
      Json.parse? (error.render source file .json) = some (.object [
        ("code", .string error.cause.code), ("severity", .string "error"),
        ("message", .string error.cause.message), ("file", .string file),
        ("start", .number start 0), ("end", .number stop 0)]) ∧
      start ≤ stop ∧ stop ≤ source.utf8ByteSize ∧
      (error.span.start < error.span.stop → error.span.stop ≤ source.utf8ByteSize →
        start = error.span.start ∧ stop = error.span.stop) ∧
      (error.span.start = error.span.stop → error.span.start < source.utf8ByteSize →
        start = error.span.start ∧ stop = error.span.start + 1) := by
  refine ⟨?_, (error.span.clamp source.utf8ByteSize).1, (error.span.clamp source.utf8ByteSize).2,
    ?_, (error.span.clamp_bounds _).1, (error.span.clamp_bounds _).2, ?_, ?_⟩
  · refine Json.printable_object ?_
    simp only [List.forall_mem_cons, List.not_mem_nil, false_imp_iff, implies_true, and_true]
    exact ⟨Json.printable_literal _, Json.printable_literal _, Json.printable_literal _,
      Json.printable_literal _, Json.printable_toString _, Json.printable_toString _⟩
  · refine (Json.written_object ?_).parse?
    exact .cons ⟨rfl, Json.written_literal _⟩ <| .cons ⟨rfl, Json.written_literal _⟩ <|
      .cons ⟨rfl, Json.written_literal _⟩ <| .cons ⟨rfl, Json.written_literal _⟩ <|
      .cons ⟨rfl, Json.written_toString _⟩ <| .cons ⟨rfl, Json.written_toString _⟩ .nil
  · intro nonempty inside
    rw [Span.clamp_of_inside nonempty inside]
    exact ⟨rfl, rfl⟩
  · intro empty before
    rw [Span.clamp_of_empty empty before]
    exact ⟨rfl, rfl⟩

/-- Quotes, backslashes, line feeds and tabs come back as they were. -/
theorem render_json_reads_back_quoted :
    Json.parse? (render ⟨.notUsable "\"é\\\n", 0, 2, by decide⟩ "é" "a\t.cs" .json) =
      some (.object [
        ("code", .string "L0001"), ("severity", .string "error"),
        ("message", .string "the method `\"é\\\n` cannot be used from script"),
        ("file", .string "a\t.cs"), ("start", .number 0 0), ("end", .number 2 0)]) := by
  obtain ⟨-, start, stop, read, -, -, inside, -⟩ :=
    render_json_reads_back ⟨.notUsable "\"é\\\n", 0, 2, by decide⟩ "é" "a\t.cs"
  obtain ⟨rfl, rfl⟩ := inside (by decide) (by decide)
  exact read

end ConversionError

end MethodGroups
