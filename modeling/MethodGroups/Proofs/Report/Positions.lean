import MethodGroups.Report.Render
import MethodGroups.Proofs.Splitting

/-!
# The positions that reports show

A span counts bytes and a drawn report counts characters.  The report takes the number of the byte
where the span starts for the number of a character, so it shows the place of another character,
unless every character before the span takes a single byte.  And where the byte count of the end
exceeds the number of characters, no position is shown at all.
-/

namespace MethodGroups

namespace Report

/-! ## Lines and columns -/

/-- The line and the column, counted from one, of the character at an index of a text that is cut
into lines.  What follows the last character belongs to the last line. -/
def locate : List (List Char) → Nat → Nat × Nat
  | [], index | [_], index => (1, index + 1)
  | line :: next :: rest, index =>
      if index < line.length then (1, index + 1)
      else
        let (number, column) := locate (next :: rest) (index - line.length)
        (number + 1, column)

theorem one_le_locate (lines : List (List Char)) (index : Nat) : 1 ≤ (locate lines index).1 := by
  fun_cases locate lines index <;> simp [*]

/-- Each character has a place of its own. -/
theorem locate_inj {lines : List (List Char)} {index other : Nat} :
    locate lines index = locate lines other ↔ index = other := by
  refine ⟨fun same => ?_, congrArg _⟩
  induction lines generalizing index other with
  | nil => simpa [locate] using same
  | cons line rest ih =>
    cases rest with
    | nil => simpa [locate] using same
    | cons next rest =>
      -- A place in the first line has another line number than all places behind that line.
      have later := one_le_locate (next :: rest)
      by_cases inside : index < line.length <;> by_cases inside' : other < line.length <;>
        simp only [locate, inside, inside', if_true, if_false, Prod.mk.injEq] at same
      · omega
      · have := later (other - line.length)
        omega
      · have := later (index - line.length)
        omega
      · have sameBehind : locate (next :: rest) (index - line.length) =
            locate (next :: rest) (other - line.length) := Prod.ext (by omega) same.2
        have := ih sameBehind
        omega

variable {chunks : List (List Char)} {start stop position : Nat}

theorem start_le_of_mem_place {line : Line} (placed : line ∈ Line.place start chunks) :
    start ≤ line.start := by
  fun_induction Line.place start chunks with
  | case1 => cases placed
  | case2 start chars rest ih =>
    rcases List.mem_cons.mp placed with rfl | later
    · exact Nat.le_refl _
    · exact (Nat.le_add_right _ _).trans (ih later)

/-- The last line that starts at a position or before it is the line of the position. -/
theorem exists_line_of_locate (nonempty : chunks ≠ []) (behind : start ≤ position) :
    ∃ index line, (Line.place start chunks)[index]? = some line ∧
      ((Line.place start chunks).filter fun line => line.start ≤ position).length = index + 1 ∧
      locate chunks (position - start) = (index + 1, position - line.start + 1) := by
  induction chunks generalizing start with
  | nil => exact absurd rfl nonempty
  | cons line rest ih =>
    cases rest with
    | nil => exact ⟨0, ⟨start, line⟩, rfl, by simp [Line.place, behind], rfl⟩
    | cons next rest =>
      rw [Line.place, locate, List.filter_cons_of_pos (by simpa using behind)]
      by_cases inside : position - start < line.length
      · have noneLater : (Line.place (start + line.length) (next :: rest)).filter
            (fun line => line.start ≤ position) = [] := by
          rw [List.filter_eq_nil_iff]
          intro later placed
          have := start_le_of_mem_place placed
          simp only [decide_eq_true_eq]
          omega
        refine ⟨0, ⟨start, line⟩, rfl, ?_, if_pos inside⟩
        rw [noneLater]
        rfl
      · obtain ⟨index, later, placed, count, located⟩ :=
          ih (List.cons_ne_nil _ _) (by omega : start + line.length ≤ position)
        refine ⟨index + 1, later, placed, ?_, ?_⟩
        · rw [List.length_cons, count]
        · rw [if_neg inside, Nat.sub_sub, located]

theorem totalLength_place (start : Nat) (chunks : List (List Char)) :
    totalLength (Line.place start chunks) = chunks.flatten.length := by
  fun_induction Line.place start chunks with
  | case1 => rfl
  | case2 start chars rest ih =>
    simp only [totalLength, List.foldr_cons, List.flatten_cons, List.length_append] at ih ⊢
    rw [ih]
    rfl

/-! ## The extent of a range -/

/-- A position in a text has a line, in which its place is. -/
theorem exists_lineAt? (nonempty : chunks ≠ []) (inside : position ≤ chunks.flatten.length) :
    ∃ index line, lineAt? (Line.place 0 chunks) position = some index ∧
      (Line.place 0 chunks)[index]? = some line ∧
      locate chunks position = (index + 1, position - line.start + 1) := by
  obtain ⟨index, line, placed, count, located⟩ :=
    exists_line_of_locate nonempty (Nat.zero_le position)
  refine ⟨index, line, ?_, placed, located⟩
  rw [lineAt?, totalLength_place, if_pos inside, count]
  rfl

/-- A range that ends at most one character behind the text has an extent, which begins where its
first character is. -/
theorem exists_extent (nonempty : chunks ≠ []) (ordered : start < stop)
    (inside : stop ≤ chunks.flatten.length + 1) :
    ∃ extent, Extent.of? (Line.place 0 chunks) start stop = some extent ∧
      locate chunks start = (extent.first.1 + 1, extent.start - extent.first.2.start + 1) := by
  obtain ⟨first, firstLine, atStart, firstPlaced, located⟩ :=
    exists_lineAt? nonempty (by omega : start ≤ chunks.flatten.length)
  obtain ⟨last, lastLine, atStop, lastPlaced, -⟩ :=
    exists_lineAt? nonempty (by omega : stop - 1 ≤ chunks.flatten.length)
  refine ⟨⟨start, stop, (first, firstLine), (last, lastLine)⟩, ?_, located⟩
  simp [Extent.of?, atStart, atStop, firstPlaced, lastPlaced, Nat.not_le_of_lt ordered]

/-- A range that ends farther behind the text has none. -/
theorem extent_eq_none (ordered : start < stop) (outside : chunks.flatten.length + 1 < stop) :
    Extent.of? (Line.place 0 chunks) start stop = none := by
  have atStop : lineAt? (Line.place 0 chunks) (stop - 1) = none := by
    rw [lineAt?, totalLength_place, if_neg (by omega)]
  simp [Extent.of?, atStop, Nat.not_le_of_lt ordered]

theorem cut_ne_nil {source : String} (nonempty : source ≠ "") : cut source.toList ≠ [] := by
  intro uncut
  have empty := flatten_cut source.toList
  rw [uncut, List.flatten_nil] at empty
  exact nonempty (String.toList_eq_nil_iff.mp empty.symm)

/-- The lines of a source are its cuts, in their places. -/
theorem ofSource_eq_place {source : String} (nonempty : source ≠ "") :
    Line.ofSource source = Line.place 0 (cut source.toList) := by
  obtain ⟨line, rest, cuts⟩ := List.exists_cons_of_ne_nil (cut_ne_nil nonempty)
  rw [Line.ofSource, cuts]
  rfl

/-! ## Bytes and characters -/

theorem utf8ByteSize_ofList (chars : List Char) :
    (String.ofList chars).utf8ByteSize = (chars.map Char.utf8Size).sum := by
  induction chars with
  | nil => rfl
  | cons c chars ih => simp [String.ofList_cons, ih]

theorem length_le_sum_utf8Size (chars : List Char) :
    chars.length ≤ (chars.map Char.utf8Size).sum := by
  induction chars with
  | nil => exact Nat.le_refl 0
  | cons c chars ih =>
    have := c.utf8Size_pos
    simp only [List.length_cons, List.map_cons, List.sum_cons]
    omega

/-- A text has as many bytes as characters only if each character takes a single byte. -/
theorem sum_utf8Size_eq_length_iff {chars : List Char} :
    (chars.map Char.utf8Size).sum = chars.length ↔ ∀ c ∈ chars, c.utf8Size = 1 := by
  induction chars with
  | nil => simp
  | cons c chars ih =>
    have size := c.utf8Size_pos
    have := length_le_sum_utf8Size chars
    rw [List.forall_mem_cons, ← ih]
    simp only [List.length_cons, List.map_cons, List.sum_cons]
    omega

/-! ## Reading a position -/

/-- Numbers in front of a character that is not a digit are the same if the texts are. -/
theorem number_inj {number other : Nat} {rest rest' : List Char} {c c' : Char}
    (equal : (toString number).toList ++ c :: rest = (toString other).toList ++ c' :: rest')
    (stop : ¬c.isDigit) (stop' : ¬c'.isDigit) : number = other ∧ c :: rest = c' :: rest' := by
  obtain ⟨same, rest⟩ := append_inj_of_kind equal (fun _ => isDigit_of_mem_toString)
    (fun _ => isDigit_of_mem_toString) stop stop'
  exact ⟨eq_of_toList_toString_eq same, rest⟩

end Report

namespace ConversionError

open Report

/-- A report begins with the message of the error and names a position in the row below it. -/
def ShowsPosition (error : ConversionError) (report : String) (position : Nat × Nat) : Prop :=
  ∃ indent rest, report =
    error.notice.heading ++ " " ++ error.notice.message ++ "\n" ++
      String.ofList (List.replicate indent ' ') ++ "╭─[ <unknown>:" ++ toString position.1 ++ ":" ++
      toString position.2 ++ " ]\n" ++ rest

variable {error : ConversionError} {source : String} {start stop : Nat}

/-- A report names one position at most. -/
theorem ShowsPosition.unique {report : String} {position other : Nat × Nat}
    (shows : error.ShowsPosition report position) (shows' : error.ShowsPosition report other) :
    position = other := by
  obtain ⟨indent, rest, rfl⟩ := shows
  obtain ⟨indent', rest', same⟩ := shows'
  -- Behind the message, a report is taken apart at the corner of the frame, at the colon and at
  -- the blank behind the column.
  have corner : "╭─[ <unknown>:".toList = '╭' :: "─[ <unknown>:".toList := by simp
  have colon : ":".toList = [':'] := by simp
  have closing : " ]\n".toList = ' ' :: "]\n".toList := by simp
  have chars := congrArg String.toList same
  simp only [String.append_assoc, String.toList_append, List.append_cancel_left_eq,
    String.toList_ofList, corner, colon, closing, List.cons_append, List.nil_append] at chars
  have blanks : ∀ count : Nat, ∀ c ∈ List.replicate count ' ', c == ' ' := by simp
  obtain ⟨-, chars⟩ :=
    append_inj_of_kind chars (blanks _) (blanks _) (by decide) (by decide)
  obtain ⟨lines, chars⟩ :=
    number_inj (List.append_cancel_left (List.cons.inj chars).2) (by decide) (by decide)
  obtain ⟨columns, -⟩ := number_inj (List.cons.inj chars).2 (by decide) (by decide)
  exact Prod.ext lines columns

theorem render_false (piece : Piece) : piece.render false = piece.text := rfl

/-- In a frame, the line and the column are counted from the extent. -/
theorem showsPosition_of_extent {extent : Extent}
    (clamped : error.span.clamp source.utf8ByteSize = (start, stop))
    (framed : Extent.of? (Line.ofSource source) start stop = some extent) :
    error.ShowsPosition (error.render source file .plain)
      (extent.first.1 + 1, extent.start - extent.first.2.start + 1) := by
  obtain ⟨others, opened⟩ : ∃ others, extent.rows error.notice =
      [Piece.blanks (extent.numberWidth + 2), ⟨.margin, "╭"⟩, ⟨.margin, "─"⟩, ⟨.margin, "["⟩,
        .plain (" <unknown>:" ++ toString (extent.first.1 + 1) ++ ":" ++
          toString (extent.start - extent.first.2.start + 1) ++ " "), ⟨.margin, "]"⟩] :: others :=
    ⟨_, rfl⟩
  refine ⟨extent.numberWidth + 2, String.join (others.map (Row.render false)), ?_⟩
  rw [render, drawn, clamped]
  simp only [Report.rows, framed, opened, List.map_cons, List.map_nil, String.join_cons, Row.render]
  have corner : "╭─[ <unknown>:" = "╭" ++ ("─" ++ ("[" ++ " <unknown>:")) := by decide
  have closing : " ]\n" = " " ++ ("]" ++ "\n") := by decide
  simp only [render_false, Piece.plain, Piece.blanks, String.join_nil, String.append_assoc,
    String.append_empty, corner, closing]

/-- Without a frame there is no position. -/
theorem not_showsPosition (clamped : error.span.clamp source.utf8ByteSize = (start, stop))
    (unframed : Extent.of? (Line.ofSource source) start stop = none) (file : String)
    (position : Nat × Nat) : ¬error.ShowsPosition (error.render source file .plain) position := by
  rintro ⟨indent, rest, same⟩
  rw [render, drawn, clamped] at same
  simp only [Report.rows, unframed] at same
  have lengths := congrArg String.length same
  simp [Row.render, Piece.render, Piece.plain, String.join_cons] at lengths
  have := (by decide : 0 < "╭─[ <unknown>:".length)
  omega

/-- A report shows the place of the character whose index is the byte offset of the start.  It shows
no place if the byte offset of the end lies more than one character behind the source. -/
theorem showsPosition_iff (nonempty : error.span.start < error.span.stop)
    (inside : error.span.stop ≤ source.utf8ByteSize) (file : String) (position : Nat × Nat) :
    error.ShowsPosition (error.render source file .plain) position ↔
      error.span.stop ≤ source.length + 1 ∧
        position = locate (cut source.toList) error.span.start := by
  have clamped := Span.clamp_of_inside nonempty inside
  have filled : source ≠ "" := by
    rintro rfl
    rw [String.utf8ByteSize_empty] at inside
    omega
  have placed := ofSource_eq_place filled
  have length : (cut source.toList).flatten.length = source.length := by
    rw [flatten_cut, String.length_toList]
  by_cases framed : error.span.stop ≤ source.length + 1
  · obtain ⟨extent, found, located⟩ :=
      exists_extent (cut_ne_nil filled) nonempty (length ▸ framed)
    have shows : error.ShowsPosition (error.render source file .plain) _ :=
      showsPosition_of_extent clamped (placed ▸ found)
    rw [← located] at shows
    exact ⟨fun shows' => ⟨framed, shows'.unique shows⟩, fun same => same.2 ▸ shows⟩
  · have unframed : Extent.of? (Line.place 0 (cut source.toList)) _ _ = none :=
      extent_eq_none nonempty (by omega)
    refine iff_of_false (not_showsPosition clamped (placed ▸ unframed) file position) ?_
    exact fun shown => framed shown.1

/-- For a span of characters inside the source, both kinds of report start from the byte offsets as
they are, and the drawn report takes them for indices of characters.  So it shows the place of the
first character of the span only behind characters of a single byte. -/
theorem showsPosition_iff_single_bytes (error : ConversionError)
    {source before inside after : String} (file : String)
    (parts : source = before ++ inside ++ after) (nonempty : inside ≠ "")
    (start : error.span.start = before.utf8ByteSize)
    (stop : error.span.stop = (before ++ inside).utf8ByteSize) :
    error.span.clamp source.utf8ByteSize = (error.span.start, error.span.stop) ∧
    (∀ position, error.ShowsPosition (error.render source file .plain) position ↔
      error.span.stop ≤ source.length + 1 ∧
        position = locate (cut source.toList) error.span.start) ∧
    (error.ShowsPosition (error.render source file .plain)
        (locate (cut source.toList) before.length) ↔
      error.span.stop ≤ source.length + 1 ∧ ∀ c ∈ before.toList, c.utf8Size = 1) := by
  have ordered : error.span.start < error.span.stop := by
    have : inside.utf8ByteSize ≠ 0 := fun empty =>
      nonempty (String.utf8ByteSize_eq_zero_iff.mp empty)
    rw [start, stop, String.utf8ByteSize_append]
    omega
  have within : error.span.stop ≤ source.utf8ByteSize := by
    rw [stop, parts, @String.utf8ByteSize_append (before ++ inside)]
    exact Nat.le_add_right _ _
  refine ⟨Span.clamp_of_inside ordered within, showsPosition_iff ordered within file, ?_⟩
  rw [showsPosition_iff ordered within, locate_inj, start, ← sum_utf8Size_eq_length_iff,
    ← utf8ByteSize_ofList, String.ofList_toList, String.length_toList]
  exact and_congr_right fun _ => eq_comm

/-- Behind an accent, the third character of a line is shown as the fourth one. -/
theorem showsPosition_behind_accent :
    (⟨.notUsable "C.F", 3, 4, by decide⟩ : ConversionError).ShowsPosition
        (render ⟨.notUsable "C.F", 3, 4, by decide⟩ "é x" "unit.cs" .plain) (1, 4) ∧
    ¬(⟨.notUsable "C.F", 3, 4, by decide⟩ : ConversionError).ShowsPosition
        (render ⟨.notUsable "C.F", 3, 4, by decide⟩ "é x" "unit.cs" .plain)
        (locate (cut "é x".toList) "é ".length) := by
  have parts : "é x" = "é " ++ "x" ++ "" := by decide
  obtain ⟨-, shown, right⟩ := showsPosition_iff_single_bytes ⟨.notUsable "C.F", 3, 4, by decide⟩
    "unit.cs" parts (by decide) (by decide) (by decide)
  exact ⟨(shown (1, 4)).mpr (by decide),
    fun shows => absurd ((right.mp shows).2 'é' (by simp)) (by decide)⟩

/-- So a drawn report need not show the place of the first character of its span. -/
theorem exists_not_showsPosition :
    ¬∀ (error : ConversionError) (before inside after file : String), inside ≠ "" →
      error.span.start = before.utf8ByteSize →
      error.span.stop = (before ++ inside).utf8ByteSize →
      error.ShowsPosition (error.render (before ++ inside ++ after) file .plain)
        (locate (cut (before ++ inside ++ after).toList) before.length) := by
  intro claim
  have shows := claim ⟨.notUsable "C.F", 3, 4, by decide⟩ "é " "x" "" "unit.cs" (by decide)
    (by decide) (by decide)
  exact absurd ((showsPosition_iff (by decide) (by decide) _ _).mp shows).2 (by decide)

end ConversionError

end MethodGroups
