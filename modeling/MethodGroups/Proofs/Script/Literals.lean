import MethodGroups.Script.Text

/-!
# Reading literals back

A reader of script starts a literal at a quote, takes a backslash together with the character
after it, and ends at the next quote.  A line that ends inside leaves the literal without an
end, and two characters end a line: the line feed, which is never written between quotes, and
the carriage return, which is written as it is.  So every literal is read back as the string
that it was written for, unless a carriage return stands in that string.
-/

namespace MethodGroups.Script

namespace Quoted

/-! ## The reader -/

/-- What a character stands for after a backslash. -/
def unescape : Char → Option Char
  | '\'' => some '\''
  | '\\' => some '\\'
  | 'n' => some '\n'
  | _ => none

/-- The characters that end a line. -/
def endsLine (c : Char) : Bool := c = '\n' || c = '\r'

/-- The content of a literal from behind its opening quote, and what follows its closing one. -/
def readContent : List Char → Option (List Char × List Char)
  | [] => none
  | '\'' :: after => some ([], after)
  | '\\' :: shown :: text => do
      let meant ← unescape shown
      let (content, after) ← readContent text
      return (meant :: content, after)
  | c :: text =>
      if endsLine c then none
      else do
        let (content, after) ← readContent text
        return (c :: content, after)

/-- The content of the literal that a text starts with, and what follows the literal. -/
def read : List Char → Option (List Char × List Char)
  | '\'' :: text => readContent text
  | _ => none

/-! ## Reading what was written -/

/-- A character is written as itself, or as a backslash and a character that stands for it. -/
theorem escape_cases (c : Char) :
    escape c = [c] ∧ c ≠ '\'' ∧ c ≠ '\\' ∧ c ≠ '\n' ∨
      ∃ shown, escape c = ['\\', shown] ∧ unescape shown = some c ∧ c ≠ '\r' := by
  by_cases isQuote : c = '\''
  · subst isQuote
    exact .inr ⟨'\'', rfl, rfl, by decide⟩
  by_cases isBackslash : c = '\\'
  · subst isBackslash
    exact .inr ⟨'\\', rfl, rfl, by decide⟩
  by_cases isLineFeed : c = '\n'
  · subst isLineFeed
    exact .inr ⟨'n', rfl, rfl, by decide⟩
  · exact .inl ⟨by simp [escape], isQuote, isBackslash, isLineFeed⟩

theorem readContent_escaped {shown c : Char} (meant : unescape shown = some c)
    (text : List Char) :
    readContent ('\\' :: shown :: text) =
      (readContent text).map fun found => (c :: found.1, found.2) := by
  rw [readContent, meant]
  cases readContent text <;> rfl

theorem readContent_plain {c : Char} (noQuote : c ≠ '\'') (noBackslash : c ≠ '\\')
    (inLine : endsLine c = false) (text : List Char) :
    readContent (c :: text) = (readContent text).map fun found => (c :: found.1, found.2) := by
  rw [readContent]
  · rw [inLine, if_neg Bool.false_ne_true]
    cases readContent text <;> rfl
  · exact noQuote
  · exact fun _ _ isBackslash _ => noBackslash isBackslash

theorem readContent_endsLine {c : Char} (ends : endsLine c = true) (text : List Char) :
    readContent (c :: text) = none := by
  rw [readContent]
  · rw [ends, if_pos rfl]
  · rintro rfl
    exact absurd ends (by decide)
  · rintro _ _ rfl
    exact absurd ends (by decide)

/-- What stands between quotes is read up to the closing quote, as the content that it was
written for.  Only a carriage return stands in the way. -/
theorem readContent_encode (content after : List Char) :
    readContent (encode content ++ '\'' :: after) =
      if '\r' ∈ content then none else some (content, after) := by
  induction content with
  | nil => rfl
  | cons c rest ih =>
      rw [encode_cons, List.append_assoc]
      rcases escape_cases c with ⟨written, noQuote, noBackslash, noLineFeed⟩ |
        ⟨shown, written, meant, noReturn⟩
      · rw [written, List.singleton_append]
        by_cases isReturn : c = '\r'
        · rw [readContent_endsLine (by simp [endsLine, isReturn]),
            if_pos (List.mem_cons.mpr (.inl isReturn.symm))]
        · rw [readContent_plain noQuote noBackslash (by simp [endsLine, noLineFeed, isReturn]), ih]
          simp only [List.mem_cons, Ne.symm isReturn, false_or]
          split <;> rfl
      · rw [written, List.cons_append, List.singleton_append, readContent_escaped meant, ih]
        simp only [List.mem_cons, Ne.symm noReturn, false_or]
        split <;> rfl

/-- A literal ends at its closing quote, whatever follows. -/
theorem read_literal_append (content after : String) :
    read (literal content ++ after).toList =
      if '\r' ∈ content.toList then none else some (content.toList, after.toList) := by
  rw [← readContent_encode]
  simp [literal, read]

end Quoted

/-! ## Literals in expressions -/

namespace Expr

/-- What stands before the quoted name in a base call. -/
def beforeBaseName (settings : Settings) (ancestor : TypeRef) : String :=
  settings.helpers.bindBaseCall ++ "(" ++ ancestor.text settings ++ ", "

/-- What stands behind the quoted name in a base call. -/
def afterBaseName (settings : Settings) (typeArgs : List TypeRef) (receiver : Expr) : String :=
  ", [" ++ commaSeparated (typeArgs.map (·.text settings)) ++ "], " ++ receiver.text settings ++ ")"

theorem text_bindBaseCall (settings : Settings) (ancestor : TypeRef) (name : String)
    (typeArgs : List TypeRef) (receiver : Expr) :
    (bindBaseCall ancestor name typeArgs receiver).text settings =
      beforeBaseName settings ancestor ++
        (Quoted.literal name ++ afterBaseName settings typeArgs receiver) := by
  apply String.toList_inj.mp
  simp [text, helperCall, commaSeparated, beforeBaseName, afterBaseName]

/-- A string literal, and the name in a base call, are read back from their opening quotes up to
their closing ones, whatever follows, exactly if no carriage return stands in them. -/
theorem read_quoted (settings : Settings) (value after : String) :
    Quoted.read ((string value).text settings ++ after).toList =
        (if '\r' ∈ value.toList then none else some (value.toList, after.toList)) ∧
      ∀ ancestor typeArgs receiver, ∃ fromQuote : String,
        (bindBaseCall ancestor value typeArgs receiver).text settings ++ after =
            beforeBaseName settings ancestor ++ fromQuote ∧
          Quoted.read fromQuote.toList =
            if '\r' ∈ value.toList then none
            else
              some (value.toList, (afterBaseName settings typeArgs receiver ++ after).toList) := by
  constructor
  · rw [text]
    exact Quoted.read_literal_append value after
  · intro ancestor typeArgs receiver
    refine ⟨Quoted.literal value ++ (afterBaseName settings typeArgs receiver ++ after), ?_, ?_⟩
    · rw [text_bindBaseCall, String.append_assoc, String.append_assoc]
    · exact Quoted.read_literal_append value _

/-- A literal with a carriage return has no end on its line. -/
theorem read_carriageReturn :
    Quoted.read ((string "\r").text .standard ++ "").toList = none := by
  decide

end Expr

end MethodGroups.Script
