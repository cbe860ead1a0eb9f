/-!
# Quoted script strings

A string literal stands in single quotes.  A quote, a backslash and a line feed
are written with a backslash; all other characters stand for themselves.
-/

namespace MethodGroups.Script.Quoted

/-- A character as it is written between quotes. -/
def escape : Char → List Char
  | '\'' => ['\\', '\'']
  | '\\' => ['\\', '\\']
  | '\n' => ['\\', 'n']
  | c => [c]

/-- The characters between the quotes of a literal. -/
def encode (content : List Char) : List Char := content.flatMap escape

/-- The literal that denotes a string. -/
def literal (content : String) : String :=
  "'" ++ String.ofList (encode content.toList) ++ "'"

@[simp] theorem encode_nil : encode [] = [] := rfl

@[simp] theorem encode_cons (c : Char) (rest : List Char) :
    encode (c :: rest) = escape c ++ encode rest := rfl

/-- No line feed is left between the quotes. -/
theorem newline_not_mem_encode (content : List Char) : '\n' ∉ encode content := by
  induction content with
  | nil => simp
  | cons c rest ih =>
      rw [encode_cons, List.mem_append, not_or]
      refine ⟨?_, ih⟩
      unfold escape
      split <;> simp_all [eq_comm]

end MethodGroups.Script.Quoted
