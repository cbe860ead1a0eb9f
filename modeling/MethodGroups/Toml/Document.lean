import MethodGroups.Toml.Syntax

/-!
# TOML documents

A document is a list of lines.  Headers choose the table to which the keys below
them belong; keys above the first header belong to the root.
-/

namespace MethodGroups.Toml

/-- What a line says. -/
inductive Statement where
  /-- The keys below belong to the table at a path. -/
  | openTable (path : List String)
  /-- The keys below belong to a new table of the array at a path. -/
  | openArrayTable (path : List String)
  /-- The key at a path has a value. -/
  | assign (path : List String) (value : Value)
  deriving Repr, Inhabited

namespace Reader

/-- Take the header of a table. -/
def tableHeader : Reader Statement := do
  char '['
  let path ← key
  char ']'
  lineTail
  return .openTable path

/-- Take the header of a table of an array. -/
def arrayTableHeader : Reader Statement := do
  exactly ['[', '[']
  let path ← key
  exactly [']', ']']
  lineTail
  return .openArrayTable path

/-- Take a line that gives a key a value. -/
def assignment : Reader Statement := do
  let (path, value) ← keyValue (value maxNesting)
  lineTail
  return .assign path value

/-- Take a line, with or without a statement. -/
def line : Reader (Option Statement) := do
  gap
  (do comment; lineEnd; return none) <|> (do newline; return none) <|>
    some <$> (arrayTableHeader <|> tableHeader <|> assignment)

/-- Take a whole document.  A byte order mark may stand before it. -/
def document : Reader (List Statement) := do
  let _ ← maybe (char '\ufeff')
  let lines ← many line
  gap
  atEnd
  return lines.filterMap id

end Reader

/-- The table that a document denotes so far, and the path of the table to which
the next keys belong. -/
structure Draft where
  root : Entries
  current : List String
  deriving Repr, Inhabited

namespace Draft

/-- Take in one more statement. -/
def add (draft : Draft) : Statement → Option Draft
  | .openTable path => return ⟨← draft.root.openTable path, path⟩
  | .openArrayTable path => return ⟨← draft.root.openArrayTable path, path⟩
  | .assign path value => do
      let root ← draft.root.modifyAt false draft.current .header fun _ entries =>
        entries.assign path value
      return { draft with root }

end Draft

/-- The entries of the root table of a document, if the text is one. -/
def parse? (text : String) : Option Entries := do
  let (statements, _) ← Reader.document text.toList
  let draft ← statements.foldlM Draft.add ⟨[], []⟩
  return draft.root

end MethodGroups.Toml
