/-!
# TOML values

A document denotes a table.  Numbers that no setting uses are kept as they are
spelled.  A table remembers how it was opened, because that decides which later
lines may add to it.
-/

namespace MethodGroups.Toml

/-- How a table came about. -/
inductive Opening where
  /-- By a header of its own. -/
  | header
  /-- By the header of a table inside it. -/
  | implied
  /-- By a dotted key. -/
  | dotted
  /-- In braces, with all its entries. -/
  | braces
  deriving DecidableEq, Repr, Inhabited

/-- Whether no line has claimed the table for itself. -/
def Opening.isImplicit : Opening → Bool
  | .implied | .dotted => true
  | .header | .braces => false

/-- A TOML value. -/
inductive Value where
  | string (content : String)
  | boolean (value : Bool)
  | integer (value : Int)
  | float (spelling : String)
  | dateTime (spelling : String)
  | array (items : List Value)
  /-- A table, with its entries in the order of their first mention. -/
  | table (opening : Opening) (entries : List (String × Value))
  /-- An array of tables, each opened by a header. -/
  | tables (items : List (List (String × Value)))
  deriving Repr, Inhabited

/-- The entries of a table. -/
abbrev Entries := List (String × Value)

end MethodGroups.Toml
