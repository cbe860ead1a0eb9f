import MethodGroups.Script.Quoted
import MethodGroups.Script.Tree
import MethodGroups.Settings.Basic

/-!
# The text of script trees

Each tree has one text under given settings.  A type is written in braces, with
or without its scope; helpers are written as calls under their configured names.
Expressions are written without parentheses.  Each statement has a line of its
own, indented by tabs and closed by a semicolon.
-/

namespace MethodGroups.Script

/-- Items separated by a comma and a blank. -/
def commaSeparated (items : List String) : String := ", ".intercalate items

/-- A call of a runtime helper. -/
def helperCall (helper : String) (args : List String) : String :=
  helper ++ "(" ++ commaSeparated args ++ ")"

/-- A type name in braces, with its scope if the settings ask for it. -/
def typeNameText (settings : Settings) (type : TypeName) : String :=
  "\x7b" ++ (if settings.qualifyTypeNames then type.qualified else type.name) ++ "\x7d"

namespace TypeRef

mutual

/-- The text of a type reference. -/
def text (settings : Settings) : TypeRef → String
  | .named name => typeNameText settings name
  | .instantiated generic args =>
      helperCall settings.helpers.instantiateGenericType
        (typeNameText settings generic :: texts settings args)
  | .param name => settings.typeParameterPrefix ++ name
  | .array => "\x7bArray\x7d"

/-- The text of each type reference of a list. -/
def texts (settings : Settings) : List TypeRef → List String
  | [] => []
  | type :: rest => type.text settings :: texts settings rest

end

@[simp] theorem texts_eq_map (settings : Settings) (types : List TypeRef) :
    texts settings types = types.map (text settings) := by
  induction types with
  | nil => rfl
  | cons type rest ih => simp [texts, ih]

end TypeRef

namespace Expr

mutual

/-- The text of an expression. -/
def text (settings : Settings) : Expr → String
  | .self => "this"
  | .null => "null"
  | .identifier name => name
  | .typeRef type => type.text settings
  | .member target name => target.text settings ++ "." ++ name
  | .string value => Quoted.literal value
  | .array items => "[" ++ commaSeparated (texts settings items) ++ "]"
  | .invoke callee args =>
      callee.text settings ++ "(" ++ commaSeparated (texts settings args) ++ ")"
  | .assign target value => target.text settings ++ " = " ++ value.text settings
  | .instantiateMethod method typeArgs =>
      helperCall settings.helpers.instantiateGenericMethod
        (method.text settings :: typeArgs.map (·.text settings))
  | .bind method receiver =>
      helperCall settings.helpers.bind [method.text settings, receiver.text settings]
  | .bindBaseCall ancestor name typeArgs receiver =>
      helperCall settings.helpers.bindBaseCall
        [ancestor.text settings, Quoted.literal name,
          "[" ++ commaSeparated (typeArgs.map (·.text settings)) ++ "]",
          receiver.text settings]
  | .bindFirstParameterToThis function =>
      helperCall settings.helpers.bindFirstParameterToThis [function.text settings]

/-- The text of each expression of a list. -/
def texts (settings : Settings) : List Expr → List String
  | [] => []
  | expr :: rest => expr.text settings :: texts settings rest

end

@[simp] theorem texts_eq_map (settings : Settings) (exprs : List Expr) :
    texts settings exprs = exprs.map (text settings) := by
  induction exprs with
  | nil => rfl
  | cons expr rest ih => simp [texts, ih]

end Expr

namespace Stmt

/-- The text of a statement, without indentation and semicolon. -/
def text (settings : Settings) : Stmt → String
  | .declare name none => "var " ++ name
  | .declare name (some value) => "var " ++ name ++ " = " ++ value.text settings
  | .expr effect => effect.text settings

/-- A statement on a line of its own, indented by the given number of tabs. -/
def line (settings : Settings) (indent : Nat) (stmt : Stmt) : String :=
  String.ofList (List.replicate indent '\t') ++ stmt.text settings ++ ";\n"

/-- Statements line by line. -/
def lines (settings : Settings) (indent : Nat) (stmts : List Stmt) : String :=
  String.join (stmts.map (line settings indent))

end Stmt

end MethodGroups.Script
