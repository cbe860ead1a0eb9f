import MethodGroups.Ty.Basic

/-!
# Script trees

The part of the script language in which converted method groups are written.
Calls of runtime helpers are constructors of their own, so that a tree says what
is meant and the names of the helpers are chosen when it is written out.
-/

namespace MethodGroups.Script

/-- A reference to a type in script. -/
inductive TypeRef where
  /-- A type without arguments. -/
  | named (name : TypeName)
  /-- A generic type, applied to arguments at run time. -/
  | instantiated (generic : TypeName) (args : List TypeRef)
  /-- A type parameter, held in a variable at run time. -/
  | param (name : String)
  /-- Any array type: arrays keep no element type at run time. -/
  | array
  deriving Repr, Inhabited

/-- An expression. -/
inductive Expr where
  /-- The current instance. -/
  | self
  | null
  | identifier (name : String)
  | typeRef (type : TypeRef)
  | member (target : Expr) (name : String)
  | string (value : String)
  | array (items : List Expr)
  | invoke (callee : Expr) (args : List Expr)
  | assign (target value : Expr)
  /-- A generic method with its type arguments. -/
  | instantiateMethod (method : Expr) (typeArgs : List TypeRef)
  /-- A method with the receiver on which to run it. -/
  | bind (method receiver : Expr)
  /-- The method that an ancestor supplies under a name, with the receiver on
  which to run it. -/
  | bindBaseCall (ancestor : TypeRef) (name : String) (typeArgs : List TypeRef)
      (receiver : Expr)
  /-- A function that gets the caller's `this` as its first argument. -/
  | bindFirstParameterToThis (function : Expr)
  deriving Repr, Inhabited

/-- Whether reading the expression twice is the same as reading it once: it calls
nothing, reads no member and assigns nothing. -/
def Expr.isPure : Expr → Bool
  | .self | .null | .identifier _ | .typeRef _ | .string _ => true
  | _ => false

/-- A statement. -/
inductive Stmt where
  /-- The declaration of a variable. -/
  | declare (name : String) (value : Option Expr)
  /-- An expression for its effect. -/
  | expr (expr : Expr)
  deriving Repr, Inhabited

end MethodGroups.Script
