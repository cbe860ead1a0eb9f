import MethodGroups.Conversion.Error
import MethodGroups.Policy.Basic
import MethodGroups.Receiver

/-!
# Requests and results of conversions

A request names a method, the delegate type it is converted to, the way the
source refers to it, and the type whose member contains the conversion.  The
result is an expression with statements that have to run before it.
-/

namespace MethodGroups

open Script

/-- What every conversion of one run reads. -/
structure Environment where
  index : TypeIndex
  policies : Policies

/-- One conversion of a method group to a delegate type. -/
structure Request (Source : Type) where
  method : MethodId
  /-- The arguments of the declaring type, if the source gives a use of it.  None
  means the declaring type as the current type sees it. -/
  declaringArgs : List Ty
  /-- The type arguments of the method, if the source gives them.  None means
  that they are inferred. -/
  typeArgs : List Ty
  delegate : Ty
  receiver : Receiver Source
  /-- The type whose member contains the conversion. -/
  current : TypeId
  span : Span

/-- A converted method group. -/
structure Conversion where
  /-- Statements to run before the statement that contains the expression. -/
  prerequisites : List Stmt
  expr : Expr
  deriving Repr, Inhabited

namespace Conversion

/-- Stands in for a conversion that was reported as an error. -/
def placeholder : Conversion := ⟨[], .null⟩

/-- The prerequisites followed by the statement that contains the expression. -/
def statements (conversion : Conversion) (contain : Expr → Stmt) : List Stmt :=
  conversion.prerequisites ++ [contain conversion.expr]

end Conversion

end MethodGroups
