import MethodGroups.Policy.Table

/-!
# Rules made of clauses

A rule can be given as a list of clauses, each with a condition on names.  All
clauses that match a method change its policy in order; the first clause that
matches a delegate decides its policy.
-/

namespace MethodGroups

/-- One change of a method policy. -/
inductive PolicyChange where
  | ignoreGenericArguments
  | expandParams
  /-- Expand the params array of methods that have one. -/
  | expandParamsIfArray
  | notUsable
  | flipStatic
  /-- Name the method after itself and the constructor of its first parameter
  type, if that type has one. -/
  | overloadName
  deriving DecidableEq, Repr, Inhabited

/-- The policy of a method after one change. -/
def PolicyChange.apply (method : MethodDef) (policy : MethodPolicy) :
    PolicyChange → MethodPolicy
  | .ignoreGenericArguments => { policy with ignoreGenericArguments := true }
  | .expandParams => { policy with expandParams := true }
  | .expandParamsIfArray =>
      if method.hasParamsArray then { policy with expandParams := true } else policy
  | .notUsable => .notUsable
  | .flipStatic => { policy with isStatic := !policy.isStatic }
  | .overloadName =>
      match method.params.head?.bind (·.ty.head?) with
      | some (constructor, _) => { policy with name := method.name ++ "_" ++ constructor.name }
      | none => policy

/-- Changes for the methods of a name, of a declaring type, or both.  A missing
condition holds of every method. -/
structure MethodClause where
  name : Option String
  declaring : Option String
  changes : List PolicyChange
  deriving DecidableEq, Repr, Inhabited

/-- Whether a clause is about a method. -/
def MethodClause.applies (clause : MethodClause) (index : TypeIndex) (method : MethodDef) :
    Bool :=
  clause.name.all (· = method.name) &&
    clause.declaring.all (· = index.declaringName method)

/-- The rule given by clauses for methods. -/
def methodRule (clauses : List MethodClause) (index : TypeIndex) (method : MethodDef)
    (policy : MethodPolicy) : MethodPolicy :=
  let changes := (clauses.filter (·.applies index method)).flatMap MethodClause.changes
  changes.foldl (PolicyChange.apply method) policy

/-- The policy of the delegates of a name, or of every delegate. -/
structure DelegateClause where
  name : Option String
  policy : DelegatePolicy
  deriving DecidableEq, Repr, Inhabited

/-- The rule given by clauses for delegates. -/
def delegateRule (clauses : List DelegateClause) (type : TypeDef) : DelegatePolicy :=
  match clauses.find? fun clause => clause.name.all (· = type.constructor.name) with
  | some clause => clause.policy
  | none => .plain

end MethodGroups
