import MethodGroups.Index.Basic

/-!
# Policies

A method policy says what a method is called in script and how it is invoked; a
delegate policy says how a function held by a delegate is called.  Conversions
read policies through two lookups that answer for every id.
-/

namespace MethodGroups

/-- How a method is emitted. -/
structure MethodPolicy where
  /-- Whether script can refer to the method at all. -/
  isUsable : Bool
  /-- The member name in script. -/
  name : String
  isStatic : Bool
  /-- The method is referred to without its type arguments. -/
  ignoreGenericArguments : Bool
  /-- The elements of the last array argument are passed one by one. -/
  expandParams : Bool
  deriving DecidableEq, Repr, Inhabited

/-- The policy of a method that is emitted under a name, with no further rule. -/
def MethodPolicy.normal (name : String) (isStatic : Bool) : MethodPolicy :=
  ⟨true, name, isStatic, false, false⟩

/-- The policy of a method that script cannot refer to. -/
def MethodPolicy.notUsable : MethodPolicy := ⟨false, "", false, false, false⟩

/-- How the functions held by a delegate are called. -/
structure DelegatePolicy where
  /-- Callers pass the elements of the last array argument one by one. -/
  expandParams : Bool
  /-- The `this` of the call is passed as the first argument. -/
  bindThisToFirstParameter : Bool
  deriving DecidableEq, Repr, Inhabited

/-- The policy of a delegate with no further rule. -/
def DelegatePolicy.plain : DelegatePolicy := ⟨false, false⟩

/-- The policies that conversions look up. -/
structure Policies where
  method : MethodId → MethodPolicy
  delegate : TypeId → DelegatePolicy

end MethodGroups
