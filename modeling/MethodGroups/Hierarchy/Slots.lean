import MethodGroups.Hierarchy.Ancestors

/-!
# Override slots and the target of a base call

A method that can be overridden belongs to a slot, which is introduced by its
*root* and shared by all overrides of it.  A method overrides the nearest method
above it that has the same name, the same number of type parameters and the same
parameter types.

A call through `base` runs the nearest implementation of the slot strictly above
the current type.  A method without a slot is run as its declaring type has it.
-/

namespace MethodGroups

/-- Whether a method belongs to a slot of instances. -/
def MethodDef.hasSlot (method : MethodDef) : Bool :=
  !method.isStatic && method.virtuality.isOverridable

/-- Whether two methods have the same name, the same number of type parameters
and the same parameter types, the second one seen through a substitution. -/
def MethodDef.matchesSignature (method other : MethodDef) (subst : Subst) : Bool :=
  method.name = other.name &&
    method.typeParams.length = other.typeParams.length &&
    method.params.length = other.params.length &&
    (method.params.zip other.params).all fun (own, its) =>
      decide (own.ty.Same (its.ty.subst subst))

/-- An implementation of a slot, with the ancestor that supplies it. -/
structure BaseTarget where
  use : Ty
  method : MethodDef
  deriving DecidableEq, Repr

namespace TypeIndex

/-- The method of an ancestor that a method overrides there. -/
def overriddenIn? (index : TypeIndex) (method : MethodDef) (ancestor : Ancestor) :
    Option MethodDef :=
  (index.methodsNamed ancestor.type method.name).find? fun candidate =>
    candidate.hasSlot && method.matchesSignature candidate ancestor.subst

/-- The nearest method that a method overrides. -/
def overridden? (index : TypeIndex) (method : MethodDef) : Option MethodDef := do
  let declaring ← index.type? method.declaring
  (index.ancestors declaring).findSome? (index.overriddenIn? method)

/-- Follow overrides upwards, at most as often as given.  An override of nothing
stands for itself. -/
def slotRootWithin (index : TypeIndex) : Nat → MethodDef → MethodDef
  | 0, method => method
  | count + 1, method =>
      if method.virtuality = .override then
        match index.overridden? method with
        | some above => index.slotRootWithin count above
        | none => method
      else method

/-- The method that introduced the slot of a method.  Overrides lead upwards, so
there are no more of them than methods. -/
def slotRoot (index : TypeIndex) (method : MethodDef) : MethodDef :=
  index.slotRootWithin index.methods.length method

/-- The method of an ancestor that belongs to the slot with the given root. -/
def slotMember? (index : TypeIndex) (name : String) (root : MethodId) (ancestor : Ancestor) :
    Option MethodDef :=
  (index.methodsNamed ancestor.type name).find? fun candidate =>
    candidate.hasSlot && (index.slotRoot candidate).id = root

/-- What a call of a method through `base` runs, seen from the current type. -/
def baseTarget? (index : TypeIndex) (current : TypeDef) (method : MethodDef) :
    Option BaseTarget :=
  if method.virtuality.isOverridable then
    let root := (index.slotRoot method).id
    (index.ancestors current).findSome? fun ancestor =>
      (index.slotMember? method.name root ancestor).map (⟨ancestor.use, ·⟩)
  else (index.ancestorUse? current method.declaring).map (⟨·, method⟩)

end TypeIndex

end MethodGroups
