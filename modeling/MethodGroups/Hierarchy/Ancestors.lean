import MethodGroups.Index.Basic

/-!
# Ancestors of a type

The hierarchy is walked upwards from the open form of a type.  Each step replaces
the parameters of a definition by the arguments of its use, so every ancestor is
seen in terms of the parameters of the type where the walk began: from
`class D<T2> : B<T2>` the base is `B<T2>`, not some closed use of `B`.
-/

namespace MethodGroups

/-- An ancestor: its definition and the use through which it is seen. -/
structure Ancestor where
  type : TypeDef
  use : Ty
  deriving DecidableEq, Repr

/-- The arguments of the use. -/
def Ancestor.args (ancestor : Ancestor) : List Ty := ancestor.use.args

/-- The type parameters of the definition with the arguments of the use. -/
def Ancestor.subst (ancestor : Ancestor) : Subst := ancestor.type.argSubst ancestor.args

namespace TypeIndex

/-- The base of a use of a type, seen through the arguments of the use. -/
def baseOfUse? (index : TypeIndex) (use : Ty) : Option Ancestor := do
  let (type, args) ← index.use? use
  let base ← type.base
  let seen := base.subst (type.argSubst args)
  let baseType ← index.defOf? seen
  return ⟨baseType, seen⟩

/-- The ancestors above a use, nearest first, at most as many as given. -/
def climb (index : TypeIndex) : Nat → Ty → List Ancestor
  | 0, _ => []
  | count + 1, use =>
      match index.baseOfUse? use with
      | some ancestor => ancestor :: index.climb count ancestor.use
      | none => []

/-- The ancestors of a type, nearest first.  A hierarchy without a cycle has
fewer levels than types; walking twice as far lets a walk through a cycle see
every type in it. -/
def ancestors (index : TypeIndex) (type : TypeDef) : List Ancestor :=
  index.climb (2 * index.types.length) type.selfTy

/-- A type as seen from another one.  Each type sees itself in its open form, and
its ancestors as the walk meets them. -/
def ancestorUse? (index : TypeIndex) (viewer : TypeDef) (seen : TypeId) : Option Ty :=
  if viewer.id = seen then some viewer.selfTy
  else ((index.ancestors viewer).find? fun ancestor => ancestor.type.id = seen).map Ancestor.use

end TypeIndex

end MethodGroups
