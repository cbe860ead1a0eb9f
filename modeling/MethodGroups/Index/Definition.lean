import MethodGroups.Ty.Subst

/-!
# Definitions of types and methods

A type definition lists its type parameters, its base and the methods declared
directly on it.  The base and every signature are written in terms of the
parameters of the definition itself, so a use of the definition is seen by
substituting its arguments.
-/

namespace MethodGroups

/-- How a method takes part in virtual dispatch. -/
inductive Virtuality where
  /-- Not dispatched at all, as every static method. -/
  | none
  /-- Introduces a slot that can be overridden. -/
  | virtual
  /-- Introduces a slot that has no implementation yet. -/
  | abstract
  /-- Replaces the implementation of an inherited slot. -/
  | override
  deriving DecidableEq, Repr, Inhabited

/-- Whether a method of this virtuality belongs to a slot. -/
def Virtuality.isOverridable (virtuality : Virtuality) : Bool :=
  virtuality ≠ .none

/-- A formal parameter. -/
structure Parameter where
  name : String
  ty : Ty
  /-- Whether the caller may pass the elements of this array one by one. -/
  isParamsArray : Bool
  deriving DecidableEq, Repr, Inhabited

/-- What a method declares. -/
structure MethodSig where
  name : String
  typeParams : List String
  params : List Parameter
  ret : Ty
  isStatic : Bool
  virtuality : Virtuality
  deriving DecidableEq, Repr, Inhabited

/-- Whether the method has type parameters of its own. -/
def MethodSig.isGeneric (sig : MethodSig) : Bool := !sig.typeParams.isEmpty

/-- Whether the last formal parameter is a params array. -/
def MethodSig.hasParamsArray (sig : MethodSig) : Bool :=
  sig.params.getLast?.any (·.isParamsArray)

/-- The type parameters of the method, in order. -/
def MethodSig.tyParams (sig : MethodSig) : List TyParam :=
  sig.typeParams.mapIdx fun index name => ⟨⟨.method, index⟩, name⟩

/-- A method as the index holds it. -/
structure MethodDef extends MethodSig where
  id : MethodId
  declaring : TypeId
  deriving DecidableEq, Repr, Inhabited

/-- The parameter and result types with which a delegate is invoked. -/
structure Signature where
  params : List Ty
  ret : Ty
  deriving DecidableEq, Repr, Inhabited

/-- Replace the type parameters in a signature. -/
def Signature.subst (signature : Signature) (substitution : Subst) : Signature :=
  ⟨signature.params.map (·.subst substitution), signature.ret.subst substitution⟩

/-- What kind of type a definition describes. -/
inductive TypeKind where
  | ordinary
  | delegate (signature : Signature)
  deriving DecidableEq, Repr, Inhabited

/-- A type as the index holds it. -/
structure TypeDef where
  id : TypeId
  constructor : TypeName
  typeParams : List String
  /-- The base, in terms of this type's own type parameters. -/
  base : Option Ty
  kind : TypeKind
  /-- The methods declared directly on this type, in order of declaration. -/
  methods : List MethodId
  deriving DecidableEq, Repr, Inhabited

namespace TypeDef

/-- Whether the type has type parameters. -/
def isGeneric (type : TypeDef) : Bool := !type.typeParams.isEmpty

/-- Whether the type is a delegate. -/
def isDelegate (type : TypeDef) : Bool :=
  match type.kind with
  | .delegate _ => true
  | .ordinary => false

/-- The scope and the name of the type. -/
def qualified (type : TypeDef) : String := type.constructor.qualified

/-- The type parameters, in order. -/
def tyParams (type : TypeDef) : List TyParam :=
  type.typeParams.mapIdx fun index name => ⟨⟨.type type.id, index⟩, name⟩

/-- The type parameter at a position. -/
def tyParam? (type : TypeDef) (index : Nat) : Option TyParam := type.tyParams[index]?

/-- A use of the type with the given arguments. -/
def instantiate (type : TypeDef) (args : List Ty) : Ty := .named type.constructor args

/-- The open form of the type: applied to its own type parameters. -/
def selfTy (type : TypeDef) : Ty := type.instantiate (type.tyParams.map .param)

/-- The type parameters with the arguments of a use.  Parameters without an
argument and surplus arguments are left out. -/
def argSubst (type : TypeDef) (args : List Ty) : Subst := type.tyParams.zip args

@[simp] theorem length_tyParams (type : TypeDef) :
    type.tyParams.length = type.typeParams.length := by
  simp [tyParams]

end TypeDef

end MethodGroups
