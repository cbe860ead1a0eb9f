import MethodGroups.Index.Definition

/-!
# The type index

An index holds all known type and method definitions in the order in which they
were added; an id is a position.  Types are found by a key made of their
qualified name and their number of type parameters, so that families such as
`Action`, `Action<T1>` and `Action<T1, T2>` can share a name.  Of several types
with one key the one added last is found.
-/

namespace MethodGroups

/-- All known types and methods. -/
structure TypeIndex where
  types : List TypeDef
  methods : List MethodDef
  deriving DecidableEq, Repr, Inhabited

/-- The key under which a type of the given qualified name and number of type
parameters is found. -/
def lookupKey (qualified : String) (arity : Nat) : String :=
  if arity = 0 then qualified else qualified ++ "`" ++ toString arity

/-- The key under which a definition is found. -/
def TypeDef.key (type : TypeDef) : String := lookupKey type.qualified type.typeParams.length

namespace TypeIndex

/-- The index without definitions. -/
def empty : TypeIndex := ⟨[], []⟩

/-- The definition with an id. -/
def type? (index : TypeIndex) (id : TypeId) : Option TypeDef := index.types[id.index]?

/-- The method with an id. -/
def method? (index : TypeIndex) (id : MethodId) : Option MethodDef := index.methods[id.index]?

/-- The definition found under a key. -/
def findKey? (index : TypeIndex) (key : String) : Option TypeDef :=
  index.types.reverse.find? fun type => type.key = key

/-- The definition with a qualified name and a number of type parameters. -/
def find? (index : TypeIndex) (qualified : String) (arity : Nat) : Option TypeDef :=
  index.findKey? (lookupKey qualified arity)

/-- The definition that a named type refers to, and the arguments of the use. -/
def use? (index : TypeIndex) (ty : Ty) : Option (TypeDef × List Ty) := do
  let (constructor, args) ← ty.head?
  let type ← index.find? constructor.qualified args.length
  return (type, args)

/-- The definition that a named type refers to. -/
def defOf? (index : TypeIndex) (ty : Ty) : Option TypeDef := (index.use? ty).map Prod.fst

/-- The methods declared on a type, in order of declaration. -/
def methodsOf (index : TypeIndex) (type : TypeDef) : List MethodDef :=
  type.methods.filterMap index.method?

/-- The methods of one name declared on a type, in order of declaration. -/
def methodsNamed (index : TypeIndex) (type : TypeDef) (name : String) : List MethodDef :=
  (index.methodsOf type).filter fun method => method.name = name

/-- The qualified name of the type that declares a method, empty when the index
does not know it. -/
def declaringName (index : TypeIndex) (method : MethodDef) : String :=
  ((index.type? method.declaring).map TypeDef.qualified).getD ""

/-- The name of a method behind the qualified name of its declaring type. -/
def qualifiedMember (index : TypeIndex) (method : MethodDef) : String :=
  index.declaringName method ++ "." ++ method.name

/-- The type parameters of a method's declaring type with the arguments of a use. -/
def declaringSubst (index : TypeIndex) (method : MethodDef) (args : List Ty) : Subst :=
  ((index.type? method.declaring).map (·.argSubst args)).getD []

/-- The parameter types of a method as seen through a use of its declaring type. -/
def formals (index : TypeIndex) (method : MethodDef) (args : List Ty) : List Ty :=
  method.params.map fun param => param.ty.subst (index.declaringSubst method args)

end TypeIndex

end MethodGroups
