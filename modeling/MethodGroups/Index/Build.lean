import MethodGroups.Index.Basic
import MethodGroups.Ty.Text

/-!
# Building a type index

An index grows by classes, delegates and methods, and the base of a type can be
set afterwards.  A base must name a known type, and the chain of bases that
starts there must not lead back to the type itself.
-/

namespace MethodGroups

/-- Why a base cannot be set. -/
inductive BaseError where
  /-- The type would become its own ancestor. -/
  | cycle (type : String)
  /-- The base names no known type. -/
  | unknown (type base : String)
  deriving DecidableEq, Repr

/-- The error in words. -/
def BaseError.message : BaseError → String
  | .cycle type => "inheritance cycle through `" ++ type ++ "`"
  | .unknown type base => "base type `" ++ base ++ "` of `" ++ type ++ "` is not a known class"

namespace TypeIndex

/-- The id that the next type will have. -/
def nextType (index : TypeIndex) : TypeId := ⟨index.types.length⟩

/-- The id that the next method will have. -/
def nextMethod (index : TypeIndex) : MethodId := ⟨index.methods.length⟩

/-- A definition that is about to be added: no base, no signature, no methods. -/
def blank (index : TypeIndex) (constructor : TypeName) (typeParams : List String) : TypeDef :=
  ⟨index.nextType, constructor, typeParams, none, .ordinary, []⟩

/-- Add a definition at the end. -/
def push (index : TypeIndex) (type : TypeDef) : TypeIndex :=
  { index with types := index.types ++ [type] }

/-- Add a class.  Its base is `System.Object` if the index already knows that
name, and is missing otherwise. -/
def addClass (index : TypeIndex) (constructor : TypeName) (typeParams : List String) :
    TypeIndex :=
  let base := (index.findKey? "System.Object").map fun _ => Ty.object
  index.push { index.blank constructor typeParams with base }

/-- Add a delegate.  The signature is made from the definition without one, so
that it can mention the delegate's own type parameters. -/
def addDelegate (index : TypeIndex) (constructor : TypeName) (typeParams : List String)
    (signature : TypeDef → Signature) : TypeIndex :=
  let type := index.blank constructor typeParams
  index.push { type with kind := .delegate (signature type) }

/-- Change the definition with an id. -/
def modifyType (index : TypeIndex) (id : TypeId) (change : TypeDef → TypeDef) : TypeIndex :=
  { index with types := index.types.modify id.index change }

/-- Add a method to a type. -/
def addMethod (index : TypeIndex) (declaring : TypeId) (sig : MethodSig) : TypeIndex :=
  let method : MethodDef := { sig with id := index.nextMethod, declaring }
  let extended := { index with methods := index.methods ++ [method] }
  extended.modifyType declaring fun type => { type with methods := type.methods ++ [method.id] }

/-- The definition that the base of a type refers to. -/
def baseDef? (index : TypeIndex) (type : TypeDef) : Option TypeDef :=
  type.base.bind index.defOf?

/-- A type, its base, the base of that, and so on, at most as many as given. -/
def baseChain (index : TypeIndex) : Nat → TypeDef → List TypeDef
  | 0, _ => []
  | count + 1, type =>
      type :: match index.baseDef? type with
        | some base => index.baseChain count base
        | none => []

/-- Set the base of a type, given in terms of the type's own parameters. -/
def setBase (index : TypeIndex) (type : TypeDef) (base : Ty) : Except BaseError TypeIndex :=
  match index.defOf? base with
  | none => .error (.unknown type.qualified base.text)
  | some start =>
      if type.id ∈ (index.baseChain index.types.length start).map TypeDef.id then
        .error (.cycle type.qualified)
      else .ok (index.modifyType type.id fun type => { type with base := some base })

/-- The type parameter names `T1` to `Tn`. -/
def numberedParams (count : Nat) : List String :=
  (List.range count).map fun i => "T" ++ toString (i + 1)

/-- Add the delegate `System.Action` that takes the given number of arguments and
returns nothing. -/
def addAction (index : TypeIndex) (arity : Nat) : TypeIndex :=
  index.addDelegate ⟨"System", "Action"⟩ (numberedParams arity) fun type =>
    ⟨type.tyParams.map .param, .void⟩

/-- Add the delegate `System.Func` that takes the given number of arguments and
returns a value of its last type parameter. -/
def addFunc (index : TypeIndex) (arity : Nat) : TypeIndex :=
  index.addDelegate ⟨"System", "Func"⟩ (numberedParams arity ++ ["TResult"]) fun type =>
    ⟨(type.tyParams.take arity).map .param,
      ((type.tyParam? arity).map Ty.param).getD .void⟩

/-- The index of the core types: the classes `Object`, `Void`, `Int32`, `String`
and `Boolean`, and the delegates `Action` and `Func` of up to four arguments, all
in the scope `System`. -/
def core : TypeIndex :=
  let classes := ["Object", "Void", "Int32", "String", "Boolean"].foldl
    (fun index name => index.addClass ⟨"System", name⟩ []) empty
  let actions := (List.range 5).foldl addAction classes
  (List.range 5).foldl addFunc actions

end TypeIndex

end MethodGroups
