/-!
# Types of the source language

A type is a named constructor, a constructor applied to arguments, a type
parameter of a declaration, an array, or an inference variable.  Types are plain
values: a parameter refers to its owner by id, never to another definition.

Two types are the *same* when they differ at most in the spelling of their type
parameters, because `F<T>(T x)` and `F<U>(U x)` declare the same parameter list.
`Ty.Same` states this as equality after all spellings are erased.
-/

namespace MethodGroups

/-- The position of a type definition in its index. -/
structure TypeId where
  index : Nat
  deriving DecidableEq, Repr, Inhabited

/-- The position of a method definition in its index. -/
structure MethodId where
  index : Nat
  deriving DecidableEq, Repr, Inhabited

/-- An inference variable, numbered in order of creation within one context. -/
abbrev TyVar := Nat

/-- The name of a type constructor: the scope that encloses it, empty for the
root scope, and its own name.  Both parts take part in equality. -/
structure TypeName where
  scope : String
  name : String
  deriving DecidableEq, Repr, Inhabited

/-- The scope and the name joined by a dot; a name of the root scope stands alone. -/
def TypeName.qualified (constructor : TypeName) : String :=
  if constructor.scope.isEmpty then constructor.name
  else constructor.scope ++ "." ++ constructor.name

/-- The declaration that introduces a type parameter.  A method's parameters are
known by position alone, since one signature never mentions two methods. -/
inductive ParamOwner where
  | type (id : TypeId)
  | method
  deriving DecidableEq, Repr, Inhabited

/-- What identifies a type parameter: its owner and its position there. -/
structure ParamKey where
  owner : ParamOwner
  index : Nat
  deriving DecidableEq, Repr, Inhabited

/-- A mention of a type parameter.  The name is the spelling to show; only the
key says which parameter is meant. -/
structure TyParam where
  key : ParamKey
  name : String
  deriving DecidableEq, Repr, Inhabited

/-- A type of the source language. -/
inductive Ty where
  /-- An inference variable, to be replaced by unification. -/
  | var (index : TyVar)
  /-- A named type without arguments. -/
  | con (constructor : TypeName)
  /-- A type applied to arguments. -/
  | app (head : Ty) (args : List Ty)
  /-- A type parameter of a type or of a method. -/
  | param (param : TyParam)
  /-- A single-dimensional array. -/
  | array (element : Ty)
  deriving Repr, Inhabited

namespace Ty

mutual

/-- Equality of types is decided constructor by constructor. -/
protected def decEq : (left right : Ty) → Decidable (left = right)
  | .var v, .var w => decidable_of_iff (v = w) (by simp)
  | .con c, .con d => decidable_of_iff (c = d) (by simp)
  | .param p, .param q => decidable_of_iff (p = q) (by simp)
  | .array a, .array b =>
      match Ty.decEq a b with
      | isTrue same => isTrue (by rw [same])
      | isFalse differ => isFalse (by simpa using differ)
  | .app h as, .app k bs =>
      match Ty.decEq h k, Ty.decEqList as bs with
      | isTrue heads, isTrue args => isTrue (by rw [heads, args])
      | isFalse differ, _ => isFalse (fun equal => differ (Ty.app.inj equal).1)
      | _, isFalse differ => isFalse (fun equal => differ (Ty.app.inj equal).2)
  | .var _, .con _ | .var _, .app _ _ | .var _, .param _ | .var _, .array _
  | .con _, .var _ | .con _, .app _ _ | .con _, .param _ | .con _, .array _
  | .app _ _, .var _ | .app _ _, .con _ | .app _ _, .param _ | .app _ _, .array _
  | .param _, .var _ | .param _, .con _ | .param _, .app _ _ | .param _, .array _
  | .array _, .var _ | .array _, .con _ | .array _, .app _ _ | .array _, .param _ =>
      isFalse (by simp)

/-- Equality of argument lists, position by position. -/
protected def decEqList : (left right : List Ty) → Decidable (left = right)
  | [], [] => isTrue rfl
  | [], _ :: _ | _ :: _, [] => isFalse (by simp)
  | a :: as, b :: bs =>
      match Ty.decEq a b, Ty.decEqList as bs with
      | isTrue first, isTrue rest => isTrue (by rw [first, rest])
      | isFalse differ, _ => isFalse (fun equal => differ (List.cons.inj equal).1)
      | _, isFalse differ => isFalse (fun equal => differ (List.cons.inj equal).2)

end

instance : DecidableEq Ty := Ty.decEq

/-- A named type applied to arguments.  Without arguments it is the bare
constructor, so that a non-generic type has a single form. -/
def named (constructor : TypeName) (args : List Ty) : Ty :=
  if args.isEmpty then .con constructor else .app (.con constructor) args

/-- The constructor of a named type and the arguments it is applied to. -/
def head? : Ty → Option (TypeName × List Ty)
  | .con constructor => some (constructor, [])
  | .app (.con constructor) args => some (constructor, args)
  | _ => none

/-- The arguments of a named type; any other type has none. -/
def args (ty : Ty) : List Ty :=
  match ty.head? with
  | some (_, args) => args
  | none => []

@[simp] theorem head?_named (constructor : TypeName) (args : List Ty) :
    (named constructor args).head? = some (constructor, args) := by
  cases args <;> rfl

@[simp] theorem args_named (constructor : TypeName) (args : List Ty) :
    (named constructor args).args = args := by
  simp [Ty.args]

mutual

/-- The type with the spelling of every type parameter erased. -/
def erased : Ty → Ty
  | .var v => .var v
  | .con constructor => .con constructor
  | .app head args => .app head.erased (erasedList args)
  | .param p => .param { p with name := "" }
  | .array element => .array element.erased

/-- Erase the spellings in each type of a list. -/
def erasedList : List Ty → List Ty
  | [] => []
  | ty :: rest => ty.erased :: erasedList rest

end

@[simp] theorem erasedList_eq_map (types : List Ty) :
    erasedList types = types.map erased := by
  induction types with
  | nil => rfl
  | cons ty rest ih => simp [erasedList, ih]

/-- Two types are the same when only spellings of type parameters differ. -/
def Same (left right : Ty) : Prop := left.erased = right.erased

instance (left right : Ty) : Decidable (Same left right) :=
  inferInstanceAs (Decidable (left.erased = right.erased))

@[refl] theorem Same.refl (ty : Ty) : Same ty ty := rfl

theorem Same.symm {left right : Ty} (same : Same left right) : Same right left :=
  Eq.symm same

theorem Same.trans {first second third : Ty} (left : Same first second)
    (right : Same second third) : Same first third :=
  Eq.trans left right

mutual

/-- Whether some type parameter of a method occurs in the type. -/
def mentionsMethodParams : Ty → Bool
  | .var _ | .con _ => false
  | .app head args => head.mentionsMethodParams || anyMentionsMethodParams args
  | .param p => p.key.owner = .method
  | .array element => element.mentionsMethodParams

/-- Whether some type of the list mentions a type parameter of a method. -/
def anyMentionsMethodParams : List Ty → Bool
  | [] => false
  | ty :: rest => ty.mentionsMethodParams || anyMentionsMethodParams rest

end

/-- The type named `System.Object`. -/
def object : Ty := .con ⟨"System", "Object"⟩

/-- The type named `System.Void`. -/
def void : Ty := .con ⟨"System", "Void"⟩

/-- The type named `System.Int32`. -/
def int32 : Ty := .con ⟨"System", "Int32"⟩

/-- The type named `System.String`. -/
def string : Ty := .con ⟨"System", "String"⟩

/-- The type named `System.Boolean`. -/
def boolean : Ty := .con ⟨"System", "Boolean"⟩

end Ty

end MethodGroups
