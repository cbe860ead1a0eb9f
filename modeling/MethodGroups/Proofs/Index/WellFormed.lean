import MethodGroups.Proofs.Index.Keys
import MethodGroups.Proofs.Index.Parameters
import MethodGroups.Proofs.Index.Redirection
import Mathlib.Data.List.Nodup

/-!
# Well-formed indexes

An index is well formed when it is built step by step, registers no lookup key
twice, uses names that can be read off lookup keys, and writes every base in terms
of the deriving type's own parameters.  In such an index a named type refers to a
definition exactly when it is a use of it: the same name and one argument for each
type parameter.
-/

namespace MethodGroups

namespace TypeIndex

/-- An index that the lookups of the hierarchy can rely on. -/
structure WellFormed (index : TypeIndex) : Prop where
  built : index.Built
  distinctKeys : index.DistinctKeys
  plainName : ∀ type ∈ index.types, type.constructor.IsPlain
  /-- The name that a base starts with is plain; its arguments are free. -/
  plainBase : ∀ type ∈ index.types, ∀ base ∈ type.base, ∀ named ∈ base.head?, named.1.IsPlain
  ownBase : ∀ type ∈ index.types, ∀ base ∈ type.base, ∀ p ∈ base.params, type.Owns p

/-- Every method mentions only parameters of its declaring type and of itself. -/
def MethodsScoped (index : TypeIndex) : Prop :=
  ∀ method ∈ index.methods, ∀ type ∈ index.type? method.declaring, method.ScopedIn type

instance (index : TypeIndex) : Decidable index.MethodsScoped :=
  inferInstanceAs (Decidable
    (∀ method ∈ index.methods, ∀ type ∈ index.type? method.declaring, method.ScopedIn type))

/-- Only a use of a definition refers to it, if the names are plain. -/
theorem isUse_of_use? {index : TypeIndex}
    (plainNames : ∀ type ∈ index.types, type.constructor.IsPlain) {ty : Ty}
    (plain : ∀ named ∈ ty.head?, named.1.IsPlain) {type : TypeDef} {args : List Ty}
    (found : index.use? ty = some (type, args)) :
    type ∈ index.types ∧ type.IsUse ty ∧ ty.args = args := by
  simp only [use?, Option.bind_eq_bind, Option.bind_eq_some_iff, Option.pure_def,
    Option.some.injEq] at found
  obtain ⟨⟨constructor, useArgs⟩, named, _, lookup, same⟩ := found
  cases same
  obtain ⟨known, key⟩ := mem_of_findKey? lookup
  obtain ⟨rfl, arity⟩ := lookupKey_inj (plainNames type known) (plain _ named) key
  exact ⟨known, TypeDef.IsUse.of_head? named arity.symm⟩

end TypeIndex

/-! ## Lookups in an unambiguous index -/

/-- An index that is built step by step and registers no lookup key twice.  Its names and
bases may be written in any way. -/
structure TypeIndex.Unambiguous (index : TypeIndex) : Prop where
  built : index.Built
  distinctKeys : index.DistinctKeys

namespace TypeIndex.Unambiguous

variable {index : TypeIndex} (unambiguous : index.Unambiguous)

include unambiguous

theorem consistent : index.Consistent := unambiguous.built.consistent

theorem acyclic : index.Acyclic := unambiguous.built.acyclic unambiguous.distinctKeys

theorem findKey?_key {type : TypeDef} (known : type ∈ index.types) :
    index.findKey? type.key = some type := by
  cases lookup : index.findKey? type.key with
  | none =>
      have missing := List.find?_eq_none.mp lookup type (List.mem_reverse.mpr known)
      simp at missing
  | some found =>
      obtain ⟨foundKnown, key⟩ := mem_of_findKey? lookup
      rw [List.inj_on_of_nodup_map unambiguous.distinctKeys foundKnown known key]

/-- The open form of a type refers to the type. -/
theorem defOf?_selfTy {type : TypeDef} (known : type ∈ index.types) :
    index.defOf? type.selfTy = some type := by
  have named := (TypeDef.IsUse.selfTy type).head
  have key : lookupKey type.constructor.qualified type.selfTy.args.length = type.key := by
    rw [(TypeDef.IsUse.selfTy type).arity]
    rfl
  rw [index.defOf?_of_head? named, key]
  exact unambiguous.findKey?_key known

/-- A use of a definition refers to it. -/
theorem use?_of_isUse {type : TypeDef} {use : Ty} (known : type ∈ index.types)
    (isUse : type.IsUse use) : index.use? use = some (type, use.args) := by
  have lookup : index.find? type.constructor.qualified use.args.length = some type := by
    rw [isUse.arity]
    exact unambiguous.findKey?_key known
  simp [use?, isUse.head, lookup]

theorem defOf?_of_isUse {type : TypeDef} {use : Ty} (known : type ∈ index.types)
    (isUse : type.IsUse use) : index.defOf? use = some type := by
  rw [defOf?, unambiguous.use?_of_isUse known isUse]
  rfl

end TypeIndex.Unambiguous

/-! ## Names that can be read off lookup keys -/

/-- An unambiguous index whose names, and those that its bases start with, are plain.  The
arguments of the bases are free. -/
structure TypeIndex.WellNamed (index : TypeIndex) : Prop extends index.Unambiguous where
  plainName : ∀ type ∈ index.types, type.constructor.IsPlain
  plainBase : ∀ type ∈ index.types, ∀ base ∈ type.base, ∀ named ∈ base.head?, named.1.IsPlain

/-- A base is a use of the definition that it names. -/
theorem TypeIndex.WellNamed.isUse_base {index : TypeIndex} (wellNamed : index.WellNamed)
    {type base : TypeDef} {written : Ty} (known : type ∈ index.types)
    (isBase : type.base = some written) (names : index.defOf? written = some base) :
    base.IsUse written := by
  rw [defOf?, Option.map_eq_some_iff] at names
  obtain ⟨⟨_, args⟩, isUse, rfl⟩ := names
  exact (isUse_of_use? wellNamed.plainName (wellNamed.plainBase type known written isBase)
    isUse).2.1

/-! ## Lookups in a well-formed index -/

namespace TypeIndex.WellFormed

variable {index : TypeIndex} (wellFormed : index.WellFormed)

include wellFormed

theorem unambiguous : index.Unambiguous := ⟨wellFormed.built, wellFormed.distinctKeys⟩

theorem wellNamed : index.WellNamed :=
  ⟨wellFormed.unambiguous, wellFormed.plainName, wellFormed.plainBase⟩

theorem consistent : index.Consistent := wellFormed.built.consistent

theorem acyclic : index.Acyclic := wellFormed.built.acyclic wellFormed.distinctKeys

/-- A plain name that no definition has is not found with any number of type parameters. -/
theorem find?_eq_none {constructor : TypeName} (plain : constructor.IsPlain)
    (unused : ∀ type ∈ index.types, type.constructor ≠ constructor) (arity : Nat) :
    index.find? constructor.qualified arity = none := by
  apply List.find?_eq_none.mpr
  intro type known hasKey
  rw [List.mem_reverse] at known
  have keys : type.key = lookupKey constructor.qualified arity := by simpa using hasKey
  exact unused type known (lookupKey_inj (wellFormed.plainName type known) plain keys).1

end TypeIndex.WellFormed

/-! ## A well-formed index -/

/-- Setting a base is a step if the definition with its id accepts the base. -/
theorem TypeIndex.Built.rebase {index : TypeIndex} (built : index.Built) (id : TypeId) (base : Ty)
    (accepted : ∃ type ∈ index.type? id, type.id = id ∧
      index.setBase type base = .ok (index.modifyType id (TypeIndex.rebase base))) :
    (index.modifyType id (TypeIndex.rebase base)).Built := by
  obtain ⟨type, known, rfl, accepted⟩ := accepted
  exact built.step (.setBase known accepted)

namespace Containers

/-- The classes `Box<T>`, `Crate<U>` and `Shelf`, still without a hierarchy. -/
def classes : TypeIndex :=
  (((TypeIndex.empty.addClass ⟨"System", "Object"⟩ []).addClass ⟨"", "Box"⟩ ["T"]).addClass
    ⟨"", "Crate"⟩ ["U"]).addClass ⟨"", "Shelf"⟩ []

def boxed : Ty := .param ⟨⟨.type ⟨1⟩, 0⟩, "T"⟩

def crated : Ty := .param ⟨⟨.type ⟨2⟩, 0⟩, "U"⟩

def crateBase : Ty := .named ⟨"", "Box"⟩ [crated]

def shelfBase : Ty := .named ⟨"", "Crate"⟩ [.object]

/-- A method that takes an item of the given type and a label of any type. -/
def put (item : Ty) (virtuality : Virtuality) : MethodSig where
  name := "Put"
  typeParams := ["V"]
  params := [⟨"item", item, false⟩, ⟨"label", .param ⟨⟨.method, 0⟩, "V"⟩, false⟩]
  ret := .void
  isStatic := false
  virtuality := virtuality

/-- `Box<T>` introduces `Put`, `Crate<U> : Box<U>` overrides it, and
`Shelf : Crate<System.Object>` inherits both.  `Sink<A, B>` is a delegate that takes
an `A` and a `B`. -/
def index : TypeIndex :=
  let crates := classes.modifyType ⟨2⟩ (TypeIndex.rebase crateBase)
  let shelves := crates.modifyType ⟨3⟩ (TypeIndex.rebase shelfBase)
  let puts := (shelves.addMethod ⟨1⟩ (put boxed .virtual)).addMethod ⟨2⟩ (put crated .override)
  puts.addDelegate ⟨"", "Sink"⟩ ["A", "B"] fun type => ⟨type.tyParams.map .param, .void⟩

def box : TypeDef := ⟨⟨1⟩, ⟨"", "Box"⟩, ["T"], some .object, .ordinary, [⟨0⟩]⟩

def crate : TypeDef := ⟨⟨2⟩, ⟨"", "Crate"⟩, ["U"], some crateBase, .ordinary, [⟨1⟩]⟩

def shelf : TypeDef := ⟨⟨3⟩, ⟨"", "Shelf"⟩, [], some shelfBase, .ordinary, []⟩

def boxPut : MethodDef := { put boxed .virtual with id := ⟨0⟩, declaring := ⟨1⟩ }

def cratePut : MethodDef := { put crated .override with id := ⟨1⟩, declaring := ⟨2⟩ }

theorem built : index.Built := by
  have classesBuilt : classes.Built :=
    .step (.step (.step (.step .empty (.addClass ..)) (.addClass ..)) (.addClass ..))
      (.addClass ..)
  have crates := classesBuilt.rebase ⟨2⟩ crateBase (by decide +kernel)
  have shelves := crates.rebase ⟨3⟩ shelfBase (by decide +kernel)
  have boxPut := shelves.step
    (@TypeIndex.Step.addMethod _ ⟨1⟩ (by decide +kernel) (put boxed .virtual))
  have cratePut := boxPut.step
    (@TypeIndex.Step.addMethod _ ⟨2⟩ (by decide +kernel) (put crated .override))
  exact cratePut.step (.addDelegate _ ⟨"", "Sink"⟩ ["A", "B"] fun type =>
    ⟨type.tyParams.map .param, .void⟩)

theorem wellFormed : index.WellFormed where
  built := built
  distinctKeys := by
    rw [TypeIndex.DistinctKeys]
    decide +kernel
  plainName := by decide +kernel
  plainBase := by decide +kernel
  ownBase := by decide +kernel

theorem methodsScoped : index.MethodsScoped := by decide +kernel

end Containers

end MethodGroups
