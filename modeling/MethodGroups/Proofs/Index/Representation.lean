import MethodGroups.Proofs.Index.WellFormed
import Mathlib.Data.List.Nodup
import Mathlib.Logic.Function.Basic
import Mathlib.Logic.Relation

/-!
# How an index represents its definitions

While an index grows, ids are positions that keep what was declared under them, each type
lists its own methods in the order in which they were added, and a lookup key leads to the
definition that was registered under it last.  Keys are made of names, so a name leads to the
newest definition of this name if no name contains a character that keys are joined by.
-/

namespace MethodGroups

/-- The definition has this name and this number of type parameters. -/
def TypeDef.IsNamed (type : TypeDef) (constructor : TypeName) (arity : Nat) : Prop :=
  type.constructor = constructor ∧ type.typeParams.length = arity

namespace TypeIndex

/-! ## Ids keep what was declared -/

/-- In a later index the known ids have the names, type parameters and signatures that they
have now. -/
structure KeepsIds (before after : TypeIndex) : Prop where
  types : ∀ id type, before.type? id = some type → ∃ kept, after.type? id = some kept ∧
    kept.constructor = type.constructor ∧ kept.typeParams = type.typeParams ∧
    kept.kind = type.kind
  methods : ∀ id method, before.method? id = some method → after.method? id = some method

namespace KeepsIds

theorem refl (index : TypeIndex) : index.KeepsIds index where
  types _ type known := ⟨type, known, rfl, rfl, rfl⟩
  methods _ _ known := known

theorem trans {first second third : TypeIndex} (earlier : first.KeepsIds second)
    (later : second.KeepsIds third) : first.KeepsIds third where
  types := by
    intro id type known
    obtain ⟨between, isBetween, name, typeParams, kind⟩ := earlier.types id type known
    obtain ⟨kept, isKept, keptName, keptParams, keptKind⟩ := later.types id between isBetween
    exact ⟨kept, isKept, keptName.trans name, keptParams.trans typeParams, keptKind.trans kind⟩
  methods id method known := later.methods id method (earlier.methods id method known)

/-- A change of the base or of the list of methods declares nothing anew. -/
theorem modifyType (index : TypeIndex) (changed : TypeId) {change : TypeDef → TypeDef}
    (keeps : ∀ type, (change type).constructor = type.constructor ∧
      (change type).typeParams = type.typeParams ∧ (change type).kind = type.kind) :
    index.KeepsIds (index.modifyType changed change) where
  types := by
    intro id type known
    rw [type?_modifyType, known]
    refine ⟨_, rfl, ?_⟩
    split
    · exact keeps type
    · exact ⟨rfl, rfl, rfl⟩
  methods _ _ known := known

end KeepsIds

theorem Step.keepsIds {before after : TypeIndex} (step : Step before after) :
    before.KeepsIds after := by
  rcases step.effect with ⟨type, rfl, -⟩ | ⟨type, base, start, -, -, -, rfl⟩ |
    ⟨declaring, sig, -, rfl⟩
  · refine ⟨?_, fun _ _ known => known⟩
    intro id known lookup
    exact ⟨known, type?_push_of_type? lookup type, rfl, rfl, rfl⟩
  · exact .modifyType before type.id fun _ => ⟨rfl, rfl, rfl⟩
  · have listing : before.KeepsIds (before.modifyType declaring (listMethod before.nextMethod)) :=
      .modifyType before declaring fun _ => ⟨rfl, rfl, rfl⟩
    exact ⟨listing.types, fun id method lookup => method?_addMethod_of_method? lookup declaring sig⟩

theorem keepsIds_of_run {before after : TypeIndex} (run : Relation.ReflTransGen Step before after) :
    before.KeepsIds after := by
  induction run with
  | refl => exact .refl before
  | tail _ step ih => exact ih.trans step.keepsIds

theorem Built.run {before after : TypeIndex} (built : before.Built)
    (run : Relation.ReflTransGen Step before after) : after.Built := by
  induction run with
  | refl => exact built
  | tail _ step ih => exact ih.step step

/-! ## Types list their methods in order -/

/-- Every type lists its methods by increasing ids. -/
def ListsInOrder (index : TypeIndex) : Prop :=
  ∀ type ∈ index.types, type.methods.Pairwise fun first second => first.index < second.index

theorem Step.listsInOrder {before after : TypeIndex} (step : Step before after)
    (consistent : before.Consistent) (inOrder : before.ListsInOrder) : after.ListsInOrder := by
  rcases step.effect with ⟨type, rfl, -, noMethods, -⟩ | ⟨type, base, start, -, -, -, rfl⟩ |
    ⟨declaring, sig, -, rfl⟩
  · intro known membership
    rcases List.mem_append.mp membership with old | new
    · exact inOrder known old
    · cases List.mem_singleton.mp new
      rw [noMethods]
      exact .nil
  · intro known membership
    rw [consistent.modifyType_types, List.mem_map] at membership
    obtain ⟨old, oldKnown, rfl⟩ := membership
    split <;> exact inOrder old oldKnown
  · intro known membership
    rw [addMethod_types, consistent.modifyType_types, List.mem_map] at membership
    obtain ⟨old, oldKnown, rfl⟩ := membership
    split
    · -- The new id is greater than all known ids, and only known ids are listed.
      refine List.pairwise_append.mpr ⟨inOrder old oldKnown, List.pairwise_singleton _ _, ?_⟩
      intro listed isListed new isNew
      cases List.mem_singleton.mp isNew
      obtain ⟨method, found, -⟩ := consistent.declares old oldKnown listed isListed
      exact (List.getElem?_eq_some_iff.mp found).1
    · exact inOrder old oldKnown

theorem Built.listsInOrder {index : TypeIndex} (built : index.Built) : index.ListsInOrder := by
  induction built with
  | empty => simp [ListsInOrder, TypeIndex.empty]
  | step built step ih => exact step.listsInOrder built.consistent ih

/-- A method is listed once by the type that declares it, and by no other one. -/
theorem Consistent.count_methods {index : TypeIndex} (consistent : index.Consistent)
    (inOrder : index.ListsInOrder) {method : MethodDef} (known : method ∈ index.methods)
    {type : TypeDef} (typeKnown : type ∈ index.types) :
    type.methods.count method.id = if type.id = method.declaring then 1 else 0 := by
  have distinct : type.methods.Nodup := (inOrder type typeKnown).imp fun lower same =>
    Nat.ne_of_lt lower (congrArg MethodId.index same)
  rw [distinct.count]
  have listedIff : method.id ∈ type.methods ↔ type.id = method.declaring := by
    constructor
    · intro isListed
      obtain ⟨found, lookup, declaring⟩ := consistent.declares type typeKnown _ isListed
      rw [consistent.method?_id known] at lookup
      cases lookup
      exact declaring.symm
    · intro declares
      obtain ⟨owner, lookup, isListed⟩ := consistent.listed method known
      rw [← declares, consistent.type?_id typeKnown] at lookup
      cases lookup
      exact isListed
  simp only [listedIff]

/-! ## The table of lookup keys -/

/-- A table that is kept while the index grows: each definition is entered under its lookup
key when it is added, in the place of any earlier one. -/
inductive Tabled : TypeIndex → (String → Option TypeId) → Prop where
  | empty : Tabled .empty fun _ => none
  | add {before : TypeIndex} {table : String → Option TypeId} (tabled : Tabled before table)
      {type : TypeDef} (step : Step before (before.push type)) :
      Tabled (before.push type) (Function.update table type.key (some type.id))
  | keep {before after : TypeIndex} {table : String → Option TypeId}
      (tabled : Tabled before table) (step : Step before after)
      (addsNoType : after.types.length = before.types.length) : Tabled after table

namespace Tabled

variable {index : TypeIndex} {table : String → Option TypeId}

theorem built (tabled : Tabled index table) : index.Built := by
  induction tabled with
  | empty => exact .empty
  | add _ step ih => exact ih.step step
  | keep _ step _ ih => exact ih.step step

/-- A change that keeps ids and keys keeps what a key leads to. -/
theorem map_findKey?_modifyType (consistent : index.Consistent) (changed : TypeId)
    {change : TypeDef → TypeDef} (keeps : KeepsDefinition change) (key : String) :
    ((index.modifyType changed change).findKey? key).map TypeDef.id =
      (index.findKey? key).map TypeDef.id := by
  rw [consistent.findKey?_modifyType changed keeps.key, Option.map_map]
  congr 1
  funext type
  simp only [Function.comp_apply]
  split
  · exact keeps.id type
  · rfl

/-- The table leads to what the index finds. -/
theorem lookup (tabled : Tabled index table) (key : String) :
    table key = (index.findKey? key).map TypeDef.id := by
  induction tabled with
  | empty => rfl
  | @add before table _ type _ ih =>
      rw [findKey?_push, Function.update_apply]
      by_cases same : key = type.key
      · rw [if_pos same, if_pos same.symm]
        rfl
      · rw [if_neg same, if_neg (Ne.symm same), ih]
  | @keep before after table tabled step addsNoType ih =>
      have consistent := tabled.built.consistent
      rw [ih]
      rcases step.effect with ⟨type, rfl, -⟩ | ⟨type, base, start, -, -, -, rfl⟩ |
        ⟨declaring, sig, -, rfl⟩
      · simp [push] at addsNoType
      · exact (map_findKey?_modifyType consistent type.id (keepsDefinition_rebase base) key).symm
      · exact (map_findKey?_modifyType consistent declaring (keepsDefinition_listMethod _) key).symm

end Tabled

theorem Built.exists_tabled {index : TypeIndex} (built : index.Built) :
    ∃ table, Tabled index table := by
  induction built with
  | empty => exact ⟨_, .empty⟩
  | @step before after _ step ih =>
      obtain ⟨table, tabled⟩ := ih
      rcases step.effect with ⟨type, rfl, -⟩ | ⟨type, base, start, -, -, -, rfl⟩ |
        ⟨declaring, sig, -, rfl⟩
      · exact ⟨_, tabled.add step⟩
      · exact ⟨table, tabled.keep step (by simp [modifyType])⟩
      · exact ⟨table, tabled.keep step (by simp [TypeIndex.addMethod, modifyType])⟩

/-! ## Names lead to the newest definition -/

/-- The definition has the name and the number of type parameters, and none that was added
later has both. -/
def IsNewest (index : TypeIndex) (constructor : TypeName) (arity : Nat) (type : TypeDef) : Prop :=
  ∃ older newer, index.types = older ++ type :: newer ∧ type.IsNamed constructor arity ∧
    ∀ later ∈ newer, ¬ later.IsNamed constructor arity

/-- A name refers to the newest of its definitions, and to nothing only if it has none. -/
structure NamesNewest (index : TypeIndex) (ty : Ty) (constructor : TypeName) (arity : Nat) :
    Prop where
  found : ∀ type, index.defOf? ty = some type ↔ index.IsNewest constructor arity type
  missing : index.defOf? ty = none ↔ ∀ type ∈ index.types, ¬ type.IsNamed constructor arity

theorem namesNewest {index : TypeIndex}
    (plainNames : ∀ type ∈ index.types, type.constructor.IsPlain)
    {ty : Ty} {constructor : TypeName} {args : List Ty}
    (named : ty.head? = some (constructor, args)) (plain : constructor.IsPlain) :
    index.NamesNewest ty constructor args.length := by
  have key_iff : ∀ type ∈ index.types,
      (type.key = lookupKey constructor.qualified args.length ↔
        type.IsNamed constructor args.length) := by
    intro type known
    constructor
    · exact lookupKey_inj (plainNames type known) plain
    · intro isNamed
      rw [TypeDef.key, TypeDef.qualified, isNamed.1, isNamed.2]
  constructor
  · intro type
    rw [index.defOf?_of_head? named, findKey?, List.find?_eq_some_iff_append]
    simp only [decide_eq_true_eq, Bool.not_eq_true', decide_eq_false_iff_not]
    constructor
    · intro holds
      rcases holds with ⟨hasKey, newer, older, split, passed⟩
      have types : index.types = older.reverse ++ type :: newer.reverse := by
        rw [← List.reverse_reverse index.types, split]
        simp
      refine ⟨older.reverse, newer.reverse, types, (key_iff type (by simp [types])).mp hasKey, ?_⟩
      intro later isLater isNamed
      exact passed later (List.mem_reverse.mp isLater)
        ((key_iff later (by simp [types, isLater])).mpr isNamed)
    · intro holds
      rcases holds with ⟨older, newer, types, isNamed, passed⟩
      refine ⟨(key_iff type (by simp [types])).mpr isNamed, newer.reverse, older.reverse,
        by simp [types], ?_⟩
      intro later isLater hasKey
      have isNewer := List.mem_reverse.mp isLater
      exact passed later isNewer ((key_iff later (by simp [types, isNewer])).mp hasKey)
  · rw [index.defOf?_of_head? named, findKey?, List.find?_eq_none]
    simp only [List.mem_reverse, decide_eq_true_eq]
    exact forall₂_congr fun type known => not_congr (key_iff type known)

/-! ## Runs -/

/-- How an index represents the definitions that were added to it. -/
structure Represents (index : TypeIndex) : Prop where
  typeId : ∀ (position : Nat) (type : TypeDef), index.types[position]? = some type →
    type.id = ⟨position⟩
  methodId : ∀ (position : Nat) (method : MethodDef), index.methods[position]? = some method →
    method.id = ⟨position⟩
  /-- A method is listed once by its declaring type, and by no other type. -/
  listed : ∀ method ∈ index.methods, ∃ declaring ∈ index.types, declaring.id = method.declaring ∧
    ∀ type ∈ index.types, type.methods.count method.id = if type.id = declaring.id then 1 else 0
  /-- Nothing but methods is listed. -/
  listsMethods : ∀ type ∈ index.types, ∀ id ∈ type.methods, ∃ method ∈ index.methods,
    method.id = id
  inOrder : index.ListsInOrder
  tabled : ∃ table, Tabled index table
  table : ∀ table, Tabled index table → ∀ key, table key = (index.findKey? key).map TypeDef.id
  names : (∀ type ∈ index.types, type.constructor.IsPlain) →
    ∀ ty constructor args, ty.head? = some (constructor, args) → constructor.IsPlain →
      index.NamesNewest ty constructor args.length

/-- Along every run from the empty index or from the core types, with names registered again
or not, ids are positions, each method is listed once and in order where it is declared, the
table of keys and the names lead to the newest definitions, and ids keep what was declared
under them. -/
theorem run_represents {start index : TypeIndex} (isStart : start = .empty ∨ start = .core)
    (run : Relation.ReflTransGen Step start index) :
    index.Represents ∧
      ∀ later, Relation.ReflTransGen Step index later → index.KeepsIds later := by
  have startBuilt : start.Built := by
    rcases isStart with rfl | rfl
    · exact .empty
    · exact core_built
  have built := startBuilt.run run
  have consistent := built.consistent
  refine ⟨⟨consistent.typeId, consistent.methodId, ?_, ?_, built.listsInOrder,
    built.exists_tabled, fun _ tabled => tabled.lookup, ?_⟩, fun _ => keepsIds_of_run⟩
  · intro method known
    obtain ⟨declaring, lookup, -⟩ := consistent.listed method known
    have ids := consistent.id_of_type? lookup
    refine ⟨declaring, List.mem_of_getElem? lookup, ids, ?_⟩
    intro type typeKnown
    rw [ids]
    exact consistent.count_methods built.listsInOrder known typeKnown
  · intro type known id isListed
    obtain ⟨method, lookup, -⟩ := consistent.declares type known id isListed
    exact ⟨method, List.mem_of_getElem? lookup, consistent.methodId id.index method lookup⟩
  · intro plainNames ty constructor args named plain
    exact namesNewest plainNames named plain

end TypeIndex

namespace Containers

/-- The core types, a method of `System.Int32`, and then a second class of this name. -/
def secondInt : TypeIndex :=
  (TypeIndex.core.addMethod ⟨2⟩ (put .int32 .none)).addClass ⟨"System", "Int32"⟩ []

/-- The name `System.Int32` leads to the class that was added last, and the method is still
listed by the first one alone. -/
theorem represents_secondInt :
    Relation.ReflTransGen TypeIndex.Step .core secondInt ∧
      (∃ type, secondInt.defOf? .int32 = some type ∧ type.id = ⟨15⟩) ∧
      ∃ declaring ∈ secondInt.types, declaring.id = ⟨2⟩ ∧ ∀ type ∈ secondInt.types,
        type.methods.count ⟨0⟩ = if type.id = declaring.id then 1 else 0 := by
  have run : Relation.ReflTransGen TypeIndex.Step .core secondInt := by
    refine .tail (.single ?_) (.addClass _ ⟨"System", "Int32"⟩ [])
    exact .addMethod (by decide +kernel) (put .int32 .none)
  obtain ⟨represents, -⟩ := TypeIndex.run_represents (.inr rfl) run
  refine ⟨run, ?_, ?_⟩
  · have names := represents.names (by decide +kernel) .int32 ⟨"System", "Int32"⟩ [] rfl
      (by decide)
    refine ⟨⟨⟨15⟩, ⟨"System", "Int32"⟩, [], some .object, .ordinary, []⟩,
      (names.found _).mpr ?_, rfl⟩
    exact ⟨secondInt.types.take 15, [], by decide +kernel, ⟨rfl, rfl⟩, by simp⟩
  · exact represents.listed { put .int32 .none with id := ⟨0⟩, declaring := ⟨2⟩ }
      (by decide +kernel)

end Containers

end MethodGroups
