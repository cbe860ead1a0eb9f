import MethodGroups.Index.Build

/-!
# Indexes that are built step by step

Every index grows from the empty one by classes, delegates, bases and methods.
The facts collected in `Consistent` hold of the empty index and are kept by every
step, so they hold of every index that can be built: ids are positions, methods and
the types that declare them know each other, and every base names a known type.
-/

namespace MethodGroups

namespace TypeIndex

/-- One change of an index.  Bases are given to known types and methods are declared
on known types; names may be registered again. -/
inductive Step : TypeIndex → TypeIndex → Prop where
  | addClass (index : TypeIndex) (constructor : TypeName) (typeParams : List String) :
      Step index (index.addClass constructor typeParams)
  | addDelegate (index : TypeIndex) (constructor : TypeName) (typeParams : List String)
      (signature : TypeDef → Signature) :
      Step index (index.addDelegate constructor typeParams signature)
  | setBase {index next : TypeIndex} {type : TypeDef} {base : Ty}
      (known : index.type? type.id = some type)
      (accepted : index.setBase type base = .ok next) : Step index next
  | addMethod {index : TypeIndex} {declaring : TypeId}
      (known : (index.type? declaring).isSome) (sig : MethodSig) :
      Step index (index.addMethod declaring sig)

/-- An index that can be built. -/
inductive Built : TypeIndex → Prop where
  | empty : Built .empty
  | step {before after : TypeIndex} (built : Built before) (step : Step before after) :
      Built after

/-- What every step keeps. -/
structure Consistent (index : TypeIndex) : Prop where
  typeId : ∀ (position : Nat) (type : TypeDef), index.types[position]? = some type →
    type.id = ⟨position⟩
  methodId : ∀ (position : Nat) (method : MethodDef), index.methods[position]? = some method →
    method.id = ⟨position⟩
  /-- A type lists methods that it declares. -/
  declares : ∀ type ∈ index.types, ∀ id ∈ type.methods, ∃ method,
    index.method? id = some method ∧ method.declaring = type.id
  /-- A method is listed by the type that declares it. -/
  listed : ∀ method ∈ index.methods, ∃ type,
    index.type? method.declaring = some type ∧ method.id ∈ type.methods
  baseKnown : ∀ type ∈ index.types, ∀ base, type.base = some base →
    (index.defOf? base).isSome

namespace Consistent

variable {index : TypeIndex} (consistent : index.Consistent)

include consistent

theorem type?_id {type : TypeDef} (known : type ∈ index.types) :
    index.type? type.id = some type := by
  obtain ⟨position, bound, found⟩ := List.mem_iff_getElem.mp known
  have found? : index.types[position]? = some type := by
    rw [List.getElem?_eq_getElem bound, found]
  rw [type?, consistent.typeId position type found?]
  exact found?

theorem eq_of_id {left right : TypeDef} (leftKnown : left ∈ index.types)
    (rightKnown : right ∈ index.types) (ids : left.id = right.id) : left = right := by
  have found := consistent.type?_id leftKnown
  rw [ids, consistent.type?_id rightKnown] at found
  exact (Option.some.inj found).symm

theorem id_of_type? {id : TypeId} {type : TypeDef} (found : index.type? id = some type) :
    type.id = id :=
  consistent.typeId id.index type found

theorem method?_id {method : MethodDef} (known : method ∈ index.methods) :
    index.method? method.id = some method := by
  obtain ⟨position, bound, found⟩ := List.mem_iff_getElem.mp known
  have found? : index.methods[position]? = some method := by
    rw [List.getElem?_eq_getElem bound, found]
  rw [method?, consistent.methodId position method found?]
  exact found?

/-- The methods of a type are the ones that declare it. -/
theorem mem_methodsOf {type : TypeDef} (known : type ∈ index.types) {method : MethodDef} :
    method ∈ index.methodsOf type ↔ method ∈ index.methods ∧ method.declaring = type.id := by
  rw [methodsOf, List.mem_filterMap]
  constructor
  · intro holds
    rcases holds with ⟨id, listed, found⟩
    obtain ⟨declared, declaredFound, declaring⟩ := consistent.declares type known id listed
    cases found.symm.trans declaredFound
    exact ⟨List.mem_of_getElem? found, declaring⟩
  · intro holds
    rcases holds with ⟨methodKnown, declaring⟩
    obtain ⟨owner, ownerFound, listed⟩ := consistent.listed method methodKnown
    rw [declaring, consistent.type?_id known] at ownerFound
    cases ownerFound
    exact ⟨method.id, listed, consistent.method?_id methodKnown⟩

end Consistent

/-! ## What a step does -/

/-- A change that touches nothing but the base and the methods of a definition. -/
structure KeepsDefinition (change : TypeDef → TypeDef) : Prop where
  id : ∀ type, (change type).id = type.id
  key : ∀ type, (change type).key = type.key

/-- The definition with another base. -/
def rebase (base : Ty) (type : TypeDef) : TypeDef := { type with base := some base }

/-- The definition with one more method. -/
def listMethod (id : MethodId) (type : TypeDef) : TypeDef :=
  { type with methods := type.methods ++ [id] }

theorem keepsDefinition_rebase (base : Ty) : KeepsDefinition (rebase base) :=
  ⟨fun _ => rfl, fun _ => rfl⟩

theorem keepsDefinition_listMethod (id : MethodId) : KeepsDefinition (listMethod id) :=
  ⟨fun _ => rfl, fun _ => rfl⟩

theorem mem_of_findKey? {index : TypeIndex} {key : String} {type : TypeDef}
    (found : index.findKey? key = some type) : type ∈ index.types ∧ type.key = key :=
  ⟨List.mem_reverse.mp (List.mem_of_find?_eq_some found), by
    simpa using List.find?_some found⟩

/-- The definition that a type refers to is the one found under its key. -/
theorem defOf?_eq (index : TypeIndex) (ty : Ty) :
    index.defOf? ty = ty.head?.bind fun (constructor, args) =>
      index.findKey? (lookupKey constructor.qualified args.length) := by
  simp only [defOf?, use?, find?]
  cases ty.head? with
  | none => rfl
  | some named =>
      obtain ⟨constructor, args⟩ := named
      cases lookup : index.findKey? (lookupKey constructor.qualified args.length) <;>
        simp [lookup]

theorem defOf?_of_head? (index : TypeIndex) {ty : Ty} {constructor : TypeName} {args : List Ty}
    (named : ty.head? = some (constructor, args)) :
    index.defOf? ty = index.findKey? (lookupKey constructor.qualified args.length) := by
  rw [defOf?_eq, named]
  rfl

theorem mem_of_defOf? {index : TypeIndex} {ty : Ty} {type : TypeDef}
    (found : index.defOf? ty = some type) : type ∈ index.types := by
  rw [defOf?_eq, Option.bind_eq_some_iff] at found
  obtain ⟨_, -, lookup⟩ := found
  exact (mem_of_findKey? lookup).1

/-- Every step adds a definition that has no methods and at most the base
`System.Object`, gives a base from which the type itself cannot be reached, or adds
a method. -/
theorem Step.effect {before after : TypeIndex} (step : Step before after) :
    (∃ type, after = before.push type ∧ type.id = before.nextType ∧ type.methods = [] ∧
      ∀ base, type.base = some base →
        base = .object ∧ (before.findKey? "System.Object").isSome) ∨
    (∃ type base start, before.type? type.id = some type ∧
      before.defOf? base = some start ∧
      type.id ∉ (before.baseChain before.types.length start).map TypeDef.id ∧
      after = before.modifyType type.id (rebase base)) ∨
    (∃ declaring sig, (before.type? declaring).isSome ∧
      after = before.addMethod declaring sig) := by
  cases step with
  | addClass constructor typeParams =>
      refine .inl ⟨_, rfl, rfl, rfl, ?_⟩
      intro base isBase
      rw [Option.map_eq_some_iff] at isBase
      obtain ⟨found, lookup, rfl⟩ := isBase
      exact ⟨rfl, by rw [lookup]; rfl⟩
  | addDelegate constructor typeParams signature =>
      refine .inl ⟨_, rfl, rfl, rfl, ?_⟩
      intro base isBase
      cases isBase
  | @setBase _ type base known accepted =>
      rw [TypeIndex.setBase] at accepted
      split at accepted
      case h_1 => cases accepted
      case h_2 start found =>
        split at accepted
        case isTrue => cases accepted
        case isFalse fresh =>
          cases accepted
          exact .inr (.inl ⟨type, base, start, known, found, fresh, rfl⟩)
  | addMethod known sig => exact .inr (.inr ⟨_, sig, known, rfl⟩)

/-! ## Looking up types after a step -/

theorem findKey?_push (index : TypeIndex) (type : TypeDef) (key : String) :
    (index.push type).findKey? key =
      if type.key = key then some type else index.findKey? key := by
  by_cases same : type.key = key <;> simp [push, findKey?, same]

private theorem getElem?_append_singleton {α : Type} (items : List α) (last : α)
    (position : Nat) :
    (items ++ [last])[position]? =
      if position = items.length then some last else items[position]? := by
  rcases Nat.lt_trichotomy position items.length with before | rfl | after
  · rw [List.getElem?_append_left before, if_neg (Nat.ne_of_lt before)]
  · simp
  · rw [if_neg (Nat.ne_of_gt after), List.getElem?_eq_none (Nat.le_of_lt after)]
    exact List.getElem?_eq_none (by rw [List.length_append]; exact after)

theorem type?_push (index : TypeIndex) (type : TypeDef) (id : TypeId) :
    (index.push type).type? id =
      if id = index.nextType then some type else index.type? id := by
  rcases id with ⟨position⟩
  simp only [push, type?, nextType, getElem?_append_singleton, TypeId.mk.injEq]

theorem type?_modifyType (index : TypeIndex) (changed : TypeId) (change : TypeDef → TypeDef)
    (id : TypeId) :
    (index.modifyType changed change).type? id =
      (index.type? id).map fun type => if id = changed then change type else type := by
  simp only [modifyType, type?]
  rw [List.getElem?_modify]
  cases index.types[id.index]? with
  | none => rfl
  | some type =>
      rcases id with ⟨position⟩
      rcases changed with ⟨target⟩
      by_cases same : target = position
      · simp [same]
      · simp [same, Ne.symm same]

theorem Consistent.modifyType_types {index : TypeIndex} (consistent : index.Consistent)
    (changed : TypeId) (change : TypeDef → TypeDef) :
    (index.modifyType changed change).types =
      index.types.map fun type => if type.id = changed then change type else type := by
  apply List.ext_getElem?
  intro position
  rw [modifyType, List.getElem?_modify, List.getElem?_map]
  cases found : index.types[position]? with
  | none => rfl
  | some type =>
      have ids := consistent.typeId position type found
      rcases changed with ⟨target⟩
      by_cases same : target = position
      · simp [same, ids]
      · simp [same, ids, Ne.symm same]

/-- A change that keeps the key of a definition is the only difference in what is
found under any key. -/
theorem Consistent.findKey?_modifyType {index : TypeIndex} (consistent : index.Consistent)
    (changed : TypeId) {change : TypeDef → TypeDef}
    (keepsKey : ∀ type, (change type).key = type.key) (key : String) :
    (index.modifyType changed change).findKey? key = (index.findKey? key).map fun type =>
      if type.id = changed then change type else type := by
  rw [findKey?]
  rw [consistent.modifyType_types, ← List.map_reverse, List.find?_map]
  congr 2
  funext type
  by_cases same : type.id = changed <;> simp [same, keepsKey]

theorem isSome_defOf?_push {index : TypeIndex} {ty : Ty} (known : (index.defOf? ty).isSome)
    (type : TypeDef) : ((index.push type).defOf? ty).isSome := by
  rw [defOf?_eq] at known ⊢
  cases named : ty.head? with
  | none => simp [named] at known
  | some use =>
      simp only [named, Option.bind_some] at known ⊢
      rw [findKey?_push]
      split
      · rfl
      · exact known

theorem Consistent.defOf?_modifyType {index : TypeIndex} (consistent : index.Consistent)
    (changed : TypeId) {change : TypeDef → TypeDef}
    (keepsKey : ∀ type, (change type).key = type.key) (ty : Ty) :
    (index.modifyType changed change).defOf? ty = (index.defOf? ty).map fun type =>
      if type.id = changed then change type else type := by
  rw [defOf?_eq, defOf?_eq]
  cases ty.head? with
  | none => rfl
  | some use => exact consistent.findKey?_modifyType changed keepsKey _

theorem defOf?_object (index : TypeIndex) :
    index.defOf? .object = index.findKey? "System.Object" := by
  rw [defOf?_eq]
  rfl

/-! ## Steps keep an index consistent -/

theorem Consistent.empty : Consistent .empty where
  typeId := by simp [TypeIndex.empty]
  methodId := by simp [TypeIndex.empty]
  declares := by simp [TypeIndex.empty]
  listed := by simp [TypeIndex.empty]
  baseKnown := by simp [TypeIndex.empty]

theorem type?_push_of_type? {index : TypeIndex} {id : TypeId} {found : TypeDef}
    (lookup : index.type? id = some found) (type : TypeDef) :
    (index.push type).type? id = some found := by
  have old : id ≠ index.nextType := by
    intro same
    subst same
    simp [type?, nextType] at lookup
  rw [type?_push, if_neg old, lookup]

theorem Consistent.push {index : TypeIndex} (consistent : index.Consistent) {type : TypeDef}
    (isNext : type.id = index.nextType) (noMethods : type.methods = [])
    (baseKnown : ∀ base, type.base = some base → (index.defOf? base).isSome) :
    (index.push type).Consistent where
  typeId := by
    intro position found lookup
    have seen := index.type?_push type ⟨position⟩
    rw [type?, lookup] at seen
    split at seen
    · next next =>
      cases seen
      rw [isNext, next]
    · exact consistent.typeId position found seen.symm
  methodId := consistent.methodId
  declares := by
    intro known membership id listed
    rcases List.mem_append.mp membership with old | new
    · exact consistent.declares known old id listed
    · cases List.mem_singleton.mp new
      rw [noMethods] at listed
      cases listed
  listed := by
    intro method known
    obtain ⟨owner, lookup, listed⟩ := consistent.listed method known
    exact ⟨owner, type?_push_of_type? lookup type, listed⟩
  baseKnown := by
    intro known membership base isBase
    apply isSome_defOf?_push
    rcases List.mem_append.mp membership with old | new
    · exact consistent.baseKnown known old base isBase
    · cases List.mem_singleton.mp new
      exact baseKnown base isBase

theorem Consistent.typeId_modifyType {index : TypeIndex} (consistent : index.Consistent)
    (changed : TypeId) {change : TypeDef → TypeDef} (keeps : KeepsDefinition change)
    (position : Nat) (type : TypeDef)
    (lookup : (index.modifyType changed change).types[position]? = some type) :
    type.id = ⟨position⟩ := by
  have seen := index.type?_modifyType changed change ⟨position⟩
  rw [type?, lookup] at seen
  obtain ⟨old, oldLookup, rfl⟩ := Option.map_eq_some_iff.mp seen.symm
  have ids := consistent.typeId position old oldLookup
  split
  · rw [keeps.id, ids]
  · exact ids

theorem Consistent.rebase {index : TypeIndex} (consistent : index.Consistent)
    {changed : TypeId} {base : Ty} (known : (index.defOf? base).isSome) :
    (index.modifyType changed (rebase base)).Consistent := by
  have keeps := keepsDefinition_rebase base
  have resolves : ∀ ty, (index.defOf? ty).isSome →
      ((index.modifyType changed (TypeIndex.rebase base)).defOf? ty).isSome := by
    intro ty found
    rw [consistent.defOf?_modifyType changed keeps.key, Option.isSome_map]
    exact found
  refine ⟨consistent.typeId_modifyType changed keeps, consistent.methodId, ?_, ?_, ?_⟩
  · intro type membership id listed
    rw [consistent.modifyType_types, List.mem_map] at membership
    obtain ⟨old, oldKnown, rfl⟩ := membership
    have oldListed : id ∈ old.methods := by split at listed <;> exact listed
    obtain ⟨method, found, declaring⟩ := consistent.declares old oldKnown id oldListed
    refine ⟨method, found, ?_⟩
    split <;> exact declaring
  · intro method methodKnown
    obtain ⟨owner, lookup, listed⟩ := consistent.listed method methodKnown
    rw [type?_modifyType, lookup]
    refine ⟨_, rfl, ?_⟩
    split <;> exact listed
  · intro type membership given isBase
    apply resolves
    rw [consistent.modifyType_types, List.mem_map] at membership
    obtain ⟨old, oldKnown, rfl⟩ := membership
    split at isBase
    · cases isBase
      exact known
    · exact consistent.baseKnown old oldKnown given isBase

theorem addMethod_types (index : TypeIndex) (declaring : TypeId) (sig : MethodSig) :
    (index.addMethod declaring sig).types =
      (index.modifyType declaring (listMethod index.nextMethod)).types := rfl

/-- The method that is added last. -/
def newMethod (index : TypeIndex) (declaring : TypeId) (sig : MethodSig) : MethodDef :=
  { sig with id := index.nextMethod, declaring }

theorem addMethod_methods (index : TypeIndex) (declaring : TypeId) (sig : MethodSig) :
    (index.addMethod declaring sig).methods =
      index.methods ++ [index.newMethod declaring sig] := rfl

theorem method?_addMethod (index : TypeIndex) (declaring : TypeId) (sig : MethodSig)
    (id : MethodId) :
    (index.addMethod declaring sig).method? id =
      if id = index.nextMethod then some (index.newMethod declaring sig)
      else index.method? id := by
  rcases id with ⟨position⟩
  simp only [method?, addMethod_methods, nextMethod, getElem?_append_singleton,
    MethodId.mk.injEq]

theorem method?_addMethod_of_method? {index : TypeIndex} {id : MethodId} {method : MethodDef}
    (lookup : index.method? id = some method) (declaring : TypeId) (sig : MethodSig) :
    (index.addMethod declaring sig).method? id = some method := by
  have old : id ≠ index.nextMethod := by
    intro same
    subst same
    simp [method?, nextMethod] at lookup
  rw [method?_addMethod, if_neg old, lookup]

theorem Consistent.addMethod {index : TypeIndex} (consistent : index.Consistent)
    {declaring : TypeId} (known : (index.type? declaring).isSome) (sig : MethodSig) :
    (index.addMethod declaring sig).Consistent := by
  have keeps := keepsDefinition_listMethod index.nextMethod
  have isNew : (index.addMethod declaring sig).method? index.nextMethod =
      some (index.newMethod declaring sig) := by
    rw [method?_addMethod, if_pos rfl]
  refine ⟨consistent.typeId_modifyType declaring keeps, ?_, ?_, ?_, ?_⟩
  · intro position method lookup
    have seen := index.method?_addMethod declaring sig ⟨position⟩
    rw [method?, lookup] at seen
    split at seen
    · next next =>
      cases seen
      exact next.symm
    · exact consistent.methodId position method seen.symm
  · intro type membership id listed
    rw [addMethod_types, consistent.modifyType_types, List.mem_map] at membership
    obtain ⟨old, oldKnown, rfl⟩ := membership
    by_cases declares : old.id = declaring
    · rw [if_pos declares] at listed ⊢
      rcases List.mem_append.mp listed with oldListed | new
      · obtain ⟨method, lookup, owner⟩ := consistent.declares old oldKnown id oldListed
        exact ⟨method, method?_addMethod_of_method? lookup declaring sig, owner⟩
      · cases List.mem_singleton.mp new
        exact ⟨_, isNew, declares.symm⟩
    · rw [if_neg declares] at listed ⊢
      obtain ⟨method, lookup, owner⟩ := consistent.declares old oldKnown id listed
      exact ⟨method, method?_addMethod_of_method? lookup declaring sig, owner⟩
  · intro method membership
    have lookupType := index.type?_modifyType declaring (listMethod index.nextMethod)
    rcases List.mem_append.mp membership with old | new
    · obtain ⟨owner, lookup, listed⟩ := consistent.listed method old
      have found := lookupType method.declaring
      rw [lookup] at found
      refine ⟨_, found, ?_⟩
      split
      · exact List.mem_append_left _ listed
      · exact listed
    · cases List.mem_singleton.mp new
      obtain ⟨owner, lookup⟩ := Option.isSome_iff_exists.mp known
      have found := lookupType declaring
      simp only [lookup, Option.map_some, if_true] at found
      refine ⟨_, found, ?_⟩
      exact List.mem_append_right _ (List.mem_singleton_self _)
  · intro type membership base isBase
    rw [addMethod_types, consistent.modifyType_types, List.mem_map] at membership
    obtain ⟨old, oldKnown, rfl⟩ := membership
    have oldBase : old.base = some base := by split at isBase <;> exact isBase
    have found := consistent.baseKnown old oldKnown base oldBase
    have resolves := consistent.defOf?_modifyType declaring keeps.key base
    have unchanged : (index.addMethod declaring sig).defOf? base =
        (index.modifyType declaring (listMethod index.nextMethod)).defOf? base := rfl
    rw [unchanged, resolves, Option.isSome_map]
    exact found

theorem Step.consistent {before after : TypeIndex} (step : Step before after)
    (consistent : before.Consistent) : after.Consistent := by
  rcases step.effect with ⟨type, rfl, isNext, noMethods, objectBase⟩ |
    ⟨type, base, start, -, found, -, rfl⟩ | ⟨declaring, sig, known, rfl⟩
  · apply consistent.push isNext noMethods
    intro base isBase
    obtain ⟨rfl, objectKnown⟩ := objectBase base isBase
    rw [defOf?_object]
    exact objectKnown
  · exact consistent.rebase (by rw [found]; rfl)
  · exact consistent.addMethod known sig

theorem Built.consistent {index : TypeIndex} (built : index.Built) : index.Consistent := by
  induction built with
  | empty => exact .empty
  | step _ step ih => exact step.consistent ih

theorem Built.foldl {index : TypeIndex} (built : index.Built) {Item : Type}
    {grow : TypeIndex → Item → TypeIndex} (steps : ∀ index item, Step index (grow index item))
    (items : List Item) : (items.foldl grow index).Built := by
  induction items generalizing index with
  | nil => exact built
  | cons item rest ih => exact ih (built.step (steps index item))

/-- The index of the core types is built by steps like any other. -/
theorem core_built : core.Built := by
  apply Built.foldl
  · apply Built.foldl
    · apply Built.foldl .empty
      intro index name
      exact .addClass index ⟨"System", name⟩ []
    · intro index arity
      exact .addDelegate index ..
  · intro index arity
    exact .addDelegate index ..

end TypeIndex

end MethodGroups
