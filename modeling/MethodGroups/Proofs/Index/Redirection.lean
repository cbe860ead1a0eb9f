import MethodGroups.Proofs.Index.Acyclic

/-!
# What the steps do to the hierarchy

A base is kept as it is written and looked up again on every walk.  So a type that is
added under a key takes the place of the type that was found there: whatever derived
from the old type derives from the new one.  A base that is set changes the base of one
type, and a method changes none.

A type without a base closes no cycle.  Setting a base closes one exactly if the base
leads back to the type.  A class whose base is `System.Object` is a type without a base
that is then given one, so it closes a cycle exactly if it takes the place of
`System.Object` or of something above it.
-/

namespace MethodGroups

namespace TypeIndex

/-! ## The base of a type after a step -/

theorem type?_nextType (index : TypeIndex) : index.type? index.nextType = none :=
  List.getElem?_eq_none (Nat.le_refl _)

/-- The next id is the base of nothing. -/
theorem Consistent.baseId?_ne_nextType {index : TypeIndex} (consistent : index.Consistent)
    (id : TypeId) : index.baseId? id ≠ some index.nextType := by
  intro isBase
  obtain ⟨type, -, isBase⟩ := Option.bind_eq_some_iff.mp isBase
  obtain ⟨base, isBase, ids⟩ := Option.map_eq_some_iff.mp isBase
  have found := consistent.type?_id (mem_of_baseDef? isBase)
  rw [ids, type?_nextType] at found
  cases found

/-- A new type takes the place of the type that was found under its key. -/
theorem Consistent.baseId?_push {index : TypeIndex} (consistent : index.Consistent)
    {type : TypeDef} (isNext : type.id = index.nextType) {id : TypeId}
    (old : id ≠ index.nextType) :
    (index.push type).baseId? id = (index.baseId? id).map fun above =>
      if (index.findKey? type.key).map TypeDef.id = some above then index.nextType else above := by
  simp only [baseId?]
  rw [type?_push, if_neg old]
  cases lookup : index.type? id with
  | none => rfl
  | some known =>
      simp only [Option.bind_some, baseDef?]
      cases isBase : known.base with
      | none => rfl
      | some base =>
          have resolves := consistent.baseKnown known (List.mem_of_getElem? lookup) base isBase
          simp only [Option.bind_some, defOf?_eq] at resolves ⊢
          cases named : base.head? with
          | none => rw [named] at resolves; cases resolves
          | some use =>
              simp only [named, Option.bind_some] at resolves ⊢
              obtain ⟨found, isFound⟩ := Option.isSome_iff_exists.mp resolves
              rw [findKey?_push, isFound, Option.map_some]
              split
              · next sameKey =>
                rw [sameKey, isFound]
                simp only [Option.map_some, if_true, isNext]
              · next otherKey =>
                rw [Option.map_some, Option.map_some, if_neg]
                -- Two types with one id are one type, which has one key.
                intro sameId
                obtain ⟨taken, isTaken, ids⟩ := Option.map_eq_some_iff.mp sameId
                obtain ⟨takenKnown, takenKey⟩ := mem_of_findKey? isTaken
                obtain ⟨foundKnown, foundKey⟩ := mem_of_findKey? isFound
                rw [consistent.eq_of_id takenKnown foundKnown ids] at takenKey
                exact otherKey (takenKey.symm.trans foundKey)

/-- A new type is above a known type exactly if the type whose place it takes was. -/
theorem Consistent.leadsTo_push_iff {index : TypeIndex} (consistent : index.Consistent)
    {type : TypeDef} (isNext : type.id = index.nextType) {start : TypeDef}
    (known : start ∈ index.types) (otherKey : start.key ≠ type.key) :
    LeadsTo (index.push type).baseId? start.id index.nextType ↔
      ∃ replaced, index.findKey? type.key = some replaced ∧
        LeadsTo index.baseId? start.id replaced.id := by
  have old : start.id ≠ index.nextType := by
    intro same
    have found := consistent.type?_id known
    rw [same, type?_nextType] at found
    cases found
  have stays : (index.findKey? type.key).map TypeDef.id ≠ some start.id := by
    intro taken
    obtain ⟨replaced, isReplaced, ids⟩ := Option.map_eq_some_iff.mp taken
    obtain ⟨replacedKnown, key⟩ := mem_of_findKey? isReplaced
    rw [consistent.eq_of_id replacedKnown known ids] at key
    exact otherKey key
  rw [leadsTo_new_iff (fun id => consistent.baseId?_push isNext) consistent.baseId?_ne_nextType
    old stays]
  simp only [Option.map_eq_some_iff]
  constructor
  · intro holds
    rcases holds with ⟨_, ⟨replaced, isReplaced, rfl⟩, leads⟩
    exact ⟨replaced, isReplaced, leads⟩
  · intro holds
    rcases holds with ⟨replaced, isReplaced, leads⟩
    exact ⟨replaced.id, ⟨replaced, isReplaced, rfl⟩, leads⟩

theorem baseId?_modifyType {index : TypeIndex} (consistent : index.Consistent)
    (changed : TypeId) {change : TypeDef → TypeDef} (keeps : KeepsDefinition change)
    (id : TypeId) (keepsBase : id = changed → ∀ type, (change type).base = type.base) :
    (index.modifyType changed change).baseId? id = index.baseId? id := by
  simp only [baseId?]
  rw [type?_modifyType]
  cases lookup : index.type? id with
  | none => rfl
  | some type =>
      have sameBase : (if id = changed then change type else type).base = type.base := by
        split
        · next isChanged => exact keepsBase isChanged type
        · rfl
      simp only [Option.map_some, Option.bind_some, baseDef?, sameBase]
      cases type.base with
      | none => rfl
      | some base =>
          simp only [Option.bind_some, consistent.defOf?_modifyType changed keeps.key]
          cases index.defOf? base with
          | none => rfl
          | some found =>
              simp only [Option.map_some, Option.some.injEq]
              split
              · exact keeps.id found
              · rfl

theorem baseId?_rebase {index : TypeIndex} (consistent : index.Consistent)
    {changed : TypeDef} {base : Ty} {start : TypeDef}
    (known : index.type? changed.id = some changed) (resolves : index.defOf? base = some start) :
    (index.modifyType changed.id (rebase base)).baseId? changed.id = some start.id := by
  rw [baseId?]
  rw [type?_modifyType, known]
  have lookup := consistent.defOf?_modifyType changed.id (keepsDefinition_rebase base).key base
  have isBase : (index.modifyType changed.id (rebase base)).baseDef? (rebase base changed) =
      (index.modifyType changed.id (rebase base)).defOf? base := rfl
  simp only [Option.map_some, Option.bind_some, if_true, isBase, lookup, resolves,
    Option.some.injEq]
  split <;> rfl

theorem push_modifyType (index : TypeIndex) (type : TypeDef) (change : TypeDef → TypeDef) :
    (index.push type).modifyType index.nextType change = index.push (change type) := by
  simp [push, modifyType, nextType, List.modify_eq_take_drop]

/-! ## When a step closes a cycle -/

/-- `System.Object` is known, and a class of this name would be found in its place or in
that of something above it. -/
def ReplacesRoot (index : TypeIndex) (constructor : TypeName) (typeParams : List String) :
    Prop :=
  ∃ object replaced, index.findKey? "System.Object" = some object ∧
    index.findKey? (lookupKey constructor.qualified typeParams.length) = some replaced ∧
    LeadsTo index.baseId? object.id replaced.id

section Acyclic

variable {index : TypeIndex} (consistent : index.Consistent) (acyclic : index.Acyclic)

include consistent acyclic

/-- A type without a base closes no cycle, whatever its key. -/
theorem acyclic_push {type : TypeDef} (isNext : type.id = index.nextType)
    (noBase : type.base = none) : (index.push type).Acyclic := by
  obtain ⟨rank, ranked⟩ := acyclic
  refine ⟨fun id => if id = index.nextType then 0 else rank id + 1, ?_⟩
  intro id above isBase
  by_cases new : id = index.nextType
  · subst new
    rw [baseId?, type?_push, if_pos rfl, Option.bind_some, baseDef?, noBase] at isBase
    cases isBase
  · rw [consistent.baseId?_push isNext new, Option.map_eq_some_iff] at isBase
    obtain ⟨seen, isBase, rfl⟩ := isBase
    have lower := ranked id seen isBase
    dsimp only
    rw [if_neg new]
    split
    · rw [if_pos rfl]
      omega
    · split <;> omega

/-- Setting a base closes a cycle exactly if the base leads back to the type. -/
theorem acyclic_rebase_iff {changed start : TypeDef} {base : Ty}
    (known : index.type? changed.id = some changed) (resolves : index.defOf? base = some start) :
    (index.modifyType changed.id (rebase base)).Acyclic ↔
      ¬ LeadsTo index.baseId? start.id changed.id := by
  obtain ⟨rank, ranked⟩ := acyclic
  apply exists_rank_redirect_iff ranked
  · intro id other
    exact baseId?_modifyType consistent changed.id (keepsDefinition_rebase base) id
      fun same => (other same).elim
  · exact baseId?_rebase consistent known resolves

/-- A base is accepted exactly if it names a known definition that does not lead back
to the type. -/
theorem setBase_eq_ok_iff {type : TypeDef} {base : Ty} {next : TypeIndex} :
    index.setBase type base = .ok next ↔
      ∃ start, index.defOf? base = some start ∧ ¬ LeadsTo index.baseId? start.id type.id ∧
        index.modifyType type.id (rebase base) = next := by
  obtain ⟨rank, ranked⟩ := acyclic
  rw [setBase]
  cases resolves : index.defOf? base with
  | none => simp
  | some start =>
      have reached : type.id ∈ (index.baseChain index.types.length start).map TypeDef.id ↔
          LeadsTo index.baseId? start.id type.id :=
        mem_baseChain_iff consistent ranked (mem_of_defOf? resolves)
      simp only [Option.some.injEq, exists_eq_left']
      by_cases leads : LeadsTo index.baseId? start.id type.id
      · rw [if_pos (reached.mpr leads)]
        simp [leads]
      · rw [if_neg (mt reached.mp leads), Except.ok.injEq]
        exact ⟨fun same => ⟨leads, same⟩, And.right⟩

theorem acyclic_addMethod (declaring : TypeId) (sig : MethodSig) :
    (index.addMethod declaring sig).Acyclic := by
  obtain ⟨rank, ranked⟩ := acyclic
  refine ⟨rank, ?_⟩
  intro id above isBase
  apply ranked
  rw [← isBase]
  have keeps := keepsDefinition_listMethod index.nextMethod
  exact (baseId?_modifyType consistent declaring keeps id fun _ _ => rfl).symm

/-- A type that is added with the base `System.Object` closes a cycle exactly if it
takes the place of `System.Object` or of something above it. -/
theorem acyclic_push_object_iff {type object : TypeDef} (isNext : type.id = index.nextType)
    (noMethods : type.methods = []) (noBase : type.base = none)
    (isObject : index.findKey? "System.Object" = some object) :
    (index.push (rebase .object type)).Acyclic ↔
      ¬ ∃ replaced, index.findKey? type.key = some replaced ∧
        LeadsTo index.baseId? object.id replaced.id := by
  -- The type is first added without a base, and then given one.
  have plainAcyclic := acyclic_push consistent acyclic isNext noBase
  have plainConsistent : (index.push type).Consistent :=
    consistent.push isNext noMethods (by simp [noBase])
  have isNew : (index.push type).type? type.id = some type := by
    rw [type?_push, if_pos isNext]
  have lookup : (index.push type).defOf? .object =
      if type.key = "System.Object" then some type else some object := by
    rw [defOf?_object, findKey?_push, isObject]
  rw [← push_modifyType, ← isNext]
  by_cases takesObject : type.key = "System.Object"
  · rw [if_pos takesObject] at lookup
    rw [acyclic_rebase_iff plainConsistent plainAcyclic isNew lookup, takesObject, isObject]
    apply not_iff_not.mpr
    constructor
    · intro _
      exact ⟨object, rfl, Relation.ReflTransGen.refl⟩
    · intro _
      exact Relation.ReflTransGen.refl
  · rw [if_neg takesObject] at lookup
    obtain ⟨objectKnown, objectKey⟩ := mem_of_findKey? isObject
    have otherKey : object.key ≠ type.key := objectKey ▸ Ne.symm takesObject
    rw [acyclic_rebase_iff plainConsistent plainAcyclic isNew lookup, isNext,
      consistent.leadsTo_push_iff isNext objectKnown otherKey]

/-- A class closes a cycle exactly if it replaces the root or something above it. -/
theorem acyclic_addClass_iff (constructor : TypeName) (typeParams : List String) :
    (index.addClass constructor typeParams).Acyclic ↔
      ¬ index.ReplacesRoot constructor typeParams := by
  rw [ReplacesRoot]
  cases isObject : index.findKey? "System.Object" with
  | none =>
      have unbased : index.addClass constructor typeParams =
          index.push (index.blank constructor typeParams) := by
        rw [addClass, isObject]
        rfl
      rw [unbased]
      exact iff_of_true (acyclic_push consistent acyclic rfl rfl) (by simp)
  | some object =>
      have based : index.addClass constructor typeParams =
          index.push (rebase .object (index.blank constructor typeParams)) := by
        rw [addClass, isObject]
        rfl
      rw [based, acyclic_push_object_iff consistent acyclic rfl rfl rfl isObject]
      simp only [Option.some.injEq, exists_and_left, exists_eq_left']
      exact Iff.rfl

end Acyclic

/-- No step closes a cycle but a class that replaces the root. -/
theorem Step.acyclic {before after : TypeIndex} (step : Step before after)
    (consistent : before.Consistent) (acyclic : before.Acyclic)
    (keepsRoot : ∀ constructor typeParams, after = before.addClass constructor typeParams →
      ¬ before.ReplacesRoot constructor typeParams) : after.Acyclic := by
  cases step with
  | addClass constructor typeParams =>
      exact (acyclic_addClass_iff consistent acyclic constructor typeParams).mpr
        (keepsRoot constructor typeParams rfl)
  | addDelegate constructor typeParams signature =>
      exact acyclic_push consistent acyclic rfl rfl
  | @setBase _ type base known accepted =>
      obtain ⟨start, resolves, fresh, rfl⟩ := (setBase_eq_ok_iff consistent acyclic).mp accepted
      exact (acyclic_rebase_iff consistent acyclic known resolves).mpr fresh
  | addMethod known sig => exact acyclic_addMethod consistent acyclic _ sig

theorem acyclic_empty : TypeIndex.empty.Acyclic :=
  ⟨fun _ => 0, by simp [Ranked, baseId?, type?, TypeIndex.empty]⟩

/-! ## Indexes without repeated keys -/

theorem findKey?_eq_none_of_distinctKeys {index : TypeIndex} {type : TypeDef}
    (distinct : (index.push type).DistinctKeys) : index.findKey? type.key = none := by
  rw [DistinctKeys, push] at distinct
  rw [List.map_append] at distinct
  cases lookup : index.findKey? type.key with
  | none => rfl
  | some found =>
      obtain ⟨known, key⟩ := mem_of_findKey? lookup
      have registered : found.key ∈ index.types.map TypeDef.key := List.mem_map_of_mem known
      exact ((List.nodup_append.mp distinct).2.2 _ registered _ (by simp) key).elim

/-- A class under a new key replaces nothing. -/
theorem not_replacesRoot_of_distinctKeys {index : TypeIndex} {constructor : TypeName}
    {typeParams : List String} (distinct : (index.addClass constructor typeParams).DistinctKeys) :
    ¬ index.ReplacesRoot constructor typeParams := by
  intro replaces
  obtain ⟨object, replaced, -, isReplaced, -⟩ := replaces
  have free : index.findKey? (lookupKey constructor.qualified typeParams.length) = none :=
    findKey?_eq_none_of_distinctKeys distinct
  rw [free] at isReplaced
  cases isReplaced

theorem Step.distinctKeys {before after : TypeIndex} (step : Step before after)
    (consistent : before.Consistent) (distinct : after.DistinctKeys) : before.DistinctKeys := by
  have keepsKeys : ∀ (changed : TypeId) (change : TypeDef → TypeDef), KeepsDefinition change →
      (before.modifyType changed change).types.map TypeDef.key =
        before.types.map TypeDef.key := by
    intro changed change keeps
    rw [consistent.modifyType_types, List.map_map]
    apply List.map_congr_left
    intro type _
    simp only [Function.comp_apply]
    split
    · exact keeps.key type
    · rfl
  rcases step.effect with ⟨type, rfl, -⟩ | ⟨type, base, start, -, -, -, rfl⟩ |
    ⟨declaring, sig, -, rfl⟩
  · rw [DistinctKeys, push] at distinct
    rw [List.map_append] at distinct
    exact (List.nodup_append.mp distinct).1
  · rw [DistinctKeys] at distinct ⊢
    rwa [keepsKeys type.id _ (keepsDefinition_rebase base)] at distinct
  · rw [DistinctKeys] at distinct ⊢
    rwa [addMethod_types, keepsKeys declaring _ (keepsDefinition_listMethod _)] at distinct

theorem Built.acyclic {index : TypeIndex} (built : index.Built)
    (distinct : index.DistinctKeys) : index.Acyclic := by
  induction built with
  | empty => exact acyclic_empty
  | step built step ih =>
      have earlier := ih (step.distinctKeys built.consistent distinct)
      apply step.acyclic built.consistent earlier
      rintro constructor typeParams rfl
      exact not_replacesRoot_of_distinctKeys distinct

end TypeIndex

end MethodGroups
