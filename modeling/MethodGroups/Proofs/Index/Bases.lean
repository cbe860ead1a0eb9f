import MethodGroups.Proofs.Index.Representation

/-!
# What bases name

In an index that grows from the core types without registering a lookup key twice, every base
names a definition.  A base is refused as unknown only if it names none at all: the check does
not ask for the kind of the definition, so a delegate can become a base.  This is the only way
in which a base comes to name anything but a class.
-/

namespace MethodGroups

namespace TypeIndex

/-- The type names a class of the index. -/
def NamesClass (index : TypeIndex) (ty : Ty) : Prop :=
  ∃ named ∈ index.defOf? ty, named.isDelegate = false

/-- The type names a delegate of the index. -/
def NamesDelegate (index : TypeIndex) (ty : Ty) : Prop :=
  ∃ named ∈ index.defOf? ty, named.isDelegate = true

instance (index : TypeIndex) (ty : Ty) : Decidable (index.NamesClass ty) :=
  inferInstanceAs (Decidable (∃ named ∈ index.defOf? ty, named.isDelegate = false))

instance (index : TypeIndex) (ty : Ty) : Decidable (index.NamesDelegate ty) :=
  inferInstanceAs (Decidable (∃ named ∈ index.defOf? ty, named.isDelegate = true))

/-- Every base names a class. -/
def BasesAreClasses (index : TypeIndex) : Prop :=
  ∀ type ∈ index.types, ∀ base ∈ type.base, index.NamesClass base

instance (index : TypeIndex) : Decidable index.BasesAreClasses :=
  inferInstanceAs (Decidable (∀ type ∈ index.types, ∀ base ∈ type.base, index.NamesClass base))

/-- The step gives a known type a base that names a delegate. -/
def SetsDelegateBase (before after : TypeIndex) : Prop :=
  ∃ type base, before.type? type.id = some type ∧ before.NamesDelegate base ∧
    before.setBase type base = .ok after

/-- A step that sets no delegate as a base. -/
def ClassStep (before after : TypeIndex) : Prop :=
  Step before after ∧ ¬ before.SetsDelegateBase after

/-! ## Names along a run -/

variable {before after index : TypeIndex}

/-- What a name refers to keeps its kind as long as its key is not registered again. -/
theorem KeepsIds.exists_defOf? (keeps : before.KeepsIds after) (consistent : before.Consistent)
    (unambiguous : after.Unambiguous) {ty : Ty} {named : TypeDef}
    (found : before.defOf? ty = some named) :
    ∃ kept, after.defOf? ty = some kept ∧ kept.isDelegate = named.isDelegate := by
  rw [defOf?_eq, Option.bind_eq_some_iff] at found
  obtain ⟨⟨constructor, args⟩, isNamed, lookup⟩ := found
  obtain ⟨known, key⟩ := mem_of_findKey? lookup
  obtain ⟨kept, isKept, name, typeParams, kind⟩ :=
    keeps.types named.id named (consistent.type?_id known)
  have keptKey : kept.key = lookupKey constructor.qualified args.length := by
    rw [← key, TypeDef.key, TypeDef.key, TypeDef.qualified, TypeDef.qualified, name, typeParams]
  refine ⟨kept, ?_, ?_⟩
  · rw [after.defOf?_of_head? isNamed, ← keptKey]
    exact unambiguous.findKey?_key (List.mem_of_getElem? isKept)
  · rw [TypeDef.isDelegate, TypeDef.isDelegate, kind]

theorem KeepsIds.namesClass (keeps : before.KeepsIds after) (consistent : before.Consistent)
    (unambiguous : after.Unambiguous) {ty : Ty} (isClass : before.NamesClass ty) :
    after.NamesClass ty := by
  obtain ⟨named, found, kind⟩ := isClass
  obtain ⟨kept, keptFound, keptKind⟩ := keeps.exists_defOf? consistent unambiguous found
  exact ⟨kept, keptFound, keptKind.trans kind⟩

/-! ## Single steps -/

theorem setBase_eq_error_unknown_iff {type : TypeDef} {base : Ty} :
    index.setBase type base = .error (.unknown type.qualified base.text) ↔
      index.defOf? base = none := by
  rw [setBase]
  cases index.defOf? base with
  | none => simp
  | some start =>
      simp only [reduceCtorEq, iff_false]
      split <;> simp

theorem eq_rebase_of_setBase {type : TypeDef} {base : Ty} {next : TypeIndex}
    (accepted : index.setBase type base = .ok next) :
    next = index.modifyType type.id (rebase base) := by
  rw [setBase] at accepted
  split at accepted
  · cases accepted
  · split at accepted
    · cases accepted
    · cases accepted
      rfl

/-- A step keeps the bases classes exactly if it does not set a delegate as a base. -/
theorem Step.basesAreClasses_iff (step : Step before after) (consistent : before.Consistent)
    (unambiguous : after.Unambiguous) (object : before.NamesClass .object)
    (classes : before.BasesAreClasses) :
    after.BasesAreClasses ↔ ¬ before.SetsDelegateBase after := by
  have keepsClass : ∀ ty, before.NamesClass ty → after.NamesClass ty :=
    fun ty => step.keepsIds.namesClass consistent unambiguous
  constructor
  · intro afterClasses sets
    obtain ⟨type, base, known, ⟨named, found, isDelegate⟩, accepted⟩ := sets
    have rebased : after.type? type.id = some (rebase base type) := by
      rw [eq_rebase_of_setBase accepted, type?_modifyType, known, Option.map_some, if_pos rfl]
    obtain ⟨seen, seenFound, isClass⟩ :=
      afterClasses (rebase base type) (List.mem_of_getElem? rebased) base rfl
    obtain ⟨kept, keptFound, keptKind⟩ :=
      step.keepsIds.exists_defOf? consistent unambiguous found
    cases Option.some.inj (seenFound.symm.trans keptFound)
    rw [keptKind, isDelegate] at isClass
    cases isClass
  · intro setsNone type known base isBase
    apply keepsClass
    rcases step.effect with ⟨added, rfl, -, -, objectBase⟩ |
      ⟨changed, given, start, changedKnown, found, fresh, rfl⟩ | ⟨declaring, sig, -, rfl⟩
    · rcases List.mem_append.mp known with old | new
      · exact classes type old base isBase
      · cases List.mem_singleton.mp new
        rw [(objectBase base isBase).1]
        exact object
    · rw [consistent.modifyType_types, List.mem_map] at known
      obtain ⟨old, oldKnown, rfl⟩ := known
      split at isBase
      · cases isBase
        refine ⟨start, found, Bool.eq_false_iff.mpr fun isDelegate => setsNone ?_⟩
        refine ⟨changed, base, changedKnown, ⟨start, found, isDelegate⟩, ?_⟩
        simp only [TypeIndex.setBase, found, if_neg fresh]
        rfl
      · exact classes old oldKnown base isBase
    · rw [addMethod_types, consistent.modifyType_types, List.mem_map] at known
      obtain ⟨old, oldKnown, rfl⟩ := known
      split at isBase <;> exact classes old oldKnown base isBase

/-! ## Runs -/

theorem core_namesClass_object : core.NamesClass .object := by decide +kernel

theorem core_basesAreClasses : core.BasesAreClasses := by decide +kernel

/-- As long as no delegate is set as a base, all bases are classes. -/
theorem basesAreClasses_of_run (distinct : index.DistinctKeys)
    (run : Relation.ReflTransGen ClassStep core index) : index.BasesAreClasses := by
  induction run with
  | refl => exact core_basesAreClasses
  | @tail before after earlier step ih =>
      obtain ⟨step, setsNone⟩ := step
      have run : Relation.ReflTransGen Step core before := earlier.lift id fun _ _ => And.left
      have built := core_built.run run
      have beforeDistinct := step.distinctKeys built.consistent distinct
      have object := (keepsIds_of_run run).namesClass core_built.consistent
        ⟨built, beforeDistinct⟩ core_namesClass_object
      exact (step.basesAreClasses_iff built.consistent ⟨built.step step, distinct⟩ object
        (ih beforeDistinct)).mpr setsNone

/-- Along every run from the core types in which no lookup key is registered twice, every base
names a definition, a base is refused as unknown exactly if it names none, and it is accepted
exactly if what it names does not lead back.  So delegates are accepted like classes, and setting
one is the only step that leaves a base which is no class. -/
theorem bases_of_run (run : Relation.ReflTransGen Step core index)
    (distinct : index.DistinctKeys) :
    (∀ type ∈ index.types, ∀ base ∈ type.base, (index.defOf? base).isSome) ∧
      (∀ type ∈ index.types, ∀ base,
        (index.setBase type base = .error (.unknown type.qualified base.text) ↔
            index.defOf? base = none) ∧
          ((∃ next, index.setBase type base = .ok next) ↔
            ∃ named, index.defOf? base = some named ∧
              ¬ LeadsTo index.baseId? named.id type.id)) ∧
      (Relation.ReflTransGen ClassStep core index → index.BasesAreClasses) ∧
      ∀ next, Step index next → next.DistinctKeys → index.BasesAreClasses →
        (next.BasesAreClasses ↔ ¬ index.SetsDelegateBase next) := by
  have built := core_built.run run
  have consistent := built.consistent
  have object := (keepsIds_of_run run).namesClass core_built.consistent ⟨built, distinct⟩
    core_namesClass_object
  refine ⟨consistent.baseKnown, ?_, basesAreClasses_of_run distinct, ?_⟩
  · intro type known base
    have accepted := fun next =>
      @setBase_eq_ok_iff index consistent (built.acyclic distinct) type base next
    exact ⟨setBase_eq_error_unknown_iff, by simp [accepted]⟩
  · intro next step nextDistinct classes
    exact step.basesAreClasses_iff consistent ⟨built.step step, nextDistinct⟩ object classes

end TypeIndex

namespace Containers

/-- The core types and a class. -/
def hinges : TypeIndex := TypeIndex.core.addClass ⟨"", "Hinge"⟩ []

def hinge : TypeDef := ⟨⟨15⟩, ⟨"", "Hinge"⟩, [], some .object, .ordinary, []⟩

def action : Ty := .con ⟨"System", "Action"⟩

/-- The class with a delegate as its base. -/
def actingHinges : TypeIndex := hinges.modifyType hinge.id (TypeIndex.rebase action)

theorem classStep_hinges : TypeIndex.ClassStep .core hinges := by
  refine ⟨.addClass .., ?_⟩
  rintro ⟨type, base, -, -, accepted⟩
  have lengths := congrArg (fun index => index.types.length)
    (TypeIndex.eq_rebase_of_setBase accepted)
  simp [hinges, TypeIndex.addClass, TypeIndex.push, TypeIndex.modifyType] at lengths

theorem step_actingHinges : TypeIndex.Step hinges actingHinges :=
  @TypeIndex.Step.setBase _ _ hinge action (by decide +kernel) (by decide +kernel)

theorem distinctKeys_actingHinges : actingHinges.DistinctKeys := by
  rw [TypeIndex.DistinctKeys]
  decide +kernel

/-- All bases are classes, a name without a definition is refused, and the delegate
`System.Action` as the base of the class ends this. -/
theorem bases_hinges :
    Relation.ReflTransGen TypeIndex.Step .core hinges ∧ hinges.DistinctKeys ∧
      hinges.BasesAreClasses ∧
      hinges.setBase hinge (.con ⟨"System", "Missing"⟩) = .error (.unknown "Hinge" "Missing") ∧
      ¬ actingHinges.BasesAreClasses := by
  have run : Relation.ReflTransGen TypeIndex.Step .core hinges := .single classStep_hinges.1
  have distinct := step_actingHinges.distinctKeys
    (TypeIndex.core_built.run run).consistent distinctKeys_actingHinges
  obtain ⟨-, settings, classes, steps⟩ := TypeIndex.bases_of_run run distinct
  have hingesClasses := classes (.single classStep_hinges)
  refine ⟨run, distinct, hingesClasses, ?_, ?_⟩
  · have refused := (settings hinge (by decide +kernel) (.con ⟨"System", "Missing"⟩)).1
    exact refused.mpr (by decide +kernel)
  · have broken := steps actingHinges step_actingHinges distinctKeys_actingHinges hingesClasses
    rw [broken, not_not]
    exact ⟨hinge, action, by decide +kernel, by decide +kernel, by decide +kernel⟩

/-- The delegate is no class, yet it is not refused as a base, and the base that is stored then
names no class. -/
theorem setBase_action :
    Relation.ReflTransGen TypeIndex.Step .core actingHinges ∧ actingHinges.DistinctKeys ∧
      hinges.type? hinge.id = some hinge ∧ ¬ hinges.NamesClass action ∧
      hinges.setBase hinge action = .ok actingHinges ∧
      ∃ type ∈ actingHinges.types, ∃ base ∈ type.base, ¬ actingHinges.NamesClass base := by
  refine ⟨.tail (.single classStep_hinges.1) step_actingHinges, distinctKeys_actingHinges, ?_⟩
  decide +kernel

end Containers

end MethodGroups
