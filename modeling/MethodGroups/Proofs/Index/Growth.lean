import MethodGroups.Proofs.Index.WellFormed
import Mathlib.Logic.Relation

/-!
# Growth that does not concern a method

Definitions that are added under new lookup keys, and methods of other names, do not concern
a method.  Such growth keeps every lookup that had a result: a known type is found under the
same id and the same key as before, and of its definition nothing changes but the list of
methods, in which the methods of the given name stay the same.
-/

namespace MethodGroups

namespace TypeIndex

/-- One change that does not concern the methods of a name. -/
inductive UnrelatedStep (name : String) : TypeIndex → TypeIndex → Prop where
  | addClass {index : TypeIndex} {constructor : TypeName} {typeParams : List String}
      (fresh : index.find? constructor.qualified typeParams.length = none) :
      UnrelatedStep name index (index.addClass constructor typeParams)
  | addDelegate {index : TypeIndex} {constructor : TypeName} {typeParams : List String}
      (fresh : index.find? constructor.qualified typeParams.length = none)
      (signature : TypeDef → Signature) :
      UnrelatedStep name index (index.addDelegate constructor typeParams signature)
  | addMethod {index : TypeIndex} {declaring : TypeId} {sig : MethodSig}
      (known : (index.type? declaring).isSome) (otherName : sig.name ≠ name) :
      UnrelatedStep name index (index.addMethod declaring sig)

theorem UnrelatedStep.step {name : String} {before after : TypeIndex}
    (unrelated : UnrelatedStep name before after) : Step before after := by
  cases unrelated with
  | addClass fresh => exact .addClass ..
  | addDelegate fresh signature => exact .addDelegate ..
  | addMethod known otherName => exact .addMethod known _

/-- The later definition is the earlier one, but for methods of other names. -/
structure Keeps (name : String) (before after : TypeIndex) (earlier later : TypeDef) : Prop where
  definition : later = { earlier with methods := later.methods }
  methodsNamed : after.methodsNamed later name = before.methodsNamed earlier name

namespace Keeps

variable {name : String} {first second third before after : TypeIndex}
variable {earlier later : TypeDef}

section Definition

variable (keeps : Keeps name before after earlier later)

include keeps

theorem id : later.id = earlier.id := by
  rw [keeps.definition]

theorem qualified : later.qualified = earlier.qualified := by
  rw [keeps.definition]
  rfl

theorem selfTy : later.selfTy = earlier.selfTy := by
  rw [keeps.definition]
  rfl

theorem instantiate (args : List Ty) : later.instantiate args = earlier.instantiate args := by
  rw [keeps.definition]
  rfl

theorem argSubst (args : List Ty) : later.argSubst args = earlier.argSubst args := by
  rw [keeps.definition]
  rfl

end Definition

theorem trans {between : TypeDef} (start : Keeps name first second earlier between)
    (next : Keeps name second third between later) : Keeps name first third earlier later where
  definition := by
    rw [next.definition, start.definition]
  methodsNamed := next.methodsNamed.trans start.methodsNamed

end Keeps

/-- The later index finds everything that the earlier one found. -/
structure Conserves (name : String) (before after : TypeIndex) : Prop where
  type? : ∀ id earlier, before.type? id = some earlier →
    ∃ later, after.type? id = some later ∧ Keeps name before after earlier later
  findKey? : ∀ key earlier, before.findKey? key = some earlier →
    ∃ later, after.findKey? key = some later ∧ Keeps name before after earlier later
  method? : ∀ id method, before.method? id = some method → after.method? id = some method
  typeCount : before.types.length ≤ after.types.length
  methodCount : before.methods.length ≤ after.methods.length

namespace Conserves

variable {name : String} {first second third before after : TypeIndex}

theorem refl (index : TypeIndex) : Conserves name index index where
  type? _ type found := ⟨type, found, rfl, rfl⟩
  findKey? _ type found := ⟨type, found, rfl, rfl⟩
  method? _ _ found := found
  typeCount := Nat.le_refl _
  methodCount := Nat.le_refl _

theorem trans (start : Conserves name first second) (next : Conserves name second third) :
    Conserves name first third where
  type? := by
    intro id earlier found
    obtain ⟨between, foundBetween, keepsFirst⟩ := start.type? id earlier found
    obtain ⟨later, foundLater, keepsNext⟩ := next.type? id between foundBetween
    exact ⟨later, foundLater, keepsFirst.trans keepsNext⟩
  findKey? := by
    intro key earlier found
    obtain ⟨between, foundBetween, keepsFirst⟩ := start.findKey? key earlier found
    obtain ⟨later, foundLater, keepsNext⟩ := next.findKey? key between foundBetween
    exact ⟨later, foundLater, keepsFirst.trans keepsNext⟩
  method? id method found := next.method? id method (start.method? id method found)
  typeCount := start.typeCount.trans next.typeCount
  methodCount := start.methodCount.trans next.methodCount

/-- A definition under a key that was not found before is in nobody's way. -/
theorem push (index : TypeIndex) {type : TypeDef} (fresh : index.findKey? type.key = none) :
    Conserves name index (index.push type) where
  type? _ earlier found := ⟨earlier, type?_push_of_type? found type, rfl, rfl⟩
  findKey? := by
    intro key earlier found
    have otherKey : type.key ≠ key := by
      intro same
      rw [same, found] at fresh
      cases fresh
    refine ⟨earlier, ?_, rfl, rfl⟩
    rw [findKey?_push, if_neg otherKey, found]
  method? _ _ found := found
  typeCount := by simp [TypeIndex.push]
  methodCount := Nat.le_refl _

/-- A new method is not among the methods of other names. -/
theorem methodsNamed_addMethod {index : TypeIndex} (consistent : index.Consistent)
    (declaring : TypeId) {sig : MethodSig} (otherName : sig.name ≠ name) {type : TypeDef}
    (known : type ∈ index.types) :
    (index.addMethod declaring sig).methodsNamed type name = index.methodsNamed type name ∧
      (index.addMethod declaring sig).methodsNamed (listMethod index.nextMethod type) name =
        index.methodsNamed type name := by
  have sameMethods : (index.addMethod declaring sig).methodsOf type = index.methodsOf type := by
    apply List.filterMap_congr
    intro id listed
    obtain ⟨method, found, -⟩ := consistent.declares type known id listed
    rw [method?_addMethod_of_method? found declaring sig, found]
  have oneMore : (index.addMethod declaring sig).methodsOf (listMethod index.nextMethod type) =
      index.methodsOf type ++ [index.newMethod declaring sig] := by
    rw [methodsOf, listMethod, List.filterMap_append, ← sameMethods]
    congr 1
    simp [method?_addMethod]
  constructor
  · rw [TypeIndex.methodsNamed, sameMethods]
    rfl
  · rw [TypeIndex.methodsNamed, oneMore, List.filter_append]
    simp [newMethod, otherName, TypeIndex.methodsNamed]

theorem addMethod {index : TypeIndex} (consistent : index.Consistent) (declaring : TypeId)
    {sig : MethodSig} (otherName : sig.name ≠ name) :
    Conserves name index (index.addMethod declaring sig) := by
  have keeps : ∀ earlier ∈ index.types, Keeps name index (index.addMethod declaring sig) earlier
      (if earlier.id = declaring then listMethod index.nextMethod earlier else earlier) := by
    intro earlier known
    obtain ⟨unlisted, listed⟩ := methodsNamed_addMethod consistent declaring otherName known
    split
    · exact ⟨rfl, listed⟩
    · exact ⟨rfl, unlisted⟩
  refine ⟨?_, ?_, fun id method found => method?_addMethod_of_method? found declaring sig, ?_, ?_⟩
  · intro id earlier found
    refine ⟨_, ?_, keeps earlier (List.mem_of_getElem? found)⟩
    have lookup := index.type?_modifyType declaring (listMethod index.nextMethod) id
    rw [found, ← consistent.id_of_type? found] at lookup
    rw [← consistent.id_of_type? found]
    exact lookup
  · intro key earlier found
    refine ⟨_, ?_, keeps earlier (mem_of_findKey? found).1⟩
    have lookup := consistent.findKey?_modifyType declaring
      (keepsDefinition_listMethod index.nextMethod).key key
    rw [found] at lookup
    exact lookup
  · rw [addMethod_types, consistent.modifyType_types, List.length_map]
  · rw [addMethod_methods, List.length_append]
    exact Nat.le_add_right _ _

end Conserves

theorem UnrelatedStep.conserves {name : String} {before after : TypeIndex}
    (unrelated : UnrelatedStep name before after) (consistent : before.Consistent) :
    Conserves name before after := by
  cases unrelated with
  | addClass fresh => exact .push before fresh
  | addDelegate fresh signature => exact .push before fresh
  | addMethod known otherName => exact .addMethod consistent _ otherName

theorem conserves_of_run {name : String} {before after : TypeIndex} (built : before.Built)
    (run : Relation.ReflTransGen (UnrelatedStep name) before after) :
    Conserves name before after := by
  have both : after.Built ∧ Conserves name before after := by
    induction run with
    | refl => exact ⟨built, .refl before⟩
    | tail _ unrelated ih =>
        obtain ⟨builtBetween, conserves⟩ := ih
        exact ⟨builtBetween.step unrelated.step,
          conserves.trans (unrelated.conserves builtBetween.consistent)⟩
  exact both.2

end TypeIndex

end MethodGroups
