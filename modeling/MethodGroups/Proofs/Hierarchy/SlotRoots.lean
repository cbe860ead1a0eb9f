import MethodGroups.Proofs.Hierarchy.Slots
import MethodGroups.Proofs.Index.Cycles

/-!
# The root of a slot

From an override the walk to the root of its slot leads to what it overrides, and so
on, until it meets a method that overrides nothing.  Each step leads to a lower type,
so the walk ends by itself, and what it keeps from step to step it keeps up to the
root: the name, and the signature as it is seen from the type where the walk began.
-/

namespace MethodGroups

namespace TypeIndex

/-- One step towards the root of a slot: from an override to what it overrides. -/
def nextInSlot? (index : TypeIndex) (method : MethodDef) : Option MethodDef :=
  if method.virtuality = .override then index.overridden? method else none

/-- One step of the walk through the ancestors: from a use to the use of its base. -/
def baseUse? (index : TypeIndex) (use : Ty) : Option Ty :=
  (index.baseOfUse? use).map Ancestor.use

namespace Unambiguous

variable {index : TypeIndex} (unambiguous : index.Unambiguous)

include unambiguous

/-- The walk from a use meets the ancestors above the use, one after the other, and ends
after the last one. -/
theorem stepsAlong_baseUse? {type : TypeDef} {use : Ty} (names : index.defOf? use = some type)
    (count : Nat) :
    stepsAlong index.baseUse? (count + 1) use = (index.above use)[count]?.map Ancestor.use := by
  induction count generalizing type use with
  | zero =>
      rw [unambiguous.above_eq names, stepsAlong, baseUse?]
      cases index.baseOfUse? use <;> rfl
  | succ count ih =>
      rw [unambiguous.above_eq names, stepsAlong, baseUse?]
      cases step : index.baseOfUse? use with
      | none => rfl
      | some first => exact ih (unambiguous.consistent.defOf?_of_baseOfUse? names step)

omit unambiguous in
theorem overridden?_of_nextInSlot? {method above : MethodDef}
    (step : index.nextInSlot? method = some above) :
    method.virtuality = .override ∧ index.overridden? method = some above := by
  rw [nextInSlot?] at step
  split at step
  · next overrides => exact ⟨overrides, step⟩
  · cases step

/-- Induction along the walk to the root of a slot. -/
theorem slot_induction {motive : (method : MethodDef) → method ∈ index.methods → Prop}
    (root : ∀ method known, index.nextInSlot? method = none → motive method known)
    (step : ∀ method known above aboveKnown, index.nextInSlot? method = some above →
      motive above aboveKnown → motive method known)
    (method : MethodDef) (known : method ∈ index.methods) : motive method known := by
  obtain ⟨rank, ranked⟩ := unambiguous.acyclic
  generalize height : rank method.declaring = bound
  induction bound using Nat.strong_induction_on generalizing method with
  | _ bound ih =>
      cases next : index.nextInSlot? method with
      | none => exact root method known next
      | some above =>
          have found := (overridden?_of_nextInSlot? next).2
          obtain ⟨aboveKnown, lower⟩ := unambiguous.overridden?_lt ranked known found
          exact step method known above aboveKnown next
            (ih _ (height ▸ lower) above aboveKnown rfl)

theorem slotRoot_of_nextInSlot?_eq_none {method : MethodDef} (known : method ∈ index.methods)
    (topmost : index.nextInSlot? method = none) : index.slotRoot method = method := by
  rw [unambiguous.slotRoot_eq known]
  rw [nextInSlot?] at topmost
  split
  · next overrides =>
    rw [if_pos overrides] at topmost
    rw [topmost]
  · rfl

/-- A step along the walk does not leave the slot. -/
theorem slotRoot_of_nextInSlot? {method above : MethodDef} (known : method ∈ index.methods)
    (step : index.nextInSlot? method = some above) :
    index.slotRoot method = index.slotRoot above := by
  obtain ⟨overrides, found⟩ := overridden?_of_nextInSlot? step
  rw [unambiguous.slotRoot_eq known, if_pos overrides, found]

/-- The walk arrives at the root of the slot. -/
theorem stepsAlong_slotRoot {method : MethodDef} (known : method ∈ index.methods) :
    ∃ count, stepsAlong index.nextInSlot? count method = some (index.slotRoot method) := by
  induction method, known using unambiguous.slot_induction with
  | root method known topmost =>
      exact ⟨0, by rw [unambiguous.slotRoot_of_nextInSlot?_eq_none known topmost]; rfl⟩
  | step method known above aboveKnown step arrives =>
      obtain ⟨count, arrives⟩ := arrives
      refine ⟨count + 1, ?_⟩
      rw [stepsAlong, step, unambiguous.slotRoot_of_nextInSlot? known step]
      exact arrives

/-- At the root of the slot the walk ends. -/
theorem nextInSlot?_slotRoot {method : MethodDef} (known : method ∈ index.methods) :
    index.nextInSlot? (index.slotRoot method) = none := by
  induction method, known using unambiguous.slot_induction with
  | root method known topmost =>
      rw [unambiguous.slotRoot_of_nextInSlot?_eq_none known topmost]
      exact topmost
  | step method known above aboveKnown step topmost =>
      rw [unambiguous.slotRoot_of_nextInSlot? known step]
      exact topmost

theorem slotRoot_mem {method : MethodDef} (known : method ∈ index.methods) :
    index.slotRoot method ∈ index.methods := by
  induction method, known using unambiguous.slot_induction with
  | root method known topmost =>
      rw [unambiguous.slotRoot_of_nextInSlot?_eq_none known topmost]
      exact known
  | step method known above aboveKnown step rootKnown =>
      rw [unambiguous.slotRoot_of_nextInSlot? known step]
      exact rootKnown

theorem slotRoot_slotRoot {method : MethodDef} (known : method ∈ index.methods) :
    index.slotRoot (index.slotRoot method) = index.slotRoot method :=
  unambiguous.slotRoot_of_nextInSlot?_eq_none (unambiguous.slotRoot_mem known)
    (unambiguous.nextInSlot?_slotRoot known)

/-- All methods of a slot have one name. -/
theorem name_slotRoot {method : MethodDef} (known : method ∈ index.methods) :
    (index.slotRoot method).name = method.name := by
  induction method, known using unambiguous.slot_induction with
  | root method known topmost =>
      rw [unambiguous.slotRoot_of_nextInSlot?_eq_none known topmost]
  | step method known above aboveKnown step sameName =>
      rw [unambiguous.slotRoot_of_nextInSlot? known step, sameName]
      exact (unambiguous.overridden?_known known (overridden?_of_nextInSlot? step).2).2

end Unambiguous

namespace WellFormed

variable {index : TypeIndex} (wellFormed : index.WellFormed)

include wellFormed

/-- The walk from a use ends after the ancestors above the use. -/
theorem stepsAlong_above {type : TypeDef} {use : Ty} (known : type ∈ index.types)
    (isUse : type.IsUse use) :
    stepsAlong index.baseUse? ((index.above use).length + 1) use = none := by
  rw [wellFormed.unambiguous.stepsAlong_baseUse?
    (wellFormed.unambiguous.defOf?_of_isUse known isUse)]
  simp

theorem stepsAlong_slotRoot {method : MethodDef} (known : method ∈ index.methods) :
    ∃ count, stepsAlong index.nextInSlot? count method = some (index.slotRoot method) :=
  wellFormed.unambiguous.stepsAlong_slotRoot known

theorem nextInSlot?_slotRoot {method : MethodDef} (known : method ∈ index.methods) :
    index.nextInSlot? (index.slotRoot method) = none :=
  wellFormed.unambiguous.nextInSlot?_slotRoot known

theorem slotRoot_slotRoot {method : MethodDef} (known : method ∈ index.methods) :
    index.slotRoot (index.slotRoot method) = index.slotRoot method :=
  wellFormed.unambiguous.slotRoot_slotRoot known

/-- A method overrides nothing exactly if no ancestor declares a method of a slot with
the same signature. -/
theorem overridden?_eq_none_iff {type : TypeDef} (known : type ∈ index.types)
    {method : MethodDef} (declares : index.Declares type method) :
    index.overridden? method = none ↔
      ∀ ancestor ∈ index.ancestors type, ∀ other, index.Declares ancestor.type other →
        other.hasSlot = true → method.matchesSignature other ancestor.subst = false := by
  have declaring : index.type? method.declaring = some type := by
    rw [declares.2]
    exact wellFormed.consistent.type?_id known
  simp only [overridden?, declaring, Option.bind_eq_bind, Option.bind_some,
    List.findSome?_eq_none_iff]
  apply forall₂_congr
  intro ancestor met
  have ancestorKnown := (wellFormed.mem_above known (.selfTy type) met).1
  simp only [overriddenIn?, List.find?_eq_none, Bool.and_eq_true, not_and, Bool.not_eq_true]
  constructor
  · intro nothing other declared hasSlot
    -- The search only looks at methods of this name; all others differ in the signature.
    by_cases named : other.name = method.name
    · exact nothing other ((wellFormed.mem_methodsNamed ancestorKnown).mpr ⟨declared, named⟩)
        hasSlot
    · simp [MethodDef.matchesSignature, Ne.symm named]
  · intro nothing candidate named hasSlot
    exact nothing candidate ((wellFormed.mem_methodsNamed ancestorKnown).mp named).1 hasSlot

end WellFormed

/-- How a slot is fixed by its root, which a method of the slot sees from its declaring
type as one of its lineage. -/
structure FixedByRoot (index : TypeIndex) (declaring : TypeDef) (seen : Ancestor)
    (method root : MethodDef) : Prop where
  declared : index.Declares seen.type root
  viewed : index.ancestorUse? declaring root.declaring = some seen.use
  isRoot : index.slotRoot root = root
  /-- Nothing above the root has its signature if it is an override. -/
  topmost : root.virtuality = .override → ∀ above ∈ index.ancestors seen.type,
    ∀ other, index.Declares above.type other → other.hasSlot = true →
      root.matchesSignature other above.subst = false
  name : method.name = root.name
  arity : method.typeParams.length = root.typeParams.length
  params : List.Forall₂
    (fun own its : Parameter => own.ty.Same (its.ty.subst (seen.type.argSubst seen.use.args)))
    method.params root.params

/-- The root of a slot fixes the signature of its methods.  Every search on the walk to
the root ends after the ancestors of a type, and the walk itself ends at a method that is
its own root and overrides nothing.  The root is declared where the walk began or in an
ancestor, and seen through the use of its declaring type it has the signature of the
method where the walk began. -/
theorem slotRoot_fixesSignature {index : TypeIndex} (wellFormed : index.WellFormed)
    (scopedMethods : index.MethodsScoped) {method : MethodDef}
    (known : method ∈ index.methods) :
    (∀ type ∈ index.types,
      stepsAlong index.baseUse? ((index.ancestors type).length + 1) type.selfTy = none) ∧
    (∃ count, stepsAlong index.nextInSlot? count method = some (index.slotRoot method) ∧
      index.nextInSlot? (index.slotRoot method) = none) ∧
    ∃ declaring, index.type? method.declaring = some declaring ∧
      ∃ seen ∈ index.lineage declaring,
        index.FixedByRoot declaring seen method (index.slotRoot method) := by
  have ends : index.nextInSlot? (index.slotRoot method) = none :=
    wellFormed.nextInSlot?_slotRoot known
  obtain ⟨count, arrives⟩ := wellFormed.stepsAlong_slotRoot known
  refine ⟨fun type typeKnown => wellFormed.stepsAlong_above typeKnown (.selfTy type),
    ⟨count, arrives, ends⟩, ?_⟩
  obtain ⟨declaring, declaringKnown, declares⟩ := wellFormed.exists_declares known
  obtain ⟨seen, met, rootDeclared, signatures⟩ :=
    wellFormed.signature_slotRootWithin declaringKnown scopedMethods index.methods.length
      List.mem_cons_self declares
  rw [← slotRoot] at rootDeclared signatures
  have sameSignature : (index.slotRoot method).signature seen.subst = method.signature [] :=
    signatures.trans (method.signature_self declaring)
  refine ⟨declaring, ?_, seen, met, ?_⟩
  · rw [declares.2]
    exact wellFormed.consistent.type?_id declaringKnown
  · refine ⟨rootDeclared, ?_, wellFormed.slotRoot_slotRoot known, ?_, ?_, ?_, ?_⟩
    · rw [wellFormed.ancestorUse?_eq_some_iff declaringKnown]
      exact ⟨seen, met, rootDeclared.2.symm, rfl⟩
    · intro overrides
      rw [nextInSlot?, if_pos overrides] at ends
      have seenKnown := (wellFormed.mem_lineage declaringKnown met).1
      exact (wellFormed.overridden?_eq_none_iff seenKnown rootDeclared).mp ends
    · exact (congrArg SlotSignature.name sameSignature).symm
    · exact (congrArg SlotSignature.arity sameSignature).symm
    · have sameParams := congrArg SlotSignature.params sameSignature.symm
      simp only [MethodDef.signature, Ty.subst_nil] at sameParams
      rw [← List.forall₂_eq_eq_eq, List.forall₂_map_left_iff, List.forall₂_map_right_iff]
        at sameParams
      exact sameParams

end TypeIndex

/-- The slot of `Put` is introduced by `Box<T>`, which a crate sees as `Box<U>`. -/
theorem Containers.slotRoot_cratePut :
    index.slotRoot cratePut = boxPut ∧ index.ancestorUse? crate boxPut.declaring = some crateBase ∧
      List.Forall₂
        (fun own its : Parameter => own.ty.Same (its.ty.subst (box.argSubst crateBase.args)))
        cratePut.params boxPut.params := by
  have isRoot : index.slotRoot cratePut = boxPut := by decide +kernel
  have views : index.ancestorUse? crate boxPut.declaring = some crateBase := by decide +kernel
  obtain ⟨-, -, declaring, isDeclaring, seen, met, fixed⟩ :=
    TypeIndex.slotRoot_fixesSignature wellFormed methodsScoped
      (by decide +kernel : cratePut ∈ index.methods)
  rw [isRoot] at fixed
  obtain rfl : crate = declaring := by
    have isCrate : index.type? cratePut.declaring = some crate := by decide +kernel
    exact Option.some.inj (isCrate.symm.trans isDeclaring)
  have isUse : seen.use = crateBase := Option.some.inj (fixed.viewed.symm.trans views)
  have isBox : seen.type = box := wellFormed.consistent.eq_of_id
    (wellFormed.mem_lineage (by decide +kernel) met).1 (by decide +kernel)
    fixed.declared.2.symm
  have params := fixed.params
  rw [isUse, isBox] at params
  exact ⟨isRoot, views, params⟩

end MethodGroups
