import MethodGroups.Proofs.Conversion.Calls
import MethodGroups.Proofs.Hierarchy.Growth

/-!
# Conversions under unrelated growth

A conversion of a method reads the definitions that its request names, walks through their
hierarchy, and infers type arguments from the signature of the delegate.  Growth that does
not concern the method changes none of this, so the conversion has the same blueprint, gives
the same result, and makes the same calls to its evaluator.
-/

namespace MethodGroups

namespace TypeIndex.Conserves

variable {name : String} {before after : TypeIndex}
variable (conserves : Conserves name before after)

include conserves

/-! ## What is read of a method and of a delegate -/

section Method

variable {method : MethodDef} {declaring : TypeDef}
variable (isDeclaring : before.type? method.declaring = some declaring)

include isDeclaring

theorem qualifiedMember_eq : after.qualifiedMember method = before.qualifiedMember method := by
  obtain ⟨later, isLater, keeps⟩ := conserves.type? _ _ isDeclaring
  simp [qualifiedMember, declaringName, isDeclaring, isLater, keeps.qualified]

theorem formals_eq (args : List Ty) : after.formals method args = before.formals method args := by
  obtain ⟨later, isLater, keeps⟩ := conserves.type? _ _ isDeclaring
  simp [formals, declaringSubst, isDeclaring, isLater, keeps.argSubst]

end Method

/-- A known delegate is invoked with the signature that it had. -/
theorem delegateSignature_eq {delegate : Ty} (known : (before.defOf? delegate).isSome) :
    after.delegateSignature delegate = before.delegateSignature delegate := by
  obtain ⟨type, names⟩ := Option.isSome_iff_exists.mp known
  have isUse := use?_of_defOf? names
  obtain ⟨later, laterUse, keeps⟩ := conserves.use? isUse
  have sameKind : later.kind = type.kind := by rw [keeps.definition]
  simp only [delegateSignature, isUse, laterUse, sameKind, keeps.argSubst]

theorem inferTypeArgs_eq {method : MethodDef} {declaring : TypeDef}
    (isDeclaring : before.type? method.declaring = some declaring) (args : List Ty)
    {delegate : Ty} (known : (before.defOf? delegate).isSome) :
    after.inferTypeArgs method args delegate = before.inferTypeArgs method args delegate := by
  simp only [inferTypeArgs, conserves.formals_eq isDeclaring,
    conserves.delegateSignature_eq known]

/-! ## The parts of a blueprint -/

variable {Source : Type} (policies : Policies) (request : Request Source)

theorem typeArgs_eq {method : MethodDef} {declaring : TypeDef}
    (isDeclaring : before.type? method.declaring = some declaring)
    (delegateKnown : (before.defOf? request.delegate).isSome) (use : Ty) :
    (Environment.mk after policies).typeArgs request method use =
      (Environment.mk before policies).typeArgs request method use := by
  simp only [Environment.typeArgs, conserves.qualifiedMember_eq isDeclaring,
    conserves.inferTypeArgs_eq isDeclaring _ delegateKnown]

variable (unambiguous : before.Unambiguous)

include unambiguous

theorem declaringUse_eq {current laterCurrent declaring laterDeclaring : TypeDef}
    (currentKnown : current ∈ before.types)
    (keepsCurrent : Keeps name before after current laterCurrent)
    (keepsDeclaring : Keeps name before after declaring laterDeclaring) :
    (Environment.mk after policies).declaringUse request laterCurrent laterDeclaring =
      (Environment.mk before policies).declaringUse request current declaring := by
  have sameUse := conserves.ancestorUse?_eq unambiguous currentKnown keepsCurrent
  have sameParams : laterDeclaring.typeParams = declaring.typeParams := by
    rw [keepsDeclaring.definition]
  simp only [Environment.declaringUse, sameUse, keepsDeclaring.id, keepsDeclaring.selfTy,
    sameParams, keepsDeclaring.qualified, keepsDeclaring.instantiate]

theorem shape_eq {current laterCurrent : TypeDef} (currentKnown : current ∈ before.types)
    (keepsCurrent : Keeps name before after current laterCurrent) {method : MethodDef}
    (methodKnown : method ∈ before.methods) (named : method.name = name) (policy : MethodPolicy)
    (use : Ty) :
    (Environment.mk after policies).shape request laterCurrent method policy use =
      (Environment.mk before policies).shape request current method policy use := by
  obtain ⟨declaring, isDeclaring, -⟩ := unambiguous.consistent.listed method methodKnown
  simp only [Environment.shape, keepsCurrent.qualified, conserves.qualifiedMember_eq isDeclaring,
    conserves.baseTarget?_eq unambiguous currentKnown keepsCurrent methodKnown named]

/-- A request on the method has the blueprint that it had. -/
theorem blueprint_eq {method : MethodDef} (methodKnown : method ∈ before.methods)
    (named : method.name = name) (isMethod : request.method = method.id)
    (currentKnown : (before.type? request.current).isSome)
    (delegateKnown : (before.defOf? request.delegate).isSome) :
    (Environment.mk after policies).blueprint request =
      (Environment.mk before policies).blueprint request := by
  have lookup : before.method? request.method = some method := by
    rw [isMethod]
    exact unambiguous.consistent.method?_id methodKnown
  obtain ⟨current, isCurrent⟩ := Option.isSome_iff_exists.mp currentKnown
  obtain ⟨laterCurrent, isLaterCurrent, keepsCurrent⟩ := conserves.type? _ _ isCurrent
  obtain ⟨delegate, isDelegate⟩ := Option.isSome_iff_exists.mp delegateKnown
  obtain ⟨laterDelegate, isLaterDelegate, keepsDelegate⟩ := conserves.defOf? isDelegate
  obtain ⟨declaring, isDeclaring, -⟩ := unambiguous.consistent.listed method methodKnown
  obtain ⟨laterDeclaring, isLaterDeclaring, keepsDeclaring⟩ := conserves.type? _ _ isDeclaring
  have inTypes := List.mem_of_getElem? isCurrent
  simp only [Environment.blueprint, Outcome.ofOption, Outcome.ok_bind, lookup,
    conserves.method? _ _ lookup, isCurrent, isLaterCurrent, isDelegate, isLaterDelegate,
    keepsDelegate.id, keepsDelegate.qualified, isDeclaring, isLaterDeclaring,
    conserves.qualifiedMember_eq isDeclaring, Environment.scriptTypeArgs,
    conserves.typeArgs_eq policies request isDeclaring delegateKnown,
    conserves.declaringUse_eq policies request unambiguous inTypes keepsCurrent keepsDeclaring,
    conserves.shape_eq policies request unambiguous inTypes keepsCurrent methodKnown named]

end TypeIndex.Conserves

namespace TypeIndex

/-- Two indexes answer alike about a type, each from its own definition of it. -/
structure AnswersAlike (method : MethodDef) (before after : TypeIndex) (earlier later : TypeDef) :
    Prop where
  ancestors : (after.ancestors later).map Ancestor.view =
    (before.ancestors earlier).map Ancestor.view
  ancestorUse? : ∀ seen, after.ancestorUse? later seen = before.ancestorUse? earlier seen
  baseTarget? : after.baseTarget? later method = before.baseTarget? earlier method

/-- Growth that does not concern a method, which is that of definitions under new lookup keys
and of methods of other names, changes no earlier answer: not the ancestors of a type or how
it sees them, not the root of the method or what a call of it through `base` runs, and not
the result of a conversion of the method or the calls that the conversion makes. -/
theorem unrelated_growth {before after : TypeIndex} (unambiguous : before.Unambiguous)
    {method : MethodDef} (known : method ∈ before.methods)
    (growth : Relation.ReflTransGen (UnrelatedStep method.name) before after) :
    (∀ id earlier, before.type? id = some earlier → ∃ later, after.type? id = some later ∧
      AnswersAlike method before after earlier later) ∧
    after.method? method.id = some method ∧ after.slotRoot method = before.slotRoot method ∧
    ∀ (Source State : Type) (policies : Policies) (evaluator : Evaluator Source State)
      (request : Request Source), request.method = method.id →
      (before.type? request.current).isSome → (before.defOf? request.delegate).isSome →
      ∀ state,
        (Environment.mk after policies).convert evaluator request state =
          (Environment.mk before policies).convert evaluator request state ∧
        (Environment.mk after policies).calls evaluator request state =
          (Environment.mk before policies).calls evaluator request state := by
  have conserves := conserves_of_run unambiguous.built growth
  refine ⟨?_, conserves.method? _ _ (unambiguous.consistent.method?_id known),
    conserves.slotRoot_eq unambiguous known rfl, ?_⟩
  · intro id earlier found
    obtain ⟨later, isLater, keeps⟩ := conserves.type? id earlier found
    have inTypes := List.mem_of_getElem? found
    exact ⟨later, isLater, conserves.map_view_ancestors unambiguous inTypes keeps,
      conserves.ancestorUse?_eq unambiguous inTypes keeps,
      conserves.baseTarget?_eq unambiguous inTypes keeps known rfl⟩
  · intro Source State policies evaluator request isMethod currentKnown delegateKnown state
    have sameBlueprint := conserves.blueprint_eq policies request unambiguous known rfl isMethod
      currentKnown delegateKnown
    simp only [Environment.calls, Environment.convert, sameBlueprint, and_self]

end TypeIndex

namespace Containers

/-- The containers with another class `Lid` and a method `Take` of `Crate<U>`. -/
def lidded : TypeIndex :=
  (index.addClass ⟨"", "Lid"⟩ []).addMethod ⟨2⟩ ⟨"Take", [], [], crated, false, .virtual⟩

/-- Neither the class nor the method changes what `base.Put` runs in a shelf, or how
`take().Put` is converted. -/
theorem unrelated_growth_lidded :
    boxPut ∈ index.methods ∧
      Relation.ReflTransGen (TypeIndex.UnrelatedStep boxPut.name) index lidded ∧
      lidded.slotRoot boxPut = boxPut ∧
      lidded.baseTarget? shelf boxPut = some ⟨shelfBase, cratePut⟩ ∧
      Environment.convert ⟨lidded, environment.policies⟩ precompiled takenPut (.start "tmp") =
        (.ok takenCall, ⟨"tmp", 2⟩) := by
  have known : boxPut ∈ index.methods := by decide +kernel
  have growth : Relation.ReflTransGen (TypeIndex.UnrelatedStep boxPut.name) index lidded := by
    refine .tail (.single (@TypeIndex.UnrelatedStep.addClass _ index ⟨"", "Lid"⟩ [] ?_))
      (.addMethod ?_ ?_)
    · decide +kernel
    · decide +kernel
    · decide
  obtain ⟨types, -, root, conversions⟩ :=
    TypeIndex.unrelated_growth wellFormed.unambiguous known growth
  obtain ⟨later, isLater, alike⟩ := types ⟨3⟩ shelf (by decide +kernel)
  obtain rfl : shelf = later :=
    Option.some.inj ((by decide +kernel : lidded.type? ⟨3⟩ = some shelf).symm.trans isLater)
  refine ⟨known, growth, ?_, ?_, ?_⟩
  · rw [root]
    decide +kernel
  · rw [alike.baseTarget?]
    decide +kernel
  · rw [(conversions _ _ environment.policies precompiled takenPut rfl (by decide +kernel)
      (by decide +kernel) (.start "tmp")).1]
    exact converts_takenPut

end Containers

end MethodGroups
