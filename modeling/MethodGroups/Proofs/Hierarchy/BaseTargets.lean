import MethodGroups.Proofs.Hierarchy.Slots

/-!
# What an override replaces

The method that an override replaces is found in two ways: as the nearest method
above with the same signature, and as what a call through `base` runs, the nearest
method above in the same slot.  In a well-formed index the two agree.  A slot fixes a
signature, so the second search meets nothing that the first one passes by; and the
method that the first search finds is in the slot of the override.
-/

namespace MethodGroups

/-- A search for fewer elements finds the same one if this one still counts. -/
private theorem find?_eq_some_of_imp {α : Type} {wide narrow : α → Bool} {items : List α}
    {item : α} (implies : ∀ other ∈ items, narrow other = true → wide other = true)
    (found : items.find? wide = some item) (counts : narrow item = true) :
    items.find? narrow = some item := by
  obtain ⟨-, before, after, split, passed⟩ := List.find?_eq_some_iff_append.mp found
  refine List.find?_eq_some_iff_append.mpr ⟨counts, before, after, split, ?_⟩
  intro other earlier
  have notWide := passed other earlier
  have implied := implies other (by rw [split]; exact List.mem_append_left _ earlier)
  cases isNarrow : narrow other with
  | false => rfl
  | true =>
      rw [implied isNarrow] at notWide
      cases notWide

namespace TypeIndex.WellFormed

variable {index : TypeIndex} (wellFormed : index.WellFormed)
variable {type : TypeDef} (known : type ∈ index.types)
variable {method : MethodDef} (declares : index.Declares type method)

include wellFormed known declares

/-- What an ancestor has in the slot of a method also has its signature. -/
theorem matchesSignature_of_slotRoot (scopedMethods : index.MethodsScoped)
    {ancestor : Ancestor} (met : ancestor ∈ index.ancestors type) {candidate : MethodDef}
    (named : candidate ∈ index.methodsNamed ancestor.type method.name)
    (sameSlot : (index.slotRoot candidate).id = (index.slotRoot method).id) :
    method.matchesSignature candidate ancestor.subst = true := by
  have ancestorKnown := (wellFormed.mem_above known (.selfTy type) met).1
  have candidateDeclared := ((wellFormed.mem_methodsNamed ancestorKnown).mp named).1
  have signatures := wellFormed.signature_eq_of_slotRoot known scopedMethods
    (List.mem_cons_self : ⟨type, type.selfTy⟩ ∈ index.lineage type)
    (List.mem_cons_of_mem _ met) declares candidateDeclared sameSlot.symm
  rw [MethodDef.matchesSignature_iff, ← signatures]
  exact (method.signature_self type).symm

/-- An ancestor without anything that the method overrides has nothing in its slot. -/
theorem slotMember?_eq_none (scopedMethods : index.MethodsScoped)
    {ancestor : Ancestor} (met : ancestor ∈ index.ancestors type)
    (nothing : index.overriddenIn? method ancestor = none) :
    index.slotMember? method.name (index.slotRoot method).id ancestor = none := by
  rw [slotMember?, List.find?_eq_none]
  intro candidate named inSlot
  simp only [Bool.and_eq_true, decide_eq_true_eq] at inSlot
  have signatures := wellFormed.matchesSignature_of_slotRoot known declares scopedMethods met
    named inSlot.2
  have passed := List.find?_eq_none.mp nothing candidate named
  rw [inSlot.1, signatures] at passed
  exact passed rfl

/-- The nearest method that an override overrides is what its ancestor has in the
slot. -/
theorem slotMember?_eq_some (scopedMethods : index.MethodsScoped)
    (overrides : method.virtuality = .override) {ancestor : Ancestor}
    (met : ancestor ∈ index.ancestors type) {above : MethodDef}
    (found : index.overridden? method = some above)
    (here : index.overriddenIn? method ancestor = some above) :
    index.slotMember? method.name (index.slotRoot method).id ancestor = some above := by
  have slots : index.slotRoot method = index.slotRoot above := by
    rw [wellFormed.unambiguous.slotRoot_eq declares.1, if_pos overrides, found]
  have counts := List.find?_some here
  rw [Bool.and_eq_true] at counts
  apply find?_eq_some_of_imp ?_ here
  · rw [counts.1, slots]
    simp
  · intro candidate named inSlot
    simp only [Bool.and_eq_true, decide_eq_true_eq] at inSlot
    rw [inSlot.1, wellFormed.matchesSignature_of_slotRoot known declares scopedMethods met
      named inSlot.2]
    rfl

end TypeIndex.WellFormed

/-- A call of an override through `base`, from the type that declares it, runs what
the override replaces, seen as an ancestor of this type; if the override replaces
nothing, there is nothing to run. -/
theorem TypeIndex.baseTarget?_eq_overridden? {index : TypeIndex} (wellFormed : index.WellFormed)
    (scopedMethods : index.MethodsScoped) {method : MethodDef} (known : method ∈ index.methods)
    {declaring : TypeDef} (isDeclaring : index.type? method.declaring = some declaring)
    (overrides : method.virtuality = .override) :
    (index.baseTarget? declaring method).map BaseTarget.method = index.overridden? method ∧
      ∀ target, index.baseTarget? declaring method = some target →
        index.ancestorUse? declaring target.method.declaring = some target.use := by
  have declaringKnown : declaring ∈ index.types := List.mem_of_getElem? isDeclaring
  have declares : index.Declares declaring method :=
    ⟨known, (wellFormed.consistent.id_of_type? isDeclaring).symm⟩
  have slotSearch : index.baseTarget? declaring method =
      (index.ancestors declaring).findSome? fun ancestor =>
        (index.slotMember? method.name (index.slotRoot method).id ancestor).map
          (⟨ancestor.use, ·⟩) := by
    rw [baseTarget?, overrides]
    rfl
  have signatureSearch : index.overridden? method =
      (index.ancestors declaring).findSome? (index.overriddenIn? method) := by
    simp [overridden?, isDeclaring]
  cases found : index.overridden? method with
  | none =>
      have nothing : index.baseTarget? declaring method = none := by
        rw [slotSearch, List.findSome?_eq_none_iff]
        intro ancestor met
        rw [signatureSearch, List.findSome?_eq_none_iff] at found
        rw [wellFormed.slotMember?_eq_none declaringKnown declares scopedMethods met
          (found ancestor met)]
        rfl
      rw [nothing]
      exact ⟨rfl, by simp⟩
  | some above =>
      obtain ⟨before, ancestor, after, split, here, passed⟩ :=
        List.findSome?_eq_some_iff.mp (signatureSearch.symm.trans found)
      have met : ancestor ∈ index.ancestors declaring := by simp [split]
      have target : index.baseTarget? declaring method = some ⟨ancestor.use, above⟩ := by
        rw [slotSearch, List.findSome?_eq_some_iff]
        refine ⟨before, ancestor, after, split, ?_, ?_⟩
        · rw [wellFormed.slotMember?_eq_some declaringKnown declares scopedMethods overrides
            met found here]
          rfl
        · intro lower earlier
          have lowerMet : lower ∈ index.ancestors declaring := by simp [split, earlier]
          rw [wellFormed.slotMember?_eq_none declaringKnown declares scopedMethods lowerMet
            (passed lower earlier)]
          rfl
      have ancestorKnown := (wellFormed.mem_above declaringKnown (.selfTy declaring) met).1
      have aboveDeclared := ((wellFormed.mem_methodsNamed ancestorKnown).mp
        (List.mem_of_find?_eq_some here)).1
      rw [target]
      refine ⟨rfl, ?_⟩
      intro found isTarget
      cases isTarget
      exact (wellFormed.ancestorUse?_eq_some_iff declaringKnown).mpr
        ⟨ancestor, List.mem_cons_of_mem _ met, aboveDeclared.2.symm, rfl⟩

/-- `Crate<U>` replaces what `Box<U>` has. -/
theorem Containers.baseTarget?_cratePut :
    index.overridden? cratePut = some boxPut ∧
      (index.baseTarget? crate cratePut).map BaseTarget.method = some boxPut ∧
      index.ancestorUse? crate boxPut.declaring = some crateBase := by
  have replaced : index.overridden? cratePut = some boxPut := by decide +kernel
  have target : index.baseTarget? crate cratePut = some ⟨crateBase, boxPut⟩ := by decide +kernel
  obtain ⟨sameMethod, sameUse⟩ := TypeIndex.baseTarget?_eq_overridden? wellFormed methodsScoped
    (by decide +kernel : cratePut ∈ index.methods)
    (by decide +kernel : index.type? cratePut.declaring = some crate) rfl
  exact ⟨replaced, sameMethod.trans replaced, sameUse ⟨crateBase, boxPut⟩ target⟩

end MethodGroups
