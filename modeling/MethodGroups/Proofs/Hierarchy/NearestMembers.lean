import MethodGroups.Proofs.Hierarchy.SlotRoots

/-!
# The target of a base call is the nearest member of the slot

A call through `base` looks for a method of the slot in each ancestor of the current
type, nearest first, and only among the methods of one name.  All methods of a slot have
one name, so the restriction passes nothing by: the search finds the nearest ancestor
that has a method in the slot, whichever method of the slot was asked for.
-/

namespace MethodGroups

namespace TypeIndex

/-- The type declares a method of instances in the slot with the given root. -/
structure Supplies (index : TypeIndex) (type : TypeDef) (slot : MethodId)
    (method : MethodDef) : Prop where
  declares : index.Declares type method
  hasSlot : method.hasSlot = true
  inSlot : (index.slotRoot method).id = slot

/-- The target is the method of the slot in the nearest strict ancestor that has one, and
the ancestor is seen as from the current type. -/
def IsNearest (index : TypeIndex) (current : TypeDef) (slot : MethodId)
    (target : BaseTarget) : Prop :=
  ∃ lower ancestor upper, index.ancestors current = lower ++ ancestor :: upper ∧
    ancestor.type.id ≠ current.id ∧
    index.Supplies ancestor.type slot target.method ∧
    index.ancestorUse? current target.method.declaring = some target.use ∧
    ∀ below ∈ lower, ∀ other, ¬ index.Supplies below.type slot other

namespace WellFormed

variable {index : TypeIndex} (wellFormed : index.WellFormed)

include wellFormed

theorem name_eq_of_slotRoot {first second : MethodDef} (firstKnown : first ∈ index.methods)
    (secondKnown : second ∈ index.methods)
    (sameSlot : (index.slotRoot first).id = (index.slotRoot second).id) :
    first.name = second.name := by
  have unambiguous := wellFormed.unambiguous
  have sameRoot := wellFormed.eq_of_method_id_eq (unambiguous.slotRoot_mem firstKnown)
    (unambiguous.slotRoot_mem secondKnown) sameSlot
  rw [← unambiguous.name_slotRoot firstKnown, sameRoot, unambiguous.name_slotRoot secondKnown]

/-! ## The search in one ancestor -/

section Search

variable {ancestor : Ancestor} (ancestorKnown : ancestor.type ∈ index.types)

include ancestorKnown

theorem supplies_of_slotMember? {name : String} {slot : MethodId} {found : MethodDef}
    (isMember : index.slotMember? name slot ancestor = some found) :
    index.Supplies ancestor.type slot found := by
  have named := (wellFormed.mem_methodsNamed ancestorKnown).mp
    (List.mem_of_find?_eq_some isMember)
  have accepted := List.find?_some isMember
  rw [Bool.and_eq_true, decide_eq_true_eq] at accepted
  exact ⟨named.1, accepted.1, accepted.2⟩

/-- The search by the name of a method passes by nothing in the slot of the method. -/
theorem slotMember?_eq_none_iff {method : MethodDef} (known : method ∈ index.methods) :
    index.slotMember? method.name (index.slotRoot method).id ancestor = none ↔
      ∀ other, ¬ index.Supplies ancestor.type (index.slotRoot method).id other := by
  rw [slotMember?, List.find?_eq_none]
  constructor
  · intro nothing other supplies
    have sameName := wellFormed.name_eq_of_slotRoot supplies.declares.1 known supplies.inSlot
    apply nothing other
    · exact (wellFormed.mem_methodsNamed ancestorKnown).mpr ⟨supplies.declares, sameName⟩
    · rw [supplies.hasSlot, supplies.inSlot]
      simp
  · intro nothing candidate named accepted
    rw [Bool.and_eq_true, decide_eq_true_eq] at accepted
    have declares := ((wellFormed.mem_methodsNamed ancestorKnown).mp named).1
    exact nothing candidate ⟨declares, accepted.1, accepted.2⟩

end Search

end WellFormed

/-- A call through `base` of a method with a slot runs the nearest method of the slot
strictly above the current type, and finds nothing only if no ancestor has one.  So it
depends on the slot alone. -/
theorem baseTarget?_nearest {index : TypeIndex} (wellFormed : index.WellFormed)
    {current : TypeDef} (currentKnown : current ∈ index.types) {method : MethodDef}
    (known : method ∈ index.methods) (overridable : method.virtuality.isOverridable = true) :
    (∀ target, index.baseTarget? current method = some target →
      index.IsNearest current (index.slotRoot method).id target) ∧
    (index.baseTarget? current method = none → ∀ ancestor ∈ index.ancestors current,
      ∀ other, ¬ index.Supplies ancestor.type (index.slotRoot method).id other) ∧
    ∀ other ∈ index.methods, other.virtuality.isOverridable = true →
      (index.slotRoot other).id = (index.slotRoot method).id →
        index.baseTarget? current other = index.baseTarget? current method := by
  have ancestorKnown : ∀ ancestor ∈ index.ancestors current, ancestor.type ∈ index.types :=
    fun ancestor met => (wellFormed.mem_above currentKnown (.selfTy current) met).1
  have search : ∀ other : MethodDef, other.virtuality.isOverridable = true →
      index.baseTarget? current other =
        (index.ancestors current).findSome? fun ancestor =>
          (index.slotMember? other.name (index.slotRoot other).id ancestor).map
            (⟨ancestor.use, ·⟩) := by
    intro other otherOverridable
    rw [baseTarget?, if_pos otherOverridable]
  refine ⟨?_, ?_, ?_⟩
  · intro target found
    rw [search method overridable] at found
    obtain ⟨lower, ancestor, upper, split, here, passed⟩ := List.findSome?_eq_some_iff.mp found
    obtain ⟨member, isMember, rfl⟩ := Option.map_eq_some_iff.mp here
    have met : ancestor ∈ index.ancestors current := by simp [split]
    have supplies := wellFormed.supplies_of_slotMember? (ancestorKnown ancestor met) isMember
    refine ⟨lower, ancestor, upper, split, ?_, supplies, ?_, ?_⟩
    · intro same
      have absent := (wellFormed.nodup_above currentKnown (.selfTy current)).1
      exact absent (List.mem_map.mpr ⟨ancestor, met, same⟩)
    · rw [wellFormed.ancestorUse?_eq_some_iff currentKnown]
      exact ⟨ancestor, List.mem_cons_of_mem _ met, supplies.declares.2.symm, rfl⟩
    · intro below earlier
      have belowMet : below ∈ index.ancestors current := by simp [split, earlier]
      rw [← wellFormed.slotMember?_eq_none_iff (ancestorKnown below belowMet) known]
      exact Option.map_eq_none_iff.mp (passed below earlier)
  · intro nothing ancestor met
    rw [search method overridable, List.findSome?_eq_none_iff] at nothing
    rw [← wellFormed.slotMember?_eq_none_iff (ancestorKnown ancestor met) known]
    exact Option.map_eq_none_iff.mp (nothing ancestor met)
  · intro other otherKnown otherOverridable sameSlot
    rw [search other otherOverridable, search method overridable, sameSlot,
      wellFormed.name_eq_of_slotRoot otherKnown known sameSlot]

end TypeIndex

/-- From a shelf, the nearest method in the slot of `Put` is the override of the crate,
also if the method of the box is asked for. -/
theorem Containers.baseTarget?_shelf :
    index.IsNearest shelf boxPut.id ⟨shelfBase, cratePut⟩ ∧
      index.baseTarget? shelf cratePut = index.baseTarget? shelf boxPut := by
  have target : index.baseTarget? shelf boxPut = some ⟨shelfBase, cratePut⟩ := by decide +kernel
  have isRoot : index.slotRoot boxPut = boxPut := by decide +kernel
  obtain ⟨nearest, -, sameTarget⟩ := TypeIndex.baseTarget?_nearest wellFormed
    (by decide +kernel : shelf ∈ index.types) (by decide +kernel : boxPut ∈ index.methods) rfl
  have isNearest := nearest _ target
  rw [isRoot] at isNearest
  exact ⟨isNearest, sameTarget cratePut (by decide +kernel) rfl (by decide +kernel)⟩

end MethodGroups
