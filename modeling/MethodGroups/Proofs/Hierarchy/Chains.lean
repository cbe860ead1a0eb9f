import MethodGroups.Proofs.Hierarchy.Scope
import MethodGroups.Proofs.Hierarchy.SlotRoots

/-!
# Ancestors are the chain of bases

A base is refused if the walk along the bases leads from it back to the type.  This walk
looks at the bases as they are written; the ancestors of a type are met on another walk,
which replaces the parameters of each base by the arguments through which it is seen.
Both walks meet the same types and end together, so the check of the one protects the
other.
-/

namespace MethodGroups

namespace TypeIndex

variable {index : TypeIndex} {type : TypeDef}

/-- Step by step, the walk along the bases meets the types above a use. -/
theorem Unambiguous.stepsAlong_baseDef? (unambiguous : index.Unambiguous) {use : Ty}
    (names : index.defOf? use = some type) (count : Nat) :
    stepsAlong index.baseDef? (count + 1) type = (index.above use)[count]?.map Ancestor.type := by
  induction count generalizing type use with
  | zero =>
      rw [unambiguous.above_eq names, stepsAlong, unambiguous.consistent.baseDef?_eq_map names]
      cases index.baseOfUse? use <;> rfl
  | succ count ih =>
      rw [unambiguous.above_eq names, stepsAlong, unambiguous.consistent.baseDef?_eq_map names]
      cases step : index.baseOfUse? use with
      | none => rfl
      | some first => exact ih (unambiguous.consistent.defOf?_of_baseOfUse? names step)

/-- A base that names a type closes a cycle exactly if it is set for the type itself or for
one of its ancestors. -/
theorem Unambiguous.setBase_eq_cycle_iff (unambiguous : index.Unambiguous)
    (known : type ∈ index.types) (changed : TypeDef) {base : Ty}
    (names : index.defOf? base = some type) :
    index.setBase changed base = .error (.cycle changed.qualified) ↔
      changed.id ∈ type.id :: (index.ancestors type).map (·.type.id) := by
  have chain : (index.baseChain index.types.length type).map TypeDef.id =
      type.id :: (index.ancestors type).map (·.type.id) := by
    rw [← unambiguous.map_type_above (unambiguous.defOf?_selfTy known), List.map_cons,
      List.map_map]
    rfl
  simp only [setBase, names, chain]
  split
  · next met => exact iff_of_true rfl met
  · next fresh => exact iff_of_false (by simp) fresh

/-- The ancestors of a type are the chain of its bases, each one seen in terms of the type. -/
structure FollowsBases (index : TypeIndex) (type : TypeDef) : Prop where
  /-- Going from a use to the use of its base meets the ancestors and then ends. -/
  uses : ∀ count, stepsAlong index.baseUse? (count + 1) type.selfTy =
    (index.ancestors type)[count]?.map Ancestor.use
  /-- Going from a type to its base, as it is written, meets the same types. -/
  bases : ∀ count, stepsAlong index.baseDef? (count + 1) type =
    (index.ancestors type)[count]?.map Ancestor.type
  /-- The check for cycles goes along these types. -/
  checked : ∀ changed base, index.defOf? base = some type →
    (index.setBase changed base = .error (.cycle changed.qualified) ↔
      changed.id ∈ type.id :: (index.ancestors type).map (·.type.id))
  once : (type.id :: (index.ancestors type).map (·.type.id)).Nodup
  names : ∀ seen ∈ index.ancestors type, index.defOf? seen.use = some seen.type
  arity : ∀ seen ∈ index.ancestors type,
    seen.use.args.length = seen.type.typeParams.length
  scope : ∀ seen ∈ index.ancestors type, ∀ p ∈ seen.use.params, type.Owns p

/-- The walk through the ancestors ends, and meets exactly the types on the chain of bases
that the check for cycles goes along, nearest first and each one once.  It sees each of them
through a use of it, in terms of the parameters of the type where it began. -/
theorem ancestors_followBases (wellFormed : index.WellFormed) (known : type ∈ index.types) :
    index.FollowsBases type := by
  have unambiguous := wellFormed.unambiguous
  have selfNames := unambiguous.defOf?_selfTy known
  have ownParams : ∀ p ∈ type.tyParams, type.Owns p := by
    intro p isOwn
    obtain ⟨position, bound, rfl⟩ := List.mem_iff_getElem.mp isOwn
    have inRange : position < type.typeParams.length := by simpa using bound
    simpa [TypeDef.tyParams, TypeDef.Owns] using inRange
  refine ⟨unambiguous.stepsAlong_baseUse? selfNames, unambiguous.stepsAlong_baseDef? selfNames,
    ?_, ?_, ?_, ?_, ?_⟩
  · intro changed base names
    exact unambiguous.setBase_eq_cycle_iff known changed names
  · rw [List.nodup_cons]
    exact wellFormed.nodup_above known (.selfTy type)
  · intro seen met
    exact unambiguous.defOf?_of_mem_ancestors known met
  · intro seen met
    exact (wellFormed.mem_above known (.selfTy type) met).2.arity
  · intro seen met
    exact wellFormed.within_lineage known ownParams (List.mem_cons_of_mem _ met)

end TypeIndex

namespace Containers

/-- Above `Shelf` are `Crate<System.Object>`, `Box<System.Object>` and `System.Object`, and
then nothing.  So `Box` cannot be given the base `Shelf`. -/
theorem followsBases_shelf :
    shelf ∈ index.types ∧
      stepsAlong index.baseUse? 2 shelf.selfTy = some (.named ⟨"", "Box"⟩ [.object]) ∧
      stepsAlong index.baseDef? 2 shelf = some box ∧
      stepsAlong index.baseUse? 4 shelf.selfTy = none ∧
      index.setBase box (.named ⟨"", "Shelf"⟩ []) = .error (.cycle "Box") := by
  have known : shelf ∈ index.types := by decide +kernel
  have ancestors : index.ancestors shelf = [⟨crate, shelfBase⟩,
      ⟨box, .named ⟨"", "Box"⟩ [.object]⟩, ⟨⟨⟨0⟩, ⟨"System", "Object"⟩, [], none, .ordinary, []⟩,
        .object⟩] := by decide +kernel
  have follows := TypeIndex.ancestors_followBases wellFormed known
  refine ⟨known, ?_, ?_, ?_, ?_⟩
  · rw [follows.uses 1, ancestors]
    rfl
  · rw [follows.bases 1, ancestors]
    rfl
  · rw [follows.uses 3, ancestors]
    rfl
  · refine (follows.checked box _ (by decide +kernel)).mpr ?_
    rw [ancestors]
    decide

end Containers

end MethodGroups
