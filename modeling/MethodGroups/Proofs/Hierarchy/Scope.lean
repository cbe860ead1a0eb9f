import MethodGroups.Proofs.Hierarchy.Slots
import MethodGroups.Proofs.Index.Instantiation

/-!
# Ancestors in the terms of the viewer

A base is written in terms of the parameters of the deriving type, and each of these has an
argument in a use of the type.  So the walk upwards never leaves the type parameters with
which it began: a type sees its ancestors, and what its base calls run, in terms of its own
parameters.
-/

namespace MethodGroups

variable {allowed : TyParam → Prop}

namespace TypeDef

theorem within_selfTy {type : TypeDef} (own : ∀ p ∈ type.tyParams, allowed p) :
    type.selfTy.Within allowed := by
  rw [selfTy, instantiate, Ty.within_named, List.forall_mem_map]
  intro p isOwn q isParam
  cases List.mem_singleton.mp isParam
  exact own p isOwn

end TypeDef

namespace TypeIndex.WellFormed

variable {index : TypeIndex} (wellFormed : index.WellFormed)
variable {type : TypeDef} (known : type ∈ index.types)

include wellFormed known

/-- A base mentions only parameters of the deriving type, so the arguments of the use take
the place of all of them. -/
theorem within_baseOfUse? {use : Ty} (isUse : type.IsUse use) (within : use.Within allowed)
    {ancestor : Ancestor} (step : index.baseOfUse? use = some ancestor) :
    ancestor.use.Within allowed := by
  obtain ⟨base, isBase, -, seen⟩ := (wellFormed.baseOfUse?_eq_some_iff known isUse).mp step
  rw [← seen]
  exact TypeDef.within_subst_argSubst (within.of_head? isUse.head) fun p mentioned =>
    .inl ⟨isUse.arity, wellFormed.ownBase type known base isBase p mentioned⟩

theorem within_climb (count : Nat) {use : Ty} (isUse : type.IsUse use)
    (within : use.Within allowed) {ancestor : Ancestor}
    (met : ancestor ∈ index.climb count use) : ancestor.use.Within allowed := by
  refine (forall_mem_climb (fun seen => (seen.type ∈ index.types ∧ seen.type.IsUse seen.use) ∧
    seen.use.Within allowed) ?_ count ⟨type, use⟩ ⟨⟨known, isUse⟩, within⟩ ancestor met).2
  rintro lower upper ⟨⟨lowerKnown, lowerUse⟩, lowerWithin⟩ step
  exact ⟨wellFormed.ancestor_known lowerKnown lowerUse step,
    wellFormed.within_baseOfUse? lowerKnown lowerUse lowerWithin step⟩

variable (own : ∀ p ∈ type.tyParams, allowed p)

include own

/-- A type sees itself and its ancestors in terms of its own parameters. -/
theorem within_lineage {seen : Ancestor} (met : seen ∈ index.lineage type) :
    seen.use.Within allowed := by
  have selfWithin := TypeDef.within_selfTy own
  rcases List.mem_cons.mp met with rfl | above
  · exact selfWithin
  · exact wellFormed.within_climb known _ (.selfTy type) selfWithin above

theorem within_ancestorUse? {id : TypeId} {use : Ty}
    (views : index.ancestorUse? type id = some use) : use.Within allowed := by
  obtain ⟨seen, met, -, rfl⟩ := (wellFormed.ancestorUse?_eq_some_iff known).mp views
  exact wellFormed.within_lineage known own met

/-- What a base call runs is seen in terms of the parameters of the current type. -/
theorem within_baseTarget? {method : MethodDef} {target : BaseTarget}
    (found : index.baseTarget? type method = some target) : target.use.Within allowed := by
  rw [baseTarget?] at found
  split at found
  · obtain ⟨ancestor, met, here⟩ := List.exists_of_findSome?_eq_some found
    obtain ⟨member, -, rfl⟩ := Option.map_eq_some_iff.mp here
    exact wellFormed.within_lineage known own (List.mem_cons_of_mem _ met)
  · obtain ⟨use, views, rfl⟩ := Option.map_eq_some_iff.mp found
    exact wellFormed.within_ancestorUse? known own views

end TypeIndex.WellFormed

end MethodGroups
