import MethodGroups.Proofs.Index.WellFormed
import Mathlib.Data.Nat.Find

/-!
# Walks along the bases end

Nothing forbids to register a name again, and with it bases come to name another type.
Still only one step can close a cycle: a class that is registered in the place of
`System.Object`, or of something above it, has `System.Object` as its base and so
becomes its own ancestor.  A base that would close a cycle is refused; delegates and
methods close none.
-/

namespace MethodGroups

/-- Take a number of steps along a partial function. -/
def stepsAlong {α : Type} (next : α → Option α) : Nat → α → Option α
  | 0, item => some item
  | count + 1, item => (next item).bind (stepsAlong next count)

/-- Following a partial function from an element always ends. -/
def WalkEnds {α : Type} (next : α → Option α) (item : α) : Prop :=
  ∃ count, stepsAlong next count item = none

/-- Where walks end, the number of steps that are left ranks the elements. -/
theorem exists_rank_of_walkEnds {α : Type} (next : α → Option α) :
    ∃ rank : α → Nat, ∀ item above, WalkEnds next item → next item = some above →
      rank above < rank item := by
  classical
  refine ⟨fun item => if ends : WalkEnds next item then Nat.find ends else 0, ?_⟩
  intro item above ends step
  have left : ∃ count, Nat.find ends = count + 1 := by
    apply Nat.exists_eq_succ_of_ne_zero
    intro none
    have stopped := Nat.find_spec ends
    rw [none] at stopped
    cases stopped
  obtain ⟨count, isCount⟩ := left
  have aboveStopped : stepsAlong next count above = none := by
    have stopped := Nat.find_spec ends
    rwa [isCount, stepsAlong, step, Option.bind_some] at stopped
  have aboveEnds : WalkEnds next above := ⟨count, aboveStopped⟩
  dsimp only
  rw [dif_pos ends, dif_pos aboveEnds, isCount]
  exact Nat.lt_succ_of_le (Nat.find_min' aboveEnds aboveStopped)

namespace TypeIndex

/-- Following the bases upwards from any type ends. -/
def BasesEnd (index : TypeIndex) : Prop := ∀ type ∈ index.types, WalkEnds index.baseDef? type

/-- The types can be ranked exactly if every walk along the bases ends. -/
theorem Consistent.acyclic_iff_basesEnd {index : TypeIndex} (consistent : index.Consistent) :
    index.Acyclic ↔ index.BasesEnd := by
  constructor
  · intro acyclic type known
    obtain ⟨rank, ranked⟩ := acyclic
    generalize height : rank type.id = bound
    induction bound using Nat.strong_induction_on generalizing type with
    | _ bound ih =>
        cases isBase : index.baseDef? type with
        | none => exact ⟨1, by rw [stepsAlong, isBase]; rfl⟩
        | some base =>
            have lower := ranked.base_lt consistent known isBase
            obtain ⟨count, stopped⟩ := ih _ (height ▸ lower) base (mem_of_baseDef? isBase) rfl
            exact ⟨count + 1, by rw [stepsAlong, isBase]; exact stopped⟩
  · intro ends
    obtain ⟨rank, ranked⟩ := exists_rank_of_walkEnds index.baseDef?
    refine ⟨fun id => ((index.type? id).map rank).getD 0, ?_⟩
    intro id above isBaseId
    obtain ⟨type, lookup, isBaseId⟩ := Option.bind_eq_some_iff.mp isBaseId
    obtain ⟨base, isBase, rfl⟩ := Option.map_eq_some_iff.mp isBaseId
    dsimp only
    rw [lookup, consistent.type?_id (mem_of_baseDef? isBase)]
    exact ranked type base (ends type (List.mem_of_getElem? lookup)) isBase

/-! ## Single steps -/

/-- The index after an attempt to set a base. -/
def afterSetBase (index : TypeIndex) (type : TypeDef) (base : Ty) : TypeIndex :=
  match index.setBase type base with
  | .ok next => next
  | .error _ => index

/-- Setting a base does what it should in an index whose bases end. -/
structure SetBaseExact (index : TypeIndex) (type : TypeDef) (base : Ty) : Prop where
  /-- The walk of the cycle check ends at a type without a base. -/
  terminates : ∀ start, index.defOf? base = some start → ∃ last,
    (index.baseChain index.types.length start).getLast? = some last ∧
      index.baseDef? last = none
  accepted_iff : (∃ next, index.setBase type base = .ok next) ↔
    ∃ start, index.defOf? base = some start ∧ ¬ LeadsTo index.baseId? start.id type.id
  refused : ∀ error, index.setBase type base = .error error →
    index.afterSetBase type base = index
  /-- Nothing but the base of the type is changed. -/
  changed : ∀ next, index.setBase type base = .ok next →
    index.afterSetBase type base = next ∧ next.methods = index.methods ∧
      ∀ id, next.type? id = (index.type? id).map fun known =>
        if id = type.id then { known with base := some base } else known
  basesEnd : (index.afterSetBase type base).BasesEnd

theorem setBaseExact {index : TypeIndex} (consistent : index.Consistent)
    (acyclic : index.Acyclic) {type : TypeDef} (known : index.type? type.id = some type)
    (base : Ty) : index.SetBaseExact type base := by
  have accepted := fun next =>
    @setBase_eq_ok_iff index consistent acyclic type base next
  refine ⟨?_, ?_, ?_, ?_, ?_⟩
  · intro start resolves
    obtain ⟨rank, ranked⟩ := acyclic
    exact exists_last_baseChain consistent ranked (mem_of_defOf? resolves)
  · simp [accepted]
  · intro error refused
    rw [afterSetBase, refused]
  · intro next isNext
    obtain ⟨start, -, -, rfl⟩ := (accepted next).mp isNext
    refine ⟨by rw [afterSetBase, isNext], rfl, ?_⟩
    intro id
    exact index.type?_modifyType type.id (rebase base) id
  · rw [afterSetBase]
    cases result : index.setBase type base with
    | error error => exact consistent.acyclic_iff_basesEnd.mp acyclic
    | ok next =>
        obtain ⟨start, resolves, fresh, rfl⟩ := (accepted next).mp result
        have nextConsistent := (Step.setBase known result).consistent consistent
        apply nextConsistent.acyclic_iff_basesEnd.mp
        exact (acyclic_rebase_iff consistent acyclic known resolves).mpr fresh

/-! ## Runs -/

/-- In an index whose bases end, a base is set exactly if the type cannot be reached from
it, delegates and methods keep the bases ending, and a class keeps them ending unless it
replaces the root. -/
theorem basesEnd_after_step {index : TypeIndex} (built : index.Built) (ends : index.BasesEnd) :
    (∀ type base, index.type? type.id = some type → index.SetBaseExact type base) ∧
      (∀ constructor typeParams signature,
        (index.addDelegate constructor typeParams signature).BasesEnd) ∧
      (∀ declaring sig, (index.type? declaring).isSome →
        (index.addMethod declaring sig).BasesEnd) ∧
      ∀ constructor typeParams, ¬ (index.addClass constructor typeParams).BasesEnd ↔
        index.ReplacesRoot constructor typeParams := by
  have consistent := built.consistent
  have acyclic := consistent.acyclic_iff_basesEnd.mpr ends
  refine ⟨?_, ?_, ?_, ?_⟩
  · intro type base known
    exact setBaseExact consistent acyclic known base
  · intro constructor typeParams signature
    have next := (Step.addDelegate index constructor typeParams signature).consistent consistent
    exact next.acyclic_iff_basesEnd.mp (acyclic_push consistent acyclic rfl rfl)
  · intro declaring sig known
    have next := (Step.addMethod known sig).consistent consistent
    exact next.acyclic_iff_basesEnd.mp (acyclic_addMethod consistent acyclic declaring sig)
  · intro constructor typeParams
    have next := (Step.addClass index constructor typeParams).consistent consistent
    rw [← next.acyclic_iff_basesEnd, acyclic_addClass_iff consistent acyclic, not_not]

/-- Runs in which no class replaces the root. -/
inductive Orderly : TypeIndex → Prop where
  | empty : Orderly .empty
  | step {before after : TypeIndex} (orderly : Orderly before) (step : Step before after)
      (keepsRoot : ∀ constructor typeParams, after = before.addClass constructor typeParams →
        ¬ before.ReplacesRoot constructor typeParams) : Orderly after

theorem Orderly.built {index : TypeIndex} (orderly : index.Orderly) : index.Built := by
  induction orderly with
  | empty => exact .empty
  | step _ step _ ih => exact .step ih step

/-- As long as no class replaces the root, names may be registered again at will. -/
theorem Orderly.basesEnd {index : TypeIndex} (orderly : index.Orderly) : index.BasesEnd := by
  apply orderly.built.consistent.acyclic_iff_basesEnd.mp
  induction orderly with
  | empty => exact acyclic_empty
  | step orderly step keepsRoot ih => exact step.acyclic orderly.built.consistent ih keepsRoot

end TypeIndex

namespace Containers

theorem basesEnd : index.BasesEnd :=
  wellFormed.consistent.acyclic_iff_basesEnd.mp wellFormed.acyclic

/-- `Crate<U>` can be given another base and another method, but `System.Object`, registered
again, is its own base. -/
theorem not_basesEnd_second_object :
    (index.afterSetBase crate .object).BasesEnd ∧
      (index.addMethod crate.id (put crated .virtual)).BasesEnd ∧
      ¬ (index.addClass ⟨"System", "Object"⟩ []).BasesEnd := by
  obtain ⟨setting, -, methods, classes⟩ := TypeIndex.basesEnd_after_step built basesEnd
  have object : (index.findKey? "System.Object").isSome := by decide +kernel
  obtain ⟨object, isObject⟩ := Option.isSome_iff_exists.mp object
  have replaces : index.ReplacesRoot ⟨"System", "Object"⟩ [] :=
    ⟨object, object, isObject, isObject, Relation.ReflTransGen.refl⟩
  exact ⟨(setting crate .object (by decide +kernel)).basesEnd,
    methods crate.id _ (by decide +kernel), (classes _ _).mpr replaces⟩

end Containers

end MethodGroups
