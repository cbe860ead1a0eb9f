import MethodGroups.Hierarchy.Ancestors
import MethodGroups.Proofs.Index.WellFormed

/-!
# The walk through the ancestors

A substitution changes the arguments of a type and not what it refers to.  So the walk
through the uses of the ancestors follows the bases as they are written, meets the same
types as the walk along the bases, and ends where that walk ends.

In a well-formed index the walk also sees each type at most once and commutes with
substitution: what is above a substituted use is what is above the use, substituted.
So the part of a walk that lies above one of its ancestors is the walk from that
ancestor, seen through the use by which it was met.
-/

namespace MethodGroups

/-- The ancestor as it is seen after a substitution in its use. -/
def Ancestor.through (ancestor : Ancestor) (substitution : Subst) : Ancestor :=
  ⟨ancestor.type, ancestor.use.subst substitution⟩

namespace TypeIndex

/-- The ancestors above a use, nearest first, as far as any walk goes. -/
def above (index : TypeIndex) (use : Ty) : List Ancestor :=
  index.climb (2 * index.types.length) use

theorem ancestors_eq_above (index : TypeIndex) (type : TypeDef) :
    index.ancestors type = index.above type.selfTy := rfl

/-- What each step upwards preserves holds along the whole walk. -/
theorem forall_mem_climb {index : TypeIndex} (Holds : Ancestor → Prop)
    (preserved : ∀ lower upper, Holds lower → index.baseOfUse? lower.use = some upper →
      Holds upper)
    (count : Nat) (start : Ancestor) (holds : Holds start) :
    ∀ ancestor ∈ index.climb count start.use, Holds ancestor := by
  induction count generalizing start with
  | zero => simp [climb]
  | succ count ih =>
      intro ancestor met
      rw [climb] at met
      cases step : index.baseOfUse? start.use with
      | none => simp [step] at met
      | some first =>
          have firstHolds := preserved start first holds step
          simp only [step, List.mem_cons] at met
          rcases met with rfl | later
          · exact firstHolds
          · exact ih first firstHolds ancestor later

/-! ## The walk follows the bases -/

section Consistent

variable {index : TypeIndex} {type : TypeDef} {use : Ty}

theorem use?_of_defOf? (names : index.defOf? use = some type) :
    index.use? use = some (type, use.args) := by
  obtain ⟨⟨_, args⟩, isUse, rfl⟩ := Option.map_eq_some_iff.mp names
  rw [isUse]
  simp only [use?, Option.bind_eq_bind, Option.bind_eq_some_iff, Option.pure_def,
    Option.some.injEq] at isUse
  obtain ⟨⟨constructor, useArgs⟩, named, _, -, same⟩ := isUse
  cases same
  rw [Ty.args, named]

/-- A substitution does not change what a named type refers to. -/
theorem defOf?_subst {ty : Ty} (known : (index.defOf? ty).isSome) (substitution : Subst) :
    index.defOf? (ty.subst substitution) = index.defOf? ty := by
  cases named : ty.head? with
  | none =>
      rw [defOf?_eq, named] at known
      cases known
  | some use =>
      obtain ⟨constructor, args⟩ := use
      rw [index.defOf?_of_head? named, index.defOf?_of_head? (Ty.head?_subst named substitution),
        List.length_map]

namespace Consistent

variable (consistent : index.Consistent) (names : index.defOf? use = some type)

include consistent names

/-- One step upwards follows the base of the definition, seen through the arguments
of the use. -/
theorem baseOfUse?_eq_some_iff {ancestor : Ancestor} :
    index.baseOfUse? use = some ancestor ↔
      ∃ base, type.base = some base ∧ index.defOf? base = some ancestor.type ∧
        base.subst (type.argSubst use.args) = ancestor.use := by
  have sameDefinition : ∀ base, type.base = some base →
      index.defOf? (base.subst (type.argSubst use.args)) = index.defOf? base := by
    intro base isBase
    exact defOf?_subst (consistent.baseKnown type (mem_of_defOf? names) base isBase) _
  have step : index.baseOfUse? use = type.base.bind fun base =>
      (index.defOf? (base.subst (type.argSubst use.args))).map fun baseType =>
        ⟨baseType, base.subst (type.argSubst use.args)⟩ := by
    simp [baseOfUse?, use?_of_defOf? names, Option.map_eq_bind]
  rw [step, Option.bind_eq_some_iff]
  constructor
  · intro holds
    rcases holds with ⟨base, isBase, seen⟩
    obtain ⟨baseType, baseNames, rfl⟩ := Option.map_eq_some_iff.mp seen
    rw [sameDefinition base isBase] at baseNames
    exact ⟨base, isBase, baseNames, rfl⟩
  · intro holds
    rcases holds with ⟨base, isBase, baseNames, seen⟩
    refine ⟨base, isBase, ?_⟩
    rw [sameDefinition base isBase, baseNames, seen]
    rfl

/-- The use of an ancestor refers to the ancestor. -/
theorem defOf?_of_baseOfUse? {ancestor : Ancestor}
    (step : index.baseOfUse? use = some ancestor) :
    index.defOf? ancestor.use = some ancestor.type := by
  obtain ⟨base, -, baseNames, seen⟩ := (consistent.baseOfUse?_eq_some_iff names).mp step
  rw [← seen, defOf?_subst (by rw [baseNames]; rfl), baseNames]

/-- A step upwards from a use leads to the base of the definition. -/
theorem baseDef?_eq_map : index.baseDef? type = (index.baseOfUse? use).map Ancestor.type := by
  apply Option.ext
  intro base
  rw [baseDef?, Option.bind_eq_some_iff, Option.map_eq_some_iff]
  constructor
  · intro holds
    rcases holds with ⟨written, isBase, baseNames⟩
    exact ⟨⟨base, written.subst (type.argSubst use.args)⟩,
      (consistent.baseOfUse?_eq_some_iff names).mpr ⟨written, isBase, baseNames, rfl⟩, rfl⟩
  · intro holds
    rcases holds with ⟨ancestor, step, rfl⟩
    obtain ⟨written, isBase, baseNames, -⟩ := (consistent.baseOfUse?_eq_some_iff names).mp step
    exact ⟨written, isBase, baseNames⟩

/-- The walk through the ancestors meets the types that the walk along the bases meets. -/
theorem map_type_climb (count : Nat) :
    type :: (index.climb count use).map Ancestor.type = index.baseChain (count + 1) type := by
  induction count generalizing type use with
  | zero =>
      rw [baseChain]
      cases index.baseDef? type <;> rfl
  | succ count ih =>
      rw [baseChain, climb, consistent.baseDef?_eq_map names]
      cases step : index.baseOfUse? use with
      | none => rfl
      | some first =>
          simp only [Option.map_some, List.map_cons, List.cons.injEq, true_and]
          exact ih (consistent.defOf?_of_baseOfUse? names step)

/-- What a walk meets refers to the types that it meets. -/
theorem defOf?_of_mem_climb {count : Nat} {ancestor : Ancestor}
    (met : ancestor ∈ index.climb count use) :
    index.defOf? ancestor.use = some ancestor.type := by
  apply forall_mem_climb (fun seen => index.defOf? seen.use = some seen.type) _ count
    ⟨type, use⟩ names ancestor met
  intro lower upper lowerNames step
  exact consistent.defOf?_of_baseOfUse? lowerNames step

variable {rank : TypeId → Nat} (ranked : index.Ranked rank)

include ranked

/-- A step upwards leads to a type of a lower rank. -/
theorem rank_lt_of_baseOfUse? {ancestor : Ancestor}
    (step : index.baseOfUse? use = some ancestor) : rank ancestor.type.id < rank type.id := by
  apply ranked.base_lt consistent (mem_of_defOf? names)
  rw [consistent.baseDef?_eq_map names, step]
  rfl

/-- The ranks of the types that a walk meets decrease towards lower types. -/
theorem pairwise_climb (count : Nat) :
    (∀ ancestor ∈ index.climb count use, rank ancestor.type.id < rank type.id) ∧
      (index.climb count use).Pairwise fun lower upper =>
        rank upper.type.id < rank lower.type.id := by
  induction count generalizing type use with
  | zero => exact ⟨by simp [climb], .nil⟩
  | succ count ih =>
      rw [climb]
      cases step : index.baseOfUse? use with
      | none => exact ⟨by simp, .nil⟩
      | some first =>
          obtain ⟨laterBelow, laterPairs⟩ := ih (consistent.defOf?_of_baseOfUse? names step)
          have firstBelow := consistent.rank_lt_of_baseOfUse? names ranked step
          constructor
          · intro ancestor met
            rcases List.mem_cons.mp met with rfl | later
            · exact firstBelow
            · exact (laterBelow ancestor later).trans firstBelow
          · exact .cons laterBelow laterPairs

/-- A walk that may take as many steps as there are lower types ends by itself. -/
theorem climb_succ {count : Nat} (enough : index.countBelow rank type ≤ count) :
    index.climb (count + 1) use = index.climb count use := by
  induction count generalizing type use with
  | zero =>
      cases step : index.baseOfUse? use with
      | none => simp [climb, step]
      | some first =>
          have firstNames := consistent.defOf?_of_baseOfUse? names step
          have lower := consistent.rank_lt_of_baseOfUse? names ranked step
          have fewer := countBelow_lt (mem_of_defOf? firstNames) lower
          omega
  | succ count ih =>
      rw [climb, climb]
      cases step : index.baseOfUse? use with
      | none => rfl
      | some first =>
          have firstNames := consistent.defOf?_of_baseOfUse? names step
          have lower := consistent.rank_lt_of_baseOfUse? names ranked step
          have fewer := countBelow_lt (mem_of_defOf? firstNames) lower
          simp only [List.cons.injEq, true_and]
          exact ih firstNames (by omega)

/-- Any walk that may take as many steps as there are types meets all ancestors. -/
theorem climb_eq_above {count : Nat} (enough : index.types.length ≤ count) :
    index.climb count use = index.above use := by
  have fewer := countBelow_lt_length rank (mem_of_defOf? names)
  have longer : ∀ extra, index.climb (index.types.length + extra) use =
      index.climb index.types.length use := by
    intro extra
    induction extra with
    | zero => rfl
    | succ extra ih =>
        rw [← Nat.add_assoc, consistent.climb_succ names ranked (by omega), ih]
  obtain ⟨extra, rfl⟩ := Nat.exists_eq_add_of_le enough
  rw [above, Nat.two_mul, longer, longer]

end Consistent

end Consistent

namespace Unambiguous

variable {index : TypeIndex} (unambiguous : index.Unambiguous)
variable {type : TypeDef} {use : Ty} (names : index.defOf? use = some type)

include unambiguous names

theorem above_eq :
    index.above use = match index.baseOfUse? use with
      | some ancestor => ancestor :: index.above ancestor.use
      | none => [] := by
  obtain ⟨rank, ranked⟩ := unambiguous.acyclic
  rw [← unambiguous.consistent.climb_eq_above names ranked
    (Nat.le_trans (Nat.le_mul_of_pos_left _ Nat.two_pos) (Nat.le_succ _)), climb]
  rfl

/-- A type and its ancestors are the types that the walk along the bases meets. -/
theorem map_type_above :
    type :: (index.above use).map Ancestor.type = index.baseChain index.types.length type := by
  obtain ⟨rank, ranked⟩ := unambiguous.acyclic
  have known := mem_of_defOf? names
  rw [← unambiguous.consistent.climb_eq_above names ranked (Nat.le_refl _),
    unambiguous.consistent.map_type_climb names]
  exact baseChain_succ unambiguous.consistent ranked known (countBelow_lt_length rank known)

end Unambiguous

/-! ## Walks where names can be read off lookup keys -/

namespace WellNamed

variable {index : TypeIndex} (wellNamed : index.WellNamed)
variable {type : TypeDef} {use : Ty} (known : type ∈ index.types) (isUse : type.IsUse use)

include wellNamed known isUse

/-- A step upwards leads to a use of a known definition, whatever parameters the base
mentions. -/
theorem ancestor_known {ancestor : Ancestor} (step : index.baseOfUse? use = some ancestor) :
    ancestor.type ∈ index.types ∧ ancestor.type.IsUse ancestor.use := by
  have names := wellNamed.defOf?_of_isUse known isUse
  obtain ⟨base, isBase, baseNames, seen⟩ :=
    (wellNamed.consistent.baseOfUse?_eq_some_iff names).mp step
  rw [← seen]
  exact ⟨mem_of_defOf? baseNames, ((wellNamed.isUse_base known isBase baseNames).subst _).1⟩

theorem mem_climb {count : Nat} {ancestor : Ancestor} (met : ancestor ∈ index.climb count use) :
    ancestor.type ∈ index.types ∧ ancestor.type.IsUse ancestor.use := by
  apply forall_mem_climb (fun seen => seen.type ∈ index.types ∧ seen.type.IsUse seen.use) _
    count ⟨type, use⟩ ⟨known, isUse⟩ ancestor met
  rintro lower upper ⟨lowerKnown, lowerUse⟩ step
  exact wellNamed.ancestor_known lowerKnown lowerUse step

end WellNamed

/-! ## Walks in a well-formed index -/

namespace WellFormed

variable {index : TypeIndex} (wellFormed : index.WellFormed)
variable {type : TypeDef} {use : Ty}

include wellFormed

theorem baseOfUse?_eq_some_iff (known : type ∈ index.types) (isUse : type.IsUse use)
    {ancestor : Ancestor} :
    index.baseOfUse? use = some ancestor ↔
      ∃ base, type.base = some base ∧ index.defOf? base = some ancestor.type ∧
        base.subst (type.argSubst use.args) = ancestor.use :=
  wellFormed.consistent.baseOfUse?_eq_some_iff (wellFormed.unambiguous.defOf?_of_isUse known isUse)

theorem ancestor_known (known : type ∈ index.types) (isUse : type.IsUse use)
    {ancestor : Ancestor} (step : index.baseOfUse? use = some ancestor) :
    ancestor.type ∈ index.types ∧ ancestor.type.IsUse ancestor.use :=
  wellFormed.wellNamed.ancestor_known known isUse step

/-- A step upwards commutes with a substitution in the use. -/
theorem baseOfUse?_subst (known : type ∈ index.types) (isUse : type.IsUse use)
    (substitution : Subst) :
    index.baseOfUse? (use.subst substitution) =
      (index.baseOfUse? use).map fun ancestor => ancestor.through substitution := by
  obtain ⟨substUse, substArgs⟩ := isUse.subst substitution
  have images : ∀ base, type.base = some base →
      base.subst (type.argSubst (use.subst substitution).args) =
        (base.subst (type.argSubst use.args)).subst substitution := by
    intro base isBase
    rw [substArgs, ← TypeDef.through_argSubst, Ty.subst_through]
    intro p mentioned
    exact .inl (TypeDef.isSome_image?_argSubst isUse.arity
      (wellFormed.ownBase type known base isBase p mentioned))
  apply Option.ext
  intro ancestor
  rw [wellFormed.baseOfUse?_eq_some_iff known substUse, Option.map_eq_some_iff]
  constructor
  · intro holds
    rcases holds with ⟨base, isBase, names, seen⟩
    refine ⟨⟨ancestor.type, base.subst (type.argSubst use.args)⟩, ?_, ?_⟩
    · exact (wellFormed.baseOfUse?_eq_some_iff known isUse).mpr ⟨base, isBase, names, rfl⟩
    · rw [Ancestor.through, ← images base isBase, seen]
  · intro holds
    rcases holds with ⟨lower, step, rfl⟩
    obtain ⟨base, isBase, names, seen⟩ :=
      (wellFormed.baseOfUse?_eq_some_iff known isUse).mp step
    refine ⟨base, isBase, names, ?_⟩
    rw [images base isBase, seen]
    rfl

/-! ## Walks of any length -/

theorem climb_subst (count : Nat) (known : type ∈ index.types) (isUse : type.IsUse use)
    (substitution : Subst) :
    index.climb count (use.subst substitution) =
      (index.climb count use).map fun ancestor => ancestor.through substitution := by
  induction count generalizing type use with
  | zero => rfl
  | succ count ih =>
      rw [climb, climb, wellFormed.baseOfUse?_subst known isUse]
      cases step : index.baseOfUse? use with
      | none => rfl
      | some first =>
          obtain ⟨firstKnown, firstUse⟩ := wellFormed.ancestor_known known isUse step
          simp only [Option.map_some, List.map_cons, List.cons.injEq, true_and]
          exact ih firstKnown firstUse

theorem ancestor_rank_lt {rank : TypeId → Nat} (ranked : index.Ranked rank)
    (known : type ∈ index.types) (isUse : type.IsUse use) {ancestor : Ancestor}
    (step : index.baseOfUse? use = some ancestor) : rank ancestor.type.id < rank type.id :=
  wellFormed.consistent.rank_lt_of_baseOfUse?
    (wellFormed.unambiguous.defOf?_of_isUse known isUse) ranked step

/-! ## All ancestors -/

theorem above_eq (known : type ∈ index.types) (isUse : type.IsUse use) :
    index.above use = match index.baseOfUse? use with
      | some ancestor => ancestor :: index.above ancestor.use
      | none => [] :=
  wellFormed.unambiguous.above_eq (wellFormed.unambiguous.defOf?_of_isUse known isUse)

theorem mem_above (known : type ∈ index.types) (isUse : type.IsUse use) {ancestor : Ancestor}
    (met : ancestor ∈ index.above use) :
    ancestor.type ∈ index.types ∧ ancestor.type.IsUse ancestor.use :=
  wellFormed.wellNamed.mem_climb known isUse met

/-- No type is met twice on a walk, nor is the type where it starts. -/
theorem nodup_above (known : type ∈ index.types) (isUse : type.IsUse use) :
    type.id ∉ (index.above use).map (·.type.id) ∧
      ((index.above use).map (·.type.id)).Nodup := by
  obtain ⟨rank, ranked⟩ := wellFormed.acyclic
  obtain ⟨below, pairs⟩ := wellFormed.consistent.pairwise_climb
    (wellFormed.unambiguous.defOf?_of_isUse known isUse) ranked (2 * index.types.length)
  constructor
  · intro met
    obtain ⟨ancestor, met, same⟩ := List.mem_map.mp met
    have lower := below ancestor met
    rw [same] at lower
    exact Nat.lt_irrefl _ lower
  · rw [List.Nodup, List.pairwise_map]
    apply pairs.imp
    intro lower upper ranks same
    rw [same] at ranks
    exact Nat.lt_irrefl _ ranks

/-- What a walk meets after one of its ancestors is what is above the use of this
ancestor. -/
theorem above_split (known : type ∈ index.types) (isUse : type.IsUse use)
    {ancestor : Ancestor} (met : ancestor ∈ index.above use) :
    ∃ before, index.above use = before ++ ancestor :: index.above ancestor.use := by
  obtain ⟨rank, ranked⟩ := wellFormed.acyclic
  generalize height : index.countBelow rank type = count
  induction count using Nat.strong_induction_on generalizing type use with
  | _ count ih =>
      rw [wellFormed.above_eq known isUse] at met ⊢
      cases step : index.baseOfUse? use with
      | none => simp [step] at met
      | some first =>
          simp only [step] at met ⊢
          rcases List.mem_cons.mp met with rfl | later
          · exact ⟨[], rfl⟩
          · obtain ⟨firstKnown, firstUse⟩ := wellFormed.ancestor_known known isUse step
            have lower := wellFormed.ancestor_rank_lt ranked known isUse step
            have fewer := countBelow_lt firstKnown lower
            obtain ⟨before, split⟩ := ih _ (height ▸ fewer) firstKnown firstUse later rfl
            exact ⟨first :: before, by rw [split]; rfl⟩

/-- Two uses of a definition have the same ancestors if their arguments agree. -/
theorem above_congr {other : Ty} (known : type ∈ index.types) (isUse : type.IsUse use)
    (otherUse : type.IsUse other) (args : use.args = other.args) :
    index.above use = index.above other := by
  rw [wellFormed.above_eq known isUse, wellFormed.above_eq known otherUse]
  simp only [baseOfUse?, wellFormed.unambiguous.use?_of_isUse known isUse,
    wellFormed.unambiguous.use?_of_isUse known otherUse, args]

/-- What is above a use is what is above the definition, seen through the use. -/
theorem above_eq_map (known : type ∈ index.types) (isUse : type.IsUse use) :
    index.above use = (index.ancestors type).map fun ancestor =>
      ancestor.through (type.argSubst use.args) := by
  have selfUse := TypeDef.IsUse.selfTy type
  obtain ⟨seenUse, seenArgs⟩ := selfUse.subst (type.argSubst use.args)
  have sameArgs : use.args = (type.selfTy.subst (type.argSubst use.args)).args := by
    rw [seenArgs, type.map_subst_selfArgs isUse.arity]
  rw [wellFormed.above_congr known isUse seenUse sameArgs]
  exact wellFormed.climb_subst _ known selfUse _

end WellFormed

end TypeIndex

end MethodGroups
