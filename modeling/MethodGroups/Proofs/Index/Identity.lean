import MethodGroups.Proofs.Index.Steps
import MethodGroups.Proofs.Ty.Names
import MethodGroups.Proofs.Unification.Instances
import MethodGroups.Proofs.Unification.MostGeneral

/-!
# When two names mean the same type

The index looks a named type up under its qualified name, in which the scope and the name are
joined.  Equality of types and unification compare the scopes and the names one by one.  The two
agree on names that are split at the same dot: whenever a part of the name counts as scope in one
type and as name in the other, both refer to the same definition, but they are different types
and do not unify.
-/

namespace MethodGroups

variable {left right : TypeName} {args : List Ty}

namespace TypeName

theorem Regroups.ne {outer inner : TypeName} (regroups : outer.Regroups inner) :
    outer ≠ inner := by
  rintro rfl
  obtain ⟨-, middle, -, names⟩ := regroups
  have lengths := congrArg String.length names
  simp at lengths

theorem qualified_eq_and_ne_iff :
    left.qualified = right.qualified ∧ left ≠ right ↔
      left.Regroups right ∨ right.Regroups left := by
  rw [qualified_eq_iff, or_and_right, and_not_self_iff, false_or, and_iff_left_iff_imp]
  rintro (regroups | regroups)
  · exact regroups.ne
  · exact regroups.ne.symm

end TypeName

namespace Ty

/-- Named types with the same arguments are the same if their scopes and names are equal. -/
theorem same_named_iff : (named left args).Same (named right args) ↔ left = right := by
  cases args <;> simp [named, Same, erased]

end Ty

namespace Context

/-- Named types with the same arguments unify if their scopes and names are equal.  Nothing is
learned from them. -/
theorem unify_named (context : Context) (argsFree : ∀ arg ∈ args, arg.VarFree) :
    context.unify (.named left args) (.named right args) =
      if left = right then (.ok (), context)
      else (.error (.mismatch (.con left) (.con right)), context) := by
  have free : ∀ constructor, (Ty.named constructor args).VarFree :=
    fun constructor => Ty.varFree_named argsFree
  have knows : ∀ constructor, context.Knows (.named constructor args) := by
    intro constructor v occurs
    exact (Ty.varFree_iff.mp (free constructor) v occurs).elim
  rw [unify_eq_solve (knows left) (knows right), context.resolve_of_varFree (free left),
    context.resolve_of_varFree (free right)]
  split
  · next equal =>
    rw [equal, solve_same_self, solve_nil]
  · next differ =>
    -- The constructors are compared first, also at the head of an application.
    cases args with
    | nil => simp [Ty.named, solve_cons, Goal.step, Goal.sameStep, differ]
    | cons first rest =>
        simp [Ty.named, solve_cons, Goal.step, Goal.sameStep, Goal.ofApplications, differ]

end Context

/-- A key determines the qualified name, once the number of type parameters is known. -/
theorem lookupKey_left_inj {left right : String} {arity : Nat} :
    lookupKey left arity = lookupKey right arity ↔ left = right := by
  rw [lookupKey, lookupKey]
  split
  · rfl
  · simp

namespace TypeIndex

variable {index : TypeIndex} {type : TypeDef}

/-- Two named types with as many arguments refer to the same definition if they have the same
qualified name. -/
theorem defOf?_named_iff (found : index.defOf? (.named left args) = some type) :
    index.defOf? (.named right args) = some type ↔ left.qualified = right.qualified := by
  rw [index.defOf?_of_head? (Ty.head?_named ..)] at found ⊢
  constructor
  · intro sameFound
    rw [← lookupKey_left_inj, ← (mem_of_findKey? found).2, ← (mem_of_findKey? sameFound).2]
  · intro same
    rw [← same]
    exact found

/-- Named types with the same arguments refer to the same definition if they have the same
qualified name, but they are the same type, and unify, only if their scopes and names are equal.
The difference is made by names of which a part counts as scope in one of them only. -/
theorem sameDefinition_named (argsFree : ∀ arg ∈ args, arg.VarFree)
    (found : index.defOf? (.named left args) = some type) :
    (index.defOf? (.named right args) = some type ↔ left.qualified = right.qualified) ∧
      ((Ty.named left args).Same (.named right args) ↔ left = right) ∧
      (∀ context : Context, context.unify (.named left args) (.named right args) =
        if left = right then (.ok (), context)
        else (.error (.mismatch (.con left) (.con right)), context)) ∧
      (index.defOf? (.named right args) = some type ∧
          ¬ (Ty.named left args).Same (.named right args) ↔
        left.Regroups right ∨ right.Regroups left) := by
  refine ⟨defOf?_named_iff found, Ty.same_named_iff, fun context => context.unify_named argsFree,
    ?_⟩
  rw [defOf?_named_iff found, Ty.same_named_iff]
  exact TypeName.qualified_eq_and_ne_iff

end TypeIndex

namespace Containers

/-- The core types and the classes `C` and `C<T>` of the scope `A.B`. -/
def nested : TypeIndex :=
  (TypeIndex.core.addClass ⟨"A.B", "C"⟩ []).addClass ⟨"A.B", "C"⟩ ["T"]

def nestedClass : TypeDef := ⟨⟨15⟩, ⟨"A.B", "C"⟩, [], some .object, .ordinary, []⟩

def nestedGeneric : TypeDef := ⟨⟨16⟩, ⟨"A.B", "C"⟩, ["T"], some .object, .ordinary, []⟩

/-- The class `C<T>` of the scope `A.B` is also found under the name `B.C` of the scope `A`, but
these are two types. -/
theorem sameDefinition_nested :
    nested.defOf? (.named ⟨"A.B", "C"⟩ [.int32]) = some nestedGeneric ∧
      nested.defOf? (.named ⟨"A", "B.C"⟩ [.int32]) = some nestedGeneric ∧
      ¬ (Ty.named ⟨"A.B", "C"⟩ [.int32]).Same (.named ⟨"A", "B.C"⟩ [.int32]) := by
  have found : nested.defOf? (.named ⟨"A.B", "C"⟩ [.int32]) = some nestedGeneric := by
    decide +kernel
  have argsFree : ∀ arg ∈ [Ty.int32], arg.VarFree := by decide
  obtain ⟨definitions, same, -, -⟩ :=
    @TypeIndex.sameDefinition_named _ ⟨"A", "B.C"⟩ _ _ _ argsFree found
  exact ⟨found, definitions.mpr rfl, mt same.mp (by decide)⟩

/-- The class `C` is meant by two types that are not the same and do not unify. -/
theorem unify_nested :
    nested.defOf? (.con ⟨"A.B", "C"⟩) = some nestedClass ∧
      nested.defOf? (.con ⟨"A", "B.C"⟩) = some nestedClass ∧
      ¬ (Ty.con ⟨"A.B", "C"⟩).Same (.con ⟨"A", "B.C"⟩) ∧
      (Context.empty.unify (.con ⟨"A.B", "C"⟩) (.con ⟨"A", "B.C"⟩)).1 =
        .error (.mismatch (.con ⟨"A.B", "C"⟩) (.con ⟨"A", "B.C"⟩)) := by
  refine ⟨by decide +kernel, by decide +kernel, by decide, ?_⟩
  have unified := @Context.unify_named ⟨"A.B", "C"⟩ ⟨"A", "B.C"⟩ [] .empty (by simp)
  rw [if_neg (by decide)] at unified
  exact congrArg Prod.fst unified

end Containers

end MethodGroups
