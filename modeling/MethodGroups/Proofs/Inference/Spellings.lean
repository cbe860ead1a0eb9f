import MethodGroups.Proofs.Inference.Exact
import MethodGroups.Proofs.Unification.Spellings

/-!
# Inferred arguments are spelled as the delegate spells them

Inference only ever reads parts of the delegate's parameter types off the equations.
So two methods with the same parameter types, up to spellings, get the very same type
arguments from one delegate.
-/

namespace MethodGroups

namespace MethodSig

variable {first second : MethodSig}
variable (arities : first.typeParams.length = second.typeParams.length)

include arities

theorem isGeneric_eq : first.isGeneric = second.isGeneric := by
  have empty : first.typeParams.isEmpty = second.typeParams.isEmpty := by
    rw [Bool.eq_iff_iff, List.isEmpty_iff_length_eq_zero, List.isEmpty_iff_length_eq_zero,
      arities]
  rw [isGeneric, isGeneric, empty]

/-- Only the number of type parameters decides which variables replace them. -/
theorem subst_varSubst_eq (ty : Ty) : ty.subst first.varSubst = ty.subst second.varSubst := by
  apply Ty.subst_congr
  intro p _
  rw [image?_varSubst, image?_varSubst, arities]

theorem inferenceEquations_alike {formals others actuals : List Ty}
    (sides : List.Forall₂ Ty.Same formals others)
    (actualsFree : ∀ actual ∈ actuals, actual.VarFree) :
    List.Forall₂ (fun equation other => equation.1.Same other.1 ∧
        equation.2 = other.2 ∧ equation.2.VarFree)
      (first.inferenceEquations formals actuals) (second.inferenceEquations others actuals) := by
  induction sides generalizing actuals with
  | nil => exact .nil
  | @cons formal other formals others same _ ih =>
      cases actuals with
      | nil => exact .nil
      | cons actual actuals =>
          obtain ⟨actualFree, restFree⟩ := List.forall_mem_cons.mp actualsFree
          have mentions : formal.mentionsMethodParams = other.mentionsMethodParams := by
            rw [← Ty.mentionsMethodParams_erased formal, same, Ty.mentionsMethodParams_erased]
          have later := ih restFree
          simp only [inferenceEquations] at later ⊢
          rw [List.zip_cons_cons, List.zip_cons_cons, List.filterMap_cons, List.filterMap_cons]
          simp only [mentions]
          by_cases generic : other.mentionsMethodParams = true
          · simp only [if_pos generic]
            refine .cons ⟨?_, rfl, actualFree⟩ later
            rw [subst_varSubst_eq arities formal]
            exact same.subst second.varSubst
          · simp only [if_neg generic]
            exact later

theorem inferFrom_alike {formals others actuals : List Ty}
    (sides : List.Forall₂ Ty.Same formals others)
    (actualsFree : ∀ actual ∈ actuals, actual.VarFree) {args : List Ty}
    (succeeds : first.inferFrom formals actuals = .ok args) :
    second.inferFrom others actuals = .ok args := by
  rw [inferFrom] at succeeds ⊢
  rcases attempt : (Context.ofSize first.typeParams.length).unifyAll
    (first.inferenceEquations formals actuals) with ⟨outcome, learned⟩
  rw [attempt] at succeeds
  cases outcome with
  | error failure => cases succeeds
  | stray v => cases succeeds
  | ok value =>
      have learns := Context.unifyAll_alike (inferenceEquations_alike arities sides actualsFree)
        attempt
      rw [arities] at learns
      rw [learns]
      -- The names of the type parameters only show up in errors.
      have sameTypes : ∀ args,
          learned.inferredTypes (first.typeParams.mapIdx fun v name => (v, name)) = .ok args ↔
            learned.inferredTypes (second.typeParams.mapIdx fun v name => (v, name)) =
              .ok args := by
        intro args
        rw [Context.inferredTypes_eq_ok_iff, Context.inferredTypes_eq_ok_iff, map_fst_wanted,
          map_fst_wanted, arities]
      cases types : learned.inferredTypes (first.typeParams.mapIdx fun v name => (v, name)) with
      | error failure =>
          simp only [types] at succeeds
          cases succeeds
      | ok inferred =>
          simp only [types] at succeeds
          simp only [(sameTypes inferred).mp types]
          exact succeeds

end MethodSig

/-- Two methods with the same parameter types infer the same arguments. -/
theorem TypeIndex.inferTypeArgs_alike {index : TypeIndex} (varFree : index.SignaturesVarFree)
    {first second : MethodDef} (arities : first.typeParams.length = second.typeParams.length)
    {firstArgs secondArgs : List Ty}
    (sides : List.Forall₂ Ty.Same (index.formals first firstArgs)
      (index.formals second secondArgs))
    {delegate : Ty} (delegateFree : delegate.VarFree) {args : List Ty}
    (succeeds : index.inferTypeArgs first firstArgs delegate = .ok args) :
    index.inferTypeArgs second secondArgs delegate = .ok args := by
  have generics := MethodSig.isGeneric_eq arities
  cases generic : second.isGeneric with
  | false =>
      rw [inferTypeArgs, generics, generic] at succeeds
      rw [inferTypeArgs, generic]
      exact succeeds
  | true =>
      rw [inferTypeArgs_eq (generics.trans generic)] at succeeds
      rw [inferTypeArgs_eq generic]
      cases isSignature : index.delegateSignature delegate with
      | error failure =>
          rw [isSignature] at succeeds
          cases succeeds
      | ok signature =>
          rw [isSignature] at succeeds
          simp only at succeeds ⊢
          rw [← sides.length_eq]
          by_cases lengths : (index.formals first firstArgs).length = signature.params.length
          · rw [if_pos lengths] at succeeds ⊢
            exact MethodSig.inferFrom_alike arities sides
              (varFree_delegateSignature varFree delegateFree isSignature) succeeds
          · rw [if_neg lengths] at succeeds
            cases succeeds

end MethodGroups
