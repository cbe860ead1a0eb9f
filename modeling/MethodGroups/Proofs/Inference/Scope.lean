import MethodGroups.Proofs.Hierarchy.Scope
import MethodGroups.Proofs.Inference.Concealment
import MethodGroups.Proofs.Unification.Scope

/-!
# The type parameters that inference answers with

Inferred type arguments are put together from the two sides of the equations.  In a written
signature only the parameters of the declaring type and of the method occur: the first have
the declaring arguments for images, the second are variables.  So the answer mentions what
the delegate mentions and, where the delegate leaves something open, what the declaring
arguments mention.
-/

namespace MethodGroups

variable {allowed : TyParam → Prop}

theorem Context.Within.inferredTypes {context : Context} (within : context.Within allowed)
    {wanted : List (TyVar × String)} {args : List Ty}
    (determined : context.inferredTypes wanted = .ok args) : ∀ arg ∈ args, arg.Within allowed := by
  obtain ⟨-, rfl⟩ := (context.inferredTypes_eq_ok_iff wanted args).mp determined
  rw [List.forall_mem_map]
  intro v _
  exact within.resolve fun p mentioned => by cases mentioned

namespace MethodSig

variable {sig : MethodSig}

/-- A type without the method's own parameters, which give way to variables. -/
theorem within_subst_varSubst {ty : Ty}
    (mentioned : ty.Within fun p => sig.Owns p ∨ allowed p) :
    (ty.subst sig.varSubst).Within allowed := by
  apply Ty.Within.subst
  intro p isMentioned q occurs
  rw [image?_varSubst] at occurs
  by_cases owns : sig.Owns p
  · rw [if_pos ⟨owns.1, owns.2⟩] at occurs
    cases occurs
  · rw [if_neg fun own => owns ⟨own.1, own.2⟩] at occurs
    cases List.mem_singleton.mp occurs
    exact (mentioned p isMentioned).resolve_left owns

/-- What the equations determine is within a set that the actual types are within, if these
leave nothing open or the parameter types are within the set as well. -/
theorem inferFrom_within {formals actuals args : List Ty}
    (actualsWithin : ∀ actual ∈ actuals, actual.Within allowed)
    (sides : (∀ actual ∈ actuals, actual.VarFree) ∨
      ∀ formal ∈ formals, formal.Within fun p => sig.Owns p ∨ allowed p)
    (succeeds : sig.inferFrom formals actuals = .ok args) : ∀ arg ∈ args, arg.Within allowed := by
  have yields : ∀ equation ∈ sig.inferenceEquations formals actuals,
      Ty.Yields allowed equation.1 equation.2 := by
    intro equation isEquation
    obtain ⟨pair, membership, -, rfl⟩ := mem_inferenceEquations.mp isEquation
    obtain ⟨isFormal, isActual⟩ := List.of_mem_zip membership
    refine ⟨actualsWithin _ isActual, sides.imp (fun free => free _ isActual) fun formalsWithin =>
      within_subst_varSubst (formalsWithin _ isFormal)⟩
  have learnedWithin := Context.unifyAll_within
    (Context.within_ofSize sig.typeParams.length) yields
  rw [inferFrom, Outcome.bind_eq_ok_iff] at succeeds
  obtain ⟨-, -, determined⟩ := succeeds
  exact learnedWithin.inferredTypes (Outcome.ofExcept_eq_ok_iff.mp determined)

end MethodSig

namespace TypeIndex

variable {index : TypeIndex} (plainNames : ∀ type ∈ index.types, type.constructor.IsPlain)

include plainNames

variable (signatures : index.SignaturesScoped)

include signatures

/-- A delegate takes types that mention only what its use mentions. -/
theorem within_delegateSignature {delegate : Ty}
    (plain : ∀ named ∈ delegate.head?, named.1.IsPlain) (within : delegate.Within allowed)
    {signature : Signature} (isSignature : index.delegateSignature delegate = .ok signature) :
    ∀ ty ∈ signature.params, ty.Within allowed := by
  obtain ⟨type, args, declared, isUse, isDelegate, rfl⟩ :=
    delegateSignature_eq_ok_iff.mp isSignature
  obtain ⟨known, use, rfl⟩ := isUse_of_use? plainNames plain isUse
  rw [Signature.subst, List.forall_mem_map]
  intro written isWritten
  have isParam : written ∈ type.delegateParams := by
    rw [TypeDef.delegateParams, isDelegate]
    exact isWritten
  exact TypeDef.within_subst_argSubst (within.of_head? use.head) fun p mentioned =>
    .inl ⟨use.arity, signatures.delegates type known written isParam p mentioned⟩

omit plainNames in
/-- Seen through arguments, the parameter types of a method mention what the arguments
mention, and parameters of the method itself. -/
theorem within_formals {method : MethodDef} (known : method ∈ index.methods) {type : TypeDef}
    (declaring : index.type? method.declaring = some type) {declaringArgs : List Ty}
    (arity : declaringArgs.length = type.typeParams.length)
    (argsWithin : ∀ arg ∈ declaringArgs, arg.Within allowed) :
    ∀ formal ∈ index.formals method declaringArgs,
      formal.Within fun p => method.Owns p ∨ allowed p := by
  rw [formals_eq declaring, List.forall_mem_map]
  intro param isParam
  apply TypeDef.within_subst_argSubst
  · intro arg isArg p mentioned
    exact .inr (argsWithin arg isArg p mentioned)
  · intro p mentioned
    rcases signatures.methods method known type declaring param isParam p mentioned with
      typeOwns | methodOwns
    · exact .inl ⟨arity, typeOwns⟩
    · exact .inr (.inl methodOwns)

omit plainNames signatures in
/-- Inferred arguments are within a set that the delegate's parameter types are within, if
these leave nothing open or the parameter types of the method are within the set as well. -/
theorem within_of_inferTypeArgs {method : MethodDef} {declaringArgs : List Ty} {delegate : Ty}
    (actualsWithin : ∀ signature, index.delegateSignature delegate = .ok signature →
      ∀ ty ∈ signature.params, ty.Within allowed)
    (sides : (index.SignaturesVarFree ∧ delegate.VarFree) ∨
      ∀ formal ∈ index.formals method declaringArgs,
        formal.Within fun p => method.Owns p ∨ allowed p)
    {args : List Ty} (succeeds : index.inferTypeArgs method declaringArgs delegate = .ok args) :
    ∀ arg ∈ args, arg.Within allowed := by
  cases generic : method.isGeneric with
  | false =>
      rw [inferTypeArgs, generic] at succeeds
      cases succeeds
      simp
  | true =>
      rw [inferTypeArgs_eq generic] at succeeds
      cases isSignature : index.delegateSignature delegate with
      | error failure =>
          rw [isSignature] at succeeds
          cases succeeds
      | ok signature =>
          simp only [isSignature] at succeeds
          split at succeeds
          · apply MethodSig.inferFrom_within (actualsWithin signature isSignature)
              (sides.imp_left ?_) succeeds
            rintro ⟨varFree, delegateFree⟩
            exact varFree_delegateSignature varFree delegateFree isSignature
          · cases succeeds

/-- In the terms of a set that the delegate is within, and the declaring arguments too if the
delegate has variables to be bound, inference answers. -/
theorem inferTypeArgs_within {method : MethodDef} (known : method ∈ index.methods)
    {type : TypeDef} (declaring : index.type? method.declaring = some type)
    {declaringArgs : List Ty} (arity : declaringArgs.length = type.typeParams.length)
    {delegate : Ty} (plain : ∀ named ∈ delegate.head?, named.1.IsPlain)
    (within : delegate.Within allowed)
    (sides : (index.SignaturesVarFree ∧ delegate.VarFree) ∨
      ∀ arg ∈ declaringArgs, arg.Within allowed)
    {args : List Ty} (succeeds : index.inferTypeArgs method declaringArgs delegate = .ok args) :
    ∀ arg ∈ args, arg.Within allowed :=
  within_of_inferTypeArgs
    (fun _ isSignature => within_delegateSignature plainNames signatures plain within isSignature)
    (sides.imp_right (within_formals signatures known declaring arity)) succeeds

end TypeIndex

end MethodGroups
