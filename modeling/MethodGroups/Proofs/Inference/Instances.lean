import MethodGroups.Proofs.Inference.Scope
import MethodGroups.Proofs.Unification.Instances

/-!
# Inference in instances of a generic class

Code inside a generic class is checked once, in terms of the type parameters of the class,
and holds for every instance of it.  Inference respects this: once type arguments are found
in terms of the parameters, the arguments for an instance of the class are their instances.
-/

namespace MethodGroups

/-- An instance of generic classes: types without inference variables for the parameters of
types.  Parameters of methods are neither replaced nor brought in. -/
structure Subst.Instantiates (substitution : Subst) : Prop where
  varFree : substitution.VarFree
  keepsMethods : ∀ p, p.key.owner = .method → substitution.image? p = none
  noMethods : ∀ p image, substitution.image? p = some image →
    image.Within fun q => q.key.owner ≠ .method

variable {substitution : Subst} (instantiates : substitution.Instantiates)

/-! ## The parameters of methods in an instance -/

namespace Ty

include instantiates

/-- A parameter of a method is mentioned in an instance exactly where the type mentions it. -/
theorem mem_params_subst_iff {p : TyParam} (owner : p.key.owner = .method) (ty : Ty) :
    p ∈ (ty.subst substitution).params ↔ p ∈ ty.params := by
  apply mem_params_subst_of_foreign (instantiates.keepsMethods p owner)
  intro q image found mentioned
  exact instantiates.noMethods q image found p mentioned owner

theorem mentionsMethodParams_subst (ty : Ty) :
    (ty.subst substitution).mentionsMethodParams = ty.mentionsMethodParams := by
  rw [Bool.eq_iff_iff, mentionsMethodParams_iff, mentionsMethodParams_iff]
  apply exists_congr
  intro p
  exact and_congr_left fun owner => mem_params_subst_iff instantiates owner ty

end Ty

namespace MethodSig

include instantiates

/-- Variables for the parameters of the method may be put in before or after the class is
instantiated. -/
theorem subst_varSubst_comm (sig : MethodSig) (ty : Ty) :
    (ty.subst substitution).subst sig.varSubst = (ty.subst sig.varSubst).subst substitution := by
  simp only [Ty.subst_eq_graft, Ty.graft_graft]
  apply Ty.graft_congr
  · intro v _
    rfl
  · intro p _
    simp only [← Ty.subst_eq_graft]
    by_cases owner : p.key.owner = .method
    · rw [instantiates.keepsMethods p owner, Option.getD_none, Ty.subst]
      cases found : sig.varSubst.image? p with
      | none =>
          rw [Option.getD_none, Ty.subst, instantiates.keepsMethods p owner, Option.getD_none]
      | some image =>
          rw [image?_varSubst] at found
          split at found <;> cases found
          rfl
    · have noVariable : ∀ q : TyParam, q.key.owner ≠ .method → sig.varSubst.image? q = none := by
        intro q foreign
        rw [image?_varSubst, if_neg fun owns => foreign owns.1]
      rw [noVariable p owner, Option.getD_none]
      cases found : substitution.image? p with
      | none =>
          rw [Option.getD_none, Ty.subst, Ty.subst, noVariable p owner, found]
      | some image =>
          have untouched : image.subst sig.varSubst = image.subst [] := by
            apply Ty.subst_congr
            intro q mentioned
            exact noVariable q (instantiates.noMethods p image found q mentioned)
          rw [Option.getD_some, untouched, Ty.subst_nil, Ty.subst, found, Option.getD_some]

/-- The equations for an instance are the instances of the equations. -/
theorem inferenceEquations_subst (sig : MethodSig) (formals actuals : List Ty) :
    sig.inferenceEquations (formals.map (Ty.subst substitution))
        (actuals.map (Ty.subst substitution)) =
      (sig.inferenceEquations formals actuals).map
        (Prod.map (Ty.subst substitution) (Ty.subst substitution)) := by
  rw [inferenceEquations, inferenceEquations, List.zip_map, List.filterMap_map,
    List.map_filterMap]
  apply List.filterMap_congr
  intro pair _
  simp only [Function.comp_apply, Prod.map_fst, Prod.map_snd,
    Ty.mentionsMethodParams_subst instantiates, subst_varSubst_comm instantiates]
  split <;> rfl

/-- The arguments determined for an instance are the instances of the arguments. -/
theorem inferFrom_subst {sig : MethodSig} {formals actuals args : List Ty}
    (succeeds : sig.inferFrom formals actuals = .ok args) :
    sig.inferFrom (formals.map (Ty.subst substitution)) (actuals.map (Ty.subst substitution)) =
      .ok (args.map (Ty.subst substitution)) := by
  rw [inferFrom] at succeeds ⊢
  rw [inferenceEquations_subst instantiates]
  rcases attempt : (Context.ofSize sig.typeParams.length).unifyAll
    (sig.inferenceEquations formals actuals) with ⟨outcome, learned⟩
  rw [attempt] at succeeds
  cases outcome with
  | error failure => cases succeeds
  | stray v => cases succeeds
  | ok value =>
      have unified : (Context.ofSize sig.typeParams.length).unifyAll
          ((sig.inferenceEquations formals actuals).map
            (Prod.map (Ty.subst substitution) (Ty.subst substitution))) =
          (.ok (), learned.subst substitution) :=
        Context.unifyAll_subst instantiates.varFree attempt
      rw [unified]
      have determined : learned.inferredTypes (sig.typeParams.mapIdx fun v name => (v, name)) =
          .ok args := Outcome.ofExcept_eq_ok_iff.mp succeeds
      apply Outcome.ofExcept_eq_ok_iff.mpr
      rw [Context.inferredTypes_eq_ok_iff] at determined ⊢
      have resolves : ∀ v, (learned.subst substitution).resolve (.var v) =
          (learned.resolve (.var v)).subst substitution :=
        fun v => Context.resolve_subst instantiates.varFree learned (.var v)
      obtain ⟨free, rfl⟩ := determined
      simp only [resolves, List.map_map]
      refine ⟨fun v isWanted => ?_, rfl⟩
      exact (Ty.vars_subst instantiates.varFree _).trans (free v isWanted)

end MethodSig

/-! ## Signatures in an instance -/

namespace TypeIndex

variable {index : TypeIndex} (signatures : index.SignaturesScoped)

include signatures

/-- Seen through instances of the declaring arguments, a parameter type is the instance of
what it is through the arguments. -/
theorem formals_subst
    (keepsMethods : ∀ p : TyParam, p.key.owner = .method → substitution.image? p = none)
    {method : MethodDef} (known : method ∈ index.methods) {type : TypeDef}
    (declaring : index.type? method.declaring = some type) {declaringArgs : List Ty}
    (arity : declaringArgs.length = type.typeParams.length) :
    index.formals method (declaringArgs.map (Ty.subst substitution)) =
      (index.formals method declaringArgs).map (Ty.subst substitution) := by
  rw [formals_eq declaring, formals_eq declaring, List.map_map]
  apply List.map_congr_left
  intro param isParam
  rw [Function.comp_apply, Ty.subst_through, TypeDef.through_argSubst]
  intro p mentioned
  rcases signatures.methods method known type declaring param isParam p mentioned with
    typeOwns | methodOwns
  · exact .inl (TypeDef.isSome_image?_argSubst arity typeOwns)
  · exact .inr (keepsMethods p methodOwns.1)

/-- An instance of a delegate takes the instances of what the delegate takes. -/
theorem delegateSignature_subst (plainNames : ∀ type ∈ index.types, type.constructor.IsPlain)
    {delegate : Ty} (plain : ∀ named ∈ delegate.head?, named.1.IsPlain) {signature : Signature}
    (isSignature : index.delegateSignature delegate = .ok signature) (substitution : Subst) :
    ∃ instantiated, index.delegateSignature (delegate.subst substitution) = .ok instantiated ∧
      instantiated.params = signature.params.map (Ty.subst substitution) := by
  obtain ⟨type, args, declared, isUse, isDelegate, rfl⟩ :=
    delegateSignature_eq_ok_iff.mp isSignature
  obtain ⟨known, use, rfl⟩ := isUse_of_use? plainNames plain isUse
  have seen : index.use? (delegate.subst substitution) =
      some (type, delegate.args.map (Ty.subst substitution)) := by
    simp only [use?, use.head, Ty.head?_subst use.head, Option.bind_eq_bind, Option.bind_some,
      List.length_map] at isUse ⊢
    cases found : index.find? type.constructor.qualified delegate.args.length with
    | none =>
        rw [found] at isUse
        cases isUse
    | some definition =>
        rw [found] at isUse
        cases isUse
        rfl
  refine ⟨_, delegateSignature_eq_ok_iff.mpr ⟨type, _, declared, seen, isDelegate, rfl⟩, ?_⟩
  simp only [Signature.subst, List.map_map]
  apply List.map_congr_left
  intro written isWritten
  have isParam : written ∈ type.delegateParams := by
    rw [TypeDef.delegateParams, isDelegate]
    exact isWritten
  rw [Function.comp_apply, Ty.subst_through, TypeDef.through_argSubst]
  intro p mentioned
  exact .inl (TypeDef.isSome_image?_argSubst use.arity
    (signatures.delegates type known written isParam p mentioned))

include instantiates

/-- Inference is stable under instances of the enclosing classes: arguments that are inferred
in terms of the parameters of a class become, instance by instance, the arguments that are
inferred for the instance. -/
theorem inferTypeArgs_subst (plainNames : ∀ type ∈ index.types, type.constructor.IsPlain)
    {method : MethodDef} (known : method ∈ index.methods) {type : TypeDef}
    (declaring : index.type? method.declaring = some type) {declaringArgs : List Ty}
    (arity : declaringArgs.length = type.typeParams.length) {delegate : Ty}
    (plain : ∀ named ∈ delegate.head?, named.1.IsPlain) {args : List Ty}
    (succeeds : index.inferTypeArgs method declaringArgs delegate = .ok args) :
    index.inferTypeArgs method (declaringArgs.map (Ty.subst substitution))
        (delegate.subst substitution) =
      .ok (args.map (Ty.subst substitution)) := by
  cases generic : method.isGeneric with
  | false =>
      rw [inferTypeArgs, generic] at succeeds
      cases succeeds
      rw [inferTypeArgs, generic]
      rfl
  | true =>
      rw [inferTypeArgs_eq generic] at succeeds ⊢
      cases isSignature : index.delegateSignature delegate with
      | error failure =>
          rw [isSignature] at succeeds
          cases succeeds
      | ok signature =>
          obtain ⟨instantiated, isInstantiated, params⟩ :=
            delegateSignature_subst signatures plainNames plain isSignature substitution
          simp only [isSignature] at succeeds
          simp only [isInstantiated, params, List.length_map,
            formals_subst signatures instantiates.keepsMethods known declaring arity]
          split at succeeds
          · next lengths =>
            rw [if_pos lengths]
            exact MethodSig.inferFrom_subst instantiates succeeds
          · cases succeeds

end TypeIndex

namespace Containers

/-- Crates of objects, as instances of `Crate<U>`. -/
def objectCrates : Subst := [(⟨⟨.type ⟨2⟩, 0⟩, "U"⟩, .object)]

theorem instantiates_objectCrates : objectCrates.Instantiates := by
  have images : ∀ p image, objectCrates.image? p = some image →
      p.key.owner ≠ .method ∧ image = .object := by
    intro p image found
    obtain ⟨entry, isEntry, keys, rfl⟩ := Subst.exists_mem_of_image? found
    cases List.mem_singleton.mp isEntry
    rw [← keys]
    exact ⟨by decide, rfl⟩
  constructor
  · intro p image found
    rw [(images p image found).2]
    rfl
  · intro p owner
    cases found : objectCrates.image? p with
    | none => rfl
    | some image => exact ((images p image found).1 owner).elim
  · intro p image found
    rw [(images p image found).2]
    intro q mentioned
    cases mentioned

/-- Inside `Crate<U>`, an item as the label of an item makes `U` the type of labels.  So in a
crate of objects the labels are objects. -/
theorem inferTypeArgs_objectCrates :
    index.inferTypeArgs cratePut [crated] (.named ⟨"", "Sink"⟩ [crated, crated]) =
        .ok [crated] ∧
      index.inferTypeArgs cratePut [.object] (.named ⟨"", "Sink"⟩ [.object, .object]) =
        .ok [.object] := by
  have inClass : index.inferTypeArgs cratePut [crated] (.named ⟨"", "Sink"⟩ [crated, crated]) =
      .ok [crated] := TypeIndex.inferTypeArgs_of_unifyAllFor 2 rfl rfl rfl rfl rfl
  have inInstance := TypeIndex.inferTypeArgs_subst instantiates_objectCrates signaturesScoped
    wellFormed.plainName (by decide +kernel : cratePut ∈ index.methods)
    (rfl : index.type? cratePut.declaring = some crate) rfl (by decide) inClass
  exact ⟨inClass, inInstance⟩

end Containers

end MethodGroups
