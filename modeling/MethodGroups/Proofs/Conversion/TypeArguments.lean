import MethodGroups.Proofs.Conversion.Calls
import MethodGroups.Proofs.Inference.Scope

/-!
# Given and inferred type arguments

What inference finds may as well be written into the request, and what is written there may
be left out if it suits the delegate: then inference finds it again, letter by letter, because
the answer is spelled as everything else is.
-/

namespace MethodGroups

variable {Source State : Type}

/-! ## Uses without inference variables -/

namespace TypeIndex

/-- Neither the signatures nor the bases mention an inference variable. -/
structure VarFree (index : TypeIndex) : Prop where
  signatures : index.SignaturesVarFree
  bases : ∀ type ∈ index.types, ∀ base ∈ type.base, base.VarFree

variable {index : TypeIndex}

theorem varFree_useArgs {use : Ty} (useFree : use.VarFree) : ∀ arg ∈ use.args, arg.VarFree := by
  rw [Ty.args]
  cases named : use.head? with
  | none => simp
  | some entry => exact varFree_args named useFree

theorem varFree_selfTy (type : TypeDef) : type.selfTy.VarFree := by
  apply Ty.varFree_named
  rw [List.forall_mem_map]
  intro p _
  rfl

namespace VarFree

variable (varFree : index.VarFree)

include varFree

theorem baseOfUse? {use : Ty} (useFree : use.VarFree) {ancestor : Ancestor}
    (step : index.baseOfUse? use = some ancestor) : ancestor.use.VarFree := by
  simp only [TypeIndex.baseOfUse?, Option.bind_eq_bind, Option.bind_eq_some_iff,
    Option.pure_def, Option.some.injEq] at step
  obtain ⟨⟨type, args⟩, isUse, base, isBase, baseType, -, rfl⟩ := step
  obtain ⟨known, constructor, named⟩ := head?_of_use? isUse
  exact (varFree.bases type known base isBase).subst
    (varFree_image?_argSubst (varFree_args named useFree))

/-- A type sees no inference variables above it. -/
theorem ancestorUse? {viewer : TypeDef} {seen : TypeId} {use : Ty}
    (views : index.ancestorUse? viewer seen = some use) : use.VarFree := by
  rw [TypeIndex.ancestorUse?] at views
  split at views
  · cases views
    exact varFree_selfTy viewer
  · obtain ⟨ancestor, found, rfl⟩ := Option.map_eq_some_iff.mp views
    exact forall_mem_climb (fun seen => seen.use.VarFree)
      (fun _ _ lowerFree step => varFree.baseOfUse? lowerFree step)
      _ ⟨viewer, viewer.selfTy⟩ (varFree_selfTy viewer) ancestor
      (List.mem_of_find?_eq_some found)

end VarFree

end TypeIndex

/-! ## Arguments that suit a delegate -/

/-- The arguments suit the parameter types of a delegate: there are as many of these as the
method has, every type parameter of the method occurs in one of its parameter types, and the
arguments make the generic ones the same as the delegate's. -/
structure MethodSig.Suits (sig : MethodSig) (formals actuals args : List Ty) : Prop where
  lengths : formals.length = actuals.length
  occurs : ∀ position < sig.typeParams.length, OccursIn position formals
  fits : sig.Fits formals actuals args

namespace TypeIndex

variable {index : TypeIndex} {spelling : ParamKey → String}
variable (varFree : index.SignaturesVarFree)
variable (delegatesSpelled : ∀ type ∈ index.types, ∀ ty ∈ type.delegateParams,
  ty.SpelledBy spelling)
variable {delegate : Ty} (delegateFree : delegate.VarFree)
variable (delegateSpelled : delegate.SpelledBy spelling)

include varFree delegatesSpelled delegateFree delegateSpelled

/-- Inferred arguments are spelled as the delegates are. -/
theorem spelledBy_of_inferTypeArgs {method : MethodDef} {declaringArgs args : List Ty}
    (succeeds : index.inferTypeArgs method declaringArgs delegate = .ok args) :
    ∀ arg ∈ args, arg.SpelledBy spelling := by
  have actualsSpelled : ∀ signature, index.delegateSignature delegate = .ok signature →
      ∀ ty ∈ signature.params, ty.SpelledBy spelling := by
    intro signature isSignature ty isParam
    obtain ⟨type, known, constructor, args, named, written, isWritten, rfl⟩ :=
      exists_written_of_delegateSignature isSignature isParam
    exact TypeDef.within_subst_argSubst (delegateSpelled.of_head? named) fun p mentioned =>
      .inr (delegatesSpelled type known written isWritten p mentioned)
  exact within_of_inferTypeArgs actualsSpelled (.inl ⟨varFree, delegateFree⟩) succeeds

omit varFree delegatesSpelled delegateFree delegateSpelled in
/-- Inference answers with an argument for each type parameter of the method. -/
theorem length_of_inferTypeArgs {method : MethodDef} {declaringArgs args : List Ty}
    (succeeds : index.inferTypeArgs method declaringArgs delegate = .ok args) :
    args.length = method.typeParams.length := by
  cases generic : method.isGeneric with
  | false =>
      rw [inferTypeArgs, generic] at succeeds
      cases succeeds
      rw [MethodSig.isGeneric, Bool.not_eq_false', List.isEmpty_iff] at generic
      rw [generic]
      rfl
  | true =>
      rw [inferTypeArgs_eq generic] at succeeds
      cases isSignature : index.delegateSignature delegate with
      | error failure =>
          rw [isSignature] at succeeds
          cases succeeds
      | ok signature =>
          simp only [isSignature] at succeeds
          split at succeeds
          · rw [MethodSig.inferFrom, Outcome.bind_eq_ok_iff] at succeeds
            obtain ⟨-, -, determined⟩ := succeeds
            rw [Outcome.ofExcept_eq_ok_iff, Context.inferredTypes_eq_ok_iff,
              MethodSig.map_fst_wanted] at determined
            rw [determined.2, List.length_map, List.length_range]
          · cases succeeds

/-- Inference finds the arguments that suit a delegate. -/
theorem inferTypeArgs_of_suits {method : MethodDef} (known : method ∈ index.methods)
    (generic : method.isGeneric = true) {declaringArgs : List Ty}
    (argsFree : ∀ arg ∈ declaringArgs, arg.VarFree) {signature : Signature}
    (isSignature : index.delegateSignature delegate = .ok signature) {args : List Ty}
    (suits : method.Suits (index.formals method declaringArgs) signature.params args)
    (spelled : ∀ arg ∈ args, arg.SpelledBy spelling) :
    index.inferTypeArgs method declaringArgs delegate = .ok args := by
  rcases inferTypeArgs_verdict varFree known generic argsFree delegateFree with
    ⟨_, inferred, sameSignature, -, succeeds, determines⟩ | ⟨-, nothing⟩
  · cases isSignature.symm.trans sameSignature
    have inferredSpelled := spelledBy_of_inferTypeArgs varFree delegatesSpelled delegateFree
      delegateSpelled succeeds
    have equal := Ty.Same.list_eq_of_spelledBy (determines.unique args suits.fits)
      inferredSpelled spelled
    rw [succeeds, equal]
  · exact (nothing
      ⟨signature, isSignature, suits.lengths, suits.occurs, args, suits.fits⟩).elim

end TypeIndex

/-! ## Requests with and without type arguments -/

namespace Environment

variable {env : Environment} {request : Request Source}

theorem varFree_declaringUse (varFree : env.index.VarFree)
    (argsFree : ∀ arg ∈ request.declaringArgs, arg.VarFree) {current declaring : TypeDef}
    {use : Ty} (used : env.declaringUse request current declaring = .ok use) : use.VarFree := by
  rw [declaringUse] at used
  split at used
  · cases used
    cases views : env.index.ancestorUse? current declaring.id with
    | none => exact TypeIndex.varFree_selfTy declaring
    | some seen => exact varFree.ancestorUse? views
  · split at used
    · cases used
      exact Ty.varFree_named argsFree
    · cases used

theorem calls_withTypeArgs_of_blueprint {args : List Ty}
    (same : env.blueprint (request.withTypeArgs args) = env.blueprint request)
    (evaluator : Evaluator Source State) (state : State) :
    env.calls evaluator (request.withTypeArgs args) state =
      env.calls evaluator request state := by
  rw [calls, calls, convert_withTypeArgs_of_blueprint same]

/-- An accepted request for a generic method has inferred arguments, if it gives none. -/
theorem exists_inferred (accepted : Accepted env request) (noArgs : request.typeArgs = [])
    (generic : accepted.method.isGeneric = true)
    (keeps : (env.policies.method request.method).ignoreGenericArguments = false) :
    ∃ args, env.index.inferTypeArgs accepted.method accepted.use.args request.delegate =
      .ok args := by
  have isTypeArgs := accepted.isTypeArgs
  have asked : (accepted.method.isGeneric &&
      !(env.policies.method request.method).ignoreGenericArguments) = true := by
    rw [generic, keeps]
    rfl
  rw [scriptTypeArgs, if_pos asked, Outcome.bind_eq_ok_iff] at isTypeArgs
  obtain ⟨args, given, -⟩ := isTypeArgs
  rw [Environment.typeArgs, noArgs, List.isEmpty_nil, if_pos rfl, Outcome.mapError_eq_ok_iff]
    at given
  exact ⟨args, given⟩

/-- Given and inferred type arguments agree.  Where the type arguments of a method are
inferred, some arguments may be given instead; and given arguments that suit the delegate may
be left out.  Either way the conversion does the same, down to the calls of the evaluator. -/
theorem convert_withTypeArgs (varFree : env.index.VarFree) {spelling : ParamKey → String}
    (delegatesSpelled : ∀ type ∈ env.index.types, ∀ ty ∈ type.delegateParams,
      ty.SpelledBy spelling)
    (noArgs : request.typeArgs = []) (argsFree : ∀ arg ∈ request.declaringArgs, arg.VarFree)
    (delegateFree : request.delegate.VarFree)
    (delegateSpelled : request.delegate.SpelledBy spelling) {method : MethodDef}
    (isMethod : env.index.method? request.method = some method)
    (evaluator : Evaluator Source State) (state : State) :
    (method.isGeneric = true →
      (env.policies.method request.method).ignoreGenericArguments = false →
        ∀ conversion after, env.convert evaluator request state = (.ok conversion, after) →
          ∃ args : List Ty, args.length = method.typeParams.length ∧
            env.convert evaluator (request.withTypeArgs args) state = (.ok conversion, after) ∧
            env.calls evaluator (request.withTypeArgs args) state =
              env.calls evaluator request state) ∧
    ∀ current declaring use signature args,
      env.index.type? request.current = some current →
      env.index.type? method.declaring = some declaring →
      env.declaringUse request current declaring = .ok use →
      env.index.delegateSignature request.delegate = .ok signature →
      method.Suits (env.index.formals method use.args) signature.params args →
      (∀ arg ∈ args, arg.SpelledBy spelling) →
        env.convert evaluator (request.withTypeArgs args) state =
            env.convert evaluator request state ∧
          env.calls evaluator (request.withTypeArgs args) state =
            env.calls evaluator request state := by
  constructor
  · intro generic keeps conversion after converts
    obtain ⟨blueprint, isBlueprint, -⟩ := convert_eq_ok_iff.mp converts
    obtain ⟨accepted, -⟩ := blueprint_eq_ok_iff.mp isBlueprint
    have sameMethod : accepted.method = method :=
      Option.some.inj (accepted.isMethod.symm.trans isMethod)
    rw [← sameMethod] at generic ⊢
    obtain ⟨args, inferred⟩ := exists_inferred accepted noArgs generic keeps
    have arity := TypeIndex.length_of_inferTypeArgs inferred
    have same := blueprint_withTypeArgs accepted.isMethod accepted.isCurrent
      accepted.isDeclaring accepted.isUse noArgs arity fun _ _ => inferred
    refine ⟨args, arity, ?_, calls_withTypeArgs_of_blueprint same evaluator state⟩
    rw [convert_withTypeArgs_of_blueprint same, converts]
  · intro current declaring use signature args isCurrent isDeclaring used isSignature suits
      spelled
    have useFree := varFree_declaringUse varFree argsFree used
    have inferred : method.isGeneric = true →
        env.index.inferTypeArgs method use.args request.delegate = .ok args := fun generic =>
      TypeIndex.inferTypeArgs_of_suits varFree.signatures delegatesSpelled delegateFree
        delegateSpelled (List.mem_of_getElem? isMethod) generic
        (TypeIndex.varFree_useArgs useFree) isSignature suits spelled
    have same := blueprint_withTypeArgs isMethod isCurrent isDeclaring used noArgs
      suits.fits.1 fun generic _ => inferred generic
    refine ⟨?_, calls_withTypeArgs_of_blueprint same evaluator state⟩
    rw [convert_withTypeArgs_of_blueprint same]

end Environment

namespace Containers

theorem varFree : index.VarFree := ⟨signaturesVarFree, by decide +kernel⟩

/-- How the type parameters of `Sink<A, B>` are spelled, the only ones of a delegate. -/
def sinkSpelling (key : ParamKey) : String := if key.index = 0 then "A" else "B"

/-- The type argument of `take().Put` may be written out. -/
theorem convert_takenPut_string :
    environment.convert precompiled (takenPut.withTypeArgs [.string]) (.start "tmp") =
        (.ok takenCall, ⟨"tmp", 2⟩) ∧
      environment.calls precompiled (takenPut.withTypeArgs [.string]) (.start "tmp") =
        environment.calls precompiled takenPut (.start "tmp") := by
  have suits : boxPut.Suits (index.formals boxPut [.object]) [.object, .string] [.string] :=
    ⟨by decide +kernel, by decide +kernel, by decide +kernel⟩
  have delegatesSpelled : ∀ type ∈ index.types, ∀ ty ∈ type.delegateParams,
      ty.SpelledBy sinkSpelling := by decide +kernel
  have delegateFree : takenPut.delegate.VarFree := by decide
  have delegateSpelled : takenPut.delegate.SpelledBy sinkSpelling := by decide
  have agrees := @Environment.convert_withTypeArgs _ _ environment takenPut varFree _
    delegatesSpelled rfl (by decide) delegateFree delegateSpelled boxPut rfl precompiled
    (.start "tmp")
  have same := agrees.2 shelf box (.named ⟨"", "Box"⟩ [.object]) ⟨[.object, .string], .void⟩
    [.string] rfl rfl rfl rfl suits (by decide)
  exact ⟨same.1.trans converts_takenPut, same.2⟩

end Containers

end MethodGroups
