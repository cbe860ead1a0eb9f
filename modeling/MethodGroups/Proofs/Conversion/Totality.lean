import MethodGroups.Proofs.Conversion.Failures
import MethodGroups.Proofs.Conversion.TypeArguments
import MethodGroups.Proofs.Hierarchy.SlotRoots
import MethodGroups.Proofs.Unification.Strays

/-!
# Conversions have an answer

In an unambiguous index every id that a conversion follows is known and every walk that it
takes ends.  So a conversion has an answer, a converted method group or an error, for every
request but one kind: where type arguments are inferred, the types of the request may mention
an inference variable that inference did not create.  Such a variable is no defect that is
reported, although the same variable is one where the type arguments are given.
-/

namespace MethodGroups

variable {Source State : Type}

namespace TypeIndex

/-- Every id that is stored or met on a walk is known, and every walk ends where its result
ends. -/
structure Navigable (index : TypeIndex) : Prop where
  found : ∀ key type, index.findKey? key = some type → index.type? type.id = some type
  listed : ∀ type ∈ index.types, ∀ id ∈ type.methods, (index.method? id).isSome
  declaring : ∀ method ∈ index.methods, (index.type? method.declaring).isSome
  met : ∀ type ∈ index.types, ∀ ancestor ∈ index.ancestors type,
    index.type? ancestor.type.id = some ancestor.type
  ancestorsEnd : ∀ type ∈ index.types,
    stepsAlong index.baseUse? ((index.ancestors type).length + 1) type.selfTy = none
  overridden : ∀ method ∈ index.methods, ∀ above, index.overridden? method = some above →
    above ∈ index.methods
  slotsEnd : ∀ method ∈ index.methods,
    (∃ count, stepsAlong index.nextInSlot? count method = some (index.slotRoot method)) ∧
      index.nextInSlot? (index.slotRoot method) = none

theorem Unambiguous.navigable {index : TypeIndex} (unambiguous : index.Unambiguous) :
    index.Navigable where
  found _ _ lookup := unambiguous.consistent.type?_id (mem_of_findKey? lookup).1
  listed type known id isListed := by
    obtain ⟨method, lookup, -⟩ := unambiguous.consistent.declares type known id isListed
    rw [lookup]
    rfl
  declaring method known := by
    obtain ⟨type, lookup, -⟩ := unambiguous.consistent.listed method known
    rw [lookup]
    rfl
  met type known ancestor isAncestor :=
    unambiguous.consistent.type?_id
      (mem_of_defOf? (unambiguous.defOf?_of_mem_ancestors known isAncestor))
  ancestorsEnd type known := by
    rw [unambiguous.stepsAlong_baseUse? (unambiguous.defOf?_selfTy known), ← ancestors_eq_above]
    simp
  overridden method known above lookup := (unambiguous.overridden?_known known lookup).1
  slotsEnd method known :=
    ⟨unambiguous.stepsAlong_slotRoot known, unambiguous.nextInSlot?_slotRoot known⟩

/-- Inference meets a stray variable exactly where its equations stray. -/
theorem inferTypeArgs_eq_stray_iff {index : TypeIndex} {method : MethodDef}
    {declaringArgs : List Ty} {delegate : Ty} {v : TyVar} :
    index.inferTypeArgs method declaringArgs delegate = .stray v ↔
      method.isGeneric = true ∧ ∃ signature, index.delegateSignature delegate = .ok signature ∧
        (index.formals method declaringArgs).length = signature.params.length ∧
        (Context.ofSize method.typeParams.length).Strays
          (method.inferenceEquations (index.formals method declaringArgs) signature.params) v := by
  cases generic : method.isGeneric with
  | false => simp [inferTypeArgs, generic]
  | true =>
      rw [inferTypeArgs_eq generic]
      cases index.delegateSignature delegate with
      | error failure => simp
      | ok signature =>
          have start : (Context.ofSize method.typeParams.length).Triangular := .unbound _
          simp only [true_and, Except.ok.injEq, exists_eq_left']
          split
          · next lengths =>
            simp [lengths, MethodSig.inferFrom, Outcome.bind_eq_stray_iff,
              Outcome.mapError_eq_stray_iff, ← Context.unifyAll_eq_stray_iff start]
          · next lengths => simp [lengths]

end TypeIndex

namespace Environment

variable {env : Environment} {request : Request Source}

/-! ## Requests that reach inference -/

/-- What the checks of a request found that come before the inference of type arguments. -/
structure Inferring (env : Environment) (request : Request Source) where
  method : MethodDef
  current : TypeDef
  delegate : TypeDef
  declaring : TypeDef
  use : Ty
  signature : Signature
  isMethod : env.index.method? request.method = some method
  isCurrent : env.index.type? request.current = some current
  usable : (env.policies.method request.method).isUsable = true
  isDelegate : env.index.defOf? request.delegate = some delegate
  expandsAlike : (env.policies.method request.method).expandParams = true →
    (env.policies.delegate delegate.id).expandParams = true
  isDeclaring : env.index.type? method.declaring = some declaring
  isUse : env.declaringUse request current declaring = .ok use
  generic : method.isGeneric = true
  keepsGenerics : (env.policies.method request.method).ignoreGenericArguments = false
  noArgs : request.typeArgs = []
  isSignature : env.index.delegateSignature request.delegate = .ok signature
  lengths : (env.index.formals method use.args).length = signature.params.length

/-- The equations between the parameter types of the method and of the delegate. -/
def Inferring.equations (inferring : Inferring env request) : List (Ty × Ty) :=
  inferring.method.inferenceEquations (env.index.formals inferring.method inferring.use.args)
    inferring.signature.params

/-- The request reaches inference, and there its equations stray at the variable. -/
def StraysAt (env : Environment) (request : Request Source) (v : TyVar) : Prop :=
  ∃ inferring : Inferring env request,
    (Context.ofSize inferring.method.typeParams.length).Strays inferring.equations v

theorem declaringUse_ne_stray (current declaring : TypeDef) (v : TyVar) :
    env.declaringUse request current declaring ≠ .stray v := by
  rw [declaringUse]
  split
  · simp
  · split <;> simp [Defect.refuse]

/-- Only inferred type arguments can meet a stray variable. -/
theorem scriptTypeArgs_eq_stray_iff {method : MethodDef} {policy : MethodPolicy} {use : Ty}
    {v : TyVar} :
    env.scriptTypeArgs request method policy use = .stray v ↔
      policy.ignoreGenericArguments = false ∧ request.typeArgs = [] ∧
        env.index.inferTypeArgs method use.args request.delegate = .stray v := by
  have generic_of_stray : env.index.inferTypeArgs method use.args request.delegate = .stray v →
      method.isGeneric = true := fun strays => (TypeIndex.inferTypeArgs_eq_stray_iff.mp strays).1
  rw [scriptTypeArgs]
  split
  · next asked =>
    rw [Bool.and_eq_true, Bool.not_eq_true'] at asked
    simp only [Outcome.bind_eq_stray_iff, Outcome.mapError_eq_stray_iff,
      Outcome.ofExcept_ne_stray, and_false, exists_false, or_false, asked.2, true_and, typeArgs]
    split
    · next noArgs => simp [List.isEmpty_iff.mp noArgs, Outcome.mapError_eq_stray_iff]
    · next given =>
      have someArgs : request.typeArgs ≠ [] := fun noArgs => given (by simp [noArgs])
      split <;> simp [someArgs, Defect.refuse]
  · next unasked =>
    constructor
    · intro impossible
      cases impossible
    · intro holds
      obtain ⟨keeps, -, strays⟩ := holds
      exact (unasked (by simp [generic_of_stray strays, keeps])).elim

theorem blueprint_eq_stray_iff {v : TyVar} :
    env.blueprint request = .stray v ↔ env.StraysAt request v := by
  constructor
  · intro strays
    simp only [Environment.blueprint, Outcome.bind_eq_stray_iff, Outcome.ofOption_eq_ok_iff,
      Outcome.ofOption_ne_stray, false_or] at strays
    obtain ⟨method, isMethod, current, isCurrent, strays⟩ := strays
    split at strays
    case isTrue => cases strays
    case isFalse usable =>
      simp only [Outcome.bind_eq_stray_iff, Outcome.ofOption_eq_ok_iff,
        Outcome.ofOption_ne_stray, false_or] at strays
      obtain ⟨delegate, isDelegate, strays⟩ := strays
      split at strays
      case isTrue => cases strays
      case isFalse expandsAlike =>
        simp only [Outcome.bind_eq_stray_iff, Outcome.ofOption_eq_ok_iff,
          Outcome.ofOption_ne_stray, Outcome.mapError_eq_stray_iff, Outcome.ofExcept_ne_stray,
          Outcome.pure_eq_ok, declaringUse_ne_stray, false_or, or_false, reduceCtorEq, and_false,
          exists_false] at strays
        obtain ⟨declaring, isDeclaring, use, isUse, strays⟩ := strays
        obtain ⟨keepsGenerics, noArgs, strays⟩ := scriptTypeArgs_eq_stray_iff.mp strays
        obtain ⟨generic, signature, isSignature, lengths, strays⟩ :=
          TypeIndex.inferTypeArgs_eq_stray_iff.mp strays
        exact ⟨{
          method, current, delegate, declaring, use, signature, isMethod, isCurrent, isDelegate,
          isDeclaring, isUse, generic, keepsGenerics, noArgs, isSignature, lengths
          usable := by simpa using usable
          expandsAlike := by simpa using expandsAlike }, strays⟩
  · intro holds
    obtain ⟨inferring, strays⟩ := holds
    have inferred : env.index.inferTypeArgs inferring.method inferring.use.args
        request.delegate = .stray v :=
      TypeIndex.inferTypeArgs_eq_stray_iff.mpr ⟨inferring.generic, inferring.signature,
        inferring.isSignature, inferring.lengths, strays⟩
    have typeArgs := (@scriptTypeArgs_eq_stray_iff _ env request inferring.method _ _ v).mpr
      ⟨inferring.keepsGenerics, inferring.noArgs, inferred⟩
    simp [Environment.blueprint, inferring.isMethod, inferring.isCurrent, inferring.isDelegate,
      inferring.isDeclaring, inferring.isUse, inferring.usable, typeArgs, Outcome.ofOption]
    exact inferring.expandsAlike

/-- Where no type mentions an inference variable, none is met. -/
theorem not_straysAt_of_varFree (varFree : env.index.VarFree)
    (argsFree : ∀ arg ∈ request.declaringArgs, arg.VarFree)
    (delegateFree : request.delegate.VarFree) (v : TyVar) : ¬ env.StraysAt request v := by
  intro strays
  obtain ⟨inferring, earlier, left, right, later, split, -, -, found⟩ := strays
  have useFree := varFree_declaringUse varFree argsFree inferring.isUse
  have formalsFree := TypeIndex.varFree_formals varFree.signatures
    (List.mem_of_getElem? inferring.isMethod) (TypeIndex.varFree_useArgs useFree)
  have actualsFree := TypeIndex.varFree_delegateSignature varFree.signatures delegateFree
    inferring.isSignature
  have isEquation : (left, right) ∈ inferring.equations := by simp [split]
  obtain ⟨knowsLeft, knowsRight⟩ := MethodSig.knows_equations inferring.method.toMethodSig
    formalsFree actualsFree _ isEquation
  rw [Context.strayOf?_eq_none_of_knows knowsLeft knowsRight] at found
  cases found

/-! ## Answers -/

theorem convert_eq_stray_iff {evaluator : Evaluator Source State} {state after : State}
    {v : TyVar} :
    env.convert evaluator request state = (.stray v, after) ↔
      env.blueprint request = .stray v ∧ after = state := by
  rw [convert]
  cases env.blueprint request with
  | ok blueprint =>
      constructor
      · intro impossible
        cases impossible
      · intro impossible
        cases impossible.1
  | error cause =>
      constructor
      · intro impossible
        cases impossible
      · intro impossible
        cases impossible.1
  | stray w =>
      constructor
      · intro strays
        cases strays
        exact ⟨rfl, rfl⟩
      · intro holds
        obtain ⟨strays, rfl⟩ := holds
        cases strays
        rfl

/-- A conversion in an unambiguous index follows known ids and walks that end.  It converts
the method group, or it reports an error at the place of the request, or it meets a variable
that inference did not create; in the last two cases the state of the evaluator stays as it
was.  The last case is that of a request that reaches inference and whose equations stray, and
no other, so that it does not arise where no type mentions an inference variable. -/
theorem convert_answers (unambiguous : env.index.Unambiguous) :
    env.index.Navigable ∧
    ∀ (evaluator : Evaluator Source State) (request : Request Source) (state : State),
      ((∃ conversion after, env.convert evaluator request state = (.ok conversion, after)) ∨
        (∃ cause, env.convert evaluator request state = (.error ⟨cause, request.span⟩, state)) ∨
        ∃ v, env.StraysAt request v ∧
          env.convert evaluator request state = (.stray v, state)) ∧
      (∀ v, env.StraysAt request v →
        env.convert evaluator request state = (.stray v, state)) ∧
      (env.index.VarFree → (∀ arg ∈ request.declaringArgs, arg.VarFree) →
        request.delegate.VarFree → ∀ v, ¬ env.StraysAt request v) := by
  refine ⟨unambiguous.navigable, ?_⟩
  intro evaluator request state
  refine ⟨?_, ?_, fun varFree argsFree delegateFree =>
    not_straysAt_of_varFree varFree argsFree delegateFree⟩
  · rcases converts : env.convert evaluator request state with ⟨outcome, after⟩
    cases outcome with
    | ok conversion => exact .inl ⟨conversion, after, rfl⟩
    | error error =>
        obtain ⟨-, span, rfl⟩ := (env.convert_eq_error_iff evaluator).mp converts
        refine .inr (.inl ⟨error.cause, ?_⟩)
        rw [← span]
    | stray v =>
        obtain ⟨strays, rfl⟩ := convert_eq_stray_iff.mp converts
        exact .inr (.inr ⟨v, blueprint_eq_stray_iff.mp strays, rfl⟩)
  · intro v strays
    exact convert_eq_stray_iff.mpr ⟨blueprint_eq_stray_iff.mpr strays, rfl⟩

end Environment

namespace Containers

/-- `take().Put`, converted to a delegate whose second parameter is left open. -/
def openPut : Request CompiledTarget :=
  { takenPut with delegate := .named ⟨"", "Sink"⟩ [.object, .var 7] }

theorem convert_openPut_eq_stray : environment.convert precompiled openPut (.start "tmp") =
    (.stray 7, .start "tmp") := by
  have inferred : index.inferTypeArgs boxPut [.object] openPut.delegate = .stray 7 :=
    TypeIndex.inferTypeArgs_of_unifyAllFor 2 rfl rfl rfl rfl rfl
  obtain ⟨generic, signature, isSignature, lengths, strays⟩ :=
    TypeIndex.inferTypeArgs_eq_stray_iff.mp inferred
  obtain ⟨delegate, isDelegate⟩ := Option.isSome_iff_exists.mp
    (by decide +kernel : (index.defOf? openPut.delegate).isSome)
  have straysAt : environment.StraysAt openPut 7 :=
    ⟨{
      method := boxPut
      current := shelf
      declaring := box
      use := .named ⟨"", "Box"⟩ [.object]
      delegate, signature, generic, isDelegate, isSignature, lengths
      isMethod := rfl
      isCurrent := rfl
      usable := rfl
      expandsAlike := fun expands => by cases expands
      isDeclaring := rfl
      isUse := rfl
      keepsGenerics := rfl
      noArgs := rfl }, strays⟩
  exact Environment.convert_eq_stray_iff.mpr
    ⟨Environment.blueprint_eq_stray_iff.mpr straysAt, rfl⟩

/-- There is no answer to the request, because `Put` has one type parameter only. -/
theorem convert_openPut_straysAt :
    index.Unambiguous ∧ environment.convert precompiled openPut (.start "tmp") =
        (.stray 7, .start "tmp") ∧
      environment.StraysAt openPut 7 := by
  have unambiguous := wellFormed.unambiguous
  have strays := convert_openPut_eq_stray
  refine ⟨unambiguous, strays, ?_⟩
  obtain ⟨-, answers⟩ :=
    @Environment.convert_answers CompiledTarget Temporaries environment unambiguous
  obtain ⟨⟨conversion, after, converts⟩ | ⟨cause, fails⟩ | ⟨v, straysAt, meets⟩, -⟩ :=
    answers precompiled openPut (.start "tmp")
  · rw [strays] at converts
    cases converts
  · rw [strays] at fails
    cases fails
  · rw [strays] at meets
    cases meets
    exact straysAt

/-- The request has neither a result nor an error, while the same variable as a given type
argument is reported. -/
theorem convert_openPut :
    index.Unambiguous ∧
      (¬ ∃ conversion after, environment.convert precompiled openPut (.start "tmp") =
        (.ok conversion, after)) ∧
      (¬ ∃ error after, environment.convert precompiled openPut (.start "tmp") =
        (.error error, after)) ∧
      environment.convert precompiled (openPut.withTypeArgs [.var 7]) (.start "tmp") =
        (.error ⟨.internal (.unresolved (.var 7)), .origin⟩, .start "tmp") := by
  refine ⟨wellFormed.unambiguous, ?_, ?_, rfl⟩
  · rintro ⟨conversion, after, converts⟩
    cases convert_openPut_eq_stray.symm.trans converts
  · rintro ⟨error, after, fails⟩
    cases convert_openPut_eq_stray.symm.trans fails

end Containers

end MethodGroups
