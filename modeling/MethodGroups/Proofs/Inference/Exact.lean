import MethodGroups.Proofs.Inference.TypeArgs
import MethodGroups.Proofs.Index.WellFormed

/-!
# When inference succeeds

Inference reads the type arguments of a method off a delegate.  It succeeds when the
delegate is known and has as many parameters as the method, every type parameter of
the method occurs in one of the parameter types, and some arguments fit; then it
returns the arguments that fit.
-/

namespace MethodGroups

/-- The parameter types with which a delegate is invoked; other types have none. -/
def TypeDef.delegateParams (type : TypeDef) : List Ty :=
  match type.kind with
  | .delegate signature => signature.params
  | .ordinary => []

namespace TypeIndex

/-- No stored signature mentions an inference variable. -/
structure SignaturesVarFree (index : TypeIndex) : Prop where
  methods : ∀ method ∈ index.methods, ∀ param ∈ method.params, param.ty.VarFree
  delegates : ∀ type ∈ index.types, ∀ ty ∈ type.delegateParams, ty.VarFree

/-! ## The types that inference compares -/

theorem varFree_image?_argSubst {type : TypeDef} {args : List Ty}
    (argsFree : ∀ arg ∈ args, arg.VarFree) (p : TyParam) (image : Ty)
    (found : (type.argSubst args).image? p = some image) : image.VarFree :=
  argsFree image (TypeDef.mem_of_image?_argSubst found)

theorem varFree_args {ty : Ty} {constructor : TypeName} {args : List Ty}
    (named : ty.head? = some (constructor, args)) (varFree : ty.VarFree) :
    ∀ arg ∈ args, arg.VarFree := by
  intro arg isArg
  rw [Ty.varFree_iff] at varFree ⊢
  intro v occurs
  exact varFree v (Ty.mem_vars_iff.mpr
    (Ty.mem_leaves_of_head? named isArg (Ty.mem_vars_iff.mp occurs)))

section Delegates

variable {index : TypeIndex} {delegate : Ty} {signature : Signature}

/-- A type refers to a known definition by its name. -/
theorem head?_of_use? {ty : Ty} {type : TypeDef} {args : List Ty}
    (isUse : index.use? ty = some (type, args)) :
    type ∈ index.types ∧ ∃ constructor, ty.head? = some (constructor, args) := by
  simp only [use?, Option.bind_eq_bind, Option.bind_eq_some_iff, Option.pure_def,
    Option.some.injEq] at isUse
  obtain ⟨⟨constructor, useArgs⟩, named, found, lookup, same⟩ := isUse
  cases same
  exact ⟨(mem_of_findKey? lookup).1, constructor, named⟩

/-- Only the use of a delegate has a signature: the declared one with the arguments of the
use. -/
theorem delegateSignature_eq_ok_iff :
    index.delegateSignature delegate = .ok signature ↔
      ∃ type args declared, index.use? delegate = some (type, args) ∧
        type.kind = .delegate declared ∧ declared.subst (type.argSubst args) = signature := by
  rw [delegateSignature]
  cases index.use? delegate with
  | none => simp
  | some use =>
      obtain ⟨type, args⟩ := use
      cases isDelegate : type.kind with
      | ordinary => simp [isDelegate]
      | delegate declared => simp [isDelegate]

/-- Each parameter type of a delegate's signature is a declared one, seen through the
arguments of the use. -/
theorem exists_written_of_delegateSignature
    (isSignature : index.delegateSignature delegate = .ok signature) {ty : Ty}
    (isParam : ty ∈ signature.params) :
    ∃ type ∈ index.types, ∃ constructor args, delegate.head? = some (constructor, args) ∧
      ∃ written ∈ type.delegateParams, written.subst (type.argSubst args) = ty := by
  obtain ⟨type, args, declared, isUse, isDelegate, rfl⟩ :=
    delegateSignature_eq_ok_iff.mp isSignature
  obtain ⟨written, isWritten, rfl⟩ := List.mem_map.mp isParam
  obtain ⟨known, constructor, named⟩ := head?_of_use? isUse
  refine ⟨type, known, constructor, args, named, written, ?_, rfl⟩
  rw [TypeDef.delegateParams, isDelegate]
  exact isWritten

end Delegates

variable {index : TypeIndex} (varFree : index.SignaturesVarFree)

include varFree

theorem varFree_formals {method : MethodDef} (known : method ∈ index.methods)
    {declaringArgs : List Ty} (argsFree : ∀ arg ∈ declaringArgs, arg.VarFree) :
    ∀ formal ∈ index.formals method declaringArgs, formal.VarFree := by
  intro formal isFormal
  obtain ⟨param, isParam, rfl⟩ := List.mem_map.mp isFormal
  apply (varFree.methods method known param isParam).subst
  intro p image found
  rw [declaringSubst] at found
  cases declaring : index.type? method.declaring with
  | none =>
      rw [declaring] at found
      cases found
  | some type =>
      rw [declaring] at found
      exact varFree_image?_argSubst argsFree p image found

theorem varFree_delegateSignature {delegate : Ty} (delegateFree : delegate.VarFree)
    {signature : Signature} (isSignature : index.delegateSignature delegate = .ok signature) :
    ∀ ty ∈ signature.params, ty.VarFree := by
  intro ty isParam
  obtain ⟨type, known, constructor, args, named, written, isWritten, rfl⟩ :=
    exists_written_of_delegateSignature isSignature isParam
  exact (varFree.delegates type known written isWritten).subst
    (varFree_image?_argSubst (varFree_args named delegateFree))

omit varFree in
theorem inferTypeArgs_eq {method : MethodDef} (generic : method.isGeneric = true)
    (declaringArgs : List Ty) (delegate : Ty) :
    index.inferTypeArgs method declaringArgs delegate =
      match index.delegateSignature delegate with
      | .error failure => .error failure
      | .ok signature =>
          if (index.formals method declaringArgs).length = signature.params.length then
            method.inferFrom (index.formals method declaringArgs) signature.params
          else .error (.parameterCount (index.formals method declaringArgs).length
            signature.params.length) := by
  rw [inferTypeArgs, if_pos generic]
  cases index.delegateSignature delegate with
  | error failure => rfl
  | ok signature =>
      by_cases lengths :
          (index.formals method declaringArgs).length = signature.params.length
      · simp only [Outcome.ofExcept, Outcome.ok_bind, ne_eq, lengths, not_true, if_true,
          if_false]
        rfl
      · simp only [Outcome.ofExcept, Outcome.ok_bind, ne_eq, lengths, not_false_eq_true,
          if_true, if_false]

omit varFree in
/-- What inference answers can be computed with a limit for the steps of unification. -/
theorem inferTypeArgs_of_unifyAllFor (steps : Nat) {method : MethodDef}
    (generic : method.isGeneric = true) {declaringArgs : List Ty} {delegate : Ty}
    {signature : Signature} (isSignature : index.delegateSignature delegate = .ok signature)
    (lengths : (index.formals method declaringArgs).length = signature.params.length)
    {outcome : Outcome UnifyError Unit} {learned : Context}
    (ends : (Context.ofSize method.typeParams.length).unifyAllFor steps
      (method.inferenceEquations (index.formals method declaringArgs) signature.params) =
        some (outcome, learned))
    {answer : Outcome InferError (List Ty)}
    (answers : (outcome.mapError .unify >>= fun _ =>
      .ofExcept (learned.inferredTypes (method.typeParams.mapIdx fun v name => (v, name)))) =
        answer) :
    index.inferTypeArgs method declaringArgs delegate = answer := by
  rw [inferTypeArgs_eq generic, isSignature]
  simp only [if_pos lengths]
  rw [MethodSig.inferFrom, Context.unifyAll_of_unifyAllFor steps ends]
  exact answers

/-- Inference either determines arguments for the parameter types of the delegate, or reports
an error, and then there is nothing to determine. -/
theorem inferTypeArgs_verdict {method : MethodDef} (known : method ∈ index.methods)
    (generic : method.isGeneric = true) {declaringArgs : List Ty}
    (argsFree : ∀ arg ∈ declaringArgs, arg.VarFree) {delegate : Ty}
    (delegateFree : delegate.VarFree) :
    (∃ signature args, index.delegateSignature delegate = .ok signature ∧
      (index.formals method declaringArgs).length = signature.params.length ∧
      index.inferTypeArgs method declaringArgs delegate = .ok args ∧
      method.Determines (index.formals method declaringArgs) signature.params args) ∨
    ((∃ failure, index.inferTypeArgs method declaringArgs delegate = .error failure) ∧
      ¬ ∃ signature, index.delegateSignature delegate = .ok signature ∧
        (index.formals method declaringArgs).length = signature.params.length ∧
        (∀ position < method.typeParams.length,
          MethodSig.OccursIn position (index.formals method declaringArgs)) ∧
        ∃ args, method.Fits (index.formals method declaringArgs) signature.params args) := by
  rw [inferTypeArgs_eq generic]
  cases isSignature : index.delegateSignature delegate with
  | error failure => simp
  | ok signature =>
      simp only [Except.ok.injEq, exists_eq_left']
      by_cases lengths :
          (index.formals method declaringArgs).length = signature.params.length
      · have formalsFree := varFree_formals varFree known argsFree
        have actualsFree := varFree_delegateSignature varFree delegateFree isSignature
        rw [if_pos lengths]
        rcases method.inferFrom_verdict formalsFree actualsFree lengths with
          ⟨args, succeeds, determines⟩ | ⟨fails, nothing⟩
        · exact .inl ⟨signature, args, rfl, lengths, succeeds, determines⟩
        · refine .inr ⟨fails, ?_⟩
          rintro ⟨-, inferable⟩
          exact nothing inferable
      · simp [lengths]

/-- Inference of the type arguments of a generic method is exact.  It succeeds if the
delegate is known, the numbers of parameters agree, every type parameter of the method
occurs in some parameter type, and some arguments fit.  What it returns fits, has no
inference variables, and is all that fits, up to spellings.  Otherwise it reports an
error. -/
theorem inferTypeArgs_exact {method : MethodDef} (known : method ∈ index.methods)
    (generic : method.isGeneric = true) {declaringArgs : List Ty}
    (argsFree : ∀ arg ∈ declaringArgs, arg.VarFree) {delegate : Ty}
    (delegateFree : delegate.VarFree) :
    ((∃ args, index.inferTypeArgs method declaringArgs delegate = .ok args) ↔
      ∃ signature, index.delegateSignature delegate = .ok signature ∧
        (index.formals method declaringArgs).length = signature.params.length ∧
        (∀ position < method.typeParams.length,
          MethodSig.OccursIn position (index.formals method declaringArgs)) ∧
        ∃ args, method.Fits (index.formals method declaringArgs) signature.params args) ∧
    (∀ args, index.inferTypeArgs method declaringArgs delegate = .ok args →
      (∀ arg ∈ args, arg.VarFree) ∧
      ∃ signature, index.delegateSignature delegate = .ok signature ∧
        method.Fits (index.formals method declaringArgs) signature.params args ∧
        ∀ others, method.Fits (index.formals method declaringArgs) signature.params others →
          List.Forall₂ Ty.Same args others) ∧
    ((∀ args, index.inferTypeArgs method declaringArgs delegate ≠ .ok args) →
      ∃ failure, index.inferTypeArgs method declaringArgs delegate = .error failure) := by
  rcases inferTypeArgs_verdict varFree known generic argsFree delegateFree with
    ⟨signature, args, isSignature, lengths, succeeds, determines⟩ | ⟨⟨failure, fails⟩, nothing⟩
  · rw [succeeds]
    refine ⟨?_, ?_, ?_⟩
    · constructor
      · intro _
        exact ⟨signature, isSignature, lengths, determines.occurs, args, determines.fits⟩
      · intro _
        exact ⟨args, rfl⟩
    · intro returned equal
      cases equal
      exact ⟨determines.varFree, signature, isSignature, determines.fits, determines.unique⟩
    · intro unsuccessful
      exact (unsuccessful args rfl).elim
  · rw [fails]
    refine ⟨?_, ?_, ?_⟩
    · constructor
      · intro holds
        rcases holds with ⟨args, impossible⟩
        cases impossible
      · intro inferable
        exact (nothing inferable).elim
    · intro returned impossible
      cases impossible
    · intro _
      exact ⟨failure, rfl⟩

end TypeIndex

theorem Containers.signaturesVarFree : index.SignaturesVarFree :=
  ⟨by decide +kernel, by decide +kernel⟩

/-- `Put` of a crate of objects has its label type inferred from a delegate that takes
an object and a string. -/
theorem Containers.inferTypeArgs_cratePut :
    ∃ args, index.inferTypeArgs cratePut [.object]
        (.named ⟨"", "Sink"⟩ [.object, .string]) = .ok args ∧
      List.Forall₂ Ty.Same args [.string] := by
  have inferred := TypeIndex.inferTypeArgs_exact signaturesVarFree
    (by decide +kernel : cratePut ∈ index.methods) rfl
    (by decide : ∀ arg ∈ [Ty.object], arg.VarFree)
    (by decide : (Ty.named ⟨"", "Sink"⟩ [.object, .string]).VarFree)
  have isSignature : index.delegateSignature (.named ⟨"", "Sink"⟩ [.object, .string]) =
      .ok ⟨[.object, .string], .void⟩ := by rfl
  have fits : cratePut.Fits (index.formals cratePut [.object]) [.object, .string] [.string] := by
    decide +kernel
  obtain ⟨args, succeeds⟩ := inferred.1.mpr
    ⟨_, isSignature, by decide +kernel, by decide +kernel, [.string], fits⟩
  obtain ⟨-, signature, sameSignature, -, unique⟩ := inferred.2.1 args succeeds
  cases isSignature.symm.trans sameSignature
  exact ⟨args, succeeds, unique [.string] fits⟩

end MethodGroups
