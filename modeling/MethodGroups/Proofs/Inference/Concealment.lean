import MethodGroups.Proofs.Index.WellFormed
import MethodGroups.Proofs.Inference.Exact
import MethodGroups.Proofs.Ty.Concealment

/-!
# The type parameters of a caller

A conversion may stand inside a generic method, whose type parameters then occur in the
arguments of the declaring type and in the delegate.  Type parameters of methods are known
by position alone, so one that the declaring arguments bring into a parameter type can be
taken for a type parameter of the method that is converted, and is then inferred instead
of compared.

Where nothing is captured in this way, the type parameters of the caller are opaque to
inference: it makes no difference whether they are concealed behind fresh names.
-/

namespace MethodGroups

/-! ## Parameter types with all arguments -/

section Seen

variable {type : TypeDef} {sig : MethodSig} {declaringArgs args : List Ty} {ty : Ty}
variable {names : Nat → TypeName}

/-- A parameter type of a method as it is with arguments for the parameters of the
declaring type and of the method. -/
def MethodSig.seenThrough (sig : MethodSig) (type : TypeDef) (declaringArgs args : List Ty)
    (ty : Ty) : Ty :=
  ty.subst (type.argSubst declaringArgs ++ sig.argSubst args)

namespace MethodSig

/-- A substitution for the method leaves a type alone that mentions none of its
parameters. -/
theorem subst_argSubst_of_foreign (foreign : ∀ p ∈ ty.params, ¬ sig.Owns p) :
    ty.subst (sig.argSubst args) = ty := by
  have untouched : ty.subst (sig.argSubst args) = ty.subst [] := by
    apply Ty.subst_congr
    intro p mentioned
    rw [image?_argSubst]
    exact if_neg (foreign p mentioned)
  rw [untouched, Ty.subst_nil]

/-- Arguments for the method come after those for the declaring type, unless the latter
mention parameters of the method. -/
theorem subst_subst_eq_seenThrough
    (foreign : ∀ arg ∈ declaringArgs, ∀ p ∈ arg.params, ¬ sig.Owns p) (ty : Ty) :
    (ty.subst (type.argSubst declaringArgs)).subst (sig.argSubst args) =
      sig.seenThrough type declaringArgs args ty := by
  rw [seenThrough, Ty.subst_subst]
  apply Ty.subst_congr
  intro p _
  rw [Subst.image?_append, Subst.image?_append, Subst.image?_through]
  cases found : (type.argSubst declaringArgs).image? p with
  | none => rfl
  | some image =>
      have isArg := TypeDef.mem_of_image?_argSubst found
      rw [Option.map_some, subst_argSubst_of_foreign (foreign image isArg)]

/-- Concealed arguments make concealed types. -/
theorem seenThrough_concealed (inScope : ∀ p ∈ ty.params, type.Owns p ∨ sig.Owns p)
    (arity : args.length = sig.typeParams.length) :
    sig.seenThrough type (declaringArgs.map (Ty.concealed names))
        (args.map (Ty.concealed names)) ty =
      (sig.seenThrough type declaringArgs args ty).concealed names := by
  have covered : ∀ p ∈ ty.params, p.key.owner = .method →
      (Subst.image? (type.argSubst declaringArgs ++ sig.argSubst args) p).isSome := by
    intro p mentioned owner
    rcases inScope p mentioned with typeOwns | sigOwns
    · rw [typeOwns.1] at owner
      cases owner
    · rw [Subst.image?_append, TypeDef.image?_argSubst_of_method type declaringArgs owner,
        Option.none_or]
      exact isSome_image?_argSubst arity sigOwns
  rw [seenThrough, seenThrough, Ty.concealed_subst covered, List.map_append,
    TypeDef.argSubst_map, argSubst_map]

/-- Revealed arguments make revealed types. -/
theorem seenThrough_revealed (avoids : ty.Avoids names) :
    sig.seenThrough type (declaringArgs.map (Ty.revealed names))
        (args.map (Ty.revealed names)) ty =
      (sig.seenThrough type declaringArgs args ty).revealed names := by
  rw [seenThrough, seenThrough, Ty.revealed_subst _ avoids, List.map_append,
    TypeDef.argSubst_map, argSubst_map]

/-- Same arguments make same types. -/
theorem seenThrough_same {otherDeclaring others : List Ty}
    (declaringSame : List.Forall₂ Ty.Same declaringArgs otherDeclaring)
    (same : List.Forall₂ Ty.Same args others) (ty : Ty) :
    (sig.seenThrough type declaringArgs args ty).Same
      (sig.seenThrough type otherDeclaring others ty) := by
  rw [Ty.Same.forall₂_iff] at declaringSame same
  rw [Ty.Same, seenThrough, seenThrough, Ty.erased_subst, Ty.erased_subst, List.map_append,
    List.map_append, ← TypeDef.argSubst_map, ← argSubst_map, declaringSame, same,
    TypeDef.argSubst_map, argSubst_map]

end MethodSig

/-! ## Which parameters a signature mentions -/

/-- A type parameter of a method that no declaring argument mentions is mentioned only where
the written type mentions it. -/
theorem TypeDef.mem_params_subst_argSubst {p : TyParam} (owner : p.key.owner = .method)
    (absent : ∀ arg ∈ declaringArgs, p ∉ arg.params) :
    p ∈ (ty.subst (type.argSubst declaringArgs)).params ↔ p ∈ ty.params := by
  apply Ty.mem_params_subst_of_foreign (image?_argSubst_of_method type declaringArgs owner)
  intro q image found
  exact absent image (mem_of_image?_argSubst found)

/-- Whatever the declaring arguments are, the type parameters of methods stay in a written
type. -/
theorem TypeDef.mentionsMethodParams_subst_argSubst (mentions : ty.mentionsMethodParams = true) :
    (ty.subst (type.argSubst declaringArgs)).mentionsMethodParams = true := by
  rw [Ty.mentionsMethodParams_iff] at mentions ⊢
  obtain ⟨p, mentioned, owner⟩ := mentions
  refine ⟨p, ?_, owner⟩
  rw [Ty.subst_eq_graft, Ty.mem_params_graft]
  refine .inr ⟨p, mentioned, ?_⟩
  rw [image?_argSubst_of_method type declaringArgs owner]
  exact List.mem_singleton_self p

end Seen

/-! ## What inference answers, without capture -/

/-- The declaring arguments bring no type parameter into the signature of a method that
could be taken for one of its own. -/
structure TypeIndex.Uncaptured (index : TypeIndex) (method : MethodDef)
    (declaringArgs : List Ty) : Prop where
  foreign : ∀ arg ∈ declaringArgs, ∀ p ∈ arg.params, ¬ method.Owns p
  /-- Parameters whose written types are not generic stay out of the inference. -/
  written : ∀ param ∈ method.params,
    (param.ty.subst (index.declaringSubst method declaringArgs)).mentionsMethodParams = true →
      param.ty.mentionsMethodParams = true

/-- The arguments are what inference answers, up to spellings. -/
def TypeIndex.Infers (index : TypeIndex) (method : MethodDef) (declaringArgs : List Ty)
    (delegate : Ty) (args : List Ty) : Prop :=
  ∃ inferred, index.inferTypeArgs method declaringArgs delegate = .ok inferred ∧
    List.Forall₂ Ty.Same inferred args

/-- The arguments make the generic parameter types of a method the same as the actual
ones, and each of them occurs there. -/
structure MethodSig.Explains (sig : MethodSig) (type : TypeDef)
    (declaringArgs actuals args : List Ty) : Prop where
  arity : args.length = sig.typeParams.length
  occurs : ∀ position < sig.typeParams.length,
    ∃ param ∈ sig.params, ∃ p ∈ param.ty.params, p.key = ⟨.method, position⟩
  same : List.Forall₂ (fun param actual => param.ty.mentionsMethodParams = true →
    (sig.seenThrough type declaringArgs args param.ty).Same actual) sig.params actuals

namespace MethodSig.Explains

variable {sig : MethodSig} {type : TypeDef} {declaringArgs actuals args : List Ty}
variable (explains : sig.Explains type declaringArgs actuals args)

include explains

/-- A change of types that passes through the signature and keeps same types the same may
be made everywhere. -/
theorem map (change : Ty → Ty)
    (passes : ∀ param ∈ sig.params,
      sig.seenThrough type (declaringArgs.map change) (args.map change) param.ty =
        change (sig.seenThrough type declaringArgs args param.ty))
    (keeps : ∀ {left right : Ty}, left.Same right → (change left).Same (change right)) :
    sig.Explains type (declaringArgs.map change) (actuals.map change) (args.map change) where
  arity := by rw [List.length_map, explains.arity]
  occurs := explains.occurs
  same := by
    obtain ⟨lengths, same⟩ := List.forall₂_iff_zip.mp explains.same
    rw [List.forall₂_map_right_iff, List.forall₂_iff_zip]
    refine ⟨lengths, ?_⟩
    intro param actual membership mentions
    rw [passes param (List.of_mem_zip membership).1]
    exact keeps (same membership mentions)

theorem congr {otherDeclaring otherActuals others : List Ty}
    (declaringSame : List.Forall₂ Ty.Same declaringArgs otherDeclaring)
    (actualsSame : List.Forall₂ Ty.Same actuals otherActuals)
    (argsSame : List.Forall₂ Ty.Same args others) :
    sig.Explains type otherDeclaring otherActuals others where
  arity := by rw [← argsSame.length_eq, explains.arity]
  occurs := explains.occurs
  same := by
    -- Both lists of actual types agree after erasure, and nothing else of them matters.
    have byErasure : ∀ seen : List Ty, List.Forall₂ (fun param actual =>
        param.ty.mentionsMethodParams = true →
          (sig.seenThrough type declaringArgs args param.ty).Same actual) sig.params seen ↔
        List.Forall₂ (fun param erased => param.ty.mentionsMethodParams = true →
          (sig.seenThrough type declaringArgs args param.ty).erased = erased) sig.params
          (seen.map Ty.erased) := by
      intro seen
      rw [List.forall₂_map_right_iff]
      exact Iff.rfl
    have same := explains.same
    rw [byErasure, Ty.Same.forall₂_iff.mp actualsSame, ← byErasure] at same
    apply same.imp
    intro param actual explained mentions
    exact (MethodSig.seenThrough_same declaringSame argsSame param.ty).symm.trans
      (explained mentions)

end MethodSig.Explains

namespace TypeIndex

variable {index : TypeIndex} {method : MethodDef} {declaringArgs : List Ty}

theorem Infers.congr {delegate : Ty} {args others : List Ty}
    (infers : index.Infers method declaringArgs delegate args)
    (same : List.Forall₂ Ty.Same args others) :
    index.Infers method declaringArgs delegate others := by
  obtain ⟨inferred, succeeds, inferredSame⟩ := infers
  refine ⟨inferred, succeeds, ?_⟩
  rw [Ty.Same.forall₂_iff] at inferredSame same ⊢
  exact inferredSame.trans same

section Written

variable {type : TypeDef} (declaring : index.type? method.declaring = some type)

include declaring

theorem formals_eq (declaringArgs : List Ty) :
    index.formals method declaringArgs =
      method.params.map fun param => param.ty.subst (type.argSubst declaringArgs) := by
  rw [formals, declaringSubst, declaring]
  rfl

variable (uncaptured : index.Uncaptured method declaringArgs)

include uncaptured

theorem Uncaptured.mentions_iff {param : Parameter} (isParam : param ∈ method.params) :
    (param.ty.subst (type.argSubst declaringArgs)).mentionsMethodParams = true ↔
      param.ty.mentionsMethodParams = true := by
  have written := uncaptured.written param isParam
  rw [declaringSubst, declaring] at written
  exact ⟨written, TypeDef.mentionsMethodParams_subst_argSubst⟩

theorem Uncaptured.occursIn_iff {position : Nat} (bound : position < method.typeParams.length) :
    MethodSig.OccursIn position (index.formals method declaringArgs) ↔
      ∃ param ∈ method.params, ∃ p ∈ param.ty.params, p.key = ⟨.method, position⟩ := by
  have inParam : ∀ ty : Ty, (∃ p ∈ (ty.subst (type.argSubst declaringArgs)).params,
      p.key = ⟨.method, position⟩) ↔ ∃ p ∈ ty.params, p.key = ⟨.method, position⟩ := by
    intro ty
    apply exists_congr
    intro p
    apply and_congr_left
    intro key
    have owner : p.key.owner = .method := by rw [key]
    apply TypeDef.mem_params_subst_argSubst owner
    intro arg isArg mentioned
    exact uncaptured.foreign arg isArg p mentioned ⟨owner, by rw [key]; exact bound⟩
  simp only [MethodSig.OccursIn, formals_eq declaring, List.mem_map, exists_exists_and_eq_and,
    inParam]

/-- Without capture, the equations of inference are about the written signature. -/
theorem explains_iff {actuals args : List Ty} :
    method.Explains type declaringArgs actuals args ↔
      (index.formals method declaringArgs).length = actuals.length ∧
        (∀ position < method.typeParams.length,
          MethodSig.OccursIn position (index.formals method declaringArgs)) ∧
        method.Fits (index.formals method declaringArgs) actuals args := by
  have seen : ∀ ty : Ty, (ty.subst (type.argSubst declaringArgs)).subst (method.argSubst args) =
      method.seenThrough type declaringArgs args ty :=
    MethodSig.subst_subst_eq_seenThrough uncaptured.foreign
  constructor
  · intro explains
    obtain ⟨lengths, same⟩ := List.forall₂_iff_zip.mp explains.same
    refine ⟨by rw [formals_eq declaring, List.length_map, lengths], ?_, explains.arity, ?_⟩
    · intro position bound
      exact (uncaptured.occursIn_iff declaring bound).mpr (explains.occurs position bound)
    · rw [formals_eq declaring, List.zip_map_left, List.forall_mem_map]
      rintro ⟨param, actual⟩ membership mentions
      have isParam := (List.of_mem_zip membership).1
      rw [Prod.map_apply, seen]
      exact same membership ((uncaptured.mentions_iff declaring isParam).mp mentions)
  · rintro ⟨lengths, occurs, arity, same⟩
    rw [formals_eq declaring, List.length_map] at lengths
    rw [formals_eq declaring, List.zip_map_left, List.forall_mem_map] at same
    refine ⟨arity, ?_, List.forall₂_iff_zip.mpr ⟨lengths, ?_⟩⟩
    · intro position bound
      exact (uncaptured.occursIn_iff declaring bound).mp (occurs position bound)
    · intro param actual membership mentions
      have isParam := (List.of_mem_zip membership).1
      rw [← seen]
      exact same (param, actual) membership
        ((uncaptured.mentions_iff declaring isParam).mpr mentions)

end Written

/-- Without capture, inference answers exactly what explains the delegate's parameter types
by the written signature. -/
theorem infers_iff (varFree : index.SignaturesVarFree) (known : method ∈ index.methods)
    (generic : method.isGeneric = true) {type : TypeDef}
    (declaring : index.type? method.declaring = some type)
    (uncaptured : index.Uncaptured method declaringArgs)
    (argsFree : ∀ arg ∈ declaringArgs, arg.VarFree) {delegate : Ty}
    (delegateFree : delegate.VarFree) (args : List Ty) :
    index.Infers method declaringArgs delegate args ↔
      ∃ signature, index.delegateSignature delegate = .ok signature ∧
        method.Explains type declaringArgs signature.params args := by
  rcases inferTypeArgs_verdict varFree known generic argsFree delegateFree with
    ⟨signature, inferred, isSignature, lengths, succeeds, determines⟩ | ⟨⟨failure, fails⟩, nothing⟩
  · have explains := (explains_iff declaring uncaptured).mpr
      ⟨lengths, determines.occurs, determines.fits⟩
    constructor
    · rintro ⟨answer, answers, same⟩
      cases succeeds.symm.trans answers
      exact ⟨signature, isSignature,
        explains.congr (Ty.Same.forall₂_refl _) (Ty.Same.forall₂_refl _) same⟩
    · rintro ⟨_, sameSignature, explained⟩
      cases isSignature.symm.trans sameSignature
      obtain ⟨-, -, fits⟩ := (explains_iff declaring uncaptured).mp explained
      exact ⟨inferred, succeeds, determines.unique args fits⟩
  · constructor
    · rintro ⟨answer, answers, -⟩
      cases fails.symm.trans answers
    · rintro ⟨signature, isSignature, explained⟩
      obtain ⟨lengths, occurs, fits⟩ := (explains_iff declaring uncaptured).mp explained
      exact (nothing ⟨signature, isSignature, lengths, occurs, args, fits⟩).elim

/-! ## Concealing what comes from the caller -/

/-- Every signature mentions only the type parameters that it may. -/
structure SignaturesScoped (index : TypeIndex) : Prop where
  methods : index.MethodsScoped
  delegates : ∀ type ∈ index.types, ∀ ty ∈ type.delegateParams, ∀ p ∈ ty.params, type.Owns p

/-- Different names that occur nowhere in the index, neither as definitions nor in the
parameter types of methods and delegates. -/
structure Fresh (index : TypeIndex) (names : Nat → TypeName) : Prop where
  distinct : Function.Injective names
  unknown : ∀ position arity, index.find? (names position).qualified arity = none
  methods : ∀ method ∈ index.methods, ∀ param ∈ method.params, param.ty.Avoids names
  delegates : ∀ type ∈ index.types, ∀ ty ∈ type.delegateParams, ty.Avoids names

variable {names : Nat → TypeName}

/-- Concealed declaring arguments capture nothing. -/
theorem Uncaptured.concealed (names : Nat → TypeName) (index : TypeIndex) (method : MethodDef)
    (declaringArgs : List Ty) :
    index.Uncaptured method (declaringArgs.map (Ty.concealed names)) where
  foreign := by
    intro arg isArg p mentioned owns
    obtain ⟨ty, -, rfl⟩ := List.mem_map.mp isArg
    exact Ty.not_mem_params_concealed owns.1 mentioned
  written := by
    intro param _ mentions
    rw [Ty.mentionsMethodParams_iff] at mentions ⊢
    obtain ⟨p, mentioned, owner⟩ := mentions
    rw [declaringSubst] at mentioned
    cases declaring : index.type? method.declaring with
    | none =>
        rw [declaring, Option.map_none, Option.getD_none, Ty.subst_nil] at mentioned
        exact ⟨p, mentioned, owner⟩
    | some type =>
        rw [declaring, Option.map_some, Option.getD_some] at mentioned
        refine ⟨p, (TypeDef.mem_params_subst_argSubst owner ?_).mp mentioned, owner⟩
        intro arg isArg
        obtain ⟨ty, -, rfl⟩ := List.mem_map.mp isArg
        exact Ty.not_mem_params_concealed owner

namespace Fresh

variable (fresh : index.Fresh names)

include fresh

/-- A concealed type refers to what the type itself refers to, with concealed arguments. -/
theorem use?_concealed (ty : Ty) :
    index.use? (ty.concealed names) =
      (index.use? ty).map fun use => (use.1, use.2.map (Ty.concealed names)) := by
  cases named : ty.head? with
  | some entry =>
      obtain ⟨constructor, args⟩ := entry
      simp only [use?, named, Ty.head?_concealed named, Option.bind_eq_bind, Option.bind_some,
        List.length_map]
      cases index.find? constructor.qualified args.length <;> rfl
  | none =>
      have unused : index.use? ty = none := by
        rw [use?, named]
        rfl
      rw [unused, Option.map_none]
      cases concealedNamed : (ty.concealed names).head? with
      | none =>
          rw [use?, concealedNamed]
          rfl
      | some entry =>
          obtain ⟨constructor, args⟩ := entry
          obtain ⟨position, rfl⟩ := Ty.exists_name_of_head?_concealed named concealedNamed
          simp only [use?, concealedNamed, fresh.unknown, Option.bind_eq_bind, Option.bind_some,
            Option.bind_none]

/-- A concealed delegate takes the concealed parameter types. -/
theorem delegateSignature_concealed (signatures : index.SignaturesScoped) (delegate : Ty)
    (actuals : List Ty) :
    (∃ signature, index.delegateSignature (delegate.concealed names) = .ok signature ∧
        signature.params = actuals) ↔
      ∃ signature, index.delegateSignature delegate = .ok signature ∧
        signature.params.map (Ty.concealed names) = actuals := by
  have params : ∀ type ∈ index.types, ∀ declared args, type.kind = .delegate declared →
      (declared.subst (type.argSubst (args.map (Ty.concealed names)))).params =
        (declared.subst (type.argSubst args)).params.map (Ty.concealed names) := by
    intro type known declared args isDelegate
    simp only [Signature.subst, List.map_map]
    apply List.map_congr_left
    intro written isWritten
    have isParam : written ∈ type.delegateParams := by
      rw [TypeDef.delegateParams, isDelegate]
      exact isWritten
    rw [Function.comp_apply, TypeDef.argSubst_map, Ty.concealed_subst]
    intro p mentioned owner
    have owns := signatures.delegates type known written isParam p mentioned
    rw [owns.1] at owner
    cases owner
  simp only [delegateSignature_eq_ok_iff, fresh.use?_concealed]
  constructor
  · rintro ⟨_, ⟨_, _, declared, concealedUse, isDelegate, rfl⟩, rfl⟩
    obtain ⟨⟨type, args⟩, isUse, same⟩ := Option.map_eq_some_iff.mp concealedUse
    cases same
    exact ⟨_, ⟨type, args, declared, isUse, isDelegate, rfl⟩,
      (params type (head?_of_use? isUse).1 declared args isDelegate).symm⟩
  · rintro ⟨_, ⟨type, args, declared, isUse, isDelegate, rfl⟩, rfl⟩
    refine ⟨_, ⟨type, _, declared, Option.map_eq_some_iff.mpr ⟨_, isUse, rfl⟩, isDelegate, rfl⟩, ?_⟩
    exact params type (head?_of_use? isUse).1 declared args isDelegate

/-- The parameter types of a delegate avoid the names if its use does. -/
theorem avoids_delegateSignature {delegate : Ty} (avoids : delegate.Avoids names)
    {signature : Signature} (isSignature : index.delegateSignature delegate = .ok signature) :
    ∀ ty ∈ signature.params, ty.Avoids names := by
  intro ty isParam
  obtain ⟨type, known, constructor, args, named, written, isWritten, rfl⟩ :=
    exists_written_of_delegateSignature isSignature isParam
  apply (fresh.delegates type known written isWritten).subst
  intro p image found constructor inImage
  have isArg := TypeDef.mem_of_image?_argSubst found
  exact avoids constructor (Ty.mem_leaves_of_head? named isArg inImage)

end Fresh

/-- Types that avoid the names are the same after they are concealed and revealed. -/
theorem Fresh.revealed_concealed (fresh : index.Fresh names) {types : List Ty}
    (avoid : ∀ ty ∈ types, ty.Avoids names) :
    List.Forall₂ Ty.Same ((types.map (Ty.concealed names)).map (Ty.revealed names)) types := by
  rw [List.map_map, List.forall₂_map_left_iff, List.forall₂_same]
  intro ty isType
  exact Ty.revealed_concealed fresh.distinct (avoid ty isType)

section Caller

variable (varFree : index.SignaturesVarFree) (signatures : index.SignaturesScoped)
variable (fresh : index.Fresh names) (known : method ∈ index.methods)
variable (generic : method.isGeneric = true) {type : TypeDef}
variable (declaring : index.type? method.declaring = some type)
variable (uncaptured : index.Uncaptured method declaringArgs)
variable (argsFree : ∀ arg ∈ declaringArgs, arg.VarFree)
variable {delegate : Ty} (delegateFree : delegate.VarFree) {args : List Ty}

include varFree known generic declaring argsFree delegateFree

variable (names) in
theorem infers_concealed_iff :
    index.Infers method (declaringArgs.map (Ty.concealed names)) (delegate.concealed names)
        args ↔
      ∃ signature, index.delegateSignature (delegate.concealed names) = .ok signature ∧
        method.Explains type (declaringArgs.map (Ty.concealed names)) signature.params args :=
  infers_iff varFree known generic declaring (.concealed names index method declaringArgs)
    (List.forall_mem_map.mpr fun arg isArg => (argsFree arg isArg).concealed)
    delegateFree.concealed args

include signatures fresh uncaptured

/-- What is inferred may be concealed together with the request. -/
theorem Infers.concealed (infers : index.Infers method declaringArgs delegate args) :
    index.Infers method (declaringArgs.map (Ty.concealed names)) (delegate.concealed names)
      (args.map (Ty.concealed names)) := by
  obtain ⟨signature, isSignature, explains⟩ :=
    (infers_iff varFree known generic declaring uncaptured argsFree delegateFree args).mp infers
  obtain ⟨concealedSignature, isConcealed, params⟩ :=
    (fresh.delegateSignature_concealed signatures delegate _).mpr ⟨signature, isSignature, rfl⟩
  rw [infers_concealed_iff names varFree known generic declaring argsFree delegateFree]
  refine ⟨concealedSignature, isConcealed, ?_⟩
  rw [params]
  apply explains.map
  · intro param isParam
    have inScope := signatures.methods method known type declaring
    exact MethodSig.seenThrough_concealed (inScope param isParam) explains.arity
  · exact Ty.Same.concealed

/-- What is inferred for a concealed request may be revealed together with it. -/
theorem Infers.revealed (argsAvoid : ∀ arg ∈ declaringArgs, arg.Avoids names)
    (delegateAvoids : delegate.Avoids names)
    (infers : index.Infers method (declaringArgs.map (Ty.concealed names))
      (delegate.concealed names) args) :
    index.Infers method declaringArgs delegate (args.map (Ty.revealed names)) := by
  rw [infers_concealed_iff names varFree known generic declaring argsFree delegateFree] at infers
  obtain ⟨concealedSignature, isConcealed, explains⟩ := infers
  obtain ⟨signature, isSignature, params⟩ :=
    (fresh.delegateSignature_concealed signatures delegate _).mp
      ⟨concealedSignature, isConcealed, rfl⟩
  rw [← params] at explains
  have revealed := explains.map (Ty.revealed names)
    (fun param isParam => MethodSig.seenThrough_revealed
      (fresh.methods method known param isParam)) Ty.Same.revealed
  rw [infers_iff varFree known generic declaring uncaptured argsFree delegateFree]
  refine ⟨signature, isSignature, revealed.congr ?_ ?_ ?_⟩
  · exact fresh.revealed_concealed argsAvoid
  · exact fresh.revealed_concealed (fresh.avoids_delegateSignature delegateAvoids isSignature)
  · exact Ty.Same.forall₂_refl _

end Caller

theorem infers_self {delegate : Ty} {args : List Ty}
    (succeeds : index.inferTypeArgs method declaringArgs delegate = .ok args) :
    index.Infers method declaringArgs delegate args :=
  ⟨args, succeeds, Ty.Same.forall₂_refl args⟩

/-- Where nothing is captured, the type parameters of the caller are opaque to inference:
concealing them behind fresh names conceals them in the inferred arguments and changes
nothing else. -/
theorem inferTypeArgs_concealed (built : index.Built) (varFree : index.SignaturesVarFree)
    (signatures : index.SignaturesScoped) (fresh : index.Fresh names)
    (known : method ∈ index.methods) (generic : method.isGeneric = true)
    (uncaptured : index.Uncaptured method declaringArgs)
    (argsFree : ∀ arg ∈ declaringArgs, arg.VarFree)
    (argsAvoid : ∀ arg ∈ declaringArgs, arg.Avoids names) {delegate : Ty}
    (delegateFree : delegate.VarFree) (delegateAvoids : delegate.Avoids names) :
    (∀ args, (∀ arg ∈ args, arg.Avoids names) →
      (index.Infers method declaringArgs delegate args ↔
        index.Infers method (declaringArgs.map (Ty.concealed names)) (delegate.concealed names)
          (args.map (Ty.concealed names)))) ∧
    ((∃ args, index.inferTypeArgs method declaringArgs delegate = .ok args) ↔
      ∃ args, index.inferTypeArgs method (declaringArgs.map (Ty.concealed names))
        (delegate.concealed names) = .ok args) := by
  obtain ⟨type, declaring, -⟩ := built.consistent.listed method known
  have conceals : ∀ args, index.Infers method declaringArgs delegate args →
      index.Infers method (declaringArgs.map (Ty.concealed names)) (delegate.concealed names)
        (args.map (Ty.concealed names)) :=
    fun args => Infers.concealed varFree signatures fresh known generic declaring uncaptured
      argsFree delegateFree
  have reveals : ∀ args, index.Infers method (declaringArgs.map (Ty.concealed names))
      (delegate.concealed names) args →
        index.Infers method declaringArgs delegate (args.map (Ty.revealed names)) :=
    fun args => Infers.revealed varFree signatures fresh known generic declaring uncaptured
      argsFree delegateFree argsAvoid delegateAvoids
  constructor
  · intro args avoid
    constructor
    · exact conceals args
    · intro infers
      exact (reveals _ infers).congr (fresh.revealed_concealed avoid)
  · constructor
    · rintro ⟨args, succeeds⟩
      obtain ⟨concealed, answers, -⟩ := conceals args (infers_self succeeds)
      exact ⟨concealed, answers⟩
    · rintro ⟨args, succeeds⟩
      obtain ⟨revealed, answers, -⟩ := reveals args (infers_self succeeds)
      exact ⟨revealed, answers⟩

end TypeIndex

namespace Containers

/-- The first type parameter of the method in which a conversion stands. -/
def callerParam : Ty := .param ⟨⟨.method, 0⟩, "W"⟩

/-- Names for the type parameters of a caller, told apart by their lengths. -/
def callerNames (position : Nat) : TypeName :=
  ⟨"caller", String.ofList (List.replicate (position + 1) 'W')⟩

theorem signaturesScoped : index.SignaturesScoped := ⟨methodsScoped, by decide +kernel⟩

/-- The scope of a named type. -/
def leafScope? : Ty.Leaf → Option String
  | .con constructor => some constructor.scope
  | .var _ | .param _ => none

theorem avoids_callerNames {ty : Ty}
    (outside : ∀ leaf ∈ ty.leaves, leafScope? leaf ≠ some "caller") : ty.Avoids callerNames := by
  rintro constructor occurs position rfl
  exact outside _ occurs rfl

theorem fresh_callerNames : index.Fresh callerNames where
  distinct := by
    intro left right same
    have lengths := congrArg (fun constructor => constructor.name.toList.length) same
    simpa [callerNames] using lengths
  unknown := by
    intro position arity
    have outside : ∀ type ∈ index.types, type.constructor.scope ≠ "caller" := by
      decide +kernel
    apply wellFormed.find?_eq_none
    · simp [TypeName.IsPlain, callerNames, List.mem_replicate]
    · intro type known same
      exact outside type known (by rw [same]; rfl)
  methods := by
    have outside : ∀ method ∈ index.methods, ∀ param ∈ method.params,
        ∀ leaf ∈ param.ty.leaves, leafScope? leaf ≠ some "caller" := by
      decide +kernel
    intro method known param isParam
    exact avoids_callerNames (outside method known param isParam)
  delegates := by
    have outside : ∀ type ∈ index.types, ∀ ty ∈ type.delegateParams,
        ∀ leaf ∈ ty.leaves, leafScope? leaf ≠ some "caller" := by
      decide +kernel
    intro type known ty isParam
    exact avoids_callerNames (outside type known ty isParam)

/-- A crate of objects captures nothing: the caller's type parameter is inferred for the
label, as any named type would be. -/
theorem inferTypeArgs_callerParam :
    index.Infers cratePut [.object] (.named ⟨"", "Sink"⟩ [.object, callerParam]) [callerParam] ∧
      index.Infers cratePut ([.object].map (Ty.concealed callerNames))
        ((Ty.named ⟨"", "Sink"⟩ [.object, callerParam]).concealed callerNames)
        ([callerParam].map (Ty.concealed callerNames)) := by
  have uncaptured : index.Uncaptured cratePut [.object] :=
    ⟨by decide +kernel, by decide +kernel⟩
  have avoids : ∀ ty ∈ [Ty.object, callerParam], ty.Avoids callerNames := by
    have outside : ∀ ty ∈ [Ty.object, callerParam],
        ∀ leaf ∈ ty.leaves, leafScope? leaf ≠ some "caller" := by decide
    exact fun ty isTy => avoids_callerNames (outside ty isTy)
  have unchanged := TypeIndex.inferTypeArgs_concealed built signaturesVarFree signaturesScoped
    fresh_callerNames (by decide +kernel : cratePut ∈ index.methods) rfl uncaptured
    (by decide : ∀ arg ∈ [Ty.object], arg.VarFree) (by simpa using avoids .object)
    (by decide : (Ty.named ⟨"", "Sink"⟩ [.object, callerParam]).VarFree)
    (avoids_callerNames (by decide))
  have infers : index.Infers cratePut [.object]
      (.named ⟨"", "Sink"⟩ [.object, callerParam]) [callerParam] :=
    TypeIndex.infers_self (TypeIndex.inferTypeArgs_of_unifyAllFor 2 rfl rfl rfl rfl rfl)
  have avoidsParam : ∀ arg ∈ [callerParam], arg.Avoids callerNames := by
    simpa using avoids callerParam
  exact ⟨infers, (unchanged.1 [callerParam] avoidsParam).mp infers⟩

/-- The caller's type parameter in the arguments of `Crate` is taken for the one of `Put`:
the item decides it, so that the label does not fit.  Concealed, it does not. -/
theorem inferTypeArgs_captured :
    index.inferTypeArgs cratePut [callerParam]
        (.named ⟨"", "Sink"⟩ [callerParam, .string]) =
      .error (.unify (.mismatch callerParam .string)) ∧
    index.inferTypeArgs cratePut [callerParam.concealed callerNames]
        ((Ty.named ⟨"", "Sink"⟩ [callerParam, .string]).concealed callerNames) =
      .ok [.string] := by
  constructor
  · exact TypeIndex.inferTypeArgs_of_unifyAllFor 2 rfl rfl rfl rfl rfl
  · exact TypeIndex.inferTypeArgs_of_unifyAllFor 2 rfl rfl rfl rfl rfl

end Containers

end MethodGroups
