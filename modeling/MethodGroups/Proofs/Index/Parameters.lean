import MethodGroups.Index.Definition
import MethodGroups.Proofs.Ty.Erasure

/-!
# The parameters of types and methods

A definition owns its type parameters, and a list of arguments gives each of them an
image, by position.  A use of a type names it with one argument for each of its
parameters; from inside, the type is used with its own parameters as arguments.
-/

namespace MethodGroups

/-- The parameter belongs to the type. -/
def TypeDef.Owns (type : TypeDef) (p : TyParam) : Prop :=
  p.key.owner = .type type.id ∧ p.key.index < type.typeParams.length

instance (type : TypeDef) (p : TyParam) : Decidable (type.Owns p) :=
  inferInstanceAs (Decidable (_ ∧ _))

/-- The parameter belongs to the method. -/
def MethodSig.Owns (sig : MethodSig) (p : TyParam) : Prop :=
  p.key.owner = .method ∧ p.key.index < sig.typeParams.length

instance (sig : MethodSig) (p : TyParam) : Decidable (sig.Owns p) :=
  inferInstanceAs (Decidable (_ ∧ _))

/-- The parameter types mention only parameters of the type and of the method. -/
def MethodDef.ScopedIn (method : MethodDef) (type : TypeDef) : Prop :=
  ∀ param ∈ method.params, ∀ p ∈ param.ty.params, type.Owns p ∨ method.Owns p

instance (method : MethodDef) (type : TypeDef) : Decidable (method.ScopedIn type) :=
  inferInstanceAs (Decidable
    (∀ param ∈ method.params, ∀ p ∈ param.ty.params, type.Owns p ∨ method.Owns p))

/-- A use of a definition names it and has one argument for each type parameter. -/
structure TypeDef.IsUse (type : TypeDef) (use : Ty) : Prop where
  head : use.head? = some (type.constructor, use.args)
  arity : use.args.length = type.typeParams.length

/-! ## Images of the parameters of one owner -/

private theorem image?_zip_of_offset (owner : ParamOwner) (names : List String) (args : List Ty)
    (offset : Nat) (p : TyParam) :
    Subst.image? ((names.mapIdx fun index name =>
        (⟨⟨owner, index + offset⟩, name⟩ : TyParam)).zip args) p =
      if p.key.owner = owner ∧ offset ≤ p.key.index ∧ p.key.index < names.length + offset then
        args[p.key.index - offset]?
      else none := by
  induction names generalizing args offset with
  | nil =>
      have outside : ¬ (p.key.owner = owner ∧ offset ≤ p.key.index ∧
          p.key.index < ([] : List String).length + offset) := by
        simp only [List.length_nil]
        omega
      rw [if_neg outside]
      rfl
  | cons name rest ih =>
      cases args with
      | nil => simp [Subst.image?]
      | cons arg others =>
          have nextPositions : (fun index name =>
                (⟨⟨owner, index + 1 + offset⟩, name⟩ : TyParam)) =
              fun index name => ⟨⟨owner, index + (offset + 1)⟩, name⟩ := by
            funext index name
            rw [Nat.add_assoc, Nat.add_comm 1 offset]
          rw [List.mapIdx_cons, List.zip_cons_cons, nextPositions]
          have lookup := Subst.image?_insert ((rest.mapIdx fun index name =>
            (⟨⟨owner, index + (offset + 1)⟩, name⟩ : TyParam)).zip others)
            ⟨⟨owner, 0 + offset⟩, name⟩ p arg
          rw [Subst.insert] at lookup
          rw [lookup, ih others (offset + 1)]
          rcases p with ⟨⟨pOwner, pIndex⟩, pName⟩
          by_cases same : owner = pOwner
          · subst same
            rcases Nat.lt_trichotomy pIndex offset with before | rfl | after
            · simp [Nat.ne_of_gt before, Nat.not_le_of_gt before]
              omega
            · simp
            · obtain ⟨distance, rfl⟩ := Nat.exists_eq_add_of_lt after
              have differ : (⟨owner, 0 + offset⟩ : ParamKey) ≠
                  ⟨owner, offset + distance + 1⟩ := by
                simp only [ne_eq, ParamKey.mk.injEq, true_and]
                omega
              have inner : offset + distance + 1 - (offset + 1) = distance := by omega
              have outer : offset + distance + 1 - offset = distance + 1 := by omega
              rw [if_neg differ, inner, outer, List.getElem?_cons_succ]
              simp only [List.length_cons, true_and]
              congr 1
              simp only [eq_iff_iff]
              omega
          · simp [same, Ne.symm same]

theorem TypeDef.image?_argSubst (type : TypeDef) (args : List Ty) (p : TyParam) :
    (type.argSubst args).image? p =
      if p.key.owner = .type type.id ∧ p.key.index < type.typeParams.length then
        args[p.key.index]?
      else none := by
  simpa [TypeDef.argSubst, TypeDef.tyParams] using
    image?_zip_of_offset (.type type.id) type.typeParams args 0 p

/-- The type parameters of the method with arguments for them. -/
def MethodSig.argSubst (sig : MethodSig) (args : List Ty) : Subst := sig.tyParams.zip args

theorem MethodSig.image?_argSubst (sig : MethodSig) (args : List Ty) (p : TyParam) :
    (sig.argSubst args).image? p =
      if p.key.owner = .method ∧ p.key.index < sig.typeParams.length then args[p.key.index]?
      else none := by
  simpa [MethodSig.argSubst, MethodSig.tyParams] using
    image?_zip_of_offset .method sig.typeParams args 0 p

theorem TypeDef.mem_of_image?_argSubst {type : TypeDef} {args : List Ty} {p : TyParam} {image : Ty}
    (found : (type.argSubst args).image? p = some image) : image ∈ args := by
  rw [image?_argSubst] at found
  split at found
  · exact List.mem_of_getElem? found
  · cases found

/-- A change of the arguments is a change of the images. -/
theorem TypeDef.argSubst_map (type : TypeDef) (change : Ty → Ty) (args : List Ty) :
    type.argSubst (args.map change) =
      (type.argSubst args).map fun entry => (entry.1, change entry.2) := by
  rw [argSubst, argSubst, List.zip_map_right]
  rfl

theorem MethodSig.argSubst_map (sig : MethodSig) (change : Ty → Ty) (args : List Ty) :
    sig.argSubst (args.map change) =
      (sig.argSubst args).map fun entry => (entry.1, change entry.2) := by
  rw [argSubst, argSubst, List.zip_map_right]
  rfl

/-- A use gives each parameter of its definition an image. -/
theorem TypeDef.isSome_image?_argSubst {type : TypeDef} {args : List Ty} {p : TyParam}
    (arity : args.length = type.typeParams.length) (owns : type.Owns p) :
    ((type.argSubst args).image? p).isSome := by
  rw [image?_argSubst, if_pos ⟨owns.1, owns.2⟩,
    List.getElem?_eq_getElem (by rw [arity]; exact owns.2)]
  rfl

theorem MethodSig.isSome_image?_argSubst {sig : MethodSig} {args : List Ty} {p : TyParam}
    (arity : args.length = sig.typeParams.length) (owns : sig.Owns p) :
    ((sig.argSubst args).image? p).isSome := by
  rw [image?_argSubst, if_pos ⟨owns.1, owns.2⟩,
    List.getElem?_eq_getElem (by rw [arity]; exact owns.2)]
  rfl

/-- A use of a type does not touch the parameters of methods. -/
theorem TypeDef.image?_argSubst_of_method (type : TypeDef) (args : List Ty) {p : TyParam}
    (owner : p.key.owner = .method) : (type.argSubst args).image? p = none := by
  rw [image?_argSubst, if_neg]
  intro holds
  rcases holds with ⟨typeOwner, -⟩
  rw [owner] at typeOwner
  cases typeOwner

theorem TypeDef.through_argSubst (type : TypeDef) (args : List Ty) (substitution : Subst) :
    (type.argSubst args).through substitution =
      type.argSubst (args.map (Ty.subst substitution)) :=
  (type.argSubst_map (Ty.subst substitution) args).symm

/-- The open form of a type shows every type as it is written there. -/
theorem TypeDef.subst_selfArgs (type : TypeDef) (ty : Ty) :
    (ty.subst (type.argSubst type.selfTy.args)).Same ty := by
  induction ty using Ty.induction with
  | var v => rfl
  | con constructor => rfl
  | app head args headIH argsIH =>
      rw [Ty.subst, Ty.substList_eq_map, Ty.Same.app_iff]
      refine ⟨headIH, ?_⟩
      rw [List.forall₂_map_left_iff, List.forall₂_same]
      exact argsIH
  | param p =>
      rw [Ty.subst, image?_argSubst, selfTy, instantiate, Ty.args_named]
      split
      · next owns =>
        rcases p with ⟨⟨owner, index⟩, name⟩
        obtain ⟨rfl, bound⟩ := owns
        simp [tyParams, List.getElem?_eq_getElem bound, Ty.Same, Ty.erased]
      · rfl
  | array element ih =>
      rw [Ty.Same] at ih ⊢
      rw [Ty.subst, Ty.erased, ih, Ty.erased]

/-- The open form of a type becomes a use when its parameters get the arguments of
the use. -/
theorem TypeDef.map_subst_selfArgs (type : TypeDef) {args : List Ty}
    (arity : args.length = type.typeParams.length) :
    type.selfTy.args.map (Ty.subst (type.argSubst args)) = args := by
  apply List.ext_getElem
  · simp [selfTy, instantiate, arity]
  · intro position _ bound
    have owned : position < type.typeParams.length := by rw [← arity]; exact bound
    simp [selfTy, instantiate, tyParams, Ty.subst, image?_argSubst, owned,
      List.getElem?_eq_getElem bound]

/-- From the open form of a type, arguments for its parameters make the use with these
arguments. -/
theorem TypeDef.subst_selfTy (type : TypeDef) {args : List Ty}
    (arity : args.length = type.typeParams.length) :
    type.selfTy.subst (type.argSubst args) = type.instantiate args := by
  have selfArgs := type.map_subst_selfArgs arity
  rw [selfTy, instantiate, Ty.args_named] at selfArgs
  rw [selfTy, instantiate, Ty.subst_named, selfArgs, instantiate]

namespace TypeDef.IsUse

variable {type : TypeDef}

theorem of_head? {use : Ty} {args : List Ty} (head : use.head? = some (type.constructor, args))
    (arity : args.length = type.typeParams.length) : type.IsUse use ∧ use.args = args := by
  have argsEq : use.args = args := by rw [Ty.args, head]
  exact ⟨⟨by rw [argsEq]; exact head, by rw [argsEq]; exact arity⟩, argsEq⟩

theorem selfTy (type : TypeDef) : type.IsUse type.selfTy := by
  have head : type.selfTy.head? =
      some (type.constructor, type.tyParams.map Ty.param) := Ty.head?_named ..
  exact (of_head? head (by simp)).1

theorem subst {use : Ty} (isUse : type.IsUse use) (substitution : Subst) :
    type.IsUse (use.subst substitution) ∧
      (use.subst substitution).args = use.args.map (Ty.subst substitution) :=
  of_head? (Ty.head?_subst isUse.head substitution) (by rw [List.length_map, isUse.arity])

end TypeDef.IsUse

end MethodGroups
