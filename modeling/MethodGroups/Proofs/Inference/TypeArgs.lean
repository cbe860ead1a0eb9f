import MethodGroups.Inference
import MethodGroups.Proofs.Index.Parameters
import MethodGroups.Proofs.Ty.VarFree
import MethodGroups.Proofs.Unification.MostGeneral

/-!
# Inference of type arguments is exact

Type arguments fit a delegate when they make each parameter type that mentions a type
parameter of the method the same as the delegate's.  The equations of inference ask
for just this, so by the exactness of unification they have a solution when arguments
fit.  A type parameter that occurs in some parameter type is then determined by the
delegate; one that occurs in none stays open, because a solution may send it
anywhere.
-/

namespace MethodGroups

namespace MethodSig

/-- The arguments make every parameter type that mentions a type parameter of a method
the same as the actual one. -/
def Fits (sig : MethodSig) (formals actuals args : List Ty) : Prop :=
  args.length = sig.typeParams.length ∧
    ∀ pair ∈ formals.zip actuals, pair.1.mentionsMethodParams = true →
      (pair.1.subst (sig.argSubst args)).Same pair.2

instance (sig : MethodSig) (formals actuals args : List Ty) :
    Decidable (sig.Fits formals actuals args) :=
  inferInstanceAs (Decidable (_ ∧ ∀ pair ∈ formals.zip actuals,
    pair.1.mentionsMethodParams = true → (pair.1.subst (sig.argSubst args)).Same pair.2))

/-- Some parameter type mentions the type parameter at a position. -/
def OccursIn (position : Nat) (formals : List Ty) : Prop :=
  ∃ formal ∈ formals, ∃ p ∈ formal.params, p.key = ⟨.method, position⟩

instance (position : Nat) (formals : List Ty) : Decidable (OccursIn position formals) :=
  inferInstanceAs (Decidable
    (∃ formal ∈ formals, ∃ p ∈ formal.params, p.key = ⟨.method, position⟩))

/-! ## Equations and arguments that fit -/

theorem varSubst_assigned (sig : MethodSig) (assignment : TyVar → Ty) :
    (sig.varSubst.map fun entry => (entry.1, entry.2.assign assignment)) =
      sig.argSubst ((List.range sig.typeParams.length).map assignment) := by
  have images : (List.range sig.typeParams.length).map assignment =
      sig.tyParams.map fun p => assignment p.key.index := by
    apply List.ext_getElem
    · simp [tyParams]
    · intro position _ _
      simp [tyParams]
  rw [images, argSubst, varSubst, List.map_map]
  exact List.map_prod_left_eq_zip

/-- The variables are arguments like any others. -/
theorem varSubst_eq_argSubst (sig : MethodSig) :
    sig.varSubst = sig.argSubst ((List.range sig.typeParams.length).map .var) := by
  have assigned := sig.varSubst_assigned .var
  simpa only [Ty.assign_var, List.map_id'] using assigned

theorem image?_varSubst (sig : MethodSig) (p : TyParam) :
    sig.varSubst.image? p =
      if p.key.owner = .method ∧ p.key.index < sig.typeParams.length then
        some (.var p.key.index)
      else none := by
  rw [varSubst_eq_argSubst, image?_argSubst]
  split
  · next owns => rw [List.getElem?_map, List.getElem?_range owns.2, Option.map_some]
  · rfl

theorem mem_inferenceEquations {sig : MethodSig} {formals actuals : List Ty}
    {equation : Ty × Ty} :
    equation ∈ sig.inferenceEquations formals actuals ↔
      ∃ pair ∈ formals.zip actuals, pair.1.mentionsMethodParams = true ∧
        (pair.1.subst sig.varSubst, pair.2) = equation := by
  simp [inferenceEquations]

theorem range_map_getD {args : List Ty} {count : Nat} (lengths : args.length = count) :
    ((List.range count).map fun v => args.getD v .void) = args := by
  subst lengths
  apply List.ext_getElem
  · simp
  · intro position _ bound
    simp [List.getD_eq_getElem?_getD, List.getElem?_eq_getElem bound]

variable {sig : MethodSig} {formals actuals : List Ty}
variable (formalsFree : ∀ formal ∈ formals, formal.VarFree)
variable (actualsFree : ∀ actual ∈ actuals, actual.VarFree)

include formalsFree actualsFree

/-- An assignment solves the equations exactly if what it assigns to the variables
fits. -/
theorem solves_equations_iff (assignment : TyVar → Ty) :
    (∀ equation ∈ sig.inferenceEquations formals actuals,
        (equation.1.assign assignment).Same (equation.2.assign assignment)) ↔
      sig.Fits formals actuals ((List.range sig.typeParams.length).map assignment) := by
  have sides : ∀ pair ∈ formals.zip actuals,
      (((pair.1.subst sig.varSubst).assign assignment).Same (pair.2.assign assignment) ↔
        (pair.1.subst (sig.argSubst
          ((List.range sig.typeParams.length).map assignment))).Same pair.2) := by
    intro pair membership
    obtain ⟨isFormal, isActual⟩ := List.of_mem_zip membership
    rw [(formalsFree _ isFormal).assign_subst, varSubst_assigned,
      (actualsFree _ isActual).assign]
  rw [Fits, List.length_map, List.length_range]
  constructor
  · intro solves
    refine ⟨rfl, ?_⟩
    intro pair membership mentions
    exact (sides pair membership).mp
      (solves _ (mem_inferenceEquations.mpr ⟨pair, membership, mentions, rfl⟩))
  · intro fits equation isEquation
    obtain ⟨pair, membership, mentions, rfl⟩ := mem_inferenceEquations.mp isEquation
    exact (sides pair membership).mpr (fits.2 pair membership mentions)

variable (sig) in
/-- The context of inference knows all variables of the equations. -/
theorem knows_equations :
    ∀ equation ∈ sig.inferenceEquations formals actuals,
      (Context.ofSize sig.typeParams.length).Knows equation.1 ∧
        (Context.ofSize sig.typeParams.length).Knows equation.2 := by
  intro equation isEquation
  obtain ⟨pair, membership, -, rfl⟩ := mem_inferenceEquations.mp isEquation
  obtain ⟨isFormal, isActual⟩ := List.of_mem_zip membership
  constructor
  · intro v occurs
    rcases Ty.mem_vars_subst.mp occurs with own | ⟨p, -, image, found, inImage⟩
    · exact (Ty.varFree_iff.mp (formalsFree _ isFormal) v own).elim
    · obtain ⟨entry, isEntry, -, rfl⟩ := Subst.exists_mem_of_image? found
      obtain ⟨declared, isParam, rfl⟩ := List.mem_map.mp isEntry
      cases List.mem_singleton.mp inImage
      obtain ⟨position, bound, rfl⟩ := List.mem_iff_getElem.mp isParam
      simpa [tyParams, Context.ofSize, Context.size] using bound
  · intro v occurs
    exact (Ty.varFree_iff.mp (actualsFree _ isActual) v occurs).elim

end MethodSig

namespace Context

/-! ## Which variables are determined -/

section Determined

variable {learned : Context} (triangular : learned.Triangular)
variable {sig : MethodSig} {formals actuals : List Ty}
variable (exactly : ∀ assignment, learned.Respects assignment ↔
  sig.Fits formals actuals ((List.range sig.typeParams.length).map assignment))

include triangular exactly

theorem fits_resolved :
    sig.Fits formals actuals
      ((List.range sig.typeParams.length).map fun v => learned.resolve (.var v)) := by
  have respects := triangular.respects_resolve .var
  simp only [Ty.assign_var] at respects
  exact (exactly _).mp respects

/-- A variable is determined exactly if its type parameter occurs in some parameter
type. -/
theorem varFree_resolve_iff (actualsFree : ∀ actual ∈ actuals, actual.VarFree)
    (lengths : formals.length = actuals.length) {position : Nat}
    (bound : position < sig.typeParams.length) :
    (learned.resolve (.var position)).VarFree ↔ MethodSig.OccursIn position formals := by
  have images : ∀ (assignment : TyVar → Ty) (p : TyParam) (index : Nat),
      p.key = ⟨.method, index⟩ → index < sig.typeParams.length →
        (sig.argSubst ((List.range sig.typeParams.length).map assignment)).image? p =
          some (assignment index) := by
    intro assignment p index key isParam
    rw [MethodSig.image?_argSubst, key, if_pos ⟨rfl, isParam⟩]
    simp [isParam]
  constructor
  · intro determined
    -- A position that occurs nowhere may be assigned any other type instead.
    by_contra absent
    let resolved : TyVar → Ty := fun v => learned.resolve (.var v)
    let changed : TyVar → Ty := fun v => if v = position then .array (resolved v) else resolved v
    have agree : ∀ formal ∈ formals,
        formal.subst (sig.argSubst ((List.range sig.typeParams.length).map changed)) =
          formal.subst (sig.argSubst ((List.range sig.typeParams.length).map resolved)) := by
      intro formal isFormal
      apply Ty.subst_congr
      intro p mentioned
      by_cases isMethodParam : p.key.owner = .method ∧ p.key.index < sig.typeParams.length
      · have key : p.key = ⟨.method, p.key.index⟩ := by rw [← isMethodParam.1]
        have other : p.key.index ≠ position := by
          intro same
          rw [same] at key
          exact absent ⟨formal, isFormal, p, mentioned, key⟩
        rw [images _ p _ key isMethodParam.2, images _ p _ key isMethodParam.2]
        exact congrArg some (if_neg other)
      · rw [MethodSig.image?_argSubst, MethodSig.image?_argSubst, if_neg isMethodParam,
          if_neg isMethodParam]
    have fits := fits_resolved triangular exactly
    have respects : learned.Respects changed := by
      rw [exactly]
      refine ⟨by simp, ?_⟩
      intro pair membership mentions
      rw [agree pair.1 (List.of_mem_zip membership).1]
      exact fits.2 pair membership mentions
    have same : (resolved position).Same (changed position) := by
      have seen := respects.resolve (.var position)
      rwa [determined.assign] at seen
    have sizes := same.size_eq
    simp only [changed, if_true, Ty.size] at sizes
    omega
  · intro holds
    rcases holds with ⟨formal, isFormal, p, mentioned, key⟩
    obtain ⟨index, inFormals, isHere⟩ := List.mem_iff_getElem.mp isFormal
    have inActuals : index < actuals.length := by rw [← lengths]; exact inFormals
    have membership : (formal, actuals[index]) ∈ formals.zip actuals := by
      apply List.mem_of_getElem? (i := index)
      rw [List.getElem?_zip_eq_some]
      exact ⟨by rw [List.getElem?_eq_getElem inFormals, isHere],
        List.getElem?_eq_getElem inActuals⟩
    have mentions : formal.mentionsMethodParams = true :=
      (Ty.mentionsMethodParams_iff formal).mpr ⟨p, mentioned, by rw [key]⟩
    have same := (fits_resolved triangular exactly).2 _ membership mentions
    have free := same.symm.varFree (actualsFree _ (List.getElem_mem inActuals))
    rw [Ty.varFree_iff] at free ⊢
    intro v occurs
    apply free v
    exact Ty.mem_vars_subst.mpr (.inr ⟨p, mentioned, _, images _ p _ key bound, occurs⟩)

omit triangular in
/-- Determined arguments are the only ones that fit. -/
theorem same_of_fits
    (determined : ∀ v < sig.typeParams.length, (learned.resolve (.var v)).VarFree)
    {others : List Ty} (fits : sig.Fits formals actuals others) :
    List.Forall₂ Ty.Same
      ((List.range sig.typeParams.length).map fun v => learned.resolve (.var v)) others := by
  have respects : learned.Respects fun v => others.getD v .void := by
    rw [exactly, MethodSig.range_map_getD fits.1]
    exact fits
  rw [← MethodSig.range_map_getD fits.1, List.forall₂_map_left_iff, List.forall₂_map_right_iff,
    List.forall₂_same]
  intro v isVar
  have seen := respects.resolve (.var v)
  rwa [(determined v (List.mem_range.mp isVar)).assign] at seen

end Determined

theorem inferredTypes_eq_ok_iff (context : Context) (wanted : List (TyVar × String))
    (args : List Ty) :
    context.inferredTypes wanted = .ok args ↔
      (∀ v ∈ wanted.map Prod.fst, (context.resolve (.var v)).VarFree) ∧
        args = (wanted.map Prod.fst).map fun v => context.resolve (.var v) := by
  induction wanted generalizing args with
  | nil =>
      rw [inferredTypes]
      constructor
      · intro equal
        cases equal
        exact ⟨by simp, rfl⟩
      · intro holds
        rcases holds with ⟨-, rfl⟩
        rfl
  | cons entry rest ih =>
      obtain ⟨v, name⟩ := entry
      simp only [inferredTypes, List.map_cons, List.forall_mem_cons, List.isEmpty_iff]
      by_cases free : (context.resolve (.var v)).vars = []
      · rw [if_pos free]
        cases others : context.inferredTypes rest with
        | error failure =>
            constructor
            · intro impossible
              cases impossible
            · intro holds
              rcases holds with ⟨⟨-, restFree⟩, -⟩
              have succeeds := (ih _).mpr ⟨restFree, rfl⟩
              rw [others] at succeeds
              cases succeeds
        | ok types =>
            obtain ⟨restFree, rfl⟩ := (ih types).mp others
            constructor
            · intro equal
              cases equal
              exact ⟨⟨free, restFree⟩, rfl⟩
            · intro holds
              rcases holds with ⟨-, rfl⟩
              rfl
      · rw [if_neg free]
        constructor
        · intro impossible
          cases impossible
        · intro holds
          rcases holds with ⟨⟨isFree, -⟩, -⟩
          exact (free isFree).elim

end Context

/-! ## The outcome of the equations -/

namespace MethodSig

/-- The type arguments that the equations between parameter types determine. -/
def inferFrom (sig : MethodSig) (formals actuals : List Ty) : Outcome InferError (List Ty) :=
  let (outcome, context) :=
    (Context.ofSize sig.typeParams.length).unifyAll (sig.inferenceEquations formals actuals)
  outcome.mapError .unify >>= fun _ =>
    .ofExcept (context.inferredTypes (sig.typeParams.mapIdx fun v name => (v, name)))

/-- The arguments fit, as no others do, and all type parameters occur. -/
structure Determines (sig : MethodSig) (formals actuals args : List Ty) : Prop where
  occurs : ∀ position < sig.typeParams.length, OccursIn position formals
  fits : sig.Fits formals actuals args
  varFree : ∀ arg ∈ args, arg.VarFree
  unique : ∀ others, sig.Fits formals actuals others → List.Forall₂ Ty.Same args others

/-- One variable is read off for each type parameter. -/
theorem map_fst_wanted (names : List String) :
    (names.mapIdx fun v name => (v, name)).map Prod.fst = List.range names.length := by
  apply List.ext_getElem
  · simp
  · intro position _ _
    simp

/-- The equations either determine arguments, or there is nothing to determine. -/
theorem inferFrom_verdict (sig : MethodSig) {formals actuals : List Ty}
    (formalsFree : ∀ formal ∈ formals, formal.VarFree)
    (actualsFree : ∀ actual ∈ actuals, actual.VarFree)
    (lengths : formals.length = actuals.length) :
    (∃ args, sig.inferFrom formals actuals = .ok args ∧ sig.Determines formals actuals args) ∨
    ((∃ error, sig.inferFrom formals actuals = .error error) ∧
      ¬ ((∀ position < sig.typeParams.length, OccursIn position formals) ∧
        ∃ args, sig.Fits formals actuals args)) := by
  have start : (Context.ofSize sig.typeParams.length).Triangular := .unbound _
  have settles := Context.unifyAll_settles start
    (knows_equations sig formalsFree actualsFree)
  rcases attempt : (Context.ofSize sig.typeParams.length).unifyAll
    (sig.inferenceEquations formals actuals) with ⟨outcome, learned⟩
  rw [attempt] at settles
  rcases settles.settled with ⟨succeeds, learns⟩ | ⟨⟨error, fails⟩, none⟩
  · cases succeeds
    have exactly : ∀ assignment, learned.Respects assignment ↔
        sig.Fits formals actuals ((List.range sig.typeParams.length).map assignment) := by
      intro assignment
      rw [learns, solves_equations_iff formalsFree actualsFree]
      exact and_iff_right (by simp [Context.Respects, Context.ofSize])
    have result : sig.inferFrom formals actuals =
        .ofExcept (learned.inferredTypes (sig.typeParams.mapIdx fun v name => (v, name))) := by
      rw [inferFrom, attempt]
      rfl
    have determinedIff : ∀ position < sig.typeParams.length,
        ((learned.resolve (.var position)).VarFree ↔ OccursIn position formals) :=
      fun position bound =>
        Context.varFree_resolve_iff settles.triangular exactly actualsFree lengths bound
    have readOff := learned.inferredTypes_eq_ok_iff
      (sig.typeParams.mapIdx fun v name => (v, name))
    rw [map_fst_wanted] at readOff
    cases types : learned.inferredTypes (sig.typeParams.mapIdx fun v name => (v, name)) with
    | ok args =>
        obtain ⟨determined, rfl⟩ := (readOff args).mp types
        have free : ∀ v < sig.typeParams.length, (learned.resolve (.var v)).VarFree :=
          fun v bound => determined v (List.mem_range.mpr bound)
        refine .inl ⟨_, by rw [result, types]; rfl, ?_⟩
        exact {
          occurs := fun position bound => (determinedIff position bound).mp (free position bound)
          fits := Context.fits_resolved settles.triangular exactly
          varFree := List.forall_mem_map.mpr determined
          unique := fun others fits => Context.same_of_fits exactly free fits }
    | error failure =>
        refine .inr ⟨⟨failure, by rw [result, types]; rfl⟩, ?_⟩
        intro holds
        rcases holds with ⟨occurs, -⟩
        have succeeds := (readOff _).mpr ⟨fun v isVar =>
          (determinedIff v (List.mem_range.mp isVar)).mpr (occurs v (List.mem_range.mp isVar)),
          rfl⟩
        rw [types] at succeeds
        cases succeeds
  · cases fails
    refine .inr ⟨⟨.unify error, by rw [inferFrom, attempt]; rfl⟩, ?_⟩
    intro holds
    rcases holds with ⟨-, args, fits⟩
    apply none fun v => args.getD v .void
    · simp [Context.Respects, Context.ofSize]
    · rw [solves_equations_iff formalsFree actualsFree, range_map_getD fits.1]
      exact fits

end MethodSig

end MethodGroups
