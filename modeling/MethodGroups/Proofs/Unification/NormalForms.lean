import MethodGroups.Proofs.Unification.Grounded

/-!
# Resolved types are normal forms

A mention of a variable is unfolded by writing the root of its class instead, or, if it is a
bound root, the type that it is bound to.  Resolving a type is to unfold its mentions until only
open roots are left, and no other type of open roots can be unfolded from it, because a type
resolves to the same before and after each of its mentions is unfolded.

The search for a variable does not unfold anything.  It still finds an open class exactly in the
types that mention its root once they are resolved, also when they are not resolved yet.
-/

namespace MethodGroups.Context

open Relation (ReflTransGen)

variable {context : Context}

/-- Each variable of the type is the root of its class and has no type. -/
def Normal (context : Context) (ty : Ty) : Prop :=
  ∀ v ∈ ty.vars, context.root v = v ∧ context.IsOpen v

instance (context : Context) (ty : Ty) : Decidable (context.Normal ty) :=
  inferInstanceAs (Decidable (∀ v ∈ ty.vars, _ ∧ _))

/-- One mention of a variable is replaced by the root of its class, or of a bound root by its
type. -/
inductive Unfolds (context : Context) : Ty → Ty → Prop where
  | root (v : TyVar) : Unfolds context (.var v) (.var (context.root v))
  | bound {v : TyVar} {ty : Ty} (isRoot : context.root v = v)
      (entry : (v, ty) ∈ context.bindings) : Unfolds context (.var v) ty
  | head {head head' : Ty} (args : List Ty) (unfolds : Unfolds context head head') :
      Unfolds context (.app head args) (.app head' args)
  | arg (head : Ty) (before : List Ty) {arg arg' : Ty} (after : List Ty)
      (unfolds : Unfolds context arg arg') :
      Unfolds context (.app head (before ++ arg :: after)) (.app head (before ++ arg' :: after))
  | element {element element' : Ty} (unfolds : Unfolds context element element') :
      Unfolds context (.array element) (.array element')

/-! ## Resolving part by part -/

theorem resolve_app (context : Context) (head : Ty) (args : List Ty) :
    context.resolve (.app head args) =
      .app (context.resolve head) (args.map context.resolve) := by
  have each : args.map context.resolve =
      args.map (Ty.assign fun v => context.resolve (.var v)) :=
    List.map_congr_left fun arg _ => context.resolve_eq_assign arg
  rw [resolve_eq_assign, Ty.assign, Ty.assignList_eq_map, ← resolve_eq_assign, each]

theorem resolve_array (context : Context) (element : Ty) :
    context.resolve (.array element) = .array (context.resolve element) := by
  rw [resolve_eq_assign, Ty.assign, ← resolve_eq_assign]

/-- Replacing variables by types that resolve as they do makes no difference. -/
theorem resolve_assign {assignment : TyVar → Ty}
    (same : ∀ v, context.resolve (assignment v) = context.resolve (.var v)) (ty : Ty) :
    context.resolve (ty.assign assignment) = context.resolve ty := by
  calc context.resolve (ty.assign assignment)
      = (ty.assign assignment).assign fun v => context.resolve (.var v) :=
        context.resolve_eq_assign _
    _ = ty.assign fun v => context.resolve (assignment v) := by
        rw [Ty.assign_assign]
        apply Ty.assign_congr
        intro v _
        exact (context.resolve_eq_assign (assignment v)).symm
    _ = ty.assign fun v => context.resolve (.var v) := Ty.assign_congr fun v _ => same v
    _ = context.resolve ty := (context.resolve_eq_assign ty).symm

theorem resolve_replace {v : TyVar} {image : Ty}
    (same : context.resolve image = context.resolve (.var v)) (ty : Ty) :
    context.resolve (ty.replace v image) = context.resolve ty := by
  apply resolve_assign
  intro w
  by_cases isTarget : w = v
  · rw [if_pos isTarget, isTarget, same]
  · rw [if_neg isTarget]

theorem Normal.resolve_eq {ty : Ty} (normal : context.Normal ty) : context.resolve ty = ty :=
  resolve_of_forall_not_mem fun v occurs => (normal v occurs).2.2

/-! ## Unfolding -/

/-- The arguments of an application are unfolded one after the other. -/
theorem unfolds_args (head : Ty) (before : List Ty) {args : List Ty} (change : Ty → Ty)
    (each : ∀ arg ∈ args, ReflTransGen context.Unfolds arg (change arg)) :
    ReflTransGen context.Unfolds (.app head (before ++ args))
      (.app head (before ++ args.map change)) := by
  induction args generalizing before with
  | nil => exact .refl
  | cons arg rest ih =>
      obtain ⟨first, others⟩ := List.forall_mem_cons.mp each
      have changeFirst : ReflTransGen context.Unfolds (.app head (before ++ arg :: rest))
          (.app head (before ++ change arg :: rest)) :=
        first.lift (fun part => Ty.app head (before ++ part :: rest)) fun _ _ unfolds =>
          Unfolds.arg head before rest unfolds
      have changeRest := ih (before ++ [change arg]) others
      rw [List.append_assoc, List.append_assoc] at changeRest
      exact changeFirst.trans changeRest

namespace Triangular

theorem normal_resolve (triangular : context.Triangular) {ty : Ty} (knows : context.Knows ty) :
    context.Normal (context.resolve ty) := by
  intro v occurs
  have isOpen := triangular.isOpen_of_resolve knows v occurs
  exact ⟨root_of_not_mem isOpen.2, isOpen⟩

/-- Types resolve to the same before and after a mention is unfolded. -/
theorem resolve_of_unfolds (triangular : context.Triangular) {ty other : Ty}
    (unfolds : context.Unfolds ty other) : context.resolve other = context.resolve ty := by
  induction unfolds with
  | root v => exact (triangular.resolve_root v).symm
  | bound isRoot entry => exact (triangular.resolve_entry entry).symm
  | head args _ ih => rw [resolve_app, resolve_app, ih]
  | arg head before after _ ih =>
      rw [resolve_app, resolve_app, List.map_append, List.map_append, List.map_cons,
        List.map_cons, ih]
  | element _ ih => rw [resolve_array, resolve_array, ih]

theorem resolve_of_unfoldings (triangular : context.Triangular) {ty other : Ty}
    (unfolds : ReflTransGen context.Unfolds ty other) :
    context.resolve other = context.resolve ty := by
  induction unfolds with
  | refl => rfl
  | tail _ last ih => exact (triangular.resolve_of_unfolds last).trans ih

/-- Resolving a type does nothing but unfold its mentions. -/
theorem unfolds_resolve (triangular : context.Triangular) (ty : Ty) :
    ReflTransGen context.Unfolds ty (context.resolve ty) := by
  -- By induction on what is examined next: the parts of a type, and what a variable is bound to.
  induction ty using triangular.wellFounded_inspects.induction with
  | _ ty ih =>
    cases ty with
    | var v =>
        have toRoot : context.Unfolds (.var v) (.var (context.root v)) := .root v
        by_cases isBound : context.root v ∈ context.entered
        · obtain ⟨image, entry⟩ := exists_entry isBound
          have toImage : context.Unfolds (.var (context.root v)) image :=
            .bound (triangular.root_root v) entry
          rw [triangular.grounded.resolve_bound v image entry]
          exact .head toRoot (.head toImage (ih image (.bound entry)))
        · rw [triangular.grounded.resolve_open v isBound]
          exact .single toRoot
    | con constructor =>
        have varFree : (Ty.con constructor).VarFree := rfl
        rw [context.resolve_of_varFree varFree]
    | app head args =>
        rw [resolve_app]
        have changeHead : ReflTransGen context.Unfolds (.app head args)
            (.app (context.resolve head) args) :=
          (ih head (.head head args)).lift (fun part => Ty.app part args) fun _ _ unfolds =>
            Unfolds.head args unfolds
        have changeArgs := unfolds_args (context.resolve head) [] context.resolve
          fun arg membership => ih arg (.arg head membership)
        exact changeHead.trans changeArgs
    | param p =>
        have varFree : (Ty.param p).VarFree := rfl
        rw [context.resolve_of_varFree varFree]
    | array element =>
        rw [resolve_array]
        exact (ih element (.element element)).lift Ty.array fun _ _ unfolds =>
          Unfolds.element unfolds

/-- An open variable occurs in a resolved type if it can be reached from the type. -/
theorem mem_vars_resolve_iff (triangular : context.Triangular) {ty : Ty} {v : TyVar}
    (isOpen : v ∉ context.entered) :
    v ∈ (context.resolve ty).vars ↔ v ∈ context.reachable ty.vars := by
  induction triangular generalizing v with
  | unbound ranks => exact Iff.rfl
  | @bind context changed image triangular changedOpen proper ih =>
      rw [entered_bind, List.mem_cons, not_or] at isOpen
      have step : (context.bind changed image).reachable ty.vars =
          if changed ∈ context.reachable ty.vars then
            context.reachable ty.vars ++ image.vars
          else context.reachable ty.vars := rfl
      rw [resolve_bind, Ty.mem_vars_replace_iff, ih isOpen.2, ih changedOpen.2, step,
        and_iff_left isOpen.1]
      split
      · next reached => rw [List.mem_append, and_iff_right reached]
      · next absent => simp [absent]

end Triangular

/-- The search for an open class finds it in the types that mention its root once they are
resolved. -/
theorem occurs_eq_decide {Refusal : Type} {v : TyVar} (known : v < context.size)
    (isOpen : context.root v ∉ context.entered) (triangular : context.Triangular) {ty : Ty}
    (knows : context.Knows ty) :
    (context.occurs v ty : Outcome Refusal Bool) =
      .ok (decide (context.root v ∈ (context.resolve ty).vars)) := by
  rw [occurs_eq_ok_iff known triangular knows, decide_eq_true_iff,
    triangular.mem_vars_resolve_iff isOpen, triangular.mem_reachable]

/-- A known type is resolved by unfolding its mentions until all its variables are open roots.
Nothing is left to resolve then, and whatever else is unfolded on the way, be it one mention or
all mentions of a variable, resolves to the same type.  The search for an open class answers
whether the resolved type mentions its root. -/
theorem Reachable.resolve_normalForm (reachable : context.Reachable) {ty : Ty}
    (knows : context.Knows ty) :
    context.Normal (context.resolve ty) ∧
    context.resolve (context.resolve ty) = context.resolve ty ∧
    ReflTransGen context.Unfolds ty (context.resolve ty) ∧
    (∀ other, ReflTransGen context.Unfolds ty other →
      context.resolve other = context.resolve ty ∧
        (context.Normal other → other = context.resolve ty)) ∧
    (∀ v, context.resolve (ty.replace v (.var (context.root v))) = context.resolve ty) ∧
    (∀ v image, context.root v = v → (v, image) ∈ context.bindings →
      context.resolve (ty.replace v image) = context.resolve ty) ∧
    ∀ v < context.size, context.IsOpen (context.root v) →
      (context.occurs v ty : Outcome UnifyError Bool) =
        .ok (decide (context.root v ∈ (context.resolve ty).vars)) := by
  have triangular := reachable.triangular
  have normal := triangular.normal_resolve knows
  refine ⟨normal, normal.resolve_eq, triangular.unfolds_resolve ty, ?_, ?_, ?_, ?_⟩
  · intro other unfolds
    have same := triangular.resolve_of_unfoldings unfolds
    refine ⟨same, ?_⟩
    intro otherNormal
    rw [← same, otherNormal.resolve_eq]
  · intro v
    exact resolve_replace (triangular.resolve_root v).symm ty
  · intro v image _ entry
    exact resolve_replace (triangular.resolve_entry entry).symm ty
  · intro v known isOpen
    exact occurs_eq_decide known isOpen.2 triangular knows

/-- Three variables, of which the first two are linked and bound to an array of the third. -/
def arrayClass : Context :=
  ((empty.fresh.2.fresh.2.fresh.2.unify (.var 0) (.var 1)).2.unify (.var 0) (.array (.var 2))).2

/-- A linked variable is resolved through its root, the root through its type, and the third
variable is found behind both. -/
theorem resolve_arrayClass :
    arrayClass.resolve (pair (.var 0) (.var 1)) = pair (.array (.var 2)) (.array (.var 2)) ∧
      arrayClass.Normal (pair (.array (.var 2)) (.array (.var 2))) ∧
      arrayClass.resolve (pair (.var 1) (.var 1)) = pair (.array (.var 2)) (.array (.var 2)) ∧
      arrayClass.resolve (pair (.var 0) (.array (.var 2))) =
        pair (.array (.var 2)) (.array (.var 2)) ∧
      (arrayClass.occurs 2 (pair (.var 0) (.var 1)) : Outcome UnifyError Bool) = .ok true := by
  have links : empty.fresh.2.fresh.2.fresh.2.unify (.var 0) (.var 1) =
      (.ok (), ⟨[0, 1, 0], [(0, .var 1)]⟩) := unify_of_unifyFor 2 rfl
  have binds : (Context.mk [0, 1, 0] [(0, .var 1)]).unify (.var 0) (.array (.var 2)) =
      (.ok (), ⟨[0, 1, 0], [(1, .array (.var 2)), (0, .var 1)]⟩) := unify_of_unifyFor 2 rfl
  have isArrayClass : arrayClass = ⟨[0, 1, 0], [(1, .array (.var 2)), (0, .var 1)]⟩ := by
    rw [arrayClass, links, binds]
  have reachable : arrayClass.Reachable :=
    .unify (.unify (.fresh (.fresh (.fresh .empty))) (.var 0) (.var 1)) (.var 0) (.array (.var 2))
  have knows : arrayClass.Knows (pair (.var 0) (.var 1)) := by
    rw [isArrayClass, Knows]
    decide
  have resolved : arrayClass.resolve (pair (.var 0) (.var 1)) =
      pair (.array (.var 2)) (.array (.var 2)) := by
    rw [isArrayClass]
    decide
  have isLinked : arrayClass.root 0 = 1 := by
    rw [isArrayClass]
    decide
  have isBound : arrayClass.root 1 = 1 ∧ (1, .array (.var 2)) ∈ arrayClass.bindings := by
    rw [isArrayClass]
    decide
  have isOpen : arrayClass.root 2 = 2 ∧ 2 < arrayClass.size ∧ arrayClass.IsOpen 2 := by
    rw [isArrayClass]
    decide
  obtain ⟨normal, -, -, -, ofRoot, ofBound, found⟩ := reachable.resolve_normalForm knows
  have throughRoot := ofRoot 0
  have throughType := ofBound 1 (.array (.var 2)) isBound.1 isBound.2
  have search := found 2 isOpen.2.1 (by rw [isOpen.1]; exact isOpen.2.2)
  rw [resolved] at normal throughRoot throughType search
  rw [isLinked] at throughRoot
  rw [isOpen.1] at search
  exact ⟨resolved, normal, throughRoot, throughType, search⟩

end MethodGroups.Context
