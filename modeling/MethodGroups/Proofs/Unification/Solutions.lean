import MethodGroups.Unification.Context
import MethodGroups.Proofs.Ty.VarFree

/-!
# Solutions of an inference context

A solution of a context assigns types to inference variables so that every variable
has the type of its root, and every bound root the instance of the type that it is
bound to.  Contexts are kept in triangular form: an entry is made for an open
variable and mentions only other open ones.  In this form roots need no attention,
and a solution is an assignment that makes both sides of every entry the same.

Resolving the variables is itself a solution, and every solution is one of its
instances.
-/

namespace MethodGroups.Context

/-- The context created all inference variables of the type. -/
def Knows (context : Context) (ty : Ty) : Prop := ∀ v ∈ ty.vars, v < context.size

/-- An assignment that agrees with all that a context knows. -/
structure Solves (context : Context) (assignment : TyVar → Ty) : Prop where
  ofRoot : ∀ v < context.size, (assignment v).Same (assignment (context.root v))
  ofBound : ∀ v ty, context.root v = v → (v, ty) ∈ context.bindings →
    (assignment v).Same (ty.assign assignment)

/-- An assignment that makes both sides of every entry the same. -/
def Respects (context : Context) (assignment : TyVar → Ty) : Prop :=
  ∀ entry ∈ context.bindings, (assignment entry.1).Same (entry.2.assign assignment)

/-- Entries are made for open variables and mention only other open variables. -/
inductive Triangular : Context → Prop where
  | unbound (ranks : List Nat) : Triangular ⟨ranks, []⟩
  | bind {context : Context} {v : TyVar} {ty : Ty} (triangular : Triangular context)
      (isOpen : context.IsOpen v) (proper : ∀ w ∈ ty.vars, w ≠ v ∧ context.IsOpen w) :
      Triangular (context.bind v ty)

variable {context : Context}

/-! ## What every context does -/

/-- Induction over the entries of a context, oldest first. -/
theorem bindings_induction {motive : Context → Prop}
    (unbound : ∀ ranks, motive ⟨ranks, []⟩)
    (bind : ∀ context v ty, motive context → motive (context.bind v ty))
    (context : Context) : motive context := by
  rcases context with ⟨ranks, bindings⟩
  induction bindings with
  | nil => exact unbound ranks
  | cons entry older ih => exact bind ⟨ranks, older⟩ entry.1 entry.2 ih

theorem respects_bind {v : TyVar} {ty : Ty} {assignment : TyVar → Ty} :
    (context.bind v ty).Respects assignment ↔
      (assignment v).Same (ty.assign assignment) ∧ context.Respects assignment := by
  simp [Respects, bind]

theorem respects_link {child parent : TyVar} {assignment : TyVar → Ty} :
    (context.link child parent).Respects assignment ↔
      (assignment child).Same (assignment parent) ∧ context.Respects assignment := by
  simp [Respects, link, Ty.assign]

theorem not_mem_keys_bind {v w : TyVar} {ty : Ty}
    (absent : w ∉ (context.bind v ty).bindings.map Prod.fst) :
    w ≠ v ∧ w ∉ context.bindings.map Prod.fst := by
  simpa [bind] using absent

/-- An entry is followed after all older ones. -/
theorem root_bind (context : Context) (v w : TyVar) (ty : Ty) :
    (context.bind v ty).root w = root.follow (v, ty) (context.root w) := rfl

theorem follow_of_ne {v reached : TyVar} (other : reached ≠ v) (ty : Ty) :
    root.follow (v, ty) reached = reached := by
  cases ty with
  | var target => exact if_neg other
  | con | app | param | array => rfl

theorem follow_of_not_link {ty : Ty} (proper : ∀ w, ty ≠ .var w) (v reached : TyVar) :
    root.follow (v, ty) reached = reached := by
  cases ty with
  | var target => exact (proper target rfl).elim
  | con | app | param | array => rfl

/-- Resolving is an assignment to the variables. -/
theorem resolve_eq_assign (context : Context) (ty : Ty) :
    context.resolve ty = ty.assign fun v => context.resolve (.var v) := by
  induction context using bindings_induction with
  | unbound ranks => exact ty.assign_var.symm
  | bind context v image ih =>
      simp only [resolve_bind]
      rw [ih, Ty.replace, Ty.assign_assign]
      rfl

/-- A type without variables is resolved already. -/
theorem resolve_of_varFree (context : Context) {ty : Ty} (varFree : ty.VarFree) :
    context.resolve ty = ty := by
  rw [resolve_eq_assign, varFree.assign]

/-- Same types resolve to same types. -/
theorem resolve_same (context : Context) {left right : Ty} (same : left.Same right) :
    (context.resolve left).Same (context.resolve right) := by
  rw [resolve_eq_assign context left, resolve_eq_assign context right]
  exact same.assign fun v => Ty.Same.refl _

/-- An assignment that respects all entries does not see whether a type was
resolved. -/
theorem Respects.resolve {assignment : TyVar → Ty} (respects : context.Respects assignment)
    (ty : Ty) : ((context.resolve ty).assign assignment).Same (ty.assign assignment) := by
  induction context using bindings_induction with
  | unbound ranks => exact Ty.Same.refl _
  | bind context v image ih =>
      obtain ⟨newest, older⟩ := respects_bind.mp respects
      have last := Ty.Same.assign_replace newest (context.resolve ty)
      exact last.trans (ih older)

theorem Respects.root {assignment : TyVar → Ty} (respects : context.Respects assignment)
    (w : TyVar) : (assignment w).Same (assignment (context.root w)) := by
  induction context using bindings_induction with
  | unbound ranks => exact Ty.Same.refl _
  | bind context v image ih =>
      obtain ⟨newest, older⟩ := respects_bind.mp respects
      apply (ih older).trans
      rw [root_bind]
      by_cases start : context.root w = v
      · by_cases isLink : ∃ target, image = .var target
        · obtain ⟨target, rfl⟩ := isLink
          simp only [root.follow, if_pos start]
          rw [start]
          exact newest
        · rw [follow_of_not_link fun target equal => isLink ⟨target, equal⟩]
      · rw [follow_of_ne start]

theorem root_of_not_mem {w : TyVar} (absent : w ∉ context.bindings.map Prod.fst) :
    context.root w = w := by
  induction context using bindings_induction with
  | unbound ranks => rfl
  | bind context v image ih =>
      obtain ⟨other, olderAbsent⟩ := not_mem_keys_bind absent
      rw [root_bind, ih olderAbsent, follow_of_ne other]

theorem resolve_of_not_mem {w : TyVar} (absent : w ∉ context.bindings.map Prod.fst) :
    context.resolve (.var w) = .var w := by
  induction context using bindings_induction with
  | unbound ranks => rfl
  | bind context v image ih =>
      obtain ⟨other, olderAbsent⟩ := not_mem_keys_bind absent
      rw [resolve_bind, ih olderAbsent]
      exact Ty.replace_of_not_mem (by simpa [Ty.vars] using Ne.symm other) image

/-- A type without entered variables is resolved already. -/
theorem resolve_of_forall_not_mem {ty : Ty}
    (absent : ∀ w ∈ ty.vars, w ∉ context.bindings.map Prod.fst) : context.resolve ty = ty := by
  rw [resolve_eq_assign, Ty.assign_congr, Ty.assign_var]
  intro w occurs
  exact resolve_of_not_mem (absent w occurs)

/-! ## Triangular form -/

namespace Triangular

theorem root_eq_of_link (triangular : context.Triangular) {v w : TyVar}
    (linked : (v, .var w) ∈ context.bindings) : context.root v = context.root w := by
  induction triangular with
  | unbound ranks => cases linked
  | @bind context changed ty triangular isOpen proper ih =>
      rw [root_bind, root_bind]
      rcases List.mem_cons.mp linked with same | older
      · cases same
        obtain ⟨differ, targetOpen⟩ := proper w (by simp [Ty.vars])
        rw [root_of_not_mem isOpen.2, root_of_not_mem targetOpen.2, follow_of_ne differ]
        exact if_pos rfl
      · rw [ih older]

theorem root_eq_of_bound (triangular : context.Triangular) {v : TyVar} {ty : Ty}
    (bound : (v, ty) ∈ context.bindings) (proper : ∀ w, ty ≠ .var w) : context.root v = v := by
  induction triangular with
  | unbound ranks => cases bound
  | @bind context changed image triangular isOpen _ ih =>
      rw [root_bind]
      rcases List.mem_cons.mp bound with same | older
      · cases same
        rw [root_of_not_mem isOpen.2, follow_of_not_link proper]
      · have other : v ≠ changed := by
          intro same
          subst same
          exact isOpen.2 (List.mem_map.mpr ⟨_, older, rfl⟩)
        rw [ih older, follow_of_ne other]

theorem lt_size (triangular : context.Triangular) {v : TyVar} {ty : Ty}
    (entry : (v, ty) ∈ context.bindings) : v < context.size ∧ context.Knows ty := by
  induction triangular with
  | unbound ranks => cases entry
  | @bind context changed image triangular isOpen proper ih =>
      rcases List.mem_cons.mp entry with same | older
      · cases same
        exact ⟨isOpen.1, fun w occurs => (proper w occurs).2.1⟩
      · exact ih older

/-- In triangular form the solutions are the assignments that respect all entries. -/
theorem solves_iff (triangular : context.Triangular) {assignment : TyVar → Ty} :
    context.Solves assignment ↔ context.Respects assignment := by
  constructor
  · intro solves entry membership
    obtain ⟨v, ty⟩ := entry
    obtain ⟨known, knownVars⟩ := triangular.lt_size membership
    by_cases isLink : ∃ w, ty = .var w
    · obtain ⟨w, rfl⟩ := isLink
      have sameRoot := triangular.root_eq_of_link membership
      have ofV := solves.ofRoot v known
      have ofW := solves.ofRoot w (knownVars w (List.mem_singleton_self w))
      rw [sameRoot] at ofV
      exact ofV.trans ofW.symm
    · have proper : ∀ w, ty ≠ .var w := fun w equal => isLink ⟨w, equal⟩
      exact solves.ofBound v ty (triangular.root_eq_of_bound membership proper) membership
  · intro respects
    constructor
    · intro v _
      exact respects.root v
    · intro v ty _ membership
      exact respects (v, ty) membership

/-- Resolved types mention only open variables. -/
theorem isOpen_of_resolve (triangular : context.Triangular) {ty : Ty}
    (knows : context.Knows ty) : ∀ w ∈ (context.resolve ty).vars, context.IsOpen w := by
  induction triangular with
  | unbound ranks =>
      intro w occurs
      exact ⟨knows w occurs, by simp⟩
  | @bind context v image triangular isOpen proper ih =>
      intro w occurs
      rw [resolve_bind] at occurs
      rw [isOpen_bind]
      rcases Ty.mem_vars_replace occurs with ⟨inResolved, other⟩ | inImage
      · exact ⟨other, ih knows w inResolved⟩
      · exact proper w inImage

/-- Both sides of an entry resolve to one type. -/
theorem resolve_entry (triangular : context.Triangular) {v : TyVar} {ty : Ty}
    (entry : (v, ty) ∈ context.bindings) : context.resolve (.var v) = context.resolve ty := by
  induction triangular with
  | unbound ranks => cases entry
  | @bind context changed image triangular isOpen proper ih =>
      rw [resolve_bind, resolve_bind]
      rcases List.mem_cons.mp entry with same | older
      · cases same
        have unchanged : context.resolve ty = ty :=
          resolve_of_forall_not_mem fun w occurs => (proper w occurs).2.2
        have absent : v ∉ ty.vars := fun occurs => (proper v occurs).1 rfl
        rw [resolve_of_not_mem isOpen.2, unchanged, Ty.replace_of_not_mem absent]
        simp [Ty.replace, Ty.assign]
      · rw [ih older]

/-- Every instance of the resolved variables respects all entries. -/
theorem respects_resolve (triangular : context.Triangular) (instances : TyVar → Ty) :
    context.Respects fun v => (context.resolve (.var v)).assign instances := by
  intro entry membership
  have resolved := congrArg (Ty.assign instances) (triangular.resolve_entry membership)
  rw [← Ty.assign_assign, ← resolve_eq_assign]
  exact congrArg Ty.erased resolved

/-- The form does not depend on the ranks. -/
theorem rerank (triangular : context.Triangular) {ranks : List Nat}
    (lengths : ranks.length = context.size) : Triangular ⟨ranks, context.bindings⟩ := by
  induction triangular with
  | unbound => exact .unbound ranks
  | @bind context v ty triangular isOpen proper ih =>
      have sameOpen : ∀ w, context.IsOpen w → IsOpen ⟨ranks, context.bindings⟩ w := by
        intro w wasOpen
        exact ⟨by rw [size, lengths]; exact wasOpen.1, wasOpen.2⟩
      exact .bind (ih lengths) (sameOpen v isOpen) fun w occurs =>
        ⟨(proper w occurs).1, sameOpen w (proper w occurs).2⟩

theorem link (triangular : context.Triangular) {child parent : TyVar}
    (childOpen : context.IsOpen child) (parentOpen : context.IsOpen parent)
    (differ : parent ≠ child) : (context.link child parent).Triangular := by
  have bound : (context.bind child (.var parent)).Triangular := by
    apply triangular.bind childOpen
    intro w occurs
    cases List.mem_singleton.mp occurs
    exact ⟨differ, parentOpen⟩
  exact bound.rerank (size_link context child parent)

theorem fresh (triangular : context.Triangular) : context.fresh.2.Triangular := by
  induction triangular with
  | unbound ranks => exact .unbound _
  | @bind context v ty triangular isOpen proper ih =>
      have stillOpen : ∀ w, context.IsOpen w → context.fresh.2.IsOpen w := by
        intro w wasOpen
        have larger : context.size ≤ context.fresh.2.size := by simp [Context.fresh, size]
        exact ⟨Nat.lt_of_lt_of_le wasOpen.1 larger, wasOpen.2⟩
      exact .bind ih (stillOpen v isOpen) fun w occurs =>
        ⟨(proper w occurs).1, stillOpen w (proper w occurs).2⟩

end Triangular

end MethodGroups.Context
