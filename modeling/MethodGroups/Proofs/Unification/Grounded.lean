import MethodGroups.Proofs.Unification.MostGeneral
import MethodGroups.Proofs.Unification.Occurrences

/-!
# Contexts stay well founded and never forget

A variable is bound while it is open, to a type whose variables stay open a while
longer.  So among the variables that occur in the type of a bound variable all were
entered later than it, or not at all, and the age of its entry ranks a variable above
everything that it is bound to.  Whatever follows bindings into types ends for this
reason, at open variables.

Unification only adds entries, also when it fails.  What it knows afterwards is what it
knew before, with newer entries applied to it, and types that were the same once stay
the same.
-/

namespace MethodGroups.Context

variable {context : Context}

/-- How many entries were made since a variable was entered, its own included; an open
variable has no age. -/
def age (context : Context) (v : TyVar) : Nat :=
  if v ∈ context.entered then context.entered.idxOf v + 1 else 0

/-- Examining a type leads to the examination of its parts, and of a variable to that of
the type to which its root is bound. -/
inductive Inspects (context : Context) : Ty → Ty → Prop where
  | head (head : Ty) (args : List Ty) : Inspects context head (.app head args)
  | arg (head : Ty) {arg : Ty} {args : List Ty} (membership : arg ∈ args) :
      Inspects context arg (.app head args)
  | element (element : Ty) : Inspects context element (.array element)
  | bound {v : TyVar} {ty : Ty} (entry : (context.root v, ty) ∈ context.bindings) :
      Inspects context ty (.var v)

/-- The bindings of the context are acyclic, and what resolves a type or searches in it
follows them to their ends. -/
structure Grounded (context : Context) : Prop where
  /-- A bound root ranks above every root that occurs in its type. -/
  ranked : ∃ rank : TyVar → Nat, ∀ v ty, context.root v = v → (v, ty) ∈ context.bindings →
    ∀ w ∈ ty.vars, rank (context.root w) < rank v
  /-- Examining a type ends, in whatever order its parts are visited. -/
  ends : WellFounded context.Inspects
  resolve_open : ∀ v, context.root v ∉ context.entered →
    context.resolve (.var v) = .var (context.root v)
  resolve_bound : ∀ v ty, (context.root v, ty) ∈ context.bindings →
    context.resolve (.var v) = context.resolve ty
  occurs_here : ∀ v < context.size, ∀ w < context.size, context.root w = context.root v →
    (context.occurs v (.var w) : Outcome UnifyError Bool) = .ok true
  occurs_open : ∀ v < context.size, ∀ w < context.size, context.root w ≠ context.root v →
    context.root w ∉ context.entered →
      (context.occurs v (.var w) : Outcome UnifyError Bool) = .ok false
  occurs_bound : ∀ v < context.size, ∀ w < context.size, context.root w ≠ context.root v →
    ∀ ty, (context.root w, ty) ∈ context.bindings →
      (context.occurs v (.var w) : Outcome UnifyError Bool) = context.occurs v ty

/-! ## Ages -/

theorem age_bind_self (context : Context) (v : TyVar) (ty : Ty) :
    (context.bind v ty).age v = 1 := by
  simp [age]

theorem age_bind_of_mem {v w : TyVar} (differ : w ≠ v) (membership : w ∈ context.entered)
    (ty : Ty) : (context.bind v ty).age w = context.age w + 1 := by
  simp [age, membership, List.idxOf_cons_ne _ (Ne.symm differ)]

theorem age_eq_zero {v : TyVar} (absent : v ∉ context.entered) : context.age v = 0 :=
  if_neg absent

theorem age_pos {v : TyVar} (membership : v ∈ context.entered) : 0 < context.age v := by
  rw [age, if_pos membership]
  exact Nat.succ_pos _

theorem age_bind_eq_zero {v w : TyVar} (differ : w ≠ v) (absent : w ∉ context.entered)
    (ty : Ty) : (context.bind v ty).age w = 0 :=
  age_eq_zero (by simp [differ, absent])

namespace Triangular

/-- What occurs in the type of an entry was entered later than the entry itself. -/
theorem age_lt_of_entry (triangular : context.Triangular) {v w : TyVar} {ty : Ty}
    (entry : (v, ty) ∈ context.bindings) (occurs : w ∈ ty.vars) :
    context.age w < context.age v := by
  induction triangular with
  | unbound ranks => cases entry
  | @bind context changed image triangular isOpen proper ih =>
      rcases List.mem_cons.mp entry with same | older
      · cases same
        obtain ⟨differ, targetOpen⟩ := proper w occurs
        rw [age_bind_self, age_bind_eq_zero differ targetOpen.2]
        exact Nat.one_pos
      · have membership := mem_entered_of_entry older
        have other : v ≠ changed := by
          intro same
          exact isOpen.2 (same ▸ membership)
        have younger := ih older
        rw [age_bind_of_mem other membership]
        by_cases isChanged : w = changed
        · rw [isChanged, age_bind_self]
          exact Nat.succ_lt_succ (age_pos membership)
        · by_cases wasEntered : w ∈ context.entered
          · rw [age_bind_of_mem isChanged wasEntered]
            exact Nat.succ_lt_succ younger
          · rw [age_bind_eq_zero isChanged wasEntered]
            exact Nat.succ_pos _

/-- A variable is linked to a root that was entered later than itself. -/
theorem age_root_le (triangular : context.Triangular) (w : TyVar) :
    context.age (context.root w) ≤ context.age w := by
  induction triangular with
  | unbound ranks => exact Nat.le_refl _
  | @bind context changed image triangular isOpen proper ih =>
      -- Unless the root is now linked on, it ages as much as the variable.
      have kept : (context.bind changed image).age (context.root w) ≤
          (context.bind changed image).age w := by
        by_cases self : context.root w = w
        · exact Nat.le_of_eq (congrArg _ self)
        · have wEntered : w ∈ context.entered := by
            by_contra absent
            exact self (root_of_not_mem absent)
          have other : w ≠ changed := by
            intro same
            exact isOpen.2 (same ▸ wEntered)
          rw [age_bind_of_mem other wEntered]
          by_cases isChanged : context.root w = changed
          · rw [isChanged, age_bind_self]
            exact Nat.succ_pos _
          · by_cases rootEntered : context.root w ∈ context.entered
            · rw [age_bind_of_mem isChanged rootEntered]
              exact Nat.succ_le_succ ih
            · rw [age_bind_eq_zero isChanged rootEntered]
              exact Nat.zero_le _
      rw [root_bind]
      by_cases start : context.root w = changed
      · by_cases isLink : ∃ target, image = .var target
        · obtain ⟨target, rfl⟩ := isLink
          obtain ⟨differ, targetOpen⟩ := proper target (by simp [Ty.vars])
          rw [start, root.follow, if_pos rfl, age_bind_eq_zero differ targetOpen.2]
          exact Nat.zero_le _
        · rw [follow_of_not_link fun target equal => isLink ⟨target, equal⟩]
          exact kept
      · rw [follow_of_ne start]
        exact kept

/-! ## Following bindings -/

/-- A type whose variables are examined to the end is examined to the end. -/
theorem acc_of_vars {ty : Ty} (vars : ∀ v ∈ ty.vars, Acc context.Inspects (.var v)) :
    Acc context.Inspects ty := by
  induction ty using Ty.induction with
  | var v => exact vars v (List.mem_singleton_self v)
  | con constructor => exact .intro _ fun part inspects => by cases inspects
  | app head args headIH argsIH =>
      simp only [Ty.vars, Ty.varsList_eq_flatMap, List.mem_append, List.mem_flatMap] at vars
      refine .intro _ fun part inspects => ?_
      cases inspects with
      | head => exact headIH fun v occurs => vars v (.inl occurs)
      | arg _ membership =>
          exact argsIH part membership fun v occurs => vars v (.inr ⟨part, membership, occurs⟩)
  | param p => exact .intro _ fun part inspects => by cases inspects
  | array element ih =>
      refine .intro _ fun part inspects => ?_
      cases inspects with
      | element => exact ih vars

theorem wellFounded_inspects (triangular : context.Triangular) :
    WellFounded context.Inspects := by
  have ofVar : ∀ v, Acc context.Inspects (.var v) := by
    intro v
    generalize isAge : context.age (context.root v) = bound
    induction bound using Nat.strongRecOn generalizing v with
    | ind bound ih =>
        refine .intro _ fun ty inspects => ?_
        cases inspects with
        | bound entry =>
            apply acc_of_vars
            intro w occurs
            have younger := triangular.age_lt_of_entry entry occurs
            exact ih _ (isAge ▸ Nat.lt_of_le_of_lt (triangular.age_root_le w) younger) w rfl
  exact ⟨fun ty => acc_of_vars fun v _ => ofVar v⟩

/-- A variable resolves to what its root resolves to. -/
theorem resolve_root (triangular : context.Triangular) (v : TyVar) :
    context.resolve (.var v) = context.resolve (.var (context.root v)) := by
  induction triangular with
  | unbound ranks => rfl
  | @bind context changed image triangular isOpen proper ih =>
      have older : (context.bind changed image).resolve (.var v) =
          (context.bind changed image).resolve (.var (context.root v)) := by
        rw [resolve_bind, resolve_bind, ← ih]
      rw [older, root_bind]
      by_cases start : context.root v = changed
      · by_cases isLink : ∃ target, image = .var target
        · obtain ⟨target, rfl⟩ := isLink
          rw [start, root.follow, if_pos rfl]
          exact (triangular.bind isOpen proper).resolve_entry List.mem_cons_self
        · rw [follow_of_not_link fun target equal => isLink ⟨target, equal⟩]
      · rw [follow_of_ne start]

theorem grounded (triangular : context.Triangular) : context.Grounded where
  ranked := by
    refine ⟨context.age, ?_⟩
    intro v ty _ entry w occurs
    exact Nat.lt_of_le_of_lt (triangular.age_root_le w) (triangular.age_lt_of_entry entry occurs)
  ends := triangular.wellFounded_inspects
  resolve_open := by
    intro v isOpen
    rw [triangular.resolve_root, resolve_of_not_mem isOpen]
  resolve_bound := by
    intro v ty entry
    rw [triangular.resolve_root, triangular.resolve_entry entry]
  occurs_here := by
    intro v known w wKnown sameRoot
    rw [occurs_eq_ok_iff known triangular (by simpa [Knows, Ty.vars] using wKnown), ← sameRoot]
    simpa [Ty.vars] using triangular.reaches_root w
  occurs_open := by
    intro v known w wKnown otherRoot isOpen
    rw [occurs_eq_ok_iff known triangular (by simpa [Knows, Ty.vars] using wKnown)]
    simpa [Ty.vars] using
      triangular.not_reaches_of_open (triangular.root_root v) otherRoot isOpen
  occurs_bound := by
    intro v known w wKnown otherRoot ty entry
    apply occurs_congr known triangular (by simpa [Knows, Ty.vars] using wKnown)
      (triangular.lt_size entry).2
    simpa [Ty.vars] using triangular.reaches_root_iff (triangular.root_root v) otherRoot entry

end Triangular

/-! ## What is known stays known -/

/-- Working through goals only adds entries. -/
theorem solve_extends (context : Context) (goals : List Goal) :
    ∃ newer, (context.solve goals).2.bindings = newer ++ context.bindings := by
  induction context, goals using solve_induction with
  | done context => exact ⟨[], by rw [solve_nil]; rfl⟩
  | fail context goal rest error taken => exact ⟨[], by rw [solve_cons, taken]; rfl⟩
  | split context goal rest parts taken ih =>
      rw [solve_cons, taken]
      exact ih
  | assign context goal rest v ty taken ih =>
      simp only [solve_cons, taken]
      split
      · next isOpen =>
        obtain ⟨newer, grows⟩ := ih isOpen
        exact ⟨newer ++ [(v, ty)], by rw [grows, List.append_assoc]; rfl⟩
      · exact ⟨[], rfl⟩
  | unite context goal rest v w taken ih =>
      rcases oriented : context.orient v w with ⟨child, parent⟩
      simp only [solve_cons, taken, oriented]
      split
      · next isOpen =>
        obtain ⟨newer, grows⟩ := ih child parent oriented isOpen
        exact ⟨newer ++ [(child, .var parent)], by rw [grows, List.append_assoc]; rfl⟩
      · exact ⟨[], rfl⟩

/-- Unification only adds entries, also when it fails. -/
theorem unify_extends (context : Context) (left right : Ty) :
    ∃ newer, (context.unify left right).2.bindings = newer ++ context.bindings := by
  rw [unify]
  cases (context.stray? left).or (context.stray? right) with
  | some v => exact ⟨[], rfl⟩
  | none => exact context.solve_extends _

/-- Types that resolve to the same type do so after a unification as well, also if it
fails. -/
theorem unify_remembers (context : Context) (left right : Ty) {first second : Ty}
    (same : (context.resolve first).Same (context.resolve second)) :
    ((context.unify left right).2.resolve first).Same
      ((context.unify left right).2.resolve second) := by
  obtain ⟨newer, grows⟩ := context.unify_extends left right
  have later : ∀ ty, (context.unify left right).2.resolve ty =
      Context.resolve ⟨[], newer⟩ (context.resolve ty) := by
    intro ty
    rw [resolve, grows, List.foldr_append]
    rfl
  rw [later, later]
  exact resolve_same _ same

/-! ## Answers -/

theorem guarded_eq_ok {Refusal Value : Type} {ty : Ty} (knows : context.Knows ty)
    (value : Value) : (context.guarded ty value : Outcome Refusal Value) = .ok value := by
  rw [guarded, stray?_eq_none_iff.mpr knows]

/-- The unification of known types succeeds or reports an error. -/
theorem Triangular.unify_answers (triangular : context.Triangular) {left right : Ty}
    (knowsLeft : context.Knows left) (knowsRight : context.Knows right) :
    (context.unify left right).1 = .ok () ∨
      ∃ error, (context.unify left right).1 = .error error := by
  rcases (unify_settles triangular knowsLeft knowsRight).settled with ⟨succeeds, -⟩ | ⟨fails, -⟩
  · exact .inl succeeds
  · exact .inr fails

/-- A context in use is well founded, so resolving, searching and unifying known types
always give an answer; and whatever resolved to the same type before a unification does
so afterwards, whether the unification succeeded or failed. -/
theorem Reachable.grounded_never_forgets (reachable : context.Reachable) :
    context.Grounded ∧
    (∀ ty, context.Knows ty →
      (context.guarded ty (context.resolve ty) : Outcome UnifyError Ty) =
        .ok (context.resolve ty)) ∧
    (∀ v < context.size, ∀ ty, context.Knows ty →
      ∃ found, (context.occurs v ty : Outcome UnifyError Bool) = .ok found) ∧
    ∀ left right, context.Knows left → context.Knows right →
      ((context.unify left right).1 = .ok () ∨
        ∃ error, (context.unify left right).1 = .error error) ∧
      (context.unify left right).2.Grounded ∧
      ∀ first second, (context.resolve first).Same (context.resolve second) →
        ((context.unify left right).2.resolve first).Same
          ((context.unify left right).2.resolve second) := by
  refine ⟨reachable.triangular.grounded, ?_, ?_, ?_⟩
  · intro ty knows
    exact guarded_eq_ok knows _
  · intro v known ty knows
    exact exists_occurs_eq_ok known reachable.triangular knows
  · intro left right knowsLeft knowsRight
    refine ⟨reachable.triangular.unify_answers knowsLeft knowsRight, ?_, ?_⟩
    · exact (reachable.unify left right).triangular.grounded
    · intro first second same
      exact context.unify_remembers left right same

/-- Two variables that are linked. -/
def linked : Context := (empty.fresh.2.fresh.2.unify (.var 0) (.var 1)).2

/-- A pair of types. -/
def pair (first second : Ty) : Ty := .app (.con ⟨"", "Pair"⟩) [first, second]

/-- Two variables stay equal when a unification fails that has bound one of them. -/
theorem linked_never_forgets :
    (linked.unify (pair (.var 0) .int32) (pair .string .string)).1 =
        .error (.mismatch .int32 .string) ∧
      (linked.unify (pair (.var 0) .int32) (pair .string .string)).2.resolve (.var 0) = .string ∧
      (linked.unify (pair (.var 0) .int32) (pair .string .string)).2.Grounded ∧
      ((linked.unify (pair (.var 0) .int32) (pair .string .string)).2.resolve (.var 0)).Same
        ((linked.unify (pair (.var 0) .int32) (pair .string .string)).2.resolve (.var 1)) := by
  have links : empty.fresh.2.fresh.2.unify (.var 0) (.var 1) =
      (.ok (), ⟨[0, 1], [(0, .var 1)]⟩) := unify_of_unifyFor 2 rfl
  have isLinked : linked = ⟨[0, 1], [(0, .var 1)]⟩ := by rw [linked, links]
  have reachable : linked.Reachable := .unify (.fresh (.fresh .empty)) (.var 0) (.var 1)
  have knowsLeft : linked.Knows (pair (.var 0) .int32) := by
    rw [isLinked, Knows]
    decide
  have knowsRight : linked.Knows (pair .string .string) := by
    rw [isLinked, Knows]
    decide
  have same : (linked.resolve (.var 0)).Same (linked.resolve (.var 1)) := by
    rw [isLinked]
    decide
  obtain ⟨-, -, -, remembers⟩ := reachable.grounded_never_forgets
  obtain ⟨-, grounded, stillSame⟩ := remembers _ _ knowsLeft knowsRight
  have fails : linked.unify (pair (.var 0) .int32) (pair .string .string) =
      (.error (.mismatch .int32 .string), ⟨[0, 1], [(1, .string), (0, .var 1)]⟩) := by
    rw [isLinked]
    exact unify_of_unifyFor 5 rfl
  refine ⟨?_, ?_, grounded, stillSame _ _ same⟩
  · rw [fails]
  · rw [fails]
    rfl

end MethodGroups.Context
