import MethodGroups.Proofs.Unification.Steps

/-!
# Unification is exact

A unification that succeeds leaves exactly those solutions of the context that make
both types the same, and one that fails found that there were none.  This is proved
of a list of goals along the steps of the procedure, and then of single equations and
of equations one after the other.
-/

namespace MethodGroups.Context

/-- The result of a procedure that settles a demand on assignments: either what it
has learned is exactly the demand, or nothing that the context knew before can meet
the demand. -/
structure Settles (before : Context) (result : Outcome UnifyError Unit × Context)
    (Meets : (TyVar → Ty) → Prop) : Prop where
  triangular : result.2.Triangular
  sameSize : result.2.size = before.size
  settled :
    (result.1 = .ok () ∧ ∀ assignment, result.2.Respects assignment ↔
      before.Respects assignment ∧ Meets assignment) ∨
    ((∃ error, result.1 = .error error) ∧ ∀ assignment, before.Respects assignment →
      ¬ Meets assignment)

namespace Settles

variable {before learned : Context} {result : Outcome UnifyError Unit × Context}
variable {First Later Meets : (TyVar → Ty) → Prop}

/-- Demands are settled one after the other. -/
theorem after (later : Settles learned result Later) (sameSize : learned.size = before.size)
    (learns : ∀ assignment, learned.Respects assignment ↔
      before.Respects assignment ∧ First assignment) :
    Settles before result fun assignment => First assignment ∧ Later assignment := by
  refine ⟨later.triangular, later.sameSize.trans sameSize, ?_⟩
  rcases later.settled with ⟨succeeds, exactly⟩ | ⟨fails, none⟩
  · refine .inl ⟨succeeds, ?_⟩
    intro assignment
    rw [exactly, learns, and_assoc]
  · refine .inr ⟨fails, ?_⟩
    intro assignment respects meets
    exact none assignment ((learns assignment).mpr ⟨respects, meets.1⟩) meets.2

/-- A demand may be restated. -/
theorem congr (settles : Settles before result First)
    (restated : ∀ assignment, First assignment ↔ Meets assignment) :
    Settles before result Meets := by
  have equal : First = Meets := funext fun assignment => propext (restated assignment)
  rw [← equal]
  exact settles

/-- A goal that determines a variable is settled by learning this and replacing the
variable in the goals that are left. -/
theorem learn {v : TyVar} {image : Ty} {goal : Goal} {rest : List Goal}
    (settles : Settles learned result fun assignment =>
      ∀ other ∈ rest.map (Goal.replace v image), other.Holds assignment)
    (sameSize : learned.size = before.size)
    (learns : ∀ assignment, learned.Respects assignment ↔
      (assignment v).Same (image.assign assignment) ∧ before.Respects assignment)
    (holdsIff : ∀ assignment, goal.Holds assignment ↔
      (assignment v).Same (image.assign assignment)) :
    Settles before result fun assignment => ∀ other ∈ goal :: rest, other.Holds assignment := by
  apply (settles.after sameSize fun assignment => (learns assignment).trans and_comm).congr
  intro assignment
  rw [List.forall_mem_cons, holdsIff, List.forall_mem_map]
  apply and_congr_right
  intro same
  exact forall₂_congr fun other _ => Goal.holds_replace same other

/-- The procedure succeeds exactly if some assignment meets the demand. -/
theorem ok_iff (settles : Settles before result Meets) :
    result.1 = .ok () ↔ ∃ assignment, before.Respects assignment ∧ Meets assignment := by
  rcases settles.settled with ⟨succeeds, exactly⟩ | ⟨⟨error, fails⟩, none⟩
  · constructor
    · intro _
      exact ⟨_, (exactly _).mp (settles.triangular.respects_resolve .var)⟩
    · intro _
      exact succeeds
  · rw [fails]
    constructor
    · intro impossible
      cases impossible
    · intro holds
      rcases holds with ⟨assignment, respects, meets⟩
      exact (none assignment respects meets).elim

end Settles

/-! ## Lists of goals -/

theorem orient_eq_or (context : Context) (v w : TyVar) :
    context.orient v w = (v, w) ∨ context.orient v w = (w, v) := by
  rw [orient]
  split
  · exact .inr rfl
  · exact .inl rfl

theorem isOpen_of_replaced {context : Context} {v : TyVar} {image : Ty} {goals : List Goal}
    (isOpen : ∀ goal ∈ goals, ∀ w ∈ goal.vars, context.IsOpen w)
    (imageOpen : ∀ w ∈ image.vars, w ≠ v ∧ context.IsOpen w) :
    ∀ goal ∈ goals.map (Goal.replace v image), ∀ w ∈ goal.vars, w ≠ v ∧ context.IsOpen w := by
  intro goal membership w occurs
  obtain ⟨original, originalMembership, rfl⟩ := List.mem_map.mp membership
  rcases Goal.mem_vars_replace occurs with ⟨inGoal, other⟩ | inImage
  · exact ⟨other, isOpen original originalMembership w inGoal⟩
  · exact imageOpen w inImage

/-- The context is in triangular form, and the goals mention only variables that are open. -/
structure Ready (context : Context) (goals : List Goal) : Prop where
  triangular : context.Triangular
  isOpen : ∀ goal ∈ goals, ∀ v ∈ goal.vars, context.IsOpen v

namespace Ready

variable {context : Context} {goal : Goal} {rest : List Goal}
variable (ready : context.Ready (goal :: rest))

include ready

theorem restOpen : ∀ other ∈ rest, ∀ v ∈ other.vars, context.IsOpen v :=
  fun other membership => ready.isOpen other (List.mem_cons_of_mem _ membership)

theorem split {parts : List Goal} (splits : goal.step = .split parts) :
    context.Ready (parts ++ rest) := by
  have faithful := goal.step_faithful
  rw [splits] at faithful
  refine ⟨ready.triangular, ?_⟩
  intro part membership v occurs
  rcases List.mem_append.mp membership with isPart | isRest
  · exact ready.isOpen goal List.mem_cons_self v (faithful.1 part isPart v occurs)
  · exact ready.restOpen part isRest v occurs

/-- The variable that is bound was open. -/
theorem assign {v : TyVar} {ty : Ty} (assigns : goal.step = .assign v ty) :
    context.IsOpen v ∧ (context.bind v ty).Ready (rest.map (Goal.replace v ty)) := by
  have faithful := goal.step_faithful
  rw [assigns] at faithful
  obtain ⟨absent, vOccurs, tyOccurs, -⟩ := faithful
  have vOpen := ready.isOpen goal List.mem_cons_self v vOccurs
  have tyOpen : ∀ w ∈ ty.vars, w ≠ v ∧ context.IsOpen w := by
    intro w occurs
    refine ⟨?_, ready.isOpen goal List.mem_cons_self w (tyOccurs w occurs)⟩
    intro same
    subst same
    exact absent occurs
  refine ⟨vOpen, ready.triangular.bind vOpen tyOpen, ?_⟩
  intro other membership w occurs
  exact isOpen_bind.mpr (isOpen_of_replaced ready.restOpen tyOpen other membership w occurs)

/-- The variable that is linked was open.  Which of the two becomes the root makes no
difference to what is learned. -/
theorem unite {v w child parent : TyVar} (unites : goal.step = .unite v w)
    (oriented : context.orient v w = (child, parent)) :
    parent ≠ child ∧ context.IsOpen child ∧
      (∀ assignment, goal.Holds assignment ↔ (assignment child).Same (assignment parent)) ∧
      (context.link child parent).Ready (rest.map (Goal.replace child (.var parent))) := by
  have faithful := goal.step_faithful
  rw [unites] at faithful
  obtain ⟨differ, vOccurs, wOccurs, holdsIff⟩ := faithful
  have vOpen := ready.isOpen goal List.mem_cons_self v vOccurs
  have wOpen := ready.isOpen goal List.mem_cons_self w wOccurs
  obtain ⟨distinct, childOpen, parentOpen, holdsIff⟩ : parent ≠ child ∧ context.IsOpen child ∧
      context.IsOpen parent ∧ ∀ assignment, goal.Holds assignment ↔
        (assignment child).Same (assignment parent) := by
    rcases context.orient_eq_or v w with kept | swapped
    · cases kept.symm.trans oriented
      exact ⟨differ.symm, vOpen, wOpen, holdsIff⟩
    · cases swapped.symm.trans oriented
      refine ⟨differ, wOpen, vOpen, ?_⟩
      intro assignment
      rw [holdsIff]
      exact ⟨Ty.Same.symm, Ty.Same.symm⟩
  have parentTypeOpen : ∀ u ∈ (Ty.var parent).vars, u ≠ child ∧ context.IsOpen u := by
    intro u occurs
    cases List.mem_singleton.mp occurs
    exact ⟨distinct, parentOpen⟩
  refine ⟨distinct, childOpen, holdsIff, ready.triangular.link childOpen parentOpen distinct, ?_⟩
  intro other membership u occurs
  exact isOpen_link.mpr
    (isOpen_of_replaced ready.restOpen parentTypeOpen other membership u occurs)

end Ready

/-- Goals that only mention open variables are settled. -/
theorem solve_settles (context : Context) (goals : List Goal) (ready : context.Ready goals) :
    Settles context (context.solve goals)
      fun assignment => ∀ goal ∈ goals, goal.Holds assignment := by
  induction context, goals using solve_induction with
  | done context =>
      rw [solve_nil]
      exact ⟨ready.triangular, rfl, .inl ⟨rfl, by simp⟩⟩
  | fail context goal rest error taken =>
      have faithful := goal.step_faithful
      rw [taken] at faithful
      rw [solve_cons, taken]
      refine ⟨ready.triangular, rfl, .inr ⟨⟨error, rfl⟩, ?_⟩⟩
      intro assignment _ holds
      exact faithful assignment (holds goal List.mem_cons_self)
  | split context goal rest parts taken ih =>
      have faithful := goal.step_faithful
      rw [taken] at faithful
      rw [solve_cons, taken]
      apply (ih (ready.split taken)).congr
      intro assignment
      rw [List.forall_mem_cons, faithful.2, List.forall_mem_append]
  | assign context goal rest v ty taken ih =>
      have faithful := goal.step_faithful
      rw [taken] at faithful
      obtain ⟨-, -, -, holdsIff⟩ := faithful
      obtain ⟨isOpen, readyNext⟩ := ready.assign taken
      simp only [solve_cons, taken, if_pos isOpen]
      exact (ih isOpen readyNext).learn (size_bind ..) (fun assignment => respects_bind) holdsIff
  | unite context goal rest v w taken ih =>
      rcases oriented : context.orient v w with ⟨child, parent⟩
      obtain ⟨-, isOpen, holdsIff, readyNext⟩ := ready.unite taken oriented
      simp only [solve_cons, taken, oriented, if_pos isOpen]
      exact (ih child parent oriented isOpen readyNext).learn (size_link ..)
        (fun assignment => respects_link) holdsIff

/-! ## Equations -/

theorem stray?_eq_none_iff {context : Context} {ty : Ty} :
    context.stray? ty = none ↔ context.Knows ty := by
  simp [stray?, Knows]

/-- The unification of known types works through one goal. -/
theorem unify_eq_solve {context : Context} {left right : Ty} (knowsLeft : context.Knows left)
    (knowsRight : context.Knows right) : context.unify left right =
      context.solve [.same (context.resolve left) (context.resolve right)] := by
  rw [unify, stray?_eq_none_iff.mpr knowsLeft, stray?_eq_none_iff.mpr knowsRight]
  rfl

theorem Triangular.ready {context : Context} (triangular : context.Triangular) {left right : Ty}
    (knowsLeft : context.Knows left) (knowsRight : context.Knows right) :
    context.Ready [.same (context.resolve left) (context.resolve right)] := by
  refine ⟨triangular, ?_⟩
  intro goal membership v occurs
  cases List.mem_singleton.mp membership
  rcases List.mem_append.mp occurs with inLeft | inRight
  · exact triangular.isOpen_of_resolve knowsLeft v inLeft
  · exact triangular.isOpen_of_resolve knowsRight v inRight

theorem unify_settles {context : Context} (triangular : context.Triangular) {left right : Ty}
    (knowsLeft : context.Knows left) (knowsRight : context.Knows right) :
    Settles context (context.unify left right)
      fun assignment => (left.assign assignment).Same (right.assign assignment) := by
  have settles := solve_settles context _ (triangular.ready knowsLeft knowsRight)
  rw [← unify_eq_solve knowsLeft knowsRight] at settles
  refine ⟨settles.triangular, settles.sameSize, ?_⟩
  -- Solutions of the context do not see that both types were resolved first.
  have sees : ∀ assignment, context.Respects assignment →
      ((∀ goal ∈ [Goal.same (context.resolve left) (context.resolve right)],
          goal.Holds assignment) ↔
        (left.assign assignment).Same (right.assign assignment)) := by
    intro assignment respects
    have leftSame := respects.resolve left
    have rightSame := respects.resolve right
    rw [List.forall_mem_singleton]
    constructor
    · intro holds
      exact leftSame.symm.trans (Ty.Same.trans holds rightSame)
    · intro same
      exact leftSame.trans (same.trans rightSame.symm)
  rcases settles.settled with ⟨succeeds, exactly⟩ | ⟨fails, none⟩
  · refine .inl ⟨succeeds, ?_⟩
    intro assignment
    rw [exactly]
    exact and_congr_right (sees assignment)
  · refine .inr ⟨fails, ?_⟩
    intro assignment respects same
    exact none assignment respects ((sees assignment respects).mpr same)

theorem unifyAll_settles {context : Context} (triangular : context.Triangular)
    {equations : List (Ty × Ty)}
    (knows : ∀ equation ∈ equations, context.Knows equation.1 ∧ context.Knows equation.2) :
    Settles context (context.unifyAll equations) fun assignment =>
      ∀ equation ∈ equations,
        (equation.1.assign assignment).Same (equation.2.assign assignment) := by
  induction equations generalizing context with
  | nil => exact ⟨triangular, rfl, .inl ⟨rfl, by simp [unifyAll]⟩⟩
  | cons equation rest ih =>
      obtain ⟨left, right⟩ := equation
      obtain ⟨knowsLeft, knowsRight⟩ := knows _ List.mem_cons_self
      have first := unify_settles triangular knowsLeft knowsRight
      rw [unifyAll]
      rcases attempt : context.unify left right with ⟨outcome, learned⟩
      rw [attempt] at first
      rcases first.settled with ⟨succeeds, exactly⟩ | ⟨⟨error, fails⟩, none⟩
      · cases succeeds
        have restKnown : ∀ equation ∈ rest,
            learned.Knows equation.1 ∧ learned.Knows equation.2 := by
          intro other membership
          obtain ⟨knowsFirst, knowsSecond⟩ := knows other (List.mem_cons_of_mem _ membership)
          simp only [Knows] at knowsFirst knowsSecond ⊢
          rw [first.sameSize]
          exact ⟨knowsFirst, knowsSecond⟩
        apply ((ih first.triangular restKnown).after first.sameSize exactly).congr
        intro assignment
        rw [List.forall_mem_cons]
      · cases fails
        refine ⟨first.triangular, first.sameSize, .inr ⟨⟨error, rfl⟩, ?_⟩⟩
        intro assignment respects all
        exact none assignment respects (all (left, right) List.mem_cons_self)

/-! ## Contexts in use -/

/-- A context that variables and unifications, successful or not, lead to. -/
inductive Reachable : Context → Prop where
  | empty : Reachable .empty
  | fresh {context : Context} (reachable : Reachable context) : Reachable context.fresh.2
  | unify {context : Context} (reachable : Reachable context) (left right : Ty) :
      Reachable (context.unify left right).2

theorem Reachable.triangular {context : Context} (reachable : context.Reachable) :
    context.Triangular := by
  induction reachable with
  | empty => exact .unbound []
  | fresh _ ih => exact ih.fresh
  | @unify context _ left right ih =>
      cases stray : (context.stray? left).or (context.stray? right) with
      | some v =>
          rw [Context.unify, stray]
          exact ih
      | none =>
          rw [Option.or_eq_none_iff, stray?_eq_none_iff, stray?_eq_none_iff] at stray
          exact (unify_settles ih stray.1 stray.2).triangular

/-- Unification succeeds exactly if some solution of the context makes both types the
same, and then leaves these solutions and no others.  Both types resolve to the same
type then.  Whenever it does not succeed, it reports an error. -/
theorem unify_mostGeneral {context : Context} (reachable : context.Reachable) {left right : Ty}
    (knowsLeft : context.Knows left) (knowsRight : context.Knows right) :
    ((context.unify left right).1 = .ok () ↔
      ∃ assignment, context.Solves assignment ∧
        (left.assign assignment).Same (right.assign assignment)) ∧
    ((context.unify left right).1 = .ok () →
      (∀ assignment, (context.unify left right).2.Solves assignment ↔
        context.Solves assignment ∧ (left.assign assignment).Same (right.assign assignment)) ∧
      ((context.unify left right).2.resolve left).Same
        ((context.unify left right).2.resolve right)) ∧
    ((context.unify left right).1 ≠ .ok () →
      ∃ error, (context.unify left right).1 = .error error) := by
  have triangular := reachable.triangular
  have settles := unify_settles triangular knowsLeft knowsRight
  have solves : ∀ assignment, context.Solves assignment ↔ context.Respects assignment :=
    fun assignment => triangular.solves_iff
  simp only [solves, settles.triangular.solves_iff]
  refine ⟨settles.ok_iff, ?_, ?_⟩
  · intro succeeds
    rcases settles.settled with ⟨-, exactly⟩ | ⟨⟨error, fails⟩, -⟩
    · refine ⟨exactly, ?_⟩
      have resolved := ((exactly _).mp (settles.triangular.respects_resolve .var)).2
      simp only [Ty.assign_var] at resolved
      rw [resolve_eq_assign _ left, resolve_eq_assign _ right]
      exact resolved
    · rw [succeeds] at fails
      cases fails
  · intro unsuccessful
    rcases settles.settled with ⟨succeeds, -⟩ | ⟨fails, -⟩
    · exact (unsuccessful succeeds).elim
    · exact fails

/-- Of two variables the first becomes an array of the second. -/
theorem unify_array :
    (empty.fresh.2.fresh.2.unify (.var 0) (.array (.var 1))).1 = .ok () ∧
      ((empty.fresh.2.fresh.2.unify (.var 0) (.array (.var 1))).2.resolve (.var 0)).Same
        ((empty.fresh.2.fresh.2.unify (.var 0) (.array (.var 1))).2.resolve
          (.array (.var 1))) := by
  have reachable : empty.fresh.2.fresh.2.Reachable := .fresh (.fresh .empty)
  have general := unify_mostGeneral reachable
    (by decide : ∀ v ∈ (Ty.var 0).vars, v < empty.fresh.2.fresh.2.size)
    (by decide : ∀ v ∈ (Ty.array (.var 1)).vars, v < empty.fresh.2.fresh.2.size)
  have solution : empty.fresh.2.fresh.2.Solves
      fun v => if v = 0 then .array .object else .object := by
    constructor
    · intro v _
      exact Ty.Same.refl _
    · intro v ty _ membership
      cases membership
  have succeeds := general.1.mpr ⟨_, solution, Ty.Same.refl _⟩
  exact ⟨succeeds, (general.2.1 succeeds).2⟩

end MethodGroups.Context
