import MethodGroups.Proofs.Ty.Positions
import MethodGroups.Proofs.Unification.Grounded

/-!
# What a failed unification shows

A goal compares what stands at one position of both types.  Every step keeps it there: taking
two types apart goes to the positions below, and what is learned about a variable is replaced
in the goals as it is in the types.  So when a goal fails, the types that it reports stand in
the two resolved types, at one position, and the reason for the failure can be seen there.

The variables in the goals are open.  So whatever is united or bound had no type before, and
two types of one variable are never in each other's way.
-/

namespace MethodGroups

open Context

/-! ## The positions of goals -/

namespace Goal

/-- The goal compares what stands at one position of both types.  If it compares numbers of
arguments, the heads are the same as soon as what is given holds. -/
inductive LiesIn (left right : Ty) (given : (TyVar → Ty) → Prop) : Goal → Prop where
  | same {position : Ty.Position} {leftPart rightPart : Ty}
      (inLeft : left.at? position = some leftPart)
      (inRight : right.at? position = some rightPart) :
      LiesIn left right given (.same leftPart rightPart)
  | arity {position : Ty.Position} {leftHead rightHead : Ty} {leftArgs rightArgs : List Ty}
      (inLeft : left.at? position = some (.app leftHead leftArgs))
      (inRight : right.at? position = some (.app rightHead rightArgs))
      (heads : ∀ assignment, given assignment → (Goal.same leftHead rightHead).Holds assignment) :
      LiesIn left right given (.arity leftArgs.length rightArgs.length)

/-- Each goal lies in both types, given what holds at first and all goals before it. -/
def AllLieIn (left right : Ty) : ((TyVar → Ty) → Prop) → List Goal → Prop
  | _, [] => True
  | given, goal :: rest =>
      goal.LiesIn left right given ∧
        AllLieIn left right (fun assignment => given assignment ∧ goal.Holds assignment) rest

variable {left right : Ty} {given stronger : (TyVar → Ty) → Prop}

theorem LiesIn.mono {goal : Goal} (lies : goal.LiesIn left right given)
    (implies : ∀ assignment, stronger assignment → given assignment) :
    goal.LiesIn left right stronger := by
  cases lies with
  | same inLeft inRight => exact .same inLeft inRight
  | arity inLeft inRight heads =>
      exact .arity inLeft inRight fun assignment holds =>
        heads assignment (implies assignment holds)

theorem AllLieIn.mono {goals : List Goal} (lie : AllLieIn left right given goals)
    (implies : ∀ assignment, stronger assignment → given assignment) :
    AllLieIn left right stronger goals := by
  induction goals generalizing given stronger with
  | nil => trivial
  | cons goal rest ih =>
      refine ⟨lie.1.mono implies, ih lie.2 ?_⟩
      intro assignment holds
      exact holds.imp_left (implies assignment)

theorem AllLieIn.append {first later : List Goal} (lie : AllLieIn left right given first)
    (others : AllLieIn left right
      (fun assignment => given assignment ∧ ∀ goal ∈ first, goal.Holds assignment) later) :
    AllLieIn left right given (first ++ later) := by
  induction first generalizing given with
  | nil => exact others.mono fun assignment holds => ⟨holds, by simp⟩
  | cons goal rest ih =>
      refine ⟨lie.1, ih lie.2 (others.mono ?_)⟩
      intro assignment holds
      rcases holds with ⟨⟨isGiven, first⟩, allRest⟩
      exact ⟨isGiven, List.forall_mem_cons.mpr ⟨first, allRest⟩⟩

/-! ## Goals and what is learned -/

/-- The assignment that gives a variable what the image is assigned. -/
def through (v : TyVar) (image : Ty) (assignment : TyVar → Ty) : TyVar → Ty :=
  fun w => (if w = v then image else .var w).assign assignment

theorem assign_replace (v : TyVar) (image : Ty) (assignment : TyVar → Ty) (ty : Ty) :
    (ty.replace v image).assign assignment = ty.assign (through v image assignment) :=
  Ty.assign_assign _ _ ty

theorem holds_replace_iff (v : TyVar) (image : Ty) (assignment : TyVar → Ty) (goal : Goal) :
    (goal.replace v image).Holds assignment ↔ goal.Holds (through v image assignment) := by
  cases goal with
  | same first second => rw [replace, Holds, Holds, assign_replace, assign_replace]
  | arity => exact Iff.rfl

/-- The assignment solves an equation between the variable and the image. -/
theorem through_same {v : TyVar} {image : Ty} (absent : v ∉ image.vars)
    (assignment : TyVar → Ty) :
    (through v image assignment v).Same (image.assign (through v image assignment)) := by
  have replaced := assign_replace v image assignment image
  rw [Ty.replace_of_not_mem absent] at replaced
  rw [← replaced, through, if_pos rfl]

/-- What is replaced in a goal and in both types moves the goal nowhere. -/
theorem LiesIn.replace {goal : Goal} (lies : goal.LiesIn left right given) {v : TyVar} {image : Ty}
    (implies : ∀ assignment, stronger assignment → given (through v image assignment)) :
    (goal.replace v image).LiesIn (left.replace v image) (right.replace v image) stronger := by
  cases lies with
  | same inLeft inRight => exact .same (Ty.at?_assign inLeft _) (Ty.at?_assign inRight _)
  | @arity position leftHead rightHead leftArgs rightArgs inLeft inRight heads =>
      have leftApp := Ty.at?_assign inLeft fun w => if w = v then image else .var w
      have rightApp := Ty.at?_assign inRight fun w => if w = v then image else .var w
      simp only [Ty.assign, Ty.assignList_eq_map] at leftApp rightApp
      have lies : LiesIn _ _ stronger _ := .arity leftApp rightApp fun assignment holds =>
        (holds_replace_iff v image assignment (.same leftHead rightHead)).mpr
          (heads _ (implies assignment holds))
      rw [List.length_map, List.length_map] at lies
      exact lies

theorem AllLieIn.replace {goals : List Goal} (lie : AllLieIn left right given goals) {v : TyVar}
    {image : Ty}
    (implies : ∀ assignment, stronger assignment → given (through v image assignment)) :
    AllLieIn (left.replace v image) (right.replace v image) stronger
      (goals.map (Goal.replace v image)) := by
  induction goals generalizing given stronger with
  | nil => trivial
  | cons goal rest ih =>
      refine ⟨lie.1.replace implies, ih lie.2 ?_⟩
      intro assignment holds
      exact ⟨implies assignment holds.1,
        (holds_replace_iff v image assignment goal).mp holds.2⟩

/-! ## Taking goals apart -/

theorem AllLieIn.of_forall {goals : List Goal}
    (lie : ∀ goal ∈ goals, goal.LiesIn left right given) : AllLieIn left right given goals := by
  induction goals generalizing given with
  | nil => trivial
  | cons goal rest ih =>
      refine ⟨lie goal List.mem_cons_self, ih ?_⟩
      intro other membership
      exact (lie other (List.mem_cons_of_mem _ membership)).mono fun _ holds => holds.1

/-- The parts of two types stand one step on from the types. -/
theorem LiesIn.of_parts {position : Ty.Position} {first second firstPart secondPart : Ty}
    (turn : Ty.Turn) (inLeft : left.at? position = some first)
    (inRight : right.at? position = some second) (isFirst : first.part? turn = some firstPart)
    (isSecond : second.part? turn = some secondPart) :
    (Goal.same firstPart secondPart).LiesIn left right given := by
  have leftFound : left.at? (position ++ [turn]) = some firstPart := by
    rw [Ty.at?_concat, inLeft, Option.bind_some, isFirst]
  have rightFound : right.at? (position ++ [turn]) = some secondPart := by
    rw [Ty.at?_concat, inRight, Option.bind_some, isSecond]
  exact .same leftFound rightFound

theorem allLieIn_ofApplications {position : Ty.Position} {leftHead rightHead : Ty}
    {leftArgs rightArgs : List Ty} (inLeft : left.at? position = some (.app leftHead leftArgs))
    (inRight : right.at? position = some (.app rightHead rightArgs)) :
    AllLieIn left right given (ofApplications leftHead leftArgs rightHead rightArgs) := by
  refine ⟨.of_parts .head inLeft inRight rfl rfl, .arity inLeft inRight ?_, .of_forall ?_⟩
  · intro assignment holds
    exact holds.2
  · intro goal isArg
    obtain ⟨index, inRange, rfl⟩ := List.getElem_of_mem isArg
    rw [List.length_zipWith, Nat.lt_min] at inRange
    rw [List.getElem_zipWith]
    exact .of_parts (.arg index) inLeft inRight (List.getElem?_eq_getElem inRange.1)
      (List.getElem?_eq_getElem inRange.2)

/-- The parts of a goal lie where it lies, or below. -/
theorem LiesIn.split {goal : Goal} (lies : goal.LiesIn left right given) {parts : List Goal}
    (splits : goal.step = .split parts) : AllLieIn left right given parts := by
  cases lies with
  | @same position leftPart rightPart inLeft inRight =>
      cases sameStep_eq_split_iff.mp splits with
      | var | con | param => trivial
      | app leftHead leftArgs rightHead rightArgs => exact allLieIn_ofApplications inLeft inRight
      | array first second =>
          exact ⟨.of_parts .element inLeft inRight rfl rfl, trivial⟩
  | @arity position leftHead rightHead leftArgs rightArgs inLeft inRight heads =>
      rw [step] at splits
      split at splits
      · cases splits
        trivial
      · cases splits

end Goal

/-! ## The course of a unification -/

/-- A context, and the goals that are left for it. -/
structure Work where
  context : Context
  goals : List Goal

namespace Work

/-- The goal with which a unification starts. -/
def start (context : Context) (left right : Ty) : Work :=
  ⟨context, [.same (context.resolve left) (context.resolve right)]⟩

/-- One step of the work: the first goal is taken apart, or settled by what the context
learns. -/
inductive Advances : Work → Work → Prop where
  | split {context : Context} {goal : Goal} {rest parts : List Goal}
      (splits : goal.step = .split parts) :
      Advances ⟨context, goal :: rest⟩ ⟨context, parts ++ rest⟩
  | assign {context : Context} {goal : Goal} {rest : List Goal} {v : TyVar} {ty : Ty}
      (assigns : goal.step = .assign v ty) :
      Advances ⟨context, goal :: rest⟩ ⟨context.bind v ty, rest.map (Goal.replace v ty)⟩
  | unite {context : Context} {goal : Goal} {rest : List Goal} {v w child parent : TyVar}
      (unites : goal.step = .unite v w) (oriented : context.orient v w = (child, parent)) :
      Advances ⟨context, goal :: rest⟩
        ⟨context.link child parent, rest.map (Goal.replace child (.var parent))⟩

/-- The work ends with a result: when nothing is left to do, or at a goal that fails. -/
inductive Ends : Work → Outcome UnifyError Unit × Context → Prop where
  | done (context : Context) : Ends ⟨context, []⟩ (.ok (), context)
  | fail {context : Context} {goal : Goal} {rest : List Goal} {error : UnifyError}
      (fails : goal.step = .fail error) : Ends ⟨context, goal :: rest⟩ (.error error, context)

/-- The work leads to the other in some number of steps. -/
def LeadsTo : Work → Work → Prop := Relation.ReflTransGen Advances

/-- The next step would unite classes, or bind a class, that already have types, and types that
differ. -/
inductive Refused : Work → Prop where
  | unite {context : Context} {goal : Goal} {rest : List Goal} {v w : TyVar} {first second : Ty}
      (unites : goal.step = .unite v w) (firstBound : (context.root v, first) ∈ context.bindings)
      (secondBound : (context.root w, second) ∈ context.bindings)
      (differ : ¬ first.Same second) : Refused ⟨context, goal :: rest⟩
  | assign {context : Context} {goal : Goal} {rest : List Goal} {v : TyVar} {ty bound : Ty}
      (assigns : goal.step = .assign v ty) (isBound : (context.root v, bound) ∈ context.bindings)
      (differ : ¬ bound.Same ty) : Refused ⟨context, goal :: rest⟩

/-- The context is ready for the goals, and all of them lie in both types, as far as these are
known by now. -/
structure Sound (left right : Ty) (work : Work) : Prop where
  ready : work.context.Ready work.goals
  lie : Goal.AllLieIn (work.context.resolve left) (work.context.resolve right) (fun _ => True)
    work.goals

variable {left right : Ty} {work : Work}

theorem sound_start {context : Context} (triangular : context.Triangular)
    (knowsLeft : context.Knows left) (knowsRight : context.Knows right) :
    Sound left right (start context left right) where
  ready := triangular.ready knowsLeft knowsRight
  lie := ⟨.same (Ty.at?_nil _) (Ty.at?_nil _), trivial⟩

/-- A step of the work moves no goal away from where it lies. -/
theorem Sound.advance (sound : work.Sound left right) {next : Work}
    (advances : work.Advances next) : next.Sound left right := by
  cases advances with
  | @split context goal rest parts splits =>
      refine ⟨sound.ready.split splits, (sound.lie.1.split splits).append (sound.lie.2.mono ?_)⟩
      intro assignment holds
      have faithful := goal.step_faithful
      rw [splits] at faithful
      exact ⟨trivial, (faithful.2 assignment).mpr holds.2⟩
  | @assign context goal rest v ty assigns =>
      refine ⟨(sound.ready.assign assigns).2, sound.lie.2.replace ?_⟩
      intro assignment _
      have faithful := goal.step_faithful
      rw [assigns] at faithful
      obtain ⟨absent, -, -, holdsIff⟩ := faithful
      exact ⟨trivial, (holdsIff _).mpr (Goal.through_same absent assignment)⟩
  | @unite context goal rest v w child parent unites oriented =>
      obtain ⟨distinct, -, holdsIff, ready⟩ := sound.ready.unite unites oriented
      refine ⟨ready, sound.lie.2.replace ?_⟩
      intro assignment _
      have absent : child ∉ (Ty.var parent).vars := by simpa [Ty.vars] using distinct.symm
      exact ⟨trivial, (holdsIff _).mpr (Goal.through_same absent assignment)⟩

theorem Sound.run (sound : work.Sound left right) {last : Work} (leads : work.LeadsTo last) :
    last.Sound left right := by
  induction leads with
  | refl => exact sound
  | tail _ advances ih => exact ih.advance advances

/-- The work ends with what the procedure answers. -/
theorem exists_ends (context : Context) (goals : List Goal) (ready : context.Ready goals) :
    ∃ last, LeadsTo ⟨context, goals⟩ last ∧ last.Ends (context.solve goals) := by
  induction context, goals using solve_induction with
  | done context =>
      rw [solve_nil]
      exact ⟨_, .refl, .done context⟩
  | fail context goal rest error taken =>
      rw [solve_cons, taken]
      exact ⟨_, .refl, .fail taken⟩
  | split context goal rest parts taken ih =>
      obtain ⟨last, leads, ends⟩ := ih (ready.split taken)
      rw [solve_cons, taken]
      exact ⟨last, .head (.split taken) leads, ends⟩
  | assign context goal rest v ty taken ih =>
      obtain ⟨isOpen, readyNext⟩ := ready.assign taken
      obtain ⟨last, leads, ends⟩ := ih isOpen readyNext
      simp only [solve_cons, taken, if_pos isOpen]
      exact ⟨last, .head (.assign taken) leads, ends⟩
  | unite context goal rest v w taken ih =>
      rcases oriented : context.orient v w with ⟨child, parent⟩
      obtain ⟨-, isOpen, -, readyNext⟩ := ready.unite taken oriented
      obtain ⟨last, leads, ends⟩ := ih child parent oriented isOpen readyNext
      simp only [solve_cons, taken, oriented, if_pos isOpen]
      exact ⟨last, .head (.unite taken oriented) leads, ends⟩

/-- A variable that is open has no type, so nothing stands in its way. -/
theorem Sound.not_refused (sound : work.Sound left right) : ¬ work.Refused := by
  have unbound : ∀ {context : Context} {v : TyVar} {ty : Ty}, context.IsOpen v →
      (context.root v, ty) ∉ context.bindings := by
    intro context v ty isOpen entry
    rw [root_of_not_mem isOpen.2] at entry
    exact isOpen.2 (mem_entered_of_entry entry)
  intro refused
  cases refused with
  | @unite context goal rest v w first second unites firstBound secondBound differ =>
      have faithful := goal.step_faithful
      rw [unites] at faithful
      exact unbound (sound.ready.isOpen goal List.mem_cons_self v faithful.2.1) firstBound
  | @assign context goal rest v ty bound assigns isBound differ =>
      exact unbound (sound.ready.assign assigns).1 isBound

end Work

/-! ## Errors and what they report -/

/-- Two types show why a unification failed: they clash, they are applications of the same head
to different numbers of arguments, or one of them is an open variable that occurs inside the
other. -/
inductive UnifyError.WitnessedBy (context : Context) : UnifyError → Ty → Ty → Prop where
  | mismatch {expected found : Ty} (clash : expected.Clash found) :
      WitnessedBy context (.mismatch expected found) expected found
  | arityMismatch {leftHead rightHead : Ty} {leftArgs rightArgs : List Ty}
      (heads : leftHead.Same rightHead) (differ : leftArgs.length ≠ rightArgs.length) :
      WitnessedBy context (.arityMismatch leftArgs.length rightArgs.length)
        (.app leftHead leftArgs) (.app rightHead rightArgs)
  | occursRight {v : TyVar} {ty : Ty} (isOpen : context.IsOpen v) (isRoot : context.root v = v)
      (proper : ∀ w, ty ≠ .var w) (occurs : v ∈ ty.vars) :
      WitnessedBy context (.infiniteType v ty) (.var v) ty
  | occursLeft {v : TyVar} {ty : Ty} (isOpen : context.IsOpen v) (isRoot : context.root v = v)
      (proper : ∀ w, ty ≠ .var w) (occurs : v ∈ ty.vars) :
      WitnessedBy context (.infiniteType v ty) ty (.var v)

/-- Two types that cannot be made equal show it themselves. -/
theorem witnessedBy_of_sameStep {context : Context} {left right : Ty} {error : UnifyError}
    (isOpen : ∀ v ∈ (Goal.same left right).vars, context.IsOpen v)
    (fails : Goal.sameStep left right = .fail error) : error.WitnessedBy context left right := by
  unfold Goal.sameStep at fails
  split at fails <;> (try split at fails) <;> cases fails
  case h_2.isTrue.refl v proper occurs =>
    have vOpen := isOpen v (by simp [Goal.vars, Ty.vars])
    exact .occursRight vOpen (root_of_not_mem vOpen.2) proper occurs
  case h_3.isTrue.refl v proper occurs =>
    have vOpen := isOpen v (by simp [Goal.vars, Ty.vars])
    exact .occursLeft vOpen (root_of_not_mem vOpen.2) proper occurs
  case h_4.isFalse.refl differ => exact .mismatch (.con differ)
  case h_5.isFalse.refl differ => exact .mismatch (.param differ)
  case h_8.refl noVarLeft noVarRight _ noCons noParams noApps noArrays =>
    apply UnifyError.WitnessedBy.mismatch
    cases left <;> cases right <;>
      first
      | exact (noVarLeft _ rfl).elim
      | exact (noVarRight _ rfl).elim
      | exact (noCons _ _ rfl rfl).elim
      | exact (noParams _ _ rfl rfl).elim
      | exact (noApps _ _ _ _ rfl rfl).elim
      | exact (noArrays _ _ rfl rfl).elim
      | exact .formers (by simp [Ty.former]) (by simp [Ty.former]) (by simp [Ty.former])

/-- The goal that fails lies where its error can be seen. -/
theorem Work.Sound.exists_witness {left right : Ty} {context : Context} {goal : Goal}
    {rest : List Goal} (sound : Work.Sound left right ⟨context, goal :: rest⟩)
    {error : UnifyError} (fails : goal.step = .fail error) :
    ∃ position leftPart rightPart, (context.resolve left).at? position = some leftPart ∧
      (context.resolve right).at? position = some rightPart ∧
      error.WitnessedBy context leftPart rightPart := by
  have isOpen := sound.ready.isOpen goal List.mem_cons_self
  have lies := sound.lie.1
  cases lies with
  | @same position leftPart rightPart inLeft inRight =>
      exact ⟨position, leftPart, rightPart, inLeft, inRight, witnessedBy_of_sameStep isOpen fails⟩
  | @arity position leftHead rightHead leftArgs rightArgs inLeft inRight heads =>
      rw [Goal.step] at fails
      split at fails
      · cases fails
      · next differ =>
        cases fails
        -- Nothing is open about the heads any more: they are the same as they stand.
        have same := heads .var trivial
        rw [Goal.Holds, Ty.assign_var, Ty.assign_var] at same
        exact ⟨position, _, _, inLeft, inRight, .arityMismatch same differ⟩

namespace Context

/-- The work on two known types ends with the answer of their unification, and no step of it is
refused because of a type that a variable has already.  If the answer is an error, the two types
as they resolve afterwards show the reason at one position. -/
theorem Reachable.unify_witnessed {context : Context} (reachable : context.Reachable)
    {left right : Ty} (knowsLeft : context.Knows left) (knowsRight : context.Knows right) :
    (∃ last, (Work.start context left right).LeadsTo last ∧
      last.Ends (context.unify left right)) ∧
    (∀ work, (Work.start context left right).LeadsTo work → ¬ work.Refused) ∧
    ∀ error, (context.unify left right).1 = .error error →
      ∃ position leftPart rightPart,
        ((context.unify left right).2.resolve left).at? position = some leftPart ∧
        ((context.unify left right).2.resolve right).at? position = some rightPart ∧
        error.WitnessedBy (context.unify left right).2 leftPart rightPart := by
  have triangular := reachable.triangular
  have sound := Work.sound_start triangular knowsLeft knowsRight
  obtain ⟨last, leads, ends⟩ := Work.exists_ends context _ (triangular.ready knowsLeft knowsRight)
  rw [← unify_eq_solve knowsLeft knowsRight] at ends
  refine ⟨⟨last, leads, ends⟩, ?_, ?_⟩
  · intro work leadsTo
    exact (sound.run leadsTo).not_refused
  · intro error isError
    have soundLast := sound.run leads
    generalize context.unify left right = result at ends isError ⊢
    cases ends with
    | done => cases isError
    | fail fails =>
        cases isError
        exact soundLast.exists_witness fails

/-- Two variables about which nothing is known. -/
def twoOpen : Context := empty.fresh.2.fresh.2

/-- `Pair<?0, ?0>` and `Pair<?1[], ?1>`: the first arguments make `?0` an array of `?1`, and then
the second ones show this array beside `?1`. -/
theorem unify_pairs :
    (twoOpen.unify (pair (.var 0) (.var 0)) (pair (.array (.var 1)) (.var 1))).1 =
        .error (.infiniteType 1 (.array (.var 1))) ∧
      ∃ position leftPart rightPart,
        ((twoOpen.unify (pair (.var 0) (.var 0)) (pair (.array (.var 1)) (.var 1))).2.resolve
          (pair (.var 0) (.var 0))).at? position = some leftPart ∧
        ((twoOpen.unify (pair (.var 0) (.var 0)) (pair (.array (.var 1)) (.var 1))).2.resolve
          (pair (.array (.var 1)) (.var 1))).at? position = some rightPart ∧
        (UnifyError.infiniteType 1 (.array (.var 1))).WitnessedBy
          (twoOpen.unify (pair (.var 0) (.var 0)) (pair (.array (.var 1)) (.var 1))).2
          leftPart rightPart := by
  have reachable : twoOpen.Reachable := .fresh (.fresh .empty)
  have knowsLeft : twoOpen.Knows (pair (.var 0) (.var 0)) := by
    rw [Knows]
    decide
  have knowsRight : twoOpen.Knows (pair (.array (.var 1)) (.var 1)) := by
    rw [Knows]
    decide
  have fails : twoOpen.unify (pair (.var 0) (.var 0)) (pair (.array (.var 1)) (.var 1)) =
      (.error (.infiniteType 1 (.array (.var 1))), ⟨[0, 0], [(0, .array (.var 1))]⟩) :=
    unify_of_unifyFor 5 rfl
  have isError := congrArg Prod.fst fails
  obtain ⟨-, -, witnessed⟩ := reachable.unify_witnessed knowsLeft knowsRight
  exact ⟨isError, witnessed _ isError⟩

end Context

end MethodGroups
