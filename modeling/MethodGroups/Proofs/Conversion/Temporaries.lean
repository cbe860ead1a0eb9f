import MethodGroups.Proofs.Conversion.Failures
import MethodGroups.Proofs.Splitting

/-!
# The temporaries of a whole run

Conversions that stand in one function take their temporaries from one counter, and the
compiler around them may take some directly.  A conversion takes a name only if it succeeds
and has a value to keep, so no number is skipped and none is given out twice, in whatever
order conversions, failures and direct allocations follow each other.  The name that a
conversion takes is declared at the end of its own prerequisites, and in no other result.
-/

namespace MethodGroups

open Script

variable {Source State : Type}

/-! ## Names that are handed out and names that are declared -/

/-- The name that a call hands out. -/
def Call.name? : Call Source → Option String
  | .allocate name => some name
  | .compile _ _ => none

/-- The statements that a call answers with. -/
def Call.statements : Call Source → List Stmt
  | .compile _ target => target.prerequisites
  | .allocate _ => []

/-- The name that a statement declares. -/
def Script.Stmt.declared? : Stmt → Option String
  | .declare name _ => some name
  | .expr _ => none

/-- The names that the result of a conversion declares after what was compiled for it. -/
def declaredAfter (calls : List (Call Source)) :
    Outcome ConversionError Conversion → List String
  | .ok conversion =>
      (conversion.prerequisites.drop (calls.flatMap Call.statements).length).filterMap
        Stmt.declared?
  | .error _ | .stray _ => []

/-- The name with a number. -/
def Temporaries.name (stem : String) (number : Nat) : String := stem ++ toString number

/-- Whatever the stem ends with, different numbers make different names. -/
theorem Temporaries.name_injective (stem : String) :
    Function.Injective (Temporaries.name stem) := by
  intro left right same
  have digits := (String.append_right_inj stem).mp same
  exact eq_of_toList_toString_eq (congrArg String.toList digits)

/-- The evaluator takes its temporaries from a counter in its state, and nothing else that it
does moves the counter. -/
structure Evaluator.Numbers (evaluator : Evaluator Source State)
    (counter : State → Temporaries) : Prop where
  allocates : ∀ state, ((evaluator.allocate state).1, counter (evaluator.allocate state).2) =
    Temporaries.allocate (counter state)
  compiles : ∀ source state, counter (evaluator.compile source state).2 = counter state

/-! ## The course of one conversion -/

/-- A method that is bound to no expression needs nothing from the evaluator. -/
theorem Blueprint.exists_build_eq_pure (blueprint : Blueprint)
    (evaluator : Evaluator Source State) {receiver : Receiver Source}
    (noExpression : ∀ source, receiver ≠ .expression source) :
    ∃ expr, blueprint.build evaluator receiver = pure ⟨[], expr⟩ := by
  cases shape : blueprint.shape with
  | static owner => exact ⟨_, blueprint.build_static evaluator shape receiver⟩
  | baseCall ancestor => exact ⟨_, blueprint.build_baseCall evaluator shape receiver⟩
  | bound =>
      rw [blueprint.build_bound evaluator shape]
      cases receiver with
      | static | implicitThis | explicitThis | base => exact ⟨_, rfl⟩
      | expression source => exact (noExpression source rfl).elim

namespace Environment

/-- How a conversion goes, from the state of the evaluator before it to its outcome, the state
after it and the calls made on the way. -/
inductive Course (env : Environment) (evaluator : Evaluator Source State)
    (request : Request Source) (state : State) :
    Outcome ConversionError Conversion → State → List (Call Source) → Prop where
  /-- It has no result. -/
  | refused {outcome : Outcome ConversionError Conversion}
      (noResult : ∀ conversion, outcome ≠ .ok conversion) :
      Course env evaluator request state outcome state []
  /-- There is no receiver to evaluate. -/
  | unevaluated (expr : Expr)
      (noReceiver : (env.policies.method request.method).isStatic = true ∨
        ∀ source, request.receiver ≠ .expression source) :
      Course env evaluator request state (.ok ⟨[], expr⟩) state []
  /-- The compiled receiver is mentioned as it is. -/
  | mentioned {source : Source} {target : CompiledTarget} {next : State} (expr : Expr)
      (isExpression : request.receiver = .expression source)
      (compiles : evaluator.compile source state = (target, next))
      (isPure : target.value.isPure = true) :
      Course env evaluator request state (.ok ⟨target.prerequisites, expr⟩) next
        [.compile source target]
  /-- The compiled receiver is kept in a temporary. -/
  | stored {source : Source} {target : CompiledTarget} {next after : State} {name : String}
      (expr : Expr) (isExpression : request.receiver = .expression source)
      (nonStatic : (env.policies.method request.method).isStatic = false)
      (compiles : evaluator.compile source state = (target, next))
      (isImpure : target.value.isPure = false)
      (allocates : evaluator.allocate next = (name, after)) :
      Course env evaluator request state
        (.ok ⟨target.prerequisites ++ [.declare name (some target.value)], expr⟩) after
        [.compile source target, .allocate name]

variable {env : Environment} {request : Request Source}

/-- An accepted request with a receiver expression that is bound. -/
theorem course_of_bound (evaluator : Evaluator Source State) (state : State)
    {blueprint : Blueprint} (isBound : blueprint.shape = .bound) {source : Source}
    (isExpression : request.receiver = .expression source)
    (nonStatic : (env.policies.method request.method).isStatic = false) :
    Course env evaluator request state
      (.ok (blueprint.build evaluator (.expression source) state).1)
      (blueprint.build evaluator (.expression source) state).2
      (blueprint.build evaluator.recorded (.expression source) (state, [])).2.2 := by
  rcases compiles : evaluator.compile source state with ⟨target, next⟩
  have recordsCompile := evaluator.recorded_compile [] compiles
  cases isPure : target.value.isPure with
  | true =>
      rw [blueprint.build_of_isPure evaluator isBound compiles isPure,
        blueprint.build_of_isPure evaluator.recorded isBound recordsCompile isPure]
      exact .mentioned _ isExpression compiles isPure
  | false =>
      rcases allocates : evaluator.allocate next with ⟨name, after⟩
      have recordsAllocate := evaluator.recorded_allocate [.compile source target] allocates
      rw [blueprint.build_of_isImpure evaluator isBound compiles isPure allocates,
        blueprint.build_of_isImpure evaluator.recorded isBound recordsCompile isPure
          recordsAllocate]
      exact .stored _ isExpression nonStatic compiles isPure allocates

theorem course (env : Environment) (evaluator : Evaluator Source State)
    (request : Request Source) (state : State) :
    env.Course evaluator request state (env.convert evaluator request state).1
      (env.convert evaluator request state).2 (env.calls evaluator request state) := by
  cases isBlueprint : env.blueprint request with
  | error cause =>
      rw [calls, convert, convert, isBlueprint]
      exact .refused fun conversion isResult => by cases isResult
  | stray v =>
      rw [calls, convert, convert, isBlueprint]
      exact .refused fun conversion isResult => by cases isResult
  | ok blueprint =>
      have answers : env.convert evaluator request state =
          (.ok (blueprint.build evaluator request.receiver state).1,
            (blueprint.build evaluator request.receiver state).2) :=
        convert_eq_ok_iff.mpr ⟨blueprint, isBlueprint, rfl⟩
      rw [calls_of_blueprint evaluator state isBlueprint, answers]
      by_cases noExpression : ∀ source, request.receiver ≠ .expression source
      · obtain ⟨expr, builds⟩ := blueprint.exists_build_eq_pure evaluator noExpression
        obtain ⟨_, recorded⟩ := blueprint.exists_build_eq_pure evaluator.recorded noExpression
        rw [builds, recorded]
        exact .unevaluated expr (.inr noExpression)
      · obtain ⟨source, isExpression⟩ := not_forall_not.mp noExpression
        obtain ⟨accepted, rfl⟩ := blueprint_eq_ok_iff.mp isBlueprint
        have shapes := shape_of_expression isExpression accepted
        split at shapes
        · next isStatic =>
          obtain ⟨owner, -, isMember⟩ := shapes
          rw [accepted.blueprint.build_static evaluator isMember,
            accepted.blueprint.build_static evaluator.recorded isMember]
          exact .unevaluated _ (.inl isStatic)
        · next nonStatic =>
          rw [isExpression]
          exact course_of_bound evaluator state shapes isExpression (by simpa using nonStatic)

namespace Course

variable {evaluator : Evaluator Source State} {state after : State}
variable {outcome : Outcome ConversionError Conversion} {calls : List (Call Source)}
variable (course : env.Course evaluator request state outcome after calls)

include course

/-- A name is taken exactly when the conversion succeeds, the policy does not make the method
static, and the receiver expression has a value that has to be kept. -/
theorem takes_iff :
    calls.filterMap Call.name? ≠ [] ↔
      (∃ conversion, outcome = .ok conversion) ∧
        (env.policies.method request.method).isStatic = false ∧
        ∃ source, request.receiver = .expression source ∧
          (evaluator.compile source state).1.value.isPure = false := by
  cases course with
  | refused noResult =>
      simp only [List.filterMap_nil, ne_eq, not_true_eq_false, false_iff]
      rintro ⟨⟨conversion, isResult⟩, -⟩
      exact noResult conversion isResult
  | unevaluated expr noReceiver =>
      simp only [List.filterMap_nil, ne_eq, not_true_eq_false, false_iff]
      rintro ⟨-, nonStatic, source, isExpression, -⟩
      rcases noReceiver with isStatic | noExpression
      · rw [nonStatic] at isStatic
        cases isStatic
      · exact noExpression source isExpression
  | mentioned expr isExpression compiles isPure =>
      simp only [List.filterMap_cons, Call.name?, List.filterMap_nil, ne_eq,
        not_true_eq_false, false_iff]
      rintro ⟨-, -, source, sameReceiver, isImpure⟩
      rw [isExpression] at sameReceiver
      cases sameReceiver
      rw [compiles, isPure] at isImpure
      cases isImpure
  | stored expr isExpression nonStatic compiles isImpure allocates =>
      constructor
      · intro _
        exact ⟨⟨_, rfl⟩, nonStatic, _, isExpression, by rw [compiles, isImpure]⟩
      · intro _
        simp [Call.name?]

theorem length_names_le : (calls.filterMap Call.name?).length ≤ 1 := by
  cases course with
  | refused | unevaluated => exact Nat.zero_le 1
  | mentioned => exact Nat.zero_le 1
  | stored => exact Nat.le_refl 1

/-- The name taken is declared in the last prerequisite. -/
theorem last_declares :
    ∀ name ∈ calls.filterMap Call.name?, ∃ conversion value, outcome = .ok conversion ∧
      conversion.prerequisites.getLast? = some (.declare name value) := by
  cases course with
  | refused | unevaluated | mentioned => simp [Call.name?]
  | stored => simp [Call.name?]

/-- After what was compiled, nothing but the name taken is declared. -/
theorem declares : declaredAfter calls outcome = calls.filterMap Call.name? := by
  cases course with
  | refused noResult =>
      cases outcome with
      | ok conversion => exact (noResult conversion rfl).elim
      | error | stray => rfl
  | unevaluated => rfl
  | mentioned => simp [declaredAfter, Call.statements, Call.name?]
  | stored =>
      simp [declaredAfter, Call.statements, Stmt.declared?]
      rfl

/-- The names taken are the next ones of the counter. -/
theorem counts {counter : State → Temporaries} (numbers : evaluator.Numbers counter)
    {stem : String} {next : Nat} (before : counter state = ⟨stem, next⟩) :
    calls.filterMap Call.name? =
        (List.range' next (calls.filterMap Call.name?).length).map (Temporaries.name stem) ∧
      counter after = ⟨stem, next + (calls.filterMap Call.name?).length⟩ := by
  cases course with
  | refused | unevaluated => exact ⟨rfl, before⟩
  | @mentioned source target compiled expr isExpression compiles isPure =>
      have unmoved := numbers.compiles source state
      rw [compiles, before] at unmoved
      exact ⟨rfl, unmoved⟩
  | @stored source target compiled after name expr isExpression nonStatic compiles isImpure
      allocates =>
      have unmoved := numbers.compiles source state
      rw [compiles, before] at unmoved
      have taken := numbers.allocates compiled
      rw [allocates, unmoved] at taken
      obtain ⟨rfl, moved⟩ := Prod.mk.inj taken
      exact ⟨rfl, moved⟩

end Course

end Environment

/-! ## Runs of conversions and allocations -/

/-- A conversion that reports its failure is the same conversion, but for the errors. -/
theorem Environment.exists_convertReporting (env : Environment)
    (evaluator : Evaluator Source State) (request : Request Source) (state : State)
    (errors : List ConversionError) :
    ∃ reported, env.convertReporting evaluator request (state, errors) =
      ((env.convert evaluator request state).1, (env.convert evaluator request state).2,
        reported) := by
  rcases converts : env.convert evaluator request state with ⟨outcome, after⟩
  cases outcome with
  | error error => exact ⟨errors ++ [error], by simp only [convertReporting, converts]⟩
  | ok conversion => exact ⟨errors, by simp only [convertReporting, converts]⟩
  | stray v => exact ⟨errors, by simp only [convertReporting, converts]⟩

/-- Something that asks for temporaries. -/
inductive Action (Source : Type) where
  /-- A conversion. -/
  | convert (env : Environment) (request : Request Source)
  /-- A conversion that enters its failure in a list of errors. -/
  | report (env : Environment) (request : Request Source)
  /-- A direct allocation. -/
  | allocate

/-- The conversion of an action. -/
def Action.conversion? : Action Source → Option (Environment × Request Source)
  | .convert env request | .report env request => some (env, request)
  | .allocate => none

/-- What happened when it was the turn of an action. -/
structure Turn (Source State : Type) where
  action : Action Source
  /-- The state of the evaluator before. -/
  before : State
  /-- The outcome of a conversion. -/
  outcome? : Option (Outcome ConversionError Conversion)
  /-- The calls made to the evaluator. -/
  calls : List (Call Source)

namespace Turn

/-- The names handed out in a turn. -/
def names (turn : Turn Source State) : List String := turn.calls.filterMap Call.name?

/-- The names declared in the result of a turn, after what the evaluator compiled for it. -/
def declared (turn : Turn Source State) : List String :=
  (turn.outcome?.map (declaredAfter turn.calls)).getD []

end Turn

namespace Evaluator

variable (evaluator : Evaluator Source State)

/-- Take the turn of one action. -/
def take : Action Source → StateM (State × List ConversionError) (Turn Source State)
  | .convert env request => fun (state, errors) =>
      let (outcome, after) := env.convert evaluator request state
      (⟨.convert env request, state, some outcome, env.calls evaluator request state⟩,
        after, errors)
  | .report env request => fun (state, errors) =>
      let (outcome, after, errors) := env.convertReporting evaluator request (state, errors)
      (⟨.report env request, state, some outcome, env.calls evaluator request state⟩,
        after, errors)
  | .allocate => fun (state, errors) =>
      let (name, after) := evaluator.allocate state
      (⟨.allocate, state, none, [.allocate name]⟩, after, errors)

/-- Take one turn after the other. -/
def takeAll (actions : List (Action Source)) :
    StateM (State × List ConversionError) (List (Turn Source State)) :=
  actions.mapM evaluator.take

theorem takeAll_nil (before : State × List ConversionError) :
    evaluator.takeAll [] before = ([], before) := by
  rw [takeAll, List.mapM_nil]
  rfl

theorem takeAll_cons (action : Action Source) (actions : List (Action Source))
    (before : State × List ConversionError) :
    evaluator.takeAll (action :: actions) before =
      let (turn, between) := evaluator.take action before
      let (turns, after) := evaluator.takeAll actions between
      (turn :: turns, after) := by
  rw [takeAll, List.mapM_cons]
  rfl

/-- What a turn is, with the state of the evaluator after it. -/
inductive Turns : Turn Source State → State → Prop where
  | converts {action : Action Source} {env : Environment} {request : Request Source}
      (isConversion : action.conversion? = some (env, request)) (state : State) :
      Turns ⟨action, state, some (env.convert evaluator request state).1,
        env.calls evaluator request state⟩ (env.convert evaluator request state).2
  | allocates (state : State) :
      Turns ⟨.allocate, state, none, [.allocate (evaluator.allocate state).1]⟩
        (evaluator.allocate state).2

/-- Every action has its turn. -/
theorem take_turns (action : Action Source) (state : State) (errors : List ConversionError) :
    ∃ turn after reported, evaluator.take action (state, errors) = (turn, after, reported) ∧
      turn.action = action ∧ turn.before = state ∧ evaluator.Turns turn after := by
  cases action with
  | convert env request => exact ⟨_, _, _, rfl, rfl, rfl, .converts rfl state⟩
  | report env request =>
      obtain ⟨reported, reports⟩ := env.exists_convertReporting evaluator request state errors
      refine ⟨⟨.report env request, state, _, _⟩, _, reported, ?_, rfl, rfl, .converts rfl state⟩
      simp only [take, reports]
  | allocate => exact ⟨_, _, _, rfl, rfl, rfl, .allocates state⟩

end Evaluator

/-! ## What each turn takes -/

/-- A conversion that takes a name only for a value that it keeps, and declares it last. -/
structure Turn.Keeps (turn : Turn Source State) (evaluator : Evaluator Source State)
    (env : Environment) (request : Request Source) : Prop where
  outcome : turn.outcome? = some (env.convert evaluator request turn.before).1
  takes_iff : turn.names ≠ [] ↔
    (∃ conversion, turn.outcome? = some (.ok conversion)) ∧
      (env.policies.method request.method).isStatic = false ∧
      ∃ source, request.receiver = .expression source ∧
        (evaluator.compile source turn.before).1.value.isPure = false
  last_declares : ∀ name ∈ turn.names, ∃ conversion value,
    turn.outcome? = some (.ok conversion) ∧
      conversion.prerequisites.getLast? = some (.declare name value)
  declares : turn.declared = turn.names

/-- A turn takes no name without need. -/
structure Turn.Frugal (turn : Turn Source State) (evaluator : Evaluator Source State) :
    Prop where
  atMostOne : turn.names.length ≤ 1
  allocation : turn.action = .allocate → turn.names ≠ [] ∧ turn.declared = []
  conversion : ∀ env request, turn.action.conversion? = some (env, request) →
    turn.Keeps evaluator env request

/-- What a turn declares, it has taken. -/
theorem Turn.Frugal.mem_names {turn : Turn Source State} {evaluator : Evaluator Source State}
    (frugal : turn.Frugal evaluator) {name : String} (isDeclared : name ∈ turn.declared) :
    name ∈ turn.names := by
  cases action : turn.action with
  | allocate =>
      rw [(frugal.allocation action).2] at isDeclared
      cases isDeclared
  | convert env request =>
      have keeps := frugal.conversion env request (by rw [action]; rfl)
      rw [← keeps.declares]
      exact isDeclared
  | report env request =>
      have keeps := frugal.conversion env request (by rw [action]; rfl)
      rw [← keeps.declares]
      exact isDeclared

namespace Evaluator.Turns

variable {evaluator : Evaluator Source State} {turn : Turn Source State} {after : State}
variable (turns : evaluator.Turns turn after)

include turns

theorem frugal : turn.Frugal evaluator := by
  cases turns with
  | allocates state =>
      exact {
        atMostOne := Nat.le_refl 1
        allocation := fun _ => ⟨List.cons_ne_nil _ _, rfl⟩
        conversion := fun env request isConversion => by cases isConversion }
  | @converts action env request isConversion state =>
      have course := env.course evaluator request state
      have keeps : Turn.Keeps ⟨action, state, some (env.convert evaluator request state).1,
          env.calls evaluator request state⟩ evaluator env request := {
        outcome := rfl
        takes_iff := by simpa only [Turn.names, Option.some.injEq] using course.takes_iff
        last_declares := by simpa only [Turn.names, Option.some.injEq] using course.last_declares
        declares := course.declares }
      exact {
        atMostOne := course.length_names_le
        allocation := by
          rintro rfl
          cases isConversion
        conversion := by
          intro otherEnv otherRequest same
          cases isConversion.symm.trans same
          exact keeps }

/-- The names taken are the next ones of the counter. -/
theorem counts {counter : State → Temporaries} (numbers : evaluator.Numbers counter)
    {stem : String} {next : Nat} (before : counter turn.before = ⟨stem, next⟩) :
    turn.names = (List.range' next turn.names.length).map (Temporaries.name stem) ∧
      counter after = ⟨stem, next + turn.names.length⟩ := by
  cases turns with
  | @converts action env request isConversion state =>
      exact (env.course evaluator request state).counts numbers before
  | allocates state =>
      have taken := numbers.allocates state
      change counter state = ⟨stem, next⟩ at before
      rw [before] at taken
      obtain ⟨name, moved⟩ := Prod.mk.inj taken
      exact ⟨congrArg (fun name => [name]) name, moved⟩

end Evaluator.Turns

namespace Evaluator.Numbers

variable {evaluator : Evaluator Source State} {counter : State → Temporaries}
variable (numbers : evaluator.Numbers counter)

include numbers

/-- Turn by turn, a run takes the next names of the counter. -/
theorem takeAll_counts {stem : String} {next : Nat} (actions : List (Action Source))
    (state : State) (errors : List ConversionError) (before : counter state = ⟨stem, next⟩) :
    ∃ turns after reported, evaluator.takeAll actions (state, errors) = (turns, after, reported) ∧
      turns.map Turn.action = actions ∧ (∀ turn ∈ turns, turn.Frugal evaluator) ∧
      turns.flatMap Turn.names =
        (List.range' next (turns.flatMap Turn.names).length).map (Temporaries.name stem) ∧
      counter after = ⟨stem, next + (turns.flatMap Turn.names).length⟩ := by
  induction actions generalizing state errors next with
  | nil =>
      exact ⟨[], state, errors, evaluator.takeAll_nil _, rfl, by simp, rfl, before⟩
  | cons action rest ih =>
      obtain ⟨turn, between, reported, takes, isAction, rfl, turns⟩ :=
        evaluator.take_turns action state errors
      obtain ⟨names, moved⟩ := turns.counts numbers before
      obtain ⟨later, after, allReported, ran, laterActions, frugal, laterNames, final⟩ :=
        ih between reported moved
      refine ⟨turn :: later, after, allReported, ?_, ?_, ?_, ?_, ?_⟩
      · rw [takeAll_cons, takes]
        simp only [ran]
      · rw [List.map_cons, isAction, laterActions]
      · exact List.forall_mem_cons.mpr ⟨turns.frugal, frugal⟩
      · rw [List.flatMap_cons, List.length_append, ← List.range'_append_1, List.map_append,
          ← names, ← laterNames]
      · rw [final, List.flatMap_cons, List.length_append, Nat.add_assoc]

/-- Over a whole run, temporaries are unique and without gaps.  The names handed out are those
with the numbers from one on, in this order, and all different.  Each conversion takes at most
one, and takes one exactly when it succeeds and has a value to keep; this name is declared in
the last prerequisite of its result, and in no other result. -/
theorem names_of_run {stem : String} {state : State} (fresh : counter state = .start stem)
    (actions : List (Action Source)) (errors : List ConversionError) :
    ∃ turns after reported, evaluator.takeAll actions (state, errors) = (turns, after, reported) ∧
      turns.map Turn.action = actions ∧
      turns.flatMap Turn.names =
        (List.range (turns.flatMap Turn.names).length).map
          (fun position => stem ++ toString (position + 1)) ∧
      counter after = ⟨stem, (turns.flatMap Turn.names).length + 1⟩ ∧
      (turns.flatMap Turn.names).Nodup ∧
      (∀ turn ∈ turns, turn.Frugal evaluator) ∧
      turns.Pairwise fun first second =>
        (∀ name ∈ first.names, name ∉ second.declared) ∧
          ∀ name ∈ second.names, name ∉ first.declared := by
  obtain ⟨turns, after, reported, ran, sameActions, frugal, names, moved⟩ :=
    numbers.takeAll_counts actions state errors fresh
  have distinct : (turns.flatMap Turn.names).Nodup := by
    rw [names]
    exact (List.nodup_range' _ Nat.one_pos).map (Temporaries.name_injective stem)
  refine ⟨turns, after, reported, ran, sameActions, ?_, ?_, distinct, frugal, ?_⟩
  · rw [List.range'_eq_map_range, List.map_map] at names
    refine names.trans (List.map_congr_left fun position _ => ?_)
    rw [Function.comp_apply, Temporaries.name, Nat.add_comm]
  · rw [moved, Nat.add_comm]
  · refine (List.nodup_flatMap.mp distinct).2.imp_of_mem ?_
    intro first second isFirst isSecond disjoint
    constructor
    · intro name taken isDeclared
      exact disjoint taken ((frugal second isSecond).mem_names isDeclared)
    · intro name taken isDeclared
      exact disjoint ((frugal first isFirst).mem_names isDeclared) taken

end Evaluator.Numbers

namespace Containers

theorem numbers_precompiled : precompiled.Numbers id := ⟨fun _ => rfl, fun _ _ => rfl⟩

/-- Two conversions that keep what they take, between failures and a direct allocation. -/
def mixedRun : List (Action CompiledTarget) :=
  [.convert environment aloneOut, .report environment takenPut, .allocate,
    .report environment aloneOut, .convert environment takenPut]

/-- Failures leave no gap in the numbers. -/
theorem names_mixedRun :
    (precompiled.takeAll mixedRun (.start "tmp", [])).1.map Turn.names =
        [[], ["tmp1"], ["tmp2"], [], ["tmp3"]] ∧
      (precompiled.takeAll mixedRun (.start "tmp", [])).2.1 = ⟨"tmp", 4⟩ ∧
      ∀ turn ∈ (precompiled.takeAll mixedRun (.start "tmp", [])).1, turn.Frugal precompiled := by
  have names : (precompiled.takeAll mixedRun (.start "tmp", [])).1.map Turn.names =
      [[], ["tmp1"], ["tmp2"], [], ["tmp3"]] := by
    have givenTaken : ∀ {State : Type} (evaluator : Evaluator CompiledTarget State),
        environment.convert evaluator takenPut =
          environment.convert evaluator (takenPut.withTypeArgs [.string]) :=
      fun evaluator => convert_putInShelf environment.policies evaluator takenPut.receiver
    have givenAlone : ∀ {State : Type} (evaluator : Evaluator CompiledTarget State),
        environment.convert evaluator aloneOut =
          environment.convert evaluator (aloneOut.withTypeArgs [.string]) :=
      fun evaluator => convert_putInShelf environment.policies evaluator aloneOut.receiver
    simp only [mixedRun, Evaluator.takeAll_cons, Evaluator.takeAll_nil, Evaluator.take,
      Environment.convertReporting, Environment.calls, givenTaken, givenAlone]
    rfl
  obtain ⟨turns, after, reported, ran, -, -, moved, -, frugal, -⟩ :=
    numbers_precompiled.names_of_run (rfl : id (Temporaries.start "tmp") = .start "tmp")
      mixedRun []
  rw [ran] at names ⊢
  refine ⟨names, ?_, frugal⟩
  have taken : turns.flatMap Turn.names = ["tmp1", "tmp2", "tmp3"] := by
    rw [List.flatMap_def, names]
    rfl
  rw [taken] at moved
  exact moved

end Containers

end MethodGroups
