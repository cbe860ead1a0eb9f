import MethodGroups.Proofs.Conversion.Calls

/-!
# Failed conversions

A conversion that fails has asked nothing of its evaluator.  So in a run of
conversions that share an evaluator and a list of errors, the requests that fail can
be left out: the others are answered as before and the evaluator ends in the same
state.  The list of errors grows by the failures, in the order of their requests.
-/

namespace MethodGroups

variable {Source State : Type}

/-- A request with the outcome of its conversion. -/
structure Answer (Source : Type) where
  request : Request Source
  outcome : Outcome ConversionError Conversion

namespace Answer

/-- Whether the request was refused.  To meet a stray variable is no refusal. -/
def failed (answer : Answer Source) : Bool :=
  match answer.outcome with
  | .error _ => true
  | _ => false

/-- The refusal is in the list of errors, at the place that the request asked from. -/
structure ReportedAs (answer : Answer Source) (error : ConversionError) : Prop where
  outcome : answer.outcome = .error error
  span : error.span = answer.request.span
  severity : error.severity = .error

end Answer

namespace Environment

/-- Convert one request after the other, and go on after failures. -/
def convertAll (env : Environment) (evaluator : Evaluator Source State)
    (requests : List (Request Source)) :
    StateM (State × List ConversionError) (List (Answer Source)) :=
  requests.mapM fun request => return ⟨request, ← env.convertReporting evaluator request⟩

variable (env : Environment) (evaluator : Evaluator Source State)

/-! ## One conversion -/

/-- A conversion fails when its request has no blueprint. -/
theorem convert_eq_error_iff {request : Request Source} {state after : State}
    {error : ConversionError} :
    env.convert evaluator request state = (.error error, after) ↔
      env.blueprint request = .error error.cause ∧ error.span = request.span ∧ after = state := by
  rw [convert]
  cases env.blueprint request with
  | ok blueprint =>
      constructor
      · intro impossible
        cases impossible
      · intro impossible
        cases impossible.1
  | error cause =>
      constructor
      · intro fails
        cases fails
        exact ⟨rfl, rfl, rfl⟩
      · intro holds
        rcases error with ⟨otherCause, span⟩
        rcases holds with ⟨causes, rfl, rfl⟩
        cases causes
        rfl
  | stray v =>
      constructor
      · intro impossible
        cases impossible
      · intro impossible
        cases impossible.1

/-- A conversion that fails asks nothing of its evaluator. -/
theorem calls_of_error {request : Request Source} {state after : State} {error : ConversionError}
    (fails : env.convert evaluator request state = (.error error, after)) :
    env.calls evaluator request state = [] := by
  have recorded := env.convert_recorded evaluator request state
  rw [fails, convert_eq_error_iff] at recorded
  have unchanged := recorded.2.2
  exact (Prod.mk.inj unchanged).2

/-- A conversion in a run is entered in the list of errors if it fails, and otherwise
does not depend on this list. -/
theorem convertReporting_cases (request : Request Source) (state : State) :
    (∃ error, Answer.ReportedAs ⟨request, .error error⟩ error ∧
      ∀ errors, env.convertReporting evaluator request (state, errors) =
        (.error error, state, errors ++ [error])) ∨
    (∃ outcome after, Answer.failed ⟨request, outcome⟩ = false ∧
      ∀ errors, env.convertReporting evaluator request (state, errors) =
        (outcome, after, errors)) := by
  rcases converts : env.convert evaluator request state with ⟨outcome, after⟩
  cases outcome with
  | error error =>
      obtain ⟨-, span, rfl⟩ := (env.convert_eq_error_iff evaluator).mp converts
      refine .inl ⟨error, ⟨rfl, span, rfl⟩, ?_⟩
      intro errors
      simp only [convertReporting, converts]
  | ok conversion =>
      refine .inr ⟨.ok conversion, after, rfl, ?_⟩
      intro errors
      simp only [convertReporting, converts]
  | stray v =>
      refine .inr ⟨.stray v, after, rfl, ?_⟩
      intro errors
      simp only [convertReporting, converts]

/-! ## Runs of conversions -/

theorem convertAll_nil (before : State × List ConversionError) :
    env.convertAll evaluator [] before = ([], before) := by
  rw [convertAll, List.mapM_nil]
  rfl

theorem convertAll_cons (request : Request Source) (requests : List (Request Source))
    (before : State × List ConversionError) :
    env.convertAll evaluator (request :: requests) before =
      let (outcome, between) := env.convertReporting evaluator request before
      let (answers, after) := env.convertAll evaluator requests between
      (⟨request, outcome⟩ :: answers, after) := by
  rw [convertAll, List.mapM_cons]
  rfl

/-- A run of conversions in which failures leave no trace but their errors: these are
added to the list in the order of their requests, and nothing else is.  Without the
requests that fail, the others are answered as before, and the evaluator ends in the same
state. -/
structure CleanRun (requests : List (Request Source)) (state : State)
    (answers : List (Answer Source)) (after : State) (reported : List ConversionError) :
    Prop where
  answersEach : answers.map Answer.request = requests
  reports : List.Forall₂ Answer.ReportedAs (answers.filter (·.failed)) reported
  runs : ∀ errors, env.convertAll evaluator requests (state, errors) =
    (answers, after, errors ++ reported)
  runsWithoutFailures : ∀ errors,
    env.convertAll evaluator ((answers.filter (!·.failed)).map Answer.request) (state, errors) =
      (answers.filter (!·.failed), after, errors)

namespace CleanRun

variable {env} {evaluator}

theorem nil (state : State) : env.CleanRun evaluator [] state [] state [] where
  answersEach := rfl
  reports := .nil
  runs errors := by rw [List.append_nil, convertAll_nil]
  runsWithoutFailures errors := by
    rw [List.filter_nil, List.map_nil, convertAll_nil]

variable {request : Request Source} {requests : List (Request Source)}
variable {state between after : State}
variable {answers : List (Answer Source)} {reported : List ConversionError}

theorem consFailed {error : ConversionError}
    (isReported : Answer.ReportedAs ⟨request, .error error⟩ error)
    (fails : ∀ errors, env.convertReporting evaluator request (state, errors) =
      (.error error, state, errors ++ [error]))
    (rest : env.CleanRun evaluator requests state answers after reported) :
    env.CleanRun evaluator (request :: requests) state (⟨request, .error error⟩ :: answers) after
      (error :: reported) where
  answersEach := by rw [List.map_cons, rest.answersEach]
  reports := .cons isReported rest.reports
  runs errors := by
    rw [convertAll_cons, fails errors]
    simp only [rest.runs, List.append_assoc, List.singleton_append]
  runsWithoutFailures := rest.runsWithoutFailures

theorem consAnswered {outcome : Outcome ConversionError Conversion}
    (answered : Answer.failed ⟨request, outcome⟩ = false)
    (converts : ∀ errors, env.convertReporting evaluator request (state, errors) =
      (outcome, between, errors))
    (rest : env.CleanRun evaluator requests between answers after reported) :
    env.CleanRun evaluator (request :: requests) state (⟨request, outcome⟩ :: answers) after
      reported where
  answersEach := by rw [List.map_cons, rest.answersEach]
  reports := by
    rw [List.filter_cons_of_neg (by simp [answered])]
    exact rest.reports
  runs errors := by
    rw [convertAll_cons, converts errors]
    simp only [rest.runs]
  runsWithoutFailures errors := by
    rw [List.filter_cons_of_pos (by simp [answered]), List.map_cons, convertAll_cons,
      converts errors]
    simp only [rest.runsWithoutFailures]

end CleanRun

theorem exists_cleanRun (requests : List (Request Source)) (state : State) :
    ∃ answers after reported, env.CleanRun evaluator requests state answers after reported := by
  induction requests generalizing state with
  | nil => exact ⟨[], state, [], .nil state⟩
  | cons request requests ih =>
      obtain ⟨error, isReported, fails⟩ | ⟨outcome, between, answered, converts⟩ :=
        env.convertReporting_cases evaluator request state
      · obtain ⟨answers, after, reported, rest⟩ := ih state
        exact ⟨_, after, _, rest.consFailed isReported fails⟩
      · obtain ⟨answers, after, reported, rest⟩ := ih between
        exact ⟨_, after, reported, rest.consAnswered answered converts⟩

/-- A conversion that fails asks nothing of its evaluator and leaves it as it was, so no
failure in a run of conversions leaves a trace but its error. -/
theorem failures_leave_no_trace :
    (∀ request state error after, env.convert evaluator request state = (.error error, after) →
      env.calls evaluator request state = [] ∧ after = state) ∧
    ∀ requests state, ∃ answers after reported,
      env.CleanRun evaluator requests state answers after reported := by
  constructor
  · intro request state error after fails
    exact ⟨env.calls_of_error evaluator fails,
      ((env.convert_eq_error_iff evaluator).mp fails).2.2⟩
  · exact env.exists_cleanRun evaluator

end Environment

namespace Containers

/-- `Put` alone, outside any instance. -/
def aloneOut : Request CompiledTarget := { takenPut with receiver := .static }

def aloneError : ConversionError := ⟨.internal (.noReceiver "Box.Put"), .origin⟩

/-- Two requests without a receiver do not disturb the one between them. -/
theorem convertAll_takenPut :
    environment.convert precompiled aloneOut (.start "tmp") = (.error aloneError, .start "tmp") ∧
      environment.calls precompiled aloneOut (.start "tmp") = [] ∧
      environment.convertAll precompiled [aloneOut, takenPut, aloneOut] (.start "tmp", []) =
        ([⟨aloneOut, .error aloneError⟩, ⟨takenPut, .ok takenCall⟩,
          ⟨aloneOut, .error aloneError⟩], ⟨"tmp", 2⟩, [aloneError, aloneError]) ∧
      environment.convertAll precompiled [takenPut] (.start "tmp", []) =
        ([⟨takenPut, .ok takenCall⟩], ⟨"tmp", 2⟩, []) := by
  obtain ⟨fails, runs⟩ := environment.failures_leave_no_trace precompiled
  have refused : ∀ state, environment.convert precompiled aloneOut state =
      (.error aloneError, state) :=
    congrFun (convert_putInShelf environment.policies precompiled .static)
  have wholeRun : environment.convertAll precompiled [aloneOut, takenPut, aloneOut]
      (.start "tmp", []) = ([⟨aloneOut, .error aloneError⟩, ⟨takenPut, .ok takenCall⟩,
        ⟨aloneOut, .error aloneError⟩], ⟨"tmp", 2⟩, [aloneError, aloneError]) := by
    simp only [Environment.convertAll_cons, Environment.convertAll_nil,
      Environment.convertReporting, refused, converts_takenPut, List.nil_append,
      List.cons_append]
  refine ⟨refused _, (fails _ _ _ _ (refused _)).1, wholeRun, ?_⟩
  obtain ⟨answers, after, reported, clean⟩ := runs [aloneOut, takenPut, aloneOut] (.start "tmp")
  have sameRun := clean.runs []
  obtain ⟨rfl, rfl, -⟩ : answers = [⟨aloneOut, .error aloneError⟩, ⟨takenPut, .ok takenCall⟩,
      ⟨aloneOut, .error aloneError⟩] ∧ after = ⟨"tmp", 2⟩ ∧
        [] ++ reported = [aloneError, aloneError] := by
    rw [wholeRun] at sameRun
    exact ⟨(Prod.mk.inj sameRun).1.symm, (Prod.mk.inj (Prod.mk.inj sameRun).2).1.symm,
      (Prod.mk.inj (Prod.mk.inj sameRun).2).2.symm⟩
  exact clean.runsWithoutFailures []

end Containers

end MethodGroups
