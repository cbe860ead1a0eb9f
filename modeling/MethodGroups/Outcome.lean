import MethodGroups.Ty.Basic

/-!
# Outcomes of computations over inference variables

An inference variable means something only in the context that created it.  A
computation that meets any other variable has no answer, not even a refusal, and
`Outcome.stray` keeps that case apart from the refusals a caller can report.
-/

namespace MethodGroups

/-- A result, a refusal with its cause, or a stray variable: one that the
context at hand never created. -/
inductive Outcome (Refusal Value : Type) where
  | ok (value : Value)
  | error (refusal : Refusal)
  | stray (index : TyVar)
  deriving Repr

namespace Outcome

variable {Refusal Other Value Next : Type}

/-- Go on with the value of a computation that has one. -/
def bind (outcome : Outcome Refusal Value) (next : Value → Outcome Refusal Next) :
    Outcome Refusal Next :=
  match outcome with
  | .ok value => next value
  | .error refusal => .error refusal
  | .stray index => .stray index

instance : Monad (Outcome Refusal) where
  pure := .ok
  bind := bind

instance : LawfulMonad (Outcome Refusal) :=
  LawfulMonad.mk' _ (fun outcome => by cases outcome <;> rfl) (fun _ _ => rfl)
    (fun outcome _ _ => by cases outcome <;> rfl)

/-- Restate the cause of a refusal. -/
def mapError (restate : Refusal → Other) : Outcome Refusal Value → Outcome Other Value
  | .ok value => .ok value
  | .error refusal => .error (restate refusal)
  | .stray index => .stray index

/-- A computation that meets no inference variable. -/
def ofExcept : Except Refusal Value → Outcome Refusal Value
  | .ok value => .ok value
  | .error refusal => .error refusal

/-- The value of an optional computation, or the refusal to give when it has none. -/
def ofOption (refusal : Refusal) : Option Value → Outcome Refusal Value
  | some value => .ok value
  | none => .error refusal

@[simp] theorem pure_eq_ok (value : Value) :
    (pure value : Outcome Refusal Value) = .ok value := rfl

@[simp] theorem ok_bind (value : Value) (next : Value → Outcome Refusal Next) :
    (Outcome.ok value >>= next) = next value := rfl

@[simp] theorem error_bind (refusal : Refusal) (next : Value → Outcome Refusal Next) :
    (Outcome.error refusal >>= next) = .error refusal := rfl

@[simp] theorem stray_bind (index : TyVar) (next : Value → Outcome Refusal Next) :
    (Outcome.stray index >>= next) = .stray index := rfl

/-- A chain of two computations has a value when both have one. -/
theorem bind_eq_ok_iff {outcome : Outcome Refusal Value} {next : Value → Outcome Refusal Next}
    {result : Next} :
    (outcome >>= next) = .ok result ↔ ∃ value, outcome = .ok value ∧ next value = .ok result := by
  cases outcome <;> simp

/-- A chain of two computations meets a stray variable where one of them does. -/
theorem bind_eq_stray_iff {outcome : Outcome Refusal Value} {next : Value → Outcome Refusal Next}
    {index : TyVar} :
    (outcome >>= next) = .stray index ↔
      outcome = .stray index ∨ ∃ value, outcome = .ok value ∧ next value = .stray index := by
  cases outcome <;> simp

theorem ofOption_eq_ok_iff {refusal : Refusal} {option : Option Value} {value : Value} :
    ofOption refusal option = .ok value ↔ option = some value := by
  cases option <;> simp [ofOption]

theorem ofExcept_eq_ok_iff {computation : Except Refusal Value} {value : Value} :
    ofExcept computation = .ok value ↔ computation = .ok value := by
  cases computation <;> simp [ofExcept]

theorem mapError_eq_ok_iff {outcome : Outcome Refusal Value} {restate : Refusal → Other}
    {value : Value} : outcome.mapError restate = .ok value ↔ outcome = .ok value := by
  cases outcome <;> simp [mapError]

theorem mapError_eq_stray_iff {outcome : Outcome Refusal Value} {restate : Refusal → Other}
    {index : TyVar} : outcome.mapError restate = .stray index ↔ outcome = .stray index := by
  cases outcome <;> simp [mapError]

@[simp] theorem ofOption_ne_stray (refusal : Refusal) (option : Option Value) (index : TyVar) :
    ofOption refusal option ≠ .stray index := by
  cases option <;> simp [ofOption]

@[simp] theorem ofExcept_ne_stray (computation : Except Refusal Value) (index : TyVar) :
    ofExcept computation ≠ .stray index := by
  cases computation <;> simp [ofExcept]

end Outcome

end MethodGroups
