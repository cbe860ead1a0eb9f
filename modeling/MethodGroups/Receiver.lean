import MethodGroups.Script.Tree
import MethodGroups.Settings.Basic

/-!
# Receivers and their evaluation

A bound method mentions its receiver twice: where the member is read and where
the receiver is bound.  An arbitrary receiver is compiled once, and if reading
the compiled value twice could differ from reading it once, the value is kept in
a temporary that both mentions read.
-/

namespace MethodGroups

open Script

/-- How the source refers to the method. -/
inductive Receiver (Source : Type) where
  /-- Without an instance: alone or through a type. -/
  | static
  /-- Alone, inside an instance member. -/
  | implicitThis
  /-- Through `this`. -/
  | explicitThis
  /-- Through `base`. -/
  | base
  /-- Through any other expression. -/
  | expression (source : Source)
  deriving DecidableEq, Repr

/-- A receiver expression in script: statements to run first, then a value. -/
structure CompiledTarget where
  prerequisites : List Stmt
  value : Expr
  deriving Repr, Inhabited

/-- The services of the surrounding compiler, which keeps a state of its own. -/
structure Evaluator (Source State : Type) where
  /-- Compile a receiver expression. -/
  compile : Source → StateM State CompiledTarget
  /-- Take a variable name that is not in use yet. -/
  allocate : StateM State String

/-- Temporary names with a common prefix, numbered from one. -/
structure Temporaries where
  stem : String
  next : Nat
  deriving DecidableEq, Repr, Inhabited

namespace Temporaries

/-- No name was taken yet. -/
def start (stem : String) : Temporaries := ⟨stem, 1⟩

/-- Take the next name. -/
def allocate : StateM Temporaries String := fun temporaries =>
  (temporaries.stem ++ toString temporaries.next,
    { temporaries with next := temporaries.next + 1 })

end Temporaries

/-- What a conversion binds as the instance. -/
inductive ReceiverPlan where
  /-- Nothing. -/
  | none
  /-- The current instance. -/
  | currentInstance
  /-- A value that may be mentioned any number of times. -/
  | expression (target : CompiledTarget)
  deriving Repr, Inhabited

namespace ReceiverPlan

/-- The expression that stands for the receiver. -/
def value? : ReceiverPlan → Option Expr
  | .none => Option.none
  | .currentInstance => some .self
  | .expression target => some target.value

/-- The statements to run before the receiver is mentioned. -/
def prerequisites : ReceiverPlan → List Stmt
  | .none | .currentInstance => []
  | .expression target => target.prerequisites

end ReceiverPlan

namespace Evaluator

variable {Source State : Type}

/-- A target that can be mentioned any number of times: the target itself if it
is pure, otherwise a temporary that holds its value. -/
def shareable (evaluator : Evaluator Source State) (target : CompiledTarget) :
    StateM State CompiledTarget :=
  if target.value.isPure then return target
  else do
    let name ← evaluator.allocate
    return ⟨target.prerequisites ++ [.declare name (some target.value)], .identifier name⟩

/-- Decide how a receiver is evaluated.  A receiver `base` is the current
instance. -/
def plan (evaluator : Evaluator Source State) : Receiver Source → StateM State ReceiverPlan
  | .static => return .none
  | .implicitThis | .explicitThis | .base => return .currentInstance
  | .expression source => do
      let target ← evaluator.compile source
      return .expression (← evaluator.shareable target)

end Evaluator

end MethodGroups
