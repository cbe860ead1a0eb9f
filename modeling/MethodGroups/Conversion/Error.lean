import MethodGroups.Inference

/-!
# Conversion errors

Two errors are the user's: a method that script cannot refer to, and a method
that expands its params array where the delegate does not.  All other errors are
defects of the request, which the stages before should have rejected.
-/

namespace MethodGroups

/-- A range of source text, given by two byte offsets. -/
structure Span where
  start : Nat
  stop : Nat
  ordered : start ≤ stop
  deriving DecidableEq, Repr

namespace Span

/-- The range between two offsets, if they are in order. -/
def ofBounds? (start stop : Nat) : Option Span :=
  if ordered : start ≤ stop then some ⟨start, stop, ordered⟩ else none

/-- The empty range at the start of the source. -/
def origin : Span := ⟨0, 0, Nat.le_refl 0⟩

end Span

/-- What is wrong with a request. -/
inductive Defect where
  | unknownMethod (id : MethodId)
  | unknownType (id : TypeId)
  /-- The delegate type is not in the index. -/
  | unknownDelegate (ty : Ty)
  /-- A type or a method got the wrong number of type arguments. -/
  | typeArgCount (generic : String) (expected given : Nat)
  | inference (error : InferError)
  /-- A type is applied whose head is not a constructor. -/
  | noConstructor (ty : Ty)
  /-- An inference variable was left over. -/
  | unresolved (ty : Ty)
  /-- No ancestor of the current type supplies the method. -/
  | noSupplier (current member : String)
  /-- An instance method is referred to without a receiver. -/
  | noReceiver (member : String)
  /-- A defect known by its description alone. -/
  | described (message : String)
  deriving DecidableEq, Repr

/-- The defect in words. -/
def Defect.message : Defect → String
  | .unknownMethod id => "method #" ++ toString id.index ++ " is not in the type index"
  | .unknownType id => "type #" ++ toString id.index ++ " is not in the type index"
  | .unknownDelegate ty => "`" ++ ty.text ++ "` is not a known type"
  | .typeArgCount generic expected given =>
      "`" ++ generic ++ "` takes " ++ toString expected ++ " type arguments but " ++
        toString given ++ " were given"
  | .inference error => error.message
  | .noConstructor ty => "`" ++ ty.text ++ "` has no type constructor"
  | .unresolved ty => "unresolved type `" ++ ty.text ++ "`"
  | .noSupplier current member =>
      "no ancestor of `" ++ current ++ "` supplies `" ++ member ++ "`"
  | .noReceiver member => "instance method `" ++ member ++ "` referenced without a receiver"
  | .described message => message

/-- Why a method group cannot be converted. -/
inductive Cause where
  /-- Script cannot refer to the method. -/
  | notUsable (member : String)
  /-- The method expands its params array and the delegate does not. -/
  | paramsExpansion (member delegate : String)
  | internal (defect : Defect)
  deriving DecidableEq, Repr

/-- A request with a defect is refused for this cause. -/
def Defect.refuse {Value : Type} (defect : Defect) : Outcome Cause Value :=
  .error (.internal defect)

/-- The cause in words. -/
def Cause.message : Cause → String
  | .notUsable member => "the method `" ++ member ++ "` cannot be used from script"
  | .paramsExpansion member delegate =>
      "the method `" ++ member ++ "` expands its param array in script, " ++
        "but the delegate type `" ++ delegate ++ "` does not expand param arrays"
  | .internal defect => "internal error in method group conversion: " ++ defect.message

/-- The stable code of each kind of cause. -/
def Cause.code : Cause → String
  | .notUsable _ => "L0001"
  | .paramsExpansion _ _ => "L0002"
  | .internal _ => "L9999"

/-- How grave a diagnostic is. -/
inductive Severity where
  | error
  deriving DecidableEq, Repr

/-- The severity in words. -/
def Severity.text : Severity → String
  | .error => "error"

/-- A failed conversion, with the place in the source that asked for it. -/
structure ConversionError where
  cause : Cause
  span : Span
  deriving DecidableEq, Repr

/-- Conversions report nothing but errors. -/
def ConversionError.severity (_ : ConversionError) : Severity := .error

end MethodGroups
