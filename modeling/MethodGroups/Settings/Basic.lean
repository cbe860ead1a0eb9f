/-!
# Settings

What a user can choose about the emitted script: the names of the runtime helpers
it calls, the prefixes of generated names, and whether types are written with
their scope.
-/

namespace MethodGroups

/-- The names of the runtime helpers that emitted script calls. -/
structure HelperNames where
  bind : String
  bindBaseCall : String
  instantiateGenericMethod : String
  instantiateGenericType : String
  bindFirstParameterToThis : String
  deriving DecidableEq, Repr, Inhabited

/-- The helpers of the standard runtime. -/
def HelperNames.standard : HelperNames where
  bind := "$Bind"
  bindBaseCall := "$BindBaseCall"
  instantiateGenericMethod := "$InstantiateGenericMethod"
  instantiateGenericType := "$InstantiateGenericType"
  bindFirstParameterToThis := "$BindFirstParameterToThis"

/-- The settings of one run. -/
structure Settings where
  helpers : HelperNames
  /-- Comes before the number in the name of a temporary. -/
  temporaryPrefix : String
  /-- Comes before the source name of a method that no policy renames. -/
  methodPrefix : String
  /-- Comes before the name of a type parameter that is read as a variable. -/
  typeParameterPrefix : String
  /-- Whether types are written with their scope. -/
  qualifyTypeNames : Bool
  deriving DecidableEq, Repr, Inhabited

/-- The settings that hold where the user chose nothing. -/
def Settings.standard : Settings where
  helpers := .standard
  temporaryPrefix := "$tmp"
  methodPrefix := "$"
  typeParameterPrefix := "$"
  qualifyTypeNames := false

end MethodGroups
