import MethodGroups.Settings.Basic
import MethodGroups.Toml.Document

/-!
# Settings from a TOML document

Every key is optional, and a key that is no setting is refused.  The names of the
helpers are a table, or an array of strings in the order of the fields; an array
may be short, and what stands behind the last name is not looked at.
-/

namespace MethodGroups

open Toml

namespace HelperNames

/-- The name of one helper, found by its key, is changed. -/
def set? (names : HelperNames) (key : String) (name : String) : Option HelperNames :=
  match key with
  | "bind" => some { names with bind := name }
  | "bind_base_call" => some { names with bindBaseCall := name }
  | "instantiate_generic_method" => some { names with instantiateGenericMethod := name }
  | "instantiate_generic_type" => some { names with instantiateGenericType := name }
  | "bind_first_parameter_to_this" => some { names with bindFirstParameterToThis := name }
  | _ => none

/-- The keys of the helper names, in the order in which an array lists them. -/
def keys : List String :=
  ["bind", "bind_base_call", "instantiate_generic_method", "instantiate_generic_type",
    "bind_first_parameter_to_this"]

/-- Change helper names by keys with values, which have to be strings. -/
def ofEntries? (entries : Entries) : Option HelperNames :=
  entries.foldlM
    (fun names entry =>
      match entry with
      | (key, .string name) => names.set? key name
      | _ => none)
    standard

/-- The helper names that a value gives. -/
def ofValue? : Value → Option HelperNames
  | .table _ entries => ofEntries? entries
  | .array items => ofEntries? (keys.zip items)
  | _ => none

end HelperNames

namespace Settings

/-- Change one setting, found by its key. -/
def set? (settings : Settings) : String × Value → Option Settings
  | ("runtime", value) => do
      let helpers ← HelperNames.ofValue? value
      return { settings with helpers }
  | ("temporary_prefix", .string stem) => some { settings with temporaryPrefix := stem }
  | ("default_method_prefix", .string stem) => some { settings with methodPrefix := stem }
  | ("type_parameter_prefix", .string stem) => some { settings with typeParameterPrefix := stem }
  | ("qualify_type_names", .boolean choice) => some { settings with qualifyTypeNames := choice }
  | _ => none

/-- The settings of a document, if it is one and all its keys are settings. -/
def ofToml? (text : String) : Option Settings := do
  let entries ← Toml.parse? text
  entries.foldlM set? standard

end Settings

end MethodGroups
