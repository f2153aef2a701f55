import SqlFerry.Json.Reader
import SqlFerry.Options.Basic

/-! Settings given as JSON. What is missing keeps its default; a table that is given takes the
place of the whole default table. -/
namespace SqlFerry

open JsonValue (toString? toBool?)

namespace Capitalization

def name : Capitalization → String
  | pascal => "pascal"
  | camel => "camel"
  | none => "none"

def ofName? (text : String) : Option Capitalization := [pascal, camel, none].find? (·.name == text)

/-- A name, or an object whose only member has the name and holds nothing. -/
def ofJson? : JsonValue → Option Capitalization
  | .text s => s.bind ofName?
  | .object [(s, .null)] => s.bind ofName?
  | _ => .none

end Capitalization

def FunctionRename.ofJson? (json : JsonValue) : Option FunctionRename := do
  match ← json.fields? ["to", "drop_arguments"] with
  | [some target, dropsArguments] =>
    return { target := ← toString? target,
             dropsArguments := ← dropsArguments.elim (some false) toBool? }
  | _ => none

namespace Options

/-- A table whose values are read by `read`. -/
def tableOf? {α : Type} (read : JsonValue → Option α) (json : JsonValue) : Option (Table α) := do
  let pairs ← (← json.members?).mapM fun (name, value) => (read value).map (name, ·)
  return .ofPairs pairs

def fieldNames : List String := [
  "parameter_prefix", "variable_prefix", "temp_table_prefix", "capitalization", "indent",
  "functions", "types", "system_variables", "default_return_type"]

def ofJson? (json : JsonValue) : Option Options := do
  let base : Options := {}
  match ← json.fields? fieldNames with
  | [parameterPrefix, variablePrefix, tempTablePrefix, capitalization, indent, functions, types,
      systemVariables, defaultReturnType] =>
    return {
      parameterPrefix := ← parameterPrefix.elim base.parameterPrefix toString?
      variablePrefix := ← variablePrefix.elim base.variablePrefix toString?
      tempTablePrefix := ← tempTablePrefix.elim base.tempTablePrefix toString?
      capitalization := ← capitalization.elim base.capitalization Capitalization.ofJson?
      indent := ← indent.elim base.indent toString?
      functions := ← functions.elim base.functions (tableOf? FunctionRename.ofJson?)
      types := ← types.elim base.types (tableOf? toString?)
      systemVariables := ← systemVariables.elim base.systemVariables (tableOf? toString?)
      defaultReturnType := ← defaultReturnType.elim base.defaultReturnType toString? }
  | _ => none

/-- The settings that a JSON document gives. -/
def read? (document : String) : Option Options := (JsonReader.read document).bind ofJson?

end Options

end SqlFerry
