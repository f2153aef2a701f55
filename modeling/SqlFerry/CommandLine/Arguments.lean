import SqlFerry.Batch.Plan

/-! The arguments of the command. Long options take their value behind an equals sign or as the next
argument, and all that follows two dashes is an input. -/
namespace SqlFerry

inductive Switch where
  | threads
  | outdir
  | extension
  | echo
  | tokens
  | passes
  | config
  | json
  | verbose
  | help
deriving DecidableEq, Repr

namespace Switch

def all : List Switch := [
  threads, outdir, extension, echo, tokens, passes, config, json, verbose, help]

def name : Switch → String
  | threads => "threads"
  | outdir => "outdir"
  | extension => "extension"
  | echo => "echo"
  | tokens => "tokens"
  | passes => "passes"
  | config => "config"
  | json => "json"
  | verbose => "verbose"
  | help => "help"

def takesValue : Switch → Bool
  | threads | outdir | extension | passes | config => true
  | _ => false

/-- The switch may be given more than once. -/
def isRepeatable : Switch → Bool
  | passes | verbose | help => true
  | _ => false

def ofName? (text : String) : Option Switch := all.find? (·.name == text)

def ofLetter? : Char → Option Switch
  | 'v' => some verbose
  | 'h' => some help
  | _ => none

end Switch

inductive UsageError where
  | unknownArgument (argument : String)
  | missingValue (switch : Switch)
  | unexpectedValue (switch : Switch)
  | invalidValue (switch : Switch) (value : String)
  | repeatedSwitch (switch : Switch)
  | emptyInput
  | missingInputs
deriving DecidableEq, Repr

def UsageError.message : UsageError → String
  | unknownArgument argument => s!"unexpected argument '{argument}' found"
  | missingValue switch => s!"a value is required for '--{switch.name}' but none was supplied"
  | unexpectedValue switch => s!"unexpected value for '--{switch.name}' found"
  | invalidValue switch value => s!"invalid value '{value}' for '--{switch.name}'"
  | repeatedSwitch switch => s!"the argument '--{switch.name}' cannot be used multiple times"
  | emptyInput => "a value is required for '<FILES>...' but none was supplied"
  | missingInputs => "the following required arguments were not provided: <FILES>..."

/-- What an argument says, with its value if it takes one. -/
inductive Given where
  | input (text : String)
  | switch (switch : Switch) (value : String)
deriving DecidableEq, Repr

namespace Given

/-- An argument that cannot stand for a value. A dash alone can. -/
def isSwitchLike (argument : String) : Bool :=
  match argument.toList with
  | '-' :: _ :: _ => true
  | _ => false

/-- The text behind the dashes of a long option, before and behind its equals sign. -/
def divide (cs : List Char) : String × Option String :=
  match cs.dropWhile (· != '=') with
  | [] => (.ofList cs, none)
  | _ :: value => (.ofList (cs.takeWhile (· != '=')), some (.ofList value))

def ofLetters (argument : String) (letters : List Char) : Except UsageError (List Given) :=
  letters.mapM fun letter =>
    match Switch.ofLetter? letter with
    | some s => .ok (switch s "")
    | none => .error (.unknownArgument argument)

def readAll : List String → Except UsageError (List Given)
  | [] => .ok []
  | argument :: rest =>
    match argument.toList with
    | ['-', '-'] => .ok (rest.map input)
    | '-' :: '-' :: cs =>
      let (name, value?) := divide cs
      match Switch.ofName? name, value? with
      | none, _ => .error (.unknownArgument argument)
      | some s, some value =>
        if s.takesValue then (readAll rest).map (switch s value :: ·)
        else .error (.unexpectedValue s)
      | some s, none =>
        if s.takesValue then
          match rest with
          | [] => .error (.missingValue s)
          | value :: rest =>
            if isSwitchLike value then .error (.missingValue s)
            else (readAll rest).map (switch s value :: ·)
        else
          (readAll rest).map (switch s "" :: ·)
    | '-' :: c :: cs => do
      let letters ← ofLetters argument (c :: cs)
      return letters ++ (← readAll rest)
    | _ => (readAll rest).map (input argument :: ·)

def is (s : Switch) : Given → Bool
  | switch other _ => other == s
  | input _ => false

/-- The values given for a switch. -/
def values (s : Switch) (given : List Given) : List String :=
  given.filterMap fun
    | switch other value => if other == s then some value else none
    | input _ => none

def inputs (given : List Given) : List String :=
  given.filterMap fun
    | input text => some text
    | switch _ _ => none

end Given

structure Arguments where
  inputs : List Path
  outdir : Path := .here
  extension : String := ".pgsql"
  /-- The passes to run in place of the standard ones. -/
  passes : List PassName := []
  config? : Option Path := none
  echo : Bool := false
  tokens : Bool := false
  json : Bool := false
deriving DecidableEq, Repr

namespace Arguments

/-- A number of threads: decimal digits, perhaps behind a plus sign, for a number of 64 bits. -/
def isCount (text : String) : Bool :=
  let digits := match text.toList with
    | '+' :: digits => digits
    | digits => digits
  !digits.isEmpty && digits.all Char.isDigit &&
    digits.foldl (fun n c => n * 10 + (c.toNat - '0'.toNat)) 0 ≤ 0xFFFFFFFFFFFFFFFF

/-- The value of a switch, if it is given, as far as it can be read. -/
def value? {α : Type} (given : List Given) (switch : Switch) (read : String → Option α) :
    Except UsageError (Option α) :=
  match Given.values switch given with
  | [] => .ok none
  | value :: _ =>
    match read value with
    | some a => .ok (some a)
    | none => .error (.invalidValue switch value)

def path? (text : String) : Option Path := if text = "" then none else some ⟨text⟩

def passes? (text : String) : Option (List PassName) :=
  (Text.splitOn ',' text).mapM PassName.ofText?

/-- Reads arguments; none if they ask for help. -/
def read? (arguments : List String) : Except UsageError (Option Arguments) := do
  let given ← Given.readAll arguments
  if given.any (Given.is .help) then
    return none
  match Switch.all.find? fun s => !s.isRepeatable && (Given.values s given).length > 1 with
  | some s => throw (.repeatedSwitch s)
  | none => pure ()
  let _ ← value? given .threads fun text => if isCount text then some () else none
  let passes ← (Given.values .passes given).mapM fun text =>
    match passes? text with
    | some passes => .ok passes
    | none => .error (.invalidValue .passes text)
  let inputs := Given.inputs given
  if inputs.isEmpty then
    throw .missingInputs
  if inputs.contains "" then
    throw .emptyInput
  return some {
    inputs := inputs.map Path.mk
    outdir := (← value? given .outdir path?).getD .here
    extension := (← value? given .extension some).getD ".pgsql"
    passes := passes.flatten
    config? := ← value? given .config path?
    echo := given.any (Given.is .echo)
    tokens := given.any (Given.is .tokens)
    json := given.any (Given.is .json) }

def batch (a : Arguments) (options : Options) : Batch where
  inputs := a.inputs
  outdir := a.outdir
  extension := a.extension
  passes := if a.passes.isEmpty then PassName.standard else a.passes
  tokens := a.tokens
  options := options

end Arguments

end SqlFerry
