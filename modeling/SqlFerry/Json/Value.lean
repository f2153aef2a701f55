/-! JSON values. Members of an object keep their order and may have equal names. A text that is
written with half of a surrogate pair stands for no text, but it may still be passed over. -/
namespace SqlFerry

/-- A text of a JSON document; none where it holds half of a surrogate pair. -/
abbrev JsonText := Option String

inductive JsonValue where
  | null
  | bool (b : Bool)
  /-- A number as it is written. -/
  | number (digits : String)
  | text (s : JsonText)
  | array (items : List JsonValue)
  | object (members : List (JsonText × JsonValue))
deriving Inhabited

namespace JsonValue

def ofString (s : String) : JsonValue := text (some s)

def ofNat (n : Nat) : JsonValue := number (toString n)

/-- An object of members with whole names. -/
def ofMembers (members : List (String × JsonValue)) : JsonValue :=
  object (members.map fun (name, value) => (some name, value))

def toString? : JsonValue → Option String
  | text s => s
  | _ => none

def toBool? : JsonValue → Option Bool
  | bool b => some b
  | _ => none

/-- The member of a name: none if there are several, and an empty answer if there is none. -/
def soleMember (members : List (JsonText × JsonValue)) (name : String) :
    Option (Option JsonValue) :=
  match members.filter (·.1 == some name) with
  | [] => some none
  | [(_, value)] => some (some value)
  | _ => none

/-- The values of a record's fields, given by name as an object or by place as an array. Fields may
be missing, in an array at its end; names that are no field are passed over. -/
def fields? (names : List String) : JsonValue → Option (List (Option JsonValue))
  | object members =>
    if members.all (·.1.isSome) then names.mapM (soleMember members) else none
  | array items =>
    if items.length ≤ names.length then
      some (names.zipIdx.map fun (_, place) => items[place]?)
    else
      none
  | _ => none

/-- The members of an object whose names are all whole. -/
def members? : JsonValue → Option (List (String × JsonValue))
  | object members => members.mapM fun (name, value) => name.map (·, value)
  | _ => none

end JsonValue

end SqlFerry
