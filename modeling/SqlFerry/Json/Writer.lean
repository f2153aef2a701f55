import SqlFerry.Json.Value
import SqlFerry.Text.Pieces

/-! Writing JSON over several lines: every item and member stands on a line of its own, two spaces
deeper than what holds it, and what is empty is written on one line. -/
namespace SqlFerry.JsonValue

def hexDigit (n : Nat) : Char := Nat.digitChar (n % 16)

/-- A character as it stands in a text. -/
def escapeChar (c : Char) : List Char :=
  match c with
  | '"' => ['\\', '"']
  | '\\' => ['\\', '\\']
  | '\x08' => ['\\', 'b']
  | '\t' => ['\\', 't']
  | '\n' => ['\\', 'n']
  | '\x0c' => ['\\', 'f']
  | '\r' => ['\\', 'r']
  | c =>
    if c.toNat < 0x20 then ['\\', 'u', '0', '0', hexDigit (c.toNat / 16), hexDigit c.toNat]
    else [c]

def quote (s : String) : String := .ofList ('"' :: s.toList.flatMap escapeChar ++ ['"'])

def indentOf (depth : Nat) : String := .ofList (List.replicate (2 * depth) ' ')

/-- Brackets around entries that are written one a line at a depth. -/
def enclose (opening closing : String) (depth : Nat) (entries : List String) : String :=
  if entries.isEmpty then opening ++ closing
  else
    opening ++ "\n" ++ Text.join ",\n" (entries.map (indentOf (depth + 1) ++ ·)) ++ "\n" ++
      indentOf depth ++ closing

mutual

def renderAt (depth : Nat) : JsonValue → String
  | null => "null"
  | bool b => if b then "true" else "false"
  | number digits => digits
  | text s => quote (s.getD "")
  | array items => enclose "[" "]" depth (renderItems (depth + 1) items)
  | object members => enclose "\x7b" "\x7d" depth (renderMembers (depth + 1) members)

def renderItems (depth : Nat) : List JsonValue → List String
  | [] => []
  | item :: rest => renderAt depth item :: renderItems depth rest

def renderMembers (depth : Nat) : List (JsonText × JsonValue) → List String
  | [] => []
  | (name, value) :: rest =>
    (quote (name.getD "") ++ ": " ++ renderAt depth value) :: renderMembers depth rest

end

def render (json : JsonValue) : String := renderAt 0 json

end SqlFerry.JsonValue
