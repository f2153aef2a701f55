import SqlFerry.Pass.Context

/-! Calls of procedures and dynamic statements. -/
namespace SqlFerry.Plpgsql

open Tsql (Kind)

/-- The argument is given by the name of its parameter. -/
def isNamed (argument : Node Kind) : Bool :=
  (argument.child? 0).any (·.kind == .userVariable) && (argument.child? 1).any (·.kind == .equals)

/-- Arguments are given by their places: a name in front and `OUTPUT` behind go. -/
def convertArgument (argument : Site Kind) (recur : Site Kind → Edit Unit) : Edit Unit :=
  argument.children.zipIdx.forM fun (child, place) =>
    if isNamed argument.node ∧ place < 2 then
      Edit.removeTokens child.node
    else if (child.node.isWord "OUTPUT" ∨ child.node.isWord "OUT") ∧ 0 < place then
      Edit.removeWithGap child
    else
      recur child

/-- The arguments of a dynamic statement, of which `commas` are over: the statement stays, the
declarations of its parameters go, and the values are bound by `USING`. -/
def convertDynamicArguments (recur : Site Kind → Edit Unit) : Nat → List (Site Kind) → Edit Unit
  | _, [] => return
  | commas, part :: rest => do
    if part.kind = .comma then
      match commas with
      | 0 => Edit.removeWithGap part
      | 1 => Edit.replaceToken part.node.startToken " USING"
      | _ => pure ()
      convertDynamicArguments recur (commas + 1) rest
    else
      if commas = 1 then
        Edit.removeWithGap part
      else
        convertArgument part recur
      convertDynamicArguments recur commas rest

/-- Puts the arguments of a call in parentheses. -/
def convertCallArguments (target : Site Kind) (arguments : List (Site Kind))
    (recur : Site Kind → Edit Unit) : Edit Unit := do
  match (arguments.filter (·.kind == .executeArgument)).getLast? with
  | none => Edit.insertAfter target.node "()"
  | some last =>
    Edit.insertAfter target.node "(" true
    arguments.forM fun argument =>
      if argument.kind = .executeArgument then convertArgument argument recur else recur argument
    Edit.insertAfter last.node ")"

/-- `EXEC @r = name …`: the variable and the equals sign, and what follows them. -/
def callResult? (parts : List (Site Kind)) : Option (Site Kind × Site Kind × List (Site Kind)) :=
  match parts with
  | result :: equals :: target :: arguments =>
    if result.kind = .userVariable ∧ equals.kind = .equals then
      some (result, equals, target :: arguments)
    else
      none
  | _ => none

/-- `EXEC (text)` runs a text, `sp_executesql` runs one with parameters, and any other call is
performed or assigned. -/
def convertExecute : Visit := fun recur site => do
  let keyword := site.node.startToken
  let parts := site.children.drop 1
  if parts.head?.any (·.kind == .parenExpression) then
    Visit.children recur site
    Edit.replaceToken keyword "EXECUTE"
  else
    let result := callResult? parts
    match (result.map fun (_, _, rest) => rest).getD parts with
    | [] => Visit.children recur site
    | target :: arguments =>
      if target.node.stopToken.isWord "sp_executesql" then
        Edit.replaceToken keyword "EXECUTE"
        Edit.removeWithGap target
        convertDynamicArguments recur 0 arguments
      else
        match result with
        | some (name, equals, _) =>
          Edit.removeToken keyword
          recur name
          Edit.replaceToken equals.node.startToken ":="
        | none => Edit.replaceToken keyword "PERFORM"
        recur target
        convertCallArguments target arguments recur

end SqlFerry.Plpgsql
