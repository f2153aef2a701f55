import SqlFerry.Pass.Context

/-! Headers and bodies of procedures, which become functions. -/
namespace SqlFerry.Plpgsql

open Tsql (Kind)

/-- A parameter that every call has to give: an input without a default. -/
def isRequired (parameter : Node Kind) : Bool :=
  (parameter.firstChild? .parameterDefault).isNone && !Tsql.isOutputParameter parameter

/-- The value of a bit parameter as a boolean. -/
def booleanLiteral? (text : String) : Option String :=
  match text with
  | "1" => some "TRUE"
  | "0" => some "FALSE"
  | _ => none

def isBitType (text : String) : Bool :=
  let isBracket (c : Char) : Bool := c == '[' || c == ']'
  Text.sameWord (.ofList (Text.dropRight isBracket (Text.dropLeft isBracket text.toList))) "bit"

def convertDefault (ctx : Context) (site : Site Kind) (isBit : Bool)
    (recur : Site Kind → Edit Unit) : Edit Unit :=
  match site.node.child? 1 with
  | none => return
  | some value =>
    match if isBit then booleanLiteral? (ctx.text value) else none with
    | some text => ctx.replaceUntouched value text
    | none => Visit.children recur site

def convertParameter (ctx : Context) (site : Site Kind) (keepsDefault : Bool)
    (recur : Site Kind → Edit Unit) : Edit Unit :=
  let isBit := (site.node.firstChild? .dataType).any fun type => isBitType (ctx.text type)
  site.children.forM fun child =>
    match child.kind with
    | .userVariable | .dataType => recur child
    | .parameterDefault =>
      if keepsDefault then convertDefault ctx child isBit recur else Edit.removeWithGap child
    | _ =>
      match child.node.token? with
      | none => return
      | some token =>
        if token.isWord "AS" then
          Edit.removeToken token
        else if token.isWord "OUTPUT" || token.isWord "OUT" then do
          Edit.removeWithGap child
          Edit.insertBefore site.node "OUT "
        else if token.isWord "VARYING" || token.isWord "READONLY" then
          Edit.removeWithGap child
        else
          return

/-- Converts parameters in order. A default stays where no parameter from there on is required,
since in PostgreSQL an input behind one with a default has to have a default too. -/
def convertParameters (ctx : Context) (recur : Site Kind → Edit Unit) :
    List (Site Kind) → Edit Unit
  | [] => return
  | parameter :: rest => do
    let keepsDefault := (parameter :: rest).all (!isRequired ·.node)
    convertParameter ctx parameter keepsDefault recur
    convertParameters ctx recur rest

/-- The block that is all of a procedure's body. -/
def soleBlock? (body : Site Kind) : Option (Site Kind) :=
  match body.childrenOf .statement with
  | [statement] => statement.firstChild? .block
  | _ => none

/-- A body that is one block loses its `BEGIN` and `END`, since the function brings its own. -/
def convertBody (body : Site Kind) (recur : Site Kind → Edit Unit) : Edit Unit :=
  match soleBlock? body with
  | none => Visit.children recur body
  | some block => do
    Edit.removeToken block.node.startToken
    (block.childrenOf .statement).forM recur
    Edit.removeToken block.node.stopToken

/-- `CREATE`, `ALTER` and `CREATE OR ALTER` all become `CREATE OR REPLACE`. -/
def convertCreateWords (procedure : Node Kind) : Edit Unit :=
  let words := "CREATE OR REPLACE"
  match procedure.wordToken? "CREATE", procedure.wordToken? "OR", procedure.wordToken? "ALTER" with
  | some create, some _, some alter => Edit.replaceTokens create alter words
  | some create, _, _ => Edit.replaceToken create words
  | none, _, some alter => Edit.replaceToken alter words
  | none, _, none => return

def convertProcedureWord (procedure : Node Kind) : Edit Unit :=
  match procedure.leafTokens.find? fun t => t.isWord "PROCEDURE" || t.isWord "PROC" with
  | some token => Edit.replaceToken token "FUNCTION"
  | none => return

def dropReplication (procedure : Node Kind) : Edit Unit :=
  match procedure.wordToken? "FOR", procedure.wordToken? "REPLICATION" with
  | some first, some last => Edit.replaceTokens first last "" true
  | _, _ => return

def convertProcedure (ctx : Context) : Visit := fun recur site => do
  let procedure := site.node
  convertCreateWords procedure
  convertProcedureWord procedure
  dropReplication procedure
  site.children.forM fun child =>
    match child.kind with
    | .qualifiedName => recur child
    | .procedureParameters =>
      convertParameters ctx recur (child.childrenOf .procedureParameter)
    | .procedureOptions =>
      if child.node.isSingleLine then Edit.removeWhole child.node else Edit.removeTokens child.node
    | .procedureBody => convertBody child recur
    | _ => return
  match procedure.wordToken? "AS" with
  | some token =>
    let type := Tsql.returnType ctx.options ctx.tree ctx.declarations procedure
    Edit.replaceToken token ("RETURNS " ++ type ++ " AS")
  | none => return

end SqlFerry.Plpgsql
