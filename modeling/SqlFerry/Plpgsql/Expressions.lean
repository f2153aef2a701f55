import SqlFerry.Pass.Context

/-! Expressions of PL/pgSQL. -/
namespace SqlFerry.Plpgsql

open Tsql (Kind)

def convertSystemVariable (ctx : Context) (node : Node Kind) : Edit Unit :=
  let name := ctx.text node
  match ctx.options.systemVariable? name with
  | some target => ctx.replaceUntouched node target
  | none => Edit.skip node s!"no PostgreSQL equivalent for {name}"

def convertDataType (ctx : Context) (node : Node Kind) : Edit Unit :=
  let text := ctx.text node
  let type := ctx.targetType text
  if type = text then return else ctx.replaceUntouched node type

/-- A sum of texts is their concatenation. -/
def isConcatenation (ctx : Context) (node : Node Kind) : Bool :=
  Tsql.familyOf ctx.tree ctx.declarations node == .text

def convertSum (ctx : Context) : Visit := fun recur site => do
  Visit.children recur site
  match site.node.child? 1 with
  | some operator =>
    if operator.kind = .plus ∧ isConcatenation ctx site.node then
      Edit.replaceNode operator "||"
  | none => return

/-- What becomes of a call, given the name it calls. Only names without qualifiers are those of
built-in functions. -/
def renameOf? (ctx : Context) (name : Node Kind) : Option FunctionRename :=
  if name.childCount = 1 then ctx.options.function? name.stopToken.text else none

def convertCall (ctx : Context) : Visit := fun recur site =>
  match site.node.firstChild? .qualifiedName with
  | none => Visit.children recur site
  | some name =>
    match renameOf? ctx name with
    | none => Visit.children recur site
    | some rename =>
      if rename.dropsArguments then
        Edit.replaceTokenwise site.node rename.target
      else do
        ctx.replaceUntouched name rename.target
        (site.children.drop 1).forM recur

/-- The parts of `CONVERT(type, value, style)`: the keyword, the opening parenthesis, the type, the
value and the closing parenthesis. -/
def conversionParts? (children : List (Site Kind)) :
    Option (Site Kind × Site Kind × Site Kind × Site Kind × Site Kind) :=
  match children with
  | keyword :: left :: type :: _ :: value :: rest =>
    match rest.getLast? with
    | some right =>
      if type.kind = .dataType ∧ right.kind = .rightParen then
        some (keyword, left, type, value, right)
      else
        none
    | none => none
  | _ => none

/-- `CONVERT(type, value, style)` becomes `CAST(value AS type)`. A cast has no style. -/
def convertConversion (ctx : Context) : Visit := fun recur site =>
  match conversionParts? site.children with
  | none => Visit.children recur site
  | some (keyword, left, type, value, right) => do
    if 1 < (site.node.childrenOf .comma).length then
      Edit.skip site.node "CONVERT style argument dropped"
    recur value
    let text := (← get).textOf value.node ++ " AS " ++ ctx.targetType (ctx.text type.node)
    Edit.replaceToken keyword.node.startToken "CAST"
    Edit.removeBetween left.node.startToken right.node.startToken
    Edit.insertAfter left.node text

end SqlFerry.Plpgsql
