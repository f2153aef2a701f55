import SqlFerry.Pass.Context

/-! Declarations, assignments and session options. The variables themselves are declared at the
head of the function. -/
namespace SqlFerry.Plpgsql

open Tsql (Kind)

/-- Session options that have no counterpart worth keeping. -/
def droppedOptions : List String := [
  "NOCOUNT", "ANSI_NULLS", "QUOTED_IDENTIFIER", "XACT_ABORT", "ROWCOUNT", "ANSI_WARNINGS",
  "ANSI_PADDING", "ARITHABORT", "CONCAT_NULL_YIELDS_NULL"]

/-- `DECLARE @x int = 1` becomes `_vX := 1`, and a declaration without a value goes. -/
def convertVariableDeclaration (declare statement : Node Kind) (declaration : Site Kind)
    (recur : Site Kind → Edit Unit) : Edit Unit :=
  match declaration.children.dropWhile (·.kind != .equals) with
  | [] => Edit.removeStatement statement
  | equals :: rest =>
    match declaration.child? 0, rest.head? with
    | some name, some value => do
      Edit.removeToken declare.startToken
      recur name
      ((declaration.children.drop 1).takeWhile (·.kind != .equals)).forM Edit.removeWithGap
      Edit.replaceToken equals.node.startToken ":="
      recur value
    | _, _ => return

/-- A table variable becomes a temporary table. -/
def convertTableVariable (declare : Node Kind) (table : Site Kind)
    (recur : Site Kind → Edit Unit) : Edit Unit := do
  Edit.replaceToken declare.startToken "CREATE TEMPORARY TABLE"
  table.children.forM fun child =>
    match child.node.token? with
    | some token =>
      if token.isWord "AS" || token.isWord "TABLE" then Edit.removeToken token else recur child
    | none => recur child

def isDeclaration (node : Node Kind) : Bool :=
  node.kind == .variableDeclaration || node.kind == .tableVariable

def isUninitialized (declaration : Node Kind) : Bool :=
  declaration.kind == .variableDeclaration && (declaration.firstChild? .equals).isNone

def convertDeclare : Visit := fun recur site =>
  match site.parent? with
  | none => return
  | some statement =>
    match site.children.filter (isDeclaration ·.node) with
    | [declaration] =>
      if declaration.kind = .tableVariable then
        convertTableVariable site.node declaration recur
      else
        convertVariableDeclaration site.node statement declaration recur
    | declarations =>
      if declarations.all (isUninitialized ·.node) then
        Edit.removeStatement statement
      else do
        Edit.skip site.node "DECLARE list with initializers left unsplit"
        Visit.children recur site

/-- An assignment loses its keyword; the number of affected rows is asked for in its own way. -/
def convertSetVariable (ctx : Context) : Visit := fun recur site =>
  match site.children with
  | keyword :: name :: equals :: value :: _ =>
    if value.kind = .systemVariable ∧ Text.sameWord (ctx.text value.node) "@@ROWCOUNT" then do
      Edit.replaceToken keyword.node.startToken "GET DIAGNOSTICS"
      recur name
      Edit.replaceNode value.node "ROW_COUNT"
    else do
      Edit.removeToken keyword.node.startToken
      recur name
      Edit.replaceNode equals.node ":="
      recur value
  | _ => Visit.children recur site

/-- The options that a `SET` names: its first word behind the keyword and those behind commas. -/
def optionNames (ctx : Context) (node : Node Kind) : List String :=
  (behind true (node.children.drop 1)).map fun name => Text.toUpper (ctx.text name)
where
  behind : Bool → List (Node Kind) → List (Node Kind)
    | _, [] => []
    | isName, node :: rest =>
      let more := behind (node.kind == .comma) rest
      if isName then node :: more else more

/-- Options are dropped where nothing is lost by it. -/
def convertSetOption (ctx : Context) (site : Site Kind) : Edit Unit :=
  match site.parent? with
  | none => return
  | some statement =>
    match (optionNames ctx site.node).find? (!droppedOptions.contains ·) with
    | none => Edit.removeStatement statement
    | some kept => Edit.skip site.node s!"session option {kept} left in place"

end SqlFerry.Plpgsql
