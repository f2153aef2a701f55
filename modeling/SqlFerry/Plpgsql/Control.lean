import SqlFerry.Pass.Context

/-! Control flow. -/
namespace SqlFerry.Plpgsql

open Tsql (Kind)

/-- Converts a branch, without the `BEGIN` and `END` around it. The closing words take the place of
`END`; the answer tells whether they could be put there. -/
def convertBranch (branch : Site Kind) (closer : Option String) (recur : Site Kind → Edit Unit) :
    Edit Bool := do
  match branch.firstChild? .block with
  | none =>
    recur branch
    return false
  | some block =>
    Edit.removeToken block.node.startToken
    (block.childrenOf .statement).forM recur
    match closer with
    | some text =>
      Edit.replaceToken block.node.stopToken text
      return true
    | none =>
      Edit.removeToken block.node.stopToken
      return false

/-- Converts branches in order, where the last one may take the closing words. -/
def convertBranches (closer : String) (recur : Site Kind → Edit Unit) :
    List (Site Kind) → Edit Bool
  | [] => return false
  | [last] => convertBranch last (some closer) recur
  | branch :: rest => do
    discard (convertBranch branch none recur)
    convertBranches closer recur rest

/-- The opening word goes behind the condition, and the closing words go behind the last branch, on
a line of their own where that is a single statement. -/
def convertConditional (opener closer : String) : Visit := fun recur site => do
  match site.child? 1 with
  | none => Visit.children recur site
  | some condition =>
    recur condition
    Edit.insertAfter condition.node opener
    let closed ← convertBranches closer recur (site.childrenOf .statement)
    if !closed then
      let indent := (← get).indentationOf site.node
      Edit.insertAfter site.node ("\n" ++ indent ++ closer)

def convertIf : Visit := convertConditional " THEN" "END IF;"

def convertWhile : Visit := convertConditional " LOOP" "END LOOP;"

def convertBlock : Visit := fun recur site => do
  Visit.children recur site
  if !site.parent?.any fun statement => (statement.firstChild? .semicolon).isSome then
    Edit.insertAfter site.node ";"

/-- `BEGIN TRY … END TRY BEGIN CATCH … END CATCH` becomes a block with an exception handler. -/
def convertTryCatch : Visit := fun recur site => do
  (site.childrenOf .statement).forM recur
  match site.children.filter (·.node.isLeaf) with
  | [_, tryWord, endTry, tryClose, beginCatch, catchWord, endCatch, catchClose] =>
    Edit.removeWithGap tryWord
    Edit.removeToken endTry.node.startToken
    Edit.removeToken tryClose.node.startToken
    Edit.replaceToken beginCatch.node.startToken "EXCEPTION WHEN OTHERS THEN"
    Edit.removeWithGap catchWord
    Edit.replaceToken endCatch.node.startToken "END;"
    Edit.removeWithGap catchClose
  | _ => Edit.skip site.node "unexpected TRY/CATCH shape"

/-- The caller of a function owns the transaction. -/
def convertTransaction (site : Site Kind) : Edit Unit := do
  match site.parent? with
  | none => return
  | some statement =>
    let first := site.node.startToken
    if first.isWord "ROLLBACK" || first.isWord "SAVE" then
      Edit.skip site.node s!"{first.text} removed; the caller owns the transaction"
    Edit.removeStatement statement

/-- A procedure inside another one that ends in front of a site. -/
def hasProcedureBefore (procedure : Node Kind) (site : Site Kind) : Bool :=
  procedure.descendants.any fun node => node.kind == .createProcedure && node.id < site.node.id

/-- The site lies in a procedure with output parameters. Behind a procedure inside it, a procedure
counts as one without. -/
def hasOutputs (ctx : Context) (site : Site Kind) : Bool :=
  (site.findAncestor? .createProcedure).any fun procedure =>
    !(ctx.declarations.outputsOf procedure).isEmpty && !hasProcedureBefore procedure site

/-- Output parameters carry the result, so that nothing is returned besides. -/
def convertReturn (ctx : Context) : Visit := fun recur site => do
  match site.child? 1 with
  | some value =>
    if hasOutputs ctx site then
      Edit.skip value.node "return value dropped; OUT parameters carry the result"
      Edit.removeWithGap value
    else
      Visit.children recur site
  | none => Visit.children recur site

end SqlFerry.Plpgsql
