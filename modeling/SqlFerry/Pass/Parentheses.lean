import SqlFerry.Pass.Visit

/-! A pass that puts parentheses around the conditions of `IF` and `WHILE` and around the
parameters of procedures, where they are missing. -/
namespace SqlFerry.Pass

open Tsql (Kind)

/-- Text behind a node counts as part of the node's place, so what is below the condition is
visited first. -/
def wrapCondition : Visit := fun recur site => do
  match site.node.child? 1 with
  | none => return
  | some condition =>
    Visit.children recur site
    if condition.kind ≠ .parenExpression then
      Edit.insertBefore condition "("
      Edit.insertAfter condition ")"

def wrapParameters (procedure : Node Kind) : Edit Unit := do
  match procedure.firstChild? .qualifiedName with
  | none => return
  | some name =>
    match procedure.firstChild? .procedureParameters with
    | none => Edit.insertAfter name "()"
    | some parameters =>
      if parameters.startToken.kind ≠ .leftParen then
        Edit.insertAfter name "(" true
        Edit.insertAfter parameters ")"

def repairParentheses : Visit := fun recur site =>
  match site.kind with
  | .ifStatement | .whileStatement => wrapCondition recur site
  | .createProcedure => do
    if let some body := site.firstChild? .procedureBody then
      recur body
    wrapParameters site.node
  | _ => Visit.children recur site

def parenthesisRepair : Pass := .ofVisit "parenthetical-repair" fun _ => repairParentheses

end SqlFerry.Pass
