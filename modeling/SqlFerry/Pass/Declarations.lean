import SqlFerry.Pass.Visit

/-! A pass that gives every declared variable a `DECLARE` of its own. -/
namespace SqlFerry.Pass

open Tsql (Kind)

/-- Ends the declaration in front of a comma and starts another one behind it, on a line of its
own. -/
def splitAtComma (indent : String) (comma : Site Kind) : Edit Unit := do
  match comma.node.token?, comma.after with
  | some token, some next =>
    Edit.replaceToken token ";" true
    if next.start.line = token.line then
      Edit.insertBefore next ("\n" ++ indent ++ "DECLARE ")
    else
      Edit.replace next.start.line 0 next.start.column (indent ++ "DECLARE ")
  | _, _ => return

def splitDeclaration : Visit := fun recur site =>
  match site.kind with
  | .declare => do
    let indent := (← get).indentationOf site.node
    (site.childrenOf .comma).forM (splitAtComma indent)
  | _ => Visit.children recur site

def singleDeclarations : Pass := .ofVisit "single-line-declaration" fun _ => splitDeclaration

end SqlFerry.Pass
