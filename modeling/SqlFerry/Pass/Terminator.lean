import SqlFerry.Pass.Visit

/-! A pass that puts a semicolon behind every statement that PL/pgSQL wants to end with one. -/
namespace SqlFerry.Pass

open Tsql (Kind)

/-- A statement that lacks the semicolon it should end with. -/
def lacksTerminator (statement body : Node Kind) : Bool :=
  body.kind.takesTerminator && (statement.firstChild? .semicolon).isNone

def terminate : Visit := fun recur site =>
  match site.kind with
  | .statement => do
    Visit.children recur site
    match site.node.child? 0 with
    | some body => if lacksTerminator site.node body then Edit.insertAfter body ";"
    | none => return
  | _ => Visit.children recur site

def statementTerminator : Pass := .ofVisit "statement-terminator" fun _ => terminate

end SqlFerry.Pass
