import SqlFerry.Pass.Visit

/-! Passes given by a list of rules: each rule names the nodes it is for and one edit. -/
namespace SqlFerry

open Tsql (Kind)

namespace Script

inductive Action where
  | replace
  | replaceUntouched
  | insertBefore
  | insertAfter
  | removeFirstToken
  | removeWhole
  | upperCase
  | skip
  | nothing
deriving DecidableEq, Repr

structure Rule where
  /-- The kind of the nodes that the rule is for; none for all. -/
  kind : Option Kind
  /-- The leaf that the rule is for; the empty word for all nodes. -/
  word : String
  action : Action
  text : String
  eats : Bool
  /-- Leave the site once the rule has been applied. -/
  prunes : Bool
deriving DecidableEq, Repr

def Rule.isFor (rule : Rule) (node : Node Kind) : Bool :=
  rule.kind.all (· == node.kind) && (rule.word.isEmpty || node.isWord rule.word)

def Rule.apply (rule : Rule) (tree : Tree Kind) (node : Node Kind) : Edit Unit :=
  match rule.action with
  | .replace => Edit.replaceNode node rule.text rule.eats
  | .replaceUntouched => discard (Edit.replaceUntouched tree node rule.text rule.eats)
  | .insertBefore => Edit.insertBefore node rule.text rule.eats
  | .insertAfter => Edit.insertAfter node rule.text rule.eats
  | .removeFirstToken => Edit.removeFirstToken node
  | .removeWhole => Edit.removeWhole node
  | .upperCase => Edit.replaceNode node (Text.asciiUpper (tree.text node)) rule.eats
  | .skip => Edit.skip node rule.text
  | .nothing => return

/-- Applies the rules that are for the site in order, then goes on below. -/
def visit (tree : Tree Kind) (rules : List Rule) : Visit := fun recur site => do
  match rules with
  | [] => Visit.children recur site
  | rule :: rest =>
    if rule.isFor site.node then
      rule.apply tree site.node
      if rule.prunes then
        return
    visit tree rest recur site

end Script

structure Script where
  name : String
  rules : List Script.Rule
  ending : Ending
  /-- A line that the text must have. -/
  requiredLine : Option Nat := none

def Script.pass (script : Script) : Pass where
  name := script.name
  run tree := do
    if let some line := script.requiredLine then
      if let .error error := (← get).line line then
        throw error
    (Script.visit tree script.rules).runTree tree
    return script.ending

end SqlFerry
