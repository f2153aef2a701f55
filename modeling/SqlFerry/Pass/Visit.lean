import SqlFerry.Editor.Edit
import SqlFerry.Tsql.Kind

/-! A pass walks over the tree of a text and edits the text on its way. What it does at a site is a
visit, which decides itself whether and when the walk goes on below: it is given the walk for the
sites below as its first argument. -/
namespace SqlFerry

open Tsql (Kind)

/-- What is done at a site, where the first argument does the same at a site below. -/
abbrev Visit := (Site Kind → Edit Unit) → Site Kind → Edit Unit

namespace Visit

/-- Visits all children in order. -/
def children : Visit := fun recur site => site.children.forM recur

/-- Visits a site and those below it, down to `depth` levels. -/
def run (visit : Visit) : Nat → Site Kind → Edit Unit
  | 0, _ => return
  | depth + 1, site => visit (visit.run depth) site

/-- Visits a tree from its root. The height of the root is enough for the sites below it. -/
def runTree (visit : Visit) (tree : Tree Kind) : Edit Unit :=
  match tree.root with
  | some root => visit.run root.height (.ofNode root)
  | none => return

end Visit

/-- How a pass hands on the text. -/
inductive Ending where
  /-- The next pass goes on with the same tree and the same shifts. -/
  | keep
  /-- The next pass reads the edited text anew. -/
  | rebuild
  /-- The next pass reads these lines. -/
  | replace (lines : List String)
deriving DecidableEq, Repr

structure Pass where
  name : String
  run : Tree Kind → Edit Ending

/-- A pass that visits every site and hands on the edited text. -/
def Pass.ofVisit (name : String) (visit : Tree Kind → Visit) : Pass where
  name
  run tree := do
    (visit tree).runTree tree
    return .rebuild

end SqlFerry
