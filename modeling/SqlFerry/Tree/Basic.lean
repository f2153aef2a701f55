import SqlFerry.Span
import SqlFerry.Tree.Arena
import SqlFerry.Tree.Site

/-! A tree over the tokens of a text, with the lines of the text it was read from. The arena holds
every node that was made, also those outside the root. -/
namespace SqlFerry

structure Tree (κ : Type) where
  lines : List String
  tokens : List (Token κ)
  arena : Arena κ
  root : Option (Node κ)

namespace Tree

variable {κ : Type}

def nodeCount (tree : Tree κ) : Nat := tree.arena.size

/-- Every node under the root in pre-order. -/
def descendants (tree : Tree κ) : List (Node κ) :=
  match tree.root with
  | some root => root.descendants
  | none => []

/-- Every site under the root in pre-order. -/
def sites (tree : Tree κ) : List (Site κ) :=
  match tree.root with
  | some root => root.sites [] none none
  | none => []

/-- The source text of a node, with the blanks and comments between its tokens. -/
def text (tree : Tree κ) (node : Node κ) : String := textBetween tree.lines node.start node.stop

end Tree

end SqlFerry
