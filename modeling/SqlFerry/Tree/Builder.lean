import SqlFerry.Tree.Basic

/-! Building a tree from left to right. Nodes are opened and finished like brackets, and every
token becomes a leaf of the innermost open node. A checkpoint remembers a place among the children
of the innermost node, so that a node opened there later takes in what has come since. A node that
is finished without children leaves no trace. -/
namespace SqlFerry

/-- A place among the children of the innermost open node. -/
structure Checkpoint where
  childCount : Nat

structure Builder (κ : Type) where
  lines : List String
  tokens : Array (Token κ) := #[]
  /-- The nodes made so far. -/
  arena : Arena κ := #[]
  /-- The open nodes with their children so far, innermost first. -/
  openNodes : List (κ × List (Node κ)) := []
  /-- Finished nodes outside every open node. -/
  top : List (Node κ) := []

namespace Builder

variable {κ : Type}

def ofText (source : String) : Builder κ := { lines := Text.lines source }

def nodeCount (b : Builder κ) : Nat := b.arena.size

/-- The children of the innermost open node. -/
def children (b : Builder κ) : List (Node κ) :=
  match b.openNodes with
  | [] => b.top
  | (_, nodes) :: _ => nodes

def setChildren (b : Builder κ) (nodes : List (Node κ)) : Builder κ :=
  match b.openNodes with
  | [] => { b with top := nodes }
  | (kind, _) :: outer => { b with openNodes := (kind, nodes) :: outer }

def push (b : Builder κ) (node : Node κ) : Builder κ := b.setChildren (b.children ++ [node])

def startNode (b : Builder κ) (kind : κ) : Builder κ :=
  { b with openNodes := (kind, []) :: b.openNodes }

def checkpoint (b : Builder κ) : Checkpoint := ⟨b.children.length⟩

/-- Opens a node that takes in the children behind the checkpoint. -/
def startNodeAt (b : Builder κ) (mark : Checkpoint) (kind : κ) : Builder κ :=
  let kept := b.setChildren (b.children.take mark.childCount)
  { kept with openNodes := (kind, b.children.drop mark.childCount) :: kept.openNodes }

def token (b : Builder κ) (token : Token κ) : Builder κ :=
  { b with tokens := b.tokens.push token, arena := b.arena.addLeaf b.tokens.size }.push
    (.leaf b.nodeCount b.tokens.size token)

/-- Finishes the innermost open node. The number is that of the node made, if one was. -/
def finishNode (b : Builder κ) : Builder κ × Option Nat :=
  match b.openNodes with
  | [] => (b, none)
  | (_, []) :: outer => ({ b with openNodes := outer }, none)
  | (kind, first :: rest) :: outer =>
    ({ b with openNodes := outer, arena := b.arena.addRule kind first.id (rest.map Node.id) }.push
      (.rule b.nodeCount kind first rest), some b.nodeCount)

def finishNodes : Nat → Builder κ → Builder κ
  | 0, b => b
  | n + 1, b => finishNodes n b.finishNode.1

/-- Finishes what is still open. The root is the last node outside every other. -/
def finish (b : Builder κ) : Tree κ :=
  let closed := b.finishNodes b.openNodes.length
  { lines := closed.lines, tokens := closed.tokens.toList, arena := closed.arena,
    root := closed.top.getLast? }

end Builder

end SqlFerry
