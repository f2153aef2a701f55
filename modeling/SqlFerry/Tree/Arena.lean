/-! The nodes of a tree by their numbers. Every node that is made gets an entry, which holds the tokens
that the node covers, its children and its parent. The parent is not known until it is made itself.
From a node the others around it are found by their numbers. -/
namespace SqlFerry

variable {κ : Type}

/-- What a node covers: a token, or the tokens from `first` to `last` by means of its children. Tokens
are given by their places. -/
inductive NodeData (κ : Type) where
  | leaf (token : Nat)
  | rule (kind : κ) (first last : Nat) (children : List Nat)

/-- The places of the first and of the last token. -/
def NodeData.bounds : NodeData κ → Nat × Nat
  | leaf token => (token, token)
  | rule _ first last _ => (first, last)

structure NodeEntry (κ : Type) where
  data : NodeData κ
  parent : Option Nat := none

abbrev Arena (κ : Type) := Array (NodeEntry κ)

namespace Arena

def bounds? (arena : Arena κ) (id : Nat) : Option (Nat × Nat) := arena[id]?.map (·.data.bounds)

/-- The place of the token of a leaf. -/
def token? (arena : Arena κ) (id : Nat) : Option Nat :=
  match arena[id]? with
  | some ⟨.leaf token, _⟩ => some token
  | _ => none

def children (arena : Arena κ) (id : Nat) : List Nat :=
  match arena[id]? with
  | some ⟨.rule _ _ _ children, _⟩ => children
  | _ => []

def parent? (arena : Arena κ) (id : Nat) : Option Nat := arena[id]?.bind (·.parent)

/-- The first numbers, at most `count`, that are met on the way up from a node. -/
def climb (arena : Arena κ) : Nat → Nat → List Nat
  | 0, _ => []
  | count + 1, id =>
    match arena.parent? id with
    | some parent => parent :: climb arena count parent
    | none => []

/-- The nodes above a node, nearest first. -/
def ancestors (arena : Arena κ) (id : Nat) : List Nat := arena.climb arena.size id

/-- The first numbers, at most `count`, that are met on a walk. The stack holds what is still to be
visited; the children of a node are put on top of it. -/
def walk (arena : Arena κ) : Nat → List Nat → List Nat
  | count + 1, id :: stack => id :: walk arena count (arena.children id ++ stack)
  | _, _ => []

/-- The node and all nodes below it, each in front of its children. -/
def descendants (arena : Arena κ) (id : Nat) : List Nat := arena.walk arena.size [id]

/-- The number in front of `id`, or `before` if `id` is the first. -/
def scanBefore (id : Nat) (before : Option Nat) : List Nat → Option Nat
  | [] => none
  | other :: rest => if other = id then before else scanBefore id (some other) rest

def prevSibling? (arena : Arena κ) (id : Nat) : Option Nat := do
  let parent ← arena.parent? id
  scanBefore id none (arena.children parent)

def nextSibling? (arena : Arena κ) (id : Nat) : Option Nat := do
  let parent ← arena.parent? id
  (((arena.children parent).dropWhile (· != id)).drop 1).head?

def addLeaf (arena : Arena κ) (token : Nat) : Arena κ := arena.push { data := .leaf token }

/-- Sets the parent of some nodes. -/
def link (arena : Arena κ) (parent : Nat) (children : List Nat) : Arena κ :=
  children.foldl (fun arena child => arena.modify child ({ · with parent := some parent })) arena

/-- Makes a rule over the nodes from `first` to `last`. -/
def addRule (arena : Arena κ) (kind : κ) (first : Nat) (rest : List Nat) : Arena κ :=
  let children := first :: rest
  let start := (arena.bounds? first).getD (0, 0)
  let stop := (arena.bounds? (rest.getLastD first)).getD (0, 0)
  (arena.link arena.size children).push { data := .rule kind start.1 stop.2 children }

end Arena

end SqlFerry
