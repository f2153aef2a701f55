import SqlFerry.Token

/-! Nodes of a tree over tokens. A leaf holds one token, a rule holds at least one child, so that
every node covers some stretch of tokens. Nodes are numbered in the order of their making, and a
leaf knows the place of its token among the tokens of the tree. -/
namespace SqlFerry

inductive Node (κ : Type) where
  | leaf (id index : Nat) (token : Token κ)
  | rule (id : Nat) (kind : κ) (first : Node κ) (rest : List (Node κ))

namespace Node

variable {κ : Type}

def id : Node κ → Nat
  | leaf id _ _ => id
  | rule id _ _ _ => id

def kind : Node κ → κ
  | leaf _ _ token => token.kind
  | rule _ kind _ _ => kind

def children : Node κ → List (Node κ)
  | leaf _ _ _ => []
  | rule _ _ first rest => first :: rest

def isLeaf : Node κ → Bool
  | leaf _ _ _ => true
  | rule _ _ _ _ => false

def token? : Node κ → Option (Token κ)
  | leaf _ _ token => some token
  | rule _ _ _ _ => none

def startToken : Node κ → Token κ
  | leaf _ _ token => token
  | rule _ _ first _ => first.startToken

mutual

def stopToken : Node κ → Token κ
  | leaf _ _ token => token
  | rule _ _ first rest => stopTokenOf first.stopToken rest

/-- The last token of some nodes, or `last` if there are none. -/
def stopTokenOf (last : Token κ) : List (Node κ) → Token κ
  | [] => last
  | node :: rest => stopTokenOf node.stopToken rest

end

mutual

/-- The tokens that the node covers, in order. -/
def tokens : Node κ → List (Token κ)
  | leaf _ _ token => [token]
  | rule _ _ first rest => first.tokens ++ tokensOf rest

def tokensOf : List (Node κ) → List (Token κ)
  | [] => []
  | node :: rest => node.tokens ++ tokensOf rest

end

mutual

/-- The number of nodes on the longest way down. -/
def height : Node κ → Nat
  | leaf _ _ _ => 1
  | rule _ _ first rest => 1 + max first.height (heightOf rest)

def heightOf : List (Node κ) → Nat
  | [] => 0
  | node :: rest => max node.height (heightOf rest)

end

mutual

/-- The node and all nodes below it, each in front of its children. -/
def descendants : Node κ → List (Node κ)
  | leaf id index token => [leaf id index token]
  | rule id kind first rest => rule id kind first rest :: (first.descendants ++ descendantsOf rest)

def descendantsOf : List (Node κ) → List (Node κ)
  | [] => []
  | node :: rest => node.descendants ++ descendantsOf rest

end

mutual

/-- The node and all nodes below it, each behind its children. -/
def postOrder : Node κ → List (Node κ)
  | leaf id index token => [leaf id index token]
  | rule id kind first rest => first.postOrder ++ postOrderOf rest ++ [rule id kind first rest]

def postOrderOf : List (Node κ) → List (Node κ)
  | [] => []
  | node :: rest => node.postOrder ++ postOrderOf rest

end

def start (node : Node κ) : Position := node.startToken.start

def stop (node : Node κ) : Position := node.stopToken.stop

def isSingleLine (node : Node κ) : Bool := node.start.line == node.stop.line

def range (node : Node κ) : String := Position.renderRange node.start node.stop

/-- The node's kind and range, for messages. -/
def describe [ToString κ] (node : Node κ) : String := s!"{node.kind}@{node.range}"

def childCount (node : Node κ) : Nat := node.children.length

def child? (node : Node κ) (index : Nat) : Option (Node κ) := node.children[index]?

def childrenOf [BEq κ] (node : Node κ) (kind : κ) : List (Node κ) :=
  node.children.filter (·.kind == kind)

def firstChild? [BEq κ] (node : Node κ) (kind : κ) : Option (Node κ) :=
  node.children.find? (·.kind == kind)

/-- The tokens of those children that are leaves. -/
def leafTokens (node : Node κ) : List (Token κ) := node.children.filterMap token?

/-- The first leaf among the children that reads as `word`. -/
def wordToken? (node : Node κ) (word : String) : Option (Token κ) :=
  node.leafTokens.find? (·.isWord word)

def hasWord (node : Node κ) (word : String) : Bool := (node.wordToken? word).isSome

/-- The node is a leaf that reads as `word`. -/
def isWord (node : Node κ) (word : String) : Bool := node.token?.any (·.isWord word)

end Node

end SqlFerry
