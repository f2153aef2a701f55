import SqlFerry.Tree.Builder

/-! Building a tree keeps every token. The leaves of a builder, from the outermost node to the
innermost, are its tokens in order: opening a node adds nothing, adopting and finishing only move
nodes below another, and a node that is dropped has no leaves. -/
namespace SqlFerry

variable {κ : Type}

namespace Node

/-- The token of a leaf and its place among the tokens. -/
def entry? : Node κ → Option (Token κ × Nat)
  | leaf _ index token => some (token, index)
  | rule _ _ _ _ => none

/-- The leaves below some nodes, from left to right. -/
def leavesOf (nodes : List (Node κ)) : List (Token κ × Nat) := (descendantsOf nodes).filterMap entry?

theorem descendantsOf_append (xs ys : List (Node κ)) :
    descendantsOf (xs ++ ys) = descendantsOf xs ++ descendantsOf ys := by
  induction xs with
  | nil => rfl
  | cons x xs ih => simp [descendantsOf, ih]

@[simp] theorem leavesOf_nil : leavesOf ([] : List (Node κ)) = [] := rfl

@[simp] theorem leavesOf_append (xs ys : List (Node κ)) :
    leavesOf (xs ++ ys) = leavesOf xs ++ leavesOf ys := by
  simp [leavesOf, descendantsOf_append]

theorem leavesOf_leaf (id index : Nat) (token : Token κ) :
    leavesOf [leaf id index token] = [(token, index)] := rfl

theorem leavesOf_rule (id : Nat) (kind : κ) (first : Node κ) (rest : List (Node κ)) :
    leavesOf [rule id kind first rest] = leavesOf (first :: rest) := by
  simp only [leavesOf, descendantsOf, descendants, List.append_nil]
  exact List.filterMap_cons_none rfl

theorem leavesOf_singleton (node : Node κ) :
    leavesOf [node] = node.descendants.filterMap entry? := by
  simp [leavesOf, descendantsOf]

theorem leavesOf_singleton_ne_nil (node : Node κ) : leavesOf [node] ≠ [] := by
  cases node with
  | leaf id index token => simp [leavesOf_leaf]
  | rule id kind first rest =>
    have some := leavesOf_singleton_ne_nil first
    rw [leavesOf_rule, ← List.singleton_append, leavesOf_append]
    exact List.append_ne_nil_of_left_ne_nil some _

theorem map_fst_leavesOf : ∀ nodes : List (Node κ), (leavesOf nodes).map Prod.fst = tokensOf nodes
  | [] => rfl
  | leaf id index token :: rest => by
    rw [← List.singleton_append, leavesOf_append, List.map_append, map_fst_leavesOf rest]
    rfl
  | rule id kind first others :: rest => by
    rw [← List.singleton_append, leavesOf_append, List.map_append, map_fst_leavesOf rest, leavesOf_rule,
      map_fst_leavesOf (first :: others)]
    rfl

end Node

namespace Builder

open Node (leavesOf)

section Across

variable {β : Type}

/-- What `read` finds in the finished nodes and then in the open ones, outermost first. -/
def across (read : List (Node κ) → List β) (b : Builder κ) : List β :=
  read b.top ++ b.openNodes.reverse.flatMap fun node => read node.2

/-- What `read` finds in front of the children of the innermost open node. -/
def acrossBefore (read : List (Node κ) → List β) (b : Builder κ) : List β :=
  match b.openNodes with
  | [] => []
  | _ :: outer => read b.top ++ outer.reverse.flatMap fun node => read node.2

variable {read : List (Node κ) → List β}

theorem across_eq (read : List (Node κ) → List β) (b : Builder κ) :
    b.across read = b.acrossBefore read ++ read b.children := by
  unfold across acrossBefore children
  split <;> simp_all

theorem across_setChildren (b : Builder κ) (nodes : List (Node κ)) :
    (b.setChildren nodes).across read = b.acrossBefore read ++ read nodes := by
  unfold setChildren across acrossBefore
  split <;> simp_all

theorem across_push (append : ∀ xs ys, read (xs ++ ys) = read xs ++ read ys) (b : Builder κ)
    (node : Node κ) : (b.push node).across read = b.across read ++ read [node] := by
  rw [push, across_setChildren, append, ← List.append_assoc, ← across_eq]

theorem across_startNode (empty : read [] = []) (b : Builder κ) (kind : κ) :
    (b.startNode kind).across read = b.across read := by
  simp [startNode, across, empty]

theorem across_startNodeAt (append : ∀ xs ys, read (xs ++ ys) = read xs ++ read ys) (b : Builder κ)
    (mark : Checkpoint) (kind : κ) : (b.startNodeAt mark kind).across read = b.across read := by
  have kept : read b.children =
      read (b.children.take mark.childCount) ++ read (b.children.drop mark.childCount) := by
    rw [← append, List.take_append_drop]
  rw [across_eq read b, kept, ← List.append_assoc, ← across_setChildren]
  simp [startNodeAt, across]

end Across

def leaves (b : Builder κ) : List (Token κ × Nat) :=
  leavesOf b.top ++ b.openNodes.reverse.flatMap fun node => leavesOf node.2

@[simp] theorem tokens_setChildren (b : Builder κ) (nodes : List (Node κ)) :
    (b.setChildren nodes).tokens = b.tokens := by
  unfold setChildren; split <;> rfl

@[simp] theorem leaves_push (b : Builder κ) (node : Node κ) :
    (b.push node).leaves = b.leaves ++ leavesOf [node] :=
  across_push Node.leavesOf_append b node

@[simp] theorem tokens_push (b : Builder κ) (node : Node κ) : (b.push node).tokens = b.tokens :=
  tokens_setChildren ..

/-- The leaves are the tokens in order. -/
def Complete (b : Builder κ) : Prop := b.leaves = b.tokens.toList.zipIdx

theorem complete_ofText (source : String) : (ofText source : Builder κ).Complete := rfl

@[simp] theorem leaves_startNode (b : Builder κ) (kind : κ) : (b.startNode kind).leaves = b.leaves :=
  across_startNode rfl b kind

@[simp] theorem leaves_startNodeAt (b : Builder κ) (mark : Checkpoint) (kind : κ) :
    (b.startNodeAt mark kind).leaves = b.leaves :=
  across_startNodeAt Node.leavesOf_append b mark kind

@[simp] theorem tokens_startNodeAt (b : Builder κ) (mark : Checkpoint) (kind : κ) :
    (b.startNodeAt mark kind).tokens = b.tokens := by
  simp [startNodeAt]

@[simp] theorem tokens_token (b : Builder κ) (token : Token κ) :
    (b.token token).tokens = b.tokens.push token := by
  simp [Builder.token]

theorem leaves_token (b : Builder κ) (token : Token κ) :
    (b.token token).leaves = b.leaves ++ [(token, b.tokens.size)] := by
  rw [Builder.token, leaves_push, Node.leavesOf_leaf]
  rfl

theorem leaves_finishNode (b : Builder κ) : b.finishNode.1.leaves = b.leaves := by
  unfold finishNode
  split
  · rfl
  · next shape => simp [leaves, shape]
  · next kind first rest outer shape =>
    rw [leaves_push, Node.leavesOf_rule]
    simp [leaves, shape]

theorem tokens_finishNode (b : Builder κ) : b.finishNode.1.tokens = b.tokens := by
  unfold finishNode
  split <;> simp

theorem Complete.token {b : Builder κ} (complete : b.Complete) (token : Token κ) :
    (b.token token).Complete := by
  unfold Complete at complete ⊢
  rw [leaves_token, complete, tokens_token, Array.toList_push, List.zipIdx_append]
  simp

theorem Complete.of_same {b b' : Builder κ} (complete : b.Complete) (leaves : b'.leaves = b.leaves)
    (tokens : b'.tokens = b.tokens) : b'.Complete := by
  unfold Complete at complete ⊢
  rw [leaves, tokens, complete]

/-- The innermost open node has the kind and the children `front` and maybe more behind them, and
around it stand the open nodes `outer` and the finished nodes `top`. -/
def Inside (kind : κ) (front : List (Node κ)) (outer : List (κ × List (Node κ)))
    (top : List (Node κ)) (b : Builder κ) : Prop :=
  ∃ more, b.openNodes = (kind, front ++ more) :: outer ∧ b.top = top

section Inside

variable {b : Builder κ} {kind : κ} {front : List (Node κ)} {outer : List (κ × List (Node κ))}
  {top : List (Node κ)}

theorem Inside.token (inside : b.Inside kind front outer top) (token : Token κ) :
    (b.token token).Inside kind front outer top := by
  obtain ⟨more, shape, rfl⟩ := inside
  refine ⟨more ++ [.leaf b.nodeCount b.tokens.size token], ?_, ?_⟩ <;>
    simp [Builder.token, push, setChildren, children, shape]

theorem Inside.shorten {more : List (Node κ)} (inside : b.Inside kind (front ++ more) outer top) :
    b.Inside kind front outer top := by
  obtain ⟨rest, shape, same⟩ := inside
  exact ⟨more ++ rest, by rw [shape, List.append_assoc], same⟩

theorem inside_startNode (b : Builder κ) (kind : κ) :
    (b.startNode kind).Inside kind [] b.openNodes b.top := ⟨[], rfl, rfl⟩

/-- Finishing a node adds at most one child to the node around it, a rule of its kind. -/
theorem finishNode_inside {inner : κ} (inside : b.Inside inner [] ((kind, front) :: outer) top) :
    ∃ made, b.finishNode.1.openNodes = (kind, front ++ made) :: outer ∧ b.finishNode.1.top = top ∧
      ∀ node ∈ made, node.kind = inner ∧ node.isLeaf = false := by
  obtain ⟨nodes, shape, rfl⟩ := inside
  cases nodes with
  | nil => exact ⟨[], by simp [finishNode, shape], by simp [finishNode, shape], by simp⟩
  | cons first rest =>
    refine ⟨[.rule b.nodeCount inner first rest], ?_, ?_, ?_⟩
    · simp [finishNode, shape, push, setChildren, children]
    · simp [finishNode, shape, push, setChildren, children]
    · simp [Node.kind, Node.isLeaf]

theorem Inside.startNodeAt {more : List (Node κ)} (inner : κ) (mark : Checkpoint)
    (shape : b.openNodes = (kind, front ++ more) :: outer) (here : mark.childCount = front.length) :
    (b.startNodeAt mark inner).Inside inner [] ((kind, front) :: outer) b.top := by
  refine ⟨more, ?_, ?_⟩ <;> simp [Builder.startNodeAt, setChildren, children, shape, here]

end Inside

end Builder

end SqlFerry
