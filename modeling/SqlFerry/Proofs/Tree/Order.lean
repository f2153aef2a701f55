import Mathlib.Data.List.Chain
import Mathlib.Data.List.Perm.Basic
import SqlFerry.Proofs.Tree.Arena
import SqlFerry.Proofs.Tree.Sites

/-! The order of the nodes that a builder makes. The leaves of all its nodes are its tokens in order, and
the numbers of its nodes, read children first, are the numbers in order. A call keeps both: opening and
finishing only move nodes, and what is made new stands at the end. -/
namespace SqlFerry

variable {κ : Type}

namespace Node

def firstIndex : Node κ → Nat
  | leaf _ index _ => index
  | rule _ _ first _ => first.firstIndex

mutual

def lastIndex : Node κ → Nat
  | leaf _ index _ => index
  | rule _ _ first rest => lastIndexOf first.lastIndex rest

def lastIndexOf (last : Nat) : List (Node κ) → Nat
  | [] => last
  | node :: rest => lastIndexOf node.lastIndex rest

end

theorem lastIndexOf_append (last : Nat) (front : List (Node κ)) (node : Node κ) :
    lastIndexOf last (front ++ [node]) = node.lastIndex := by
  induction front generalizing last with
  | nil => rfl
  | cons other front ih => exact ih other.lastIndex

theorem firstIndex_of_head {node child : Node κ} (first : node.children.head? = some child) :
    child.firstIndex = node.firstIndex := by
  cases node with
  | leaf id index token => cases first
  | rule id kind front rest =>
    obtain rfl := Option.some.inj first
    rfl

theorem lastIndex_of_getLast {node child : Node κ} (last : node.children.getLast? = some child) :
    child.lastIndex = node.lastIndex := by
  cases node with
  | leaf id index token => cases last
  | rule id kind first rest =>
    obtain ⟨front, whole⟩ := List.getLast?_eq_some_iff.mp last
    rw [children, List.cons_eq_append_iff] at whole
    rcases whole with ⟨rfl, same⟩ | ⟨middle, rfl, rfl⟩
    · obtain ⟨rfl, rfl⟩ := List.cons_eq_cons.mp same
      rfl
    · rw [lastIndex, lastIndexOf_append]

theorem leavesOf_cons (node : Node κ) (rest : List (Node κ)) :
    leavesOf (node :: rest) = leavesOf [node] ++ leavesOf rest :=
  leavesOf_append [node] rest

theorem leavesOf_children {node : Node κ} (isRule : node.isLeaf = false) :
    leavesOf [node] = leavesOf node.children := by
  cases node with
  | leaf id index token => cases isRule
  | rule id kind first rest => exact leavesOf_rule ..

theorem head?_leavesOf (node : Node κ) :
    (leavesOf [node]).head?.map Prod.snd = some node.firstIndex := by
  induction node using induction with
  | step node ih =>
    cases node with
    | leaf id index token => rfl
    | rule id kind first rest =>
      have inside := ih first (List.mem_cons_self ..)
      obtain ⟨entry, isHead, place⟩ := Option.map_eq_some_iff.mp inside
      rw [leavesOf_rule, leavesOf_cons, List.head?_append, isHead]
      exact congrArg some place

theorem getLast?_leavesOf (node : Node κ) :
    (leavesOf [node]).getLast?.map Prod.snd = some node.lastIndex := by
  induction node using induction with
  | step node ih =>
    cases shape : node.children.getLast? with
    | none =>
      cases node with
      | leaf id index token => rfl
      | rule id kind first rest => cases List.getLast?_eq_none_iff.mp shape
    | some child =>
      obtain ⟨front, whole⟩ := List.getLast?_eq_some_iff.mp shape
      have isChild : child ∈ node.children := by
        rw [whole]
        exact List.mem_append_right front (List.mem_singleton_self child)
      obtain ⟨entry, isLast, place⟩ := Option.map_eq_some_iff.mp (ih child isChild)
      have isRule : node.isLeaf = false := by
        cases node with
        | leaf id index token => cases isChild
        | rule id kind first rest => rfl
      rw [leavesOf_children isRule, whole, leavesOf_append, List.getLast?_append, isLast,
        ← lastIndex_of_getLast shape]
      exact congrArg some place

theorem leavesOf_among {node : Node κ} {forest : List (Node κ)} (made : node ∈ descendantsOf forest) :
    leavesOf [node] <:+: leavesOf forest := by
  rw [leavesOf_singleton]
  exact (descendantsOf_among _ made).filterMap _

end Node

section Places

variable {α : Type} {entries : List α} {front back : List (α × Nat)} {entry : α × Nat}

theorem place_of_head (whole : entries.zipIdx = front ++ back) (isHead : back.head? = some entry) :
    entry.2 = front.length := by
  obtain ⟨rest, rfl⟩ := List.head?_eq_some_iff.mp isHead
  have here : entries.zipIdx[front.length]? = some entry := by simp [whole]
  rw [List.getElem?_zipIdx] at here
  obtain ⟨value, -, rfl⟩ := Option.map_eq_some_iff.mp here
  exact Nat.zero_add _

theorem place_of_last (whole : entries.zipIdx = front ++ back) (isLast : front.getLast? = some entry) :
    entry.2 + 1 = front.length := by
  obtain ⟨rest, rfl⟩ := List.getLast?_eq_some_iff.mp isLast
  rw [List.append_assoc] at whole
  rw [place_of_head whole rfl, List.length_append, List.length_singleton]

end Places

namespace Node

variable {tokens : List (Token κ)} {node : Node κ}

/-- With the leaves of a node in the midst of the tokens, the node covers what stands from its first
place to its last. -/
theorem places_of_split {front back : List (Token κ × Nat)}
    (whole : tokens.zipIdx = front ++ leavesOf [node] ++ back) :
    node.firstIndex = front.length ∧ node.lastIndex + 1 = (front ++ leavesOf [node]).length := by
  obtain ⟨head, isHead, first⟩ := Option.map_eq_some_iff.mp node.head?_leavesOf
  obtain ⟨last, isLast, final⟩ := Option.map_eq_some_iff.mp node.getLast?_leavesOf
  constructor
  · rw [← first]
    rw [List.append_assoc] at whole
    exact place_of_head whole (by rw [List.head?_append, isHead, Option.some_or])
  · rw [← final]
    exact place_of_last whole (by rw [List.getLast?_append, isLast, Option.some_or])

theorem leaves_eq_slice (among : leavesOf [node] <:+: tokens.zipIdx) :
    node.firstIndex ≤ node.lastIndex ∧ node.lastIndex < tokens.length ∧
      leavesOf [node] =
        (tokens.zipIdx.drop node.firstIndex).take (node.lastIndex + 1 - node.firstIndex) := by
  obtain ⟨front, back, whole⟩ := among
  obtain ⟨first, last⟩ := places_of_split whole.symm
  have some : 0 < (leavesOf [node]).length := List.length_pos_iff.mpr (leavesOf_singleton_ne_nil node)
  have total := congrArg List.length whole
  rw [List.length_zipIdx, List.length_append] at total
  rw [List.length_append] at last total
  have width : node.lastIndex + 1 - node.firstIndex = (leavesOf [node]).length := by omega
  refine ⟨by omega, by omega, ?_⟩
  rw [width, first, ← whole, List.append_assoc, List.drop_left, List.take_left]

theorem children_consecutive (among : leavesOf [node] <:+: tokens.zipIdx) :
    node.children.IsChain fun left right => right.firstIndex = left.lastIndex + 1 := by
  refine List.isChain_iff_forall_rel_of_append_cons_cons.mpr fun left right front back whole => ?_
  have isRule : node.isLeaf = false := by
    cases node with
    | leaf id index token => cases front <;> cases whole
    | rule id kind first rest => rfl
  rw [leavesOf_children isRule, whole, leavesOf_append, leavesOf_cons, leavesOf_cons right] at among
  obtain ⟨before, behind, split⟩ := among
  have atLeft : tokens.zipIdx = (before ++ leavesOf front) ++ leavesOf [left] ++
      (leavesOf [right] ++ leavesOf back ++ behind) := by
    rw [← split]; simp only [List.append_assoc]
  have atRight : tokens.zipIdx = (before ++ leavesOf front ++ leavesOf [left]) ++ leavesOf [right] ++
      (leavesOf back ++ behind) := by
    rw [← split]; simp only [List.append_assoc]
  rw [(places_of_split atLeft).2, (places_of_split atRight).1]

theorem postOrderOf_eq_flatMap (nodes : List (Node κ)) :
    postOrderOf nodes = nodes.flatMap postOrder := by
  induction nodes with
  | nil => rfl
  | cons node rest ih => rw [postOrderOf, ih, List.flatMap_cons]

theorem postOrderOf_append (xs ys : List (Node κ)) :
    postOrderOf (xs ++ ys) = postOrderOf xs ++ postOrderOf ys := by
  simp only [postOrderOf_eq_flatMap, List.flatMap_append]

theorem postOrder_eq (node : Node κ) :
    node.postOrder = node.children.flatMap postOrder ++ [node] := by
  cases node with
  | leaf id index token => rfl
  | rule id kind first rest =>
    rw [postOrder, postOrderOf_eq_flatMap, children, List.flatMap_cons]

theorem mem_postOrder (node : Node κ) : node ∈ node.postOrder := by
  rw [postOrder_eq]
  exact List.mem_append_right _ (List.mem_singleton_self node)

theorem postOrder_perm (node : Node κ) : node.postOrder.Perm node.descendants := by
  induction node using induction with
  | step node ih =>
    rw [postOrder_eq, descendants_eq]
    exact List.perm_append_comm.trans (.cons node (.flatMap_left _ ih))

theorem postOrder_among {parent child : Node κ} (isChild : parent.HasChild child) :
    child.postOrder <:+: parent.postOrder := by
  obtain ⟨front, back, whole⟩ := List.append_of_mem isChild
  rw [parent.postOrder_eq, whole, List.flatMap_append, List.flatMap_cons]
  exact ⟨front.flatMap postOrder, back.flatMap postOrder ++ [parent], by simp only [List.append_assoc]⟩

theorem postOrder_among_root {root : Node κ} (way : Relation.ReflTransGen HasChild root node) :
    node.postOrder <:+: root.postOrder := by
  induction way with
  | refl => exact List.infix_refl _
  | tail _ isChild ih => exact (postOrder_among isChild).trans ih

theorem postOrderOf_among {forest : List (Node κ)} (made : node ∈ descendantsOf forest) :
    node.postOrder <:+: postOrderOf forest := by
  rw [descendantsOf_eq_flatMap] at made
  obtain ⟨root, isRoot, below⟩ := List.mem_flatMap.mp made
  have inRoot := postOrder_among_root ((mem_descendants_iff root node).mp below)
  obtain ⟨front, back, rfl⟩ := List.append_of_mem isRoot
  rw [postOrderOf_eq_flatMap, List.flatMap_append, List.flatMap_cons]
  exact inRoot.trans ⟨_, _, List.append_assoc ..⟩

/-- With the numbers in order where children come first, a child is older than its parent. -/
theorem child_id_lt {forest : List (Node κ)} {count : Nat}
    (ordered : (postOrderOf forest).map id = List.range count) {parent child : Node κ}
    (made : parent ∈ descendantsOf forest) (isChild : parent.HasChild child) : child.id < parent.id := by
  have increasing : (parent.postOrder.map id).Pairwise (· < ·) := by
    refine List.Pairwise.sublist ((postOrderOf_among made).sublist.map id) ?_
    rw [ordered]
    exact List.pairwise_lt_range
  rw [postOrder_eq, List.map_append, List.pairwise_append] at increasing
  refine increasing.2.2 _ (List.mem_map_of_mem ?_) _ (List.mem_map_of_mem (List.mem_singleton_self _))
  exact List.mem_flatMap.mpr ⟨child, isChild, mem_postOrder child⟩

theorem postOrderOf_perm (forest : List (Node κ)) : (postOrderOf forest).Perm (descendantsOf forest) := by
  rw [postOrderOf_eq_flatMap, descendantsOf_eq_flatMap]
  exact .flatMap_left _ fun node _ => postOrder_perm node

theorem idsOf_nodup {forest : List (Node κ)} {count : Nat}
    (ordered : (postOrderOf forest).map id = List.range count) : (idsOf forest).Nodup := by
  rw [idsOf, ← ((postOrderOf_perm forest).map id).nodup_iff, ordered]
  exact List.nodup_range

end Node

theorem Node.id_mem_range {forest : List (Node κ)} {count : Nat}
    (ordered : (Node.postOrderOf forest).map Node.id = List.range count) {node : Node κ}
    (made : node ∈ Node.descendantsOf forest) : node.id ∈ List.range count := by
  rw [← ordered]
  exact List.mem_map_of_mem ((Node.postOrderOf_among made).subset node.mem_postOrder)

theorem Node.descendantsOf_child {forest : List (Node κ)} {parent child : Node κ}
    (made : parent ∈ Node.descendantsOf forest) (isChild : parent.HasChild child) :
    child ∈ Node.descendantsOf forest :=
  (Node.descendantsOf_among _ made).subset (Node.descendants_of_child isChild)

namespace Builder

open Node (leavesOf postOrderOf descendantsOf sitesIn)

def numbersOf (nodes : List (Node κ)) : List Nat := (postOrderOf nodes).map Node.id

theorem numbersOf_append (xs ys : List (Node κ)) :
    numbersOf (xs ++ ys) = numbersOf xs ++ numbersOf ys := by
  rw [numbersOf, Node.postOrderOf_append, List.map_append]
  rfl

theorem numbersOf_rule (id : Nat) (kind : κ) (first : Node κ) (rest : List (Node κ)) :
    numbersOf [.rule id kind first rest] = numbersOf (first :: rest) ++ [id] := by
  simp [numbersOf, postOrderOf, Node.postOrder, Node.id]

/-- Read children first, the nodes have the numbers in order. -/
def Ordered (b : Builder κ) : Prop := b.across numbersOf = List.range b.nodeCount

@[simp] theorem arena_setChildren (b : Builder κ) (nodes : List (Node κ)) :
    (b.setChildren nodes).arena = b.arena := by
  unfold setChildren; split <;> rfl

@[simp] theorem arena_push (b : Builder κ) (node : Node κ) : (b.push node).arena = b.arena :=
  arena_setChildren ..

theorem arena_startNodeAt (b : Builder κ) (mark : Checkpoint) (kind : κ) :
    (b.startNodeAt mark kind).arena = b.arena := by
  simp [startNodeAt]

theorem ordered_ofText (source : String) : (ofText source : Builder κ).Ordered := rfl

theorem Ordered.token {b : Builder κ} (ordered : b.Ordered) (token : Token κ) :
    (b.token token).Ordered := by
  unfold Ordered nodeCount at ordered ⊢
  rw [Builder.token, across_push numbersOf_append, arena_push, Arena.size_addLeaf, List.range_succ, ← ordered]
  rfl

theorem Ordered.startNode {b : Builder κ} (ordered : b.Ordered) (kind : κ) :
    (b.startNode kind).Ordered :=
  (across_startNode rfl b kind).trans ordered

theorem Ordered.startNodeAt {b : Builder κ} (ordered : b.Ordered) (mark : Checkpoint) (kind : κ) :
    (b.startNodeAt mark kind).Ordered := by
  unfold Ordered nodeCount at ordered ⊢
  rw [across_startNodeAt numbersOf_append, ordered, arena_startNodeAt]

theorem Ordered.finishNode {b : Builder κ} (ordered : b.Ordered) : b.finishNode.1.Ordered := by
  unfold Ordered nodeCount at ordered ⊢
  unfold Builder.finishNode
  split
  · exact ordered
  · next shape =>
    refine Eq.trans ?_ ordered
    simp [across, shape, numbersOf, postOrderOf]
  · next kind first rest outer shape =>
    rw [across_push numbersOf_append, arena_push, Arena.size_addRule, List.range_succ, ← ordered,
      numbersOf_rule]
    simp [across, shape, nodeCount]

/-- A call on a builder. The checkpoint of `startNodeAt` may be any, so also one that was taken long
ago or among the children of another node. -/
inductive Call (κ : Type) where
  | startNode (kind : κ)
  | token (token : Token κ)
  | finishNode
  | checkpoint
  | startNodeAt (mark : Checkpoint) (kind : κ)

def Call.token? : Call κ → Option (Token κ)
  | .token given => some given
  | _ => none

def call (b : Builder κ) : Call κ → Builder κ
  | .startNode kind => b.startNode kind
  | .token token => b.token token
  | .finishNode => b.finishNode.1
  | .checkpoint => b
  | .startNodeAt mark kind => b.startNodeAt mark kind

def run (b : Builder κ) (calls : List (Call κ)) : Builder κ := calls.foldl call b

/-- The builder has kept its tokens and its numbers in order. -/
structure InOrder (b : Builder κ) : Prop where
  complete : b.Complete
  ordered : b.Ordered

theorem InOrder.call {b : Builder κ} (inOrder : b.InOrder) : ∀ call : Call κ, (b.call call).InOrder
  | .startNode kind => ⟨inOrder.complete.of_same (leaves_startNode ..) rfl, inOrder.ordered.startNode kind⟩
  | .token token => ⟨inOrder.complete.token token, inOrder.ordered.token token⟩
  | .finishNode =>
    ⟨inOrder.complete.of_same (leaves_finishNode _) (tokens_finishNode _), inOrder.ordered.finishNode⟩
  | .checkpoint => inOrder
  | .startNodeAt mark kind =>
    ⟨inOrder.complete.of_same (leaves_startNodeAt ..) (tokens_startNodeAt ..),
      inOrder.ordered.startNodeAt mark kind⟩

theorem InOrder.run {b : Builder κ} (inOrder : b.InOrder) (calls : List (Call κ)) :
    (b.run calls).InOrder := by
  induction calls generalizing b with
  | nil => exact inOrder
  | cons call calls ih => exact ih (inOrder.call call)

theorem InOrder.finishNodes {b : Builder κ} (inOrder : b.InOrder) (n : Nat) :
    (finishNodes n b).InOrder := by
  induction n generalizing b with
  | zero => exact inOrder
  | succ n ih => exact ih (inOrder.call .finishNode)

theorem openNodes_setChildren (b : Builder κ) (nodes : List (Node κ)) :
    (b.setChildren nodes).openNodes.length = b.openNodes.length := by
  unfold setChildren
  split <;> simp_all

theorem openNodes_finishNode (b : Builder κ) :
    b.finishNode.1.openNodes.length = b.openNodes.length - 1 := by
  unfold Builder.finishNode
  split
  · next shape => simp [shape]
  · next shape => simp [shape]
  · next shape =>
    rw [push, openNodes_setChildren, shape]
    rfl

theorem openNodes_finishNodes (b : Builder κ) :
    (b.finishNodes b.openNodes.length).openNodes = [] := by
  generalize count : b.openNodes.length = n
  induction n generalizing b with
  | zero => exact List.length_eq_zero_iff.mp count
  | succ n ih =>
    refine ih _ ?_
    rw [openNodes_finishNode, count, Nat.add_sub_cancel]

theorem tokens_finishNodes (n : Nat) (b : Builder κ) : (finishNodes n b).tokens = b.tokens := by
  induction n generalizing b with
  | zero => rfl
  | succ n ih => rw [finishNodes, ih, tokens_finishNode]

theorem tokens_run (b : Builder κ) (calls : List (Call κ)) :
    (b.run calls).tokens.toList = b.tokens.toList ++ calls.filterMap Call.token? := by
  induction calls generalizing b with
  | nil => exact (List.append_nil _).symm
  | cons call calls ih =>
    refine (ih (b.call call)).trans ?_
    cases call with
    | startNode kind => rfl
    | token token => simp [Builder.call, Call.token?]
    | finishNode =>
      rw [Builder.call, tokens_finishNode]
      rfl
    | checkpoint => rfl
    | startNodeAt mark kind =>
      rw [Builder.call, tokens_startNodeAt]
      rfl

end Builder

end SqlFerry
