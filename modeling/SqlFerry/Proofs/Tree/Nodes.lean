import SqlFerry.Tree.Basic

/-! What the nodes of a tree cover. The tokens of a node begin and end with its first and its last
token, and those of a node below it follow one another among them. -/
namespace SqlFerry

namespace Node

variable {κ : Type}

theorem head?_tokens : ∀ node : Node κ, node.tokens.head? = some node.startToken
  | leaf _ _ _ => rfl
  | rule _ _ first rest => by
    rw [tokens, startToken, List.head?_append, head?_tokens first]
    rfl

mutual

theorem getLast?_tokens : ∀ node : Node κ, node.tokens.getLast? = some node.stopToken
  | leaf _ _ _ => rfl
  | rule _ _ first rest => getLast?_append_tokensOf (getLast?_tokens first) rest

theorem getLast?_append_tokensOf {front : List (Token κ)} {last : Token κ}
    (isLast : front.getLast? = some last) : ∀ nodes : List (Node κ),
      (front ++ tokensOf nodes).getLast? = some (stopTokenOf last nodes)
  | [] => by rw [tokensOf, List.append_nil, stopTokenOf, isLast]
  | node :: rest => by
    have next : (front ++ node.tokens).getLast? = some node.stopToken := by
      rw [List.getLast?_append, getLast?_tokens node]
      rfl
    rw [tokensOf, stopTokenOf, ← List.append_assoc, getLast?_append_tokensOf next rest]

end

theorem tokensOf_append (xs ys : List (Node κ)) :
    tokensOf (xs ++ ys) = tokensOf xs ++ tokensOf ys := by
  induction xs with
  | nil => rfl
  | cons x xs ih => rw [List.cons_append, tokensOf, tokensOf, ih, List.append_assoc]

mutual

theorem tokens_among {below : Node κ} : ∀ node : Node κ, below ∈ node.descendants →
    below.tokens <:+: node.tokens
  | leaf _ _ _, member => by
    obtain rfl := List.mem_singleton.mp member
    exact List.infix_refl _
  | rule _ _ first rest, member => by
    rcases List.mem_cons.mp member with rfl | inside
    · exact List.infix_refl _
    · rw [tokens]
      rcases List.mem_append.mp inside with inFirst | later
      · exact (tokens_among first inFirst).trans (List.prefix_append _ _).isInfix
      · exact (tokensOf_among rest later).trans (List.suffix_append _ _).isInfix

theorem tokensOf_among {below : Node κ} : ∀ nodes : List (Node κ), below ∈ descendantsOf nodes →
    below.tokens <:+: tokensOf nodes
  | [], member => by cases member
  | node :: rest, member => by
    rw [tokensOf]
    rcases List.mem_append.mp member with inside | later
    · exact (tokens_among node inside).trans (List.prefix_append _ _).isInfix
    · exact (tokensOf_among rest later).trans (List.suffix_append _ _).isInfix

end

theorem mem_descendants (node : Node κ) : node ∈ node.descendants := by
  cases node <;> simp [descendants]

mutual

theorem descendants_among {below : Node κ} : ∀ node : Node κ, below ∈ node.descendants →
    below.descendants <:+: node.descendants
  | leaf _ _ _, member => by
    obtain rfl := List.mem_singleton.mp member
    exact List.infix_refl _
  | rule _ _ first rest, member => by
    rcases List.mem_cons.mp member with rfl | inside
    · exact List.infix_refl _
    · refine List.IsInfix.trans ?_ (List.suffix_cons _ _).isInfix
      rcases List.mem_append.mp inside with inFirst | later
      · exact (descendants_among first inFirst).trans (List.prefix_append _ _).isInfix
      · exact (descendantsOf_among rest later).trans (List.suffix_append _ _).isInfix

theorem descendantsOf_among {below : Node κ} : ∀ nodes : List (Node κ),
    below ∈ descendantsOf nodes → below.descendants <:+: descendantsOf nodes
  | [], member => by cases member
  | node :: rest, member => by
    rcases List.mem_append.mp member with inside | later
    · exact (descendants_among node inside).trans (List.prefix_append _ _).isInfix
    · exact (descendantsOf_among rest later).trans (List.suffix_append _ _).isInfix

end

theorem descendants_of_child {node child : Node κ} (isChild : child ∈ node.children) :
    child ∈ node.descendants := by
  cases node with
  | leaf id index token => cases isChild
  | rule id kind first rest =>
    refine List.mem_cons_of_mem _ (List.mem_append.mpr ?_)
    rcases List.mem_cons.mp isChild with rfl | later
    · exact .inl (mem_descendants _)
    · right
      clear isChild
      induction rest with
      | nil => cases later
      | cons next rest ih =>
        refine List.mem_append.mpr ?_
        rcases List.mem_cons.mp later with rfl | later
        · exact .inl (mem_descendants _)
        · exact .inr (ih later)

theorem height_le_heightOf {node : Node κ} {nodes : List (Node κ)}
    (member : node ∈ nodes) : node.height ≤ heightOf nodes := by
  induction nodes with
  | nil => cases member
  | cons first rest ih =>
    rw [heightOf]
    rcases List.mem_cons.mp member with rfl | later
    · exact Nat.le_max_left _ _
    · exact Nat.le_trans (ih later) (Nat.le_max_right _ _)

end Node

theorem Site.map_node_row {κ : Type} (ancestors : List (Node κ)) (before : Option (Node κ))
    (nodes : List (Node κ)) : (Site.row ancestors before nodes).map (·.node) = nodes := by
  induction nodes generalizing before with
  | nil => rfl
  | cons node nodes ih => rw [row, List.map_cons, ih]

theorem Tree.descendants_among {κ : Type} {tree : Tree κ} {node : Node κ}
    (member : node ∈ tree.descendants) : node.descendants <:+: tree.descendants := by
  unfold descendants at member ⊢
  split at member
  · exact Node.descendants_among _ member
  · cases member

end SqlFerry
