import SqlFerry.Proofs.Tree.Order

/-! Every tree that a builder yields is well formed, whatever is called on the builder and in whatever
order. The builder writes a node into its arena when the node is made, with the bounds that it reads
off the first and the last child, and links the children to it. What the arena holds is therefore what
the nodes are: an invariant of the builder says so of all nodes that stand side by side in it, open or
not, and the numbers of the arena are read through these nodes. -/
namespace SqlFerry

open Node (descendantsOf leavesOf postOrderOf idsOf sitesIn)

variable {κ : Type}

/-- What the arena has to hold of a node. -/
def Node.data : Node κ → NodeData κ
  | leaf _ index _ => .leaf index
  | rule id kind first rest =>
    .rule kind (rule id kind first rest).firstIndex (rule id kind first rest).lastIndex
      (first.id :: rest.map Node.id)

theorem Node.bounds_data (node : Node κ) : node.data.bounds = (node.firstIndex, node.lastIndex) := by
  cases node <;> rfl

namespace Arena

variable {arena : Arena κ} {forest front : List (Node κ)} {id : Nat}

/-- The arena holds all nodes of a forest. -/
structure Records (arena : Arena κ) (forest : List (Node κ)) : Prop where
  data : ∀ node ∈ descendantsOf forest, arena[node.id]?.map (·.data) = some node.data
  child : ∀ node ∈ descendantsOf forest, ∀ child ∈ node.children, arena.parent? child.id = some node.id
  root : ∀ node ∈ forest, arena.parent? node.id = none

theorem parent?_addLeaf (arena : Arena κ) (token id : Nat) :
    (arena.addLeaf token).parent? id = arena.parent? id := by
  rw [parent?, addLeaf, Array.getElem?_push, parent?]
  split
  · next same => simp [same]
  · rfl

theorem parent?_addRule {kind : κ} {first : Nat} {rest : List Nat} (made : id < arena.size) :
    (arena.addRule kind first rest).parent? id =
      if id ∈ first :: rest then some arena.size else arena.parent? id := by
  have old : id ≠ arena.size := Nat.ne_of_lt made
  rw [parent?, addRule, Array.getElem?_push, size_link, if_neg old, getElem?_link, parent?]
  rw [Array.getElem?_eq_getElem made]
  split <;> simp_all

theorem parent?_addRule_new (arena : Arena κ) (kind : κ) (first : Nat) (rest : List Nat) :
    (arena.addRule kind first rest).parent? arena.size = none := by
  rw [parent?, addRule, Array.getElem?_push, size_link, if_pos rfl]
  rfl

theorem data_addRule {kind : κ} {first : Nat} {rest : List Nat} (made : id < arena.size) :
    (arena.addRule kind first rest)[id]?.map (·.data) = arena[id]?.map (·.data) := by
  have old : id ≠ arena.size := Nat.ne_of_lt made
  rw [addRule, Array.getElem?_push, size_link, if_neg old, getElem?_link, Option.map_map]
  congr 1
  funext entry
  simp only [Function.comp_apply]
  split <;> rfl

section Records

variable (records : arena.Records forest) (made : ∀ node ∈ descendantsOf forest, node.id < arena.size)
include records made

theorem Records.addLeaf (index : Nat) (token : Token κ) :
    (arena.addLeaf index).Records (forest ++ [.leaf arena.size index token]) := by
  constructor
  case data =>
    intro node member
    rw [Node.descendantsOf_append, List.mem_append] at member
    rcases member with old | new
    · have inside := made node old
      rw [Arena.addLeaf, Array.getElem?_push, if_neg (Nat.ne_of_lt inside)]
      exact records.data node old
    · obtain rfl := List.mem_singleton.mp new
      rw [Arena.addLeaf, Array.getElem?_push, Node.id, if_pos rfl]
      rfl
  case child =>
    intro node member child isChild
    rw [Node.descendantsOf_append, List.mem_append] at member
    rw [parent?_addLeaf]
    rcases member with old | new
    · exact records.child node old child isChild
    · obtain rfl := List.mem_singleton.mp new
      cases isChild
  case root =>
    intro node member
    rw [parent?_addLeaf]
    rcases List.mem_append.mp member with old | new
    · exact records.root node old
    · obtain rfl := List.mem_singleton.mp new
      simp [parent?, Node.id]

end Records

theorem mem_descendantsOf_rule {node : Node κ} {id : Nat} {kind : κ} {first : Node κ} {rest : List (Node κ)}
    (member : node ∈ descendantsOf (front ++ [.rule id kind first rest])) :
    node ∈ descendantsOf (front ++ first :: rest) ∨ node = .rule id kind first rest := by
  simp only [Node.descendantsOf_append, descendantsOf, Node.descendants, List.append_nil, List.mem_append,
    List.mem_cons] at member ⊢
  tauto

theorem bounds?_of_data {node : Node κ} (held : arena[node.id]?.map (·.data) = some node.data) :
    arena.bounds? node.id = some (node.firstIndex, node.lastIndex) := by
  have mapped := congrArg (Option.map NodeData.bounds) held
  rw [Option.map_map, Option.map_some, Node.bounds_data] at mapped
  exact mapped

/-- The children of a new rule were roots, so that no link is lost. -/
theorem Records.addRule {first : Node κ} {rest : List (Node κ)} (records : arena.Records (front ++ first :: rest))
    (made : ∀ node ∈ descendantsOf (front ++ first :: rest), node.id < arena.size)
    (different : (idsOf (front ++ first :: rest)).Nodup) (kind : κ) :
    (arena.addRule kind first.id (rest.map Node.id)).Records (front ++ [.rule arena.size kind first rest]) := by
  have listed {node : Node κ} (member : node ∈ front ++ first :: rest) :
      node ∈ descendantsOf (front ++ first :: rest) := by
    rw [Node.descendantsOf_eq_flatMap]
    exact (Node.sublist_descendants _).subset member
  have linked (id : Nat) : id ∈ first.id :: rest.map Node.id ↔ ∃ node ∈ first :: rest, node.id = id := by
    rw [← List.map_cons, List.mem_map]
  constructor
  case data =>
    intro node member
    rcases mem_descendantsOf_rule member with old | rfl
    · rw [data_addRule (made node old)]
      exact records.data node old
    · have atFirst := bounds?_of_data (records.data first (listed (by simp)))
      obtain ⟨last, isLast⟩ : ∃ last, (first :: rest).getLast? = some last :=
        ⟨_, List.getLast?_eq_some_getLast (List.cons_ne_nil first rest)⟩
      have lastIn : last ∈ front ++ first :: rest := List.mem_append_right _ (List.mem_of_getLast? isLast)
      have atLast := bounds?_of_data (records.data last (listed lastIn))
      have lastId : (rest.map Node.id).getLastD first.id = last.id := by
        have mapped := congrArg (Option.map Node.id) isLast
        rw [← List.getLast?_map, List.map_cons, List.getLast?_cons] at mapped
        rw [List.getLastD_eq_getLast?]
        exact Option.some.inj mapped
      have stop : last.lastIndex = (Node.rule arena.size kind first rest).lastIndex := Node.lastIndex_of_getLast isLast
      rw [Arena.addRule, Array.getElem?_push, size_link, Node.id, if_pos rfl, lastId, atFirst, atLast, Node.data,
        ← stop]
      rfl
  case child =>
    intro node member child isChild
    rcases mem_descendantsOf_rule member with old | rfl
    · have below := Node.descendantsOf_child old isChild
      have link := records.child node old child isChild
      rw [parent?_addRule (made child below), if_neg, link]
      rintro among
      obtain ⟨root, isRoot, same⟩ := (linked _).mp among
      have none := records.root root (List.mem_append_right _ isRoot)
      rw [same, link] at none
      cases none
    · have among : child ∈ first :: rest := isChild
      rw [parent?_addRule (made child (listed (List.mem_append_right _ among))), if_pos]
      · rfl
      · exact (linked _).mpr ⟨child, among, rfl⟩
  case root =>
    intro node member
    rcases List.mem_append.mp member with old | new
    · have isRoot := List.mem_append_left (first :: rest) old
      rw [parent?_addRule (made node (listed isRoot)), if_neg]
      · exact records.root node isRoot
      · intro among
        obtain ⟨other, isOther, same⟩ := (linked _).mp among
        rw [idsOf, Node.descendantsOf_append, List.map_append] at different
        have inFront {node : Node κ} {nodes : List (Node κ)} (member : node ∈ nodes) :
            node.id ∈ (descendantsOf nodes).map Node.id := by
          rw [Node.descendantsOf_eq_flatMap]
          exact List.mem_map_of_mem ((Node.sublist_descendants _).subset member)
        exact (List.nodup_append.mp different).2.2 _ (inFront old) _ (inFront isOther) same.symm
    · obtain rfl := List.mem_singleton.mp new
      exact parent?_addRule_new ..

end Arena

namespace Builder

/-- The nodes that hang below no other, finished and not, from left to right. -/
def roots (b : Builder κ) : List (Node κ) := b.across fun nodes => nodes

theorem across_eq_roots {β : Type} {read : List (Node κ) → List β} (empty : read [] = [])
    (append : ∀ xs ys, read (xs ++ ys) = read xs ++ read ys) (b : Builder κ) :
    b.across read = read b.roots := by
  rw [across, roots, across, append]
  congr 1
  induction b.openNodes.reverse with
  | nil => exact empty.symm
  | cons node outer ih => rw [List.flatMap_cons, List.flatMap_cons, append, ih]

theorem roots_push (b : Builder κ) (node : Node κ) : (b.push node).roots = b.roots ++ [node] :=
  across_push (fun _ _ => rfl) b node

theorem Ordered.numbers {b : Builder κ} (ordered : b.Ordered) :
    (postOrderOf b.roots).map Node.id = List.range b.arena.size := by
  have same : numbersOf b.roots = b.across numbersOf := (across_eq_roots rfl numbersOf_append b).symm
  exact same.trans ordered

def Recorded (b : Builder κ) : Prop := b.arena.Records b.roots

theorem recorded_ofText (source : String) : (ofText source : Builder κ).Recorded where
  data := fun _ member => nomatch member
  child := fun _ member => nomatch member
  root := fun _ member => nomatch member

variable {b : Builder κ}

theorem Recorded.token (recorded : b.Recorded) (ordered : b.Ordered) (token : Token κ) :
    (b.token token).Recorded := by
  have made (node : Node κ) (member : node ∈ descendantsOf b.roots) : node.id < b.arena.size :=
    List.mem_range.mp (Node.id_mem_range ordered.numbers member)
  unfold Recorded
  rw [Builder.token, roots_push, arena_push]
  exact recorded.addLeaf made b.tokens.size token

theorem Recorded.finishNode (recorded : b.Recorded) (ordered : b.Ordered) : b.finishNode.1.Recorded := by
  unfold Recorded at recorded ⊢
  unfold Builder.finishNode
  split
  · exact recorded
  · next outer shape =>
    have same : roots { b with openNodes := outer } = b.roots := by simp [roots, across, shape]
    rw [same]
    exact recorded
  · next kind first rest outer shape =>
    have split : b.roots = roots { b with openNodes := outer } ++ first :: rest := by
      simp [roots, across, shape]
    have different := Node.idsOf_nodup ordered.numbers
    have made (node : Node κ) (member : node ∈ descendantsOf b.roots) : node.id < b.arena.size :=
      List.mem_range.mp (Node.id_mem_range ordered.numbers member)
    rw [split] at recorded different made
    rw [roots_push, arena_push]
    exact recorded.addRule made different kind

theorem Recorded.call (recorded : b.Recorded) (ordered : b.Ordered) : ∀ call : Call κ, (b.call call).Recorded
  | .startNode kind => by
    unfold Recorded roots
    rw [Builder.call, across_startNode rfl]
    exact recorded
  | .token token => recorded.token ordered token
  | .finishNode => recorded.finishNode ordered
  | .checkpoint => recorded
  | .startNodeAt mark kind => by
    unfold Recorded roots
    rw [Builder.call, across_startNodeAt (fun _ _ => rfl), arena_startNodeAt]
    exact recorded

theorem Recorded.run (recorded : b.Recorded) (inOrder : b.InOrder) (calls : List (Call κ)) :
    (b.run calls).Recorded := by
  induction calls generalizing b with
  | nil => exact recorded
  | cons call calls ih => exact ih (recorded.call inOrder.ordered call) (inOrder.call call)

theorem Recorded.finishNodes (recorded : b.Recorded) (inOrder : b.InOrder) (n : Nat) :
    (finishNodes n b).Recorded := by
  induction n generalizing b with
  | zero => exact recorded
  | succ n ih => exact ih (recorded.finishNode inOrder.ordered) (inOrder.call .finishNode)

end Builder

namespace Arena

/-- The arena holds the nodes of a forest and nothing else. -/
structure Holds (arena : Arena κ) (forest : List (Node κ)) : Prop where
  records : arena.Records forest
  numbers : (postOrderOf forest).map Node.id = List.range arena.size

variable {arena : Arena κ} {forest : List (Node κ)} {node : Node κ} {id : Nat}

theorem size_le_of_missing (missing : ¬id < arena.size) : arena[id]? = none :=
  Array.getElem?_eq_none (Nat.not_lt.mp missing)

theorem lt_size_of_child {child : Nat} (isChild : child ∈ arena.children id) : id < arena.size := by
  by_contra missing
  rw [children, size_le_of_missing missing] at isChild
  cases isChild

theorem lt_size_of_parent {parent : Nat} (isParent : arena.parent? id = some parent) : id < arena.size := by
  by_contra missing
  rw [parent?, size_le_of_missing missing] at isParent
  cases isParent

section Holds

variable (holds : arena.Holds forest)
include holds

theorem Holds.different : (idsOf forest).Nodup := Node.idsOf_nodup holds.numbers

theorem Holds.exists_node (made : id < arena.size) : ∃ node ∈ descendantsOf forest, node.id = id := by
  have listed : id ∈ (postOrderOf forest).map Node.id := by
    rw [holds.numbers]
    exact List.mem_range.mpr made
  obtain ⟨node, member, same⟩ := List.mem_map.mp listed
  exact ⟨node, (Node.postOrderOf_perm forest).mem_iff.mp member, same⟩

theorem Holds.entry (made : node ∈ descendantsOf forest) :
    ∃ parent, arena[node.id]? = some ⟨node.data, parent⟩ := by
  obtain ⟨⟨data, parent⟩, found, rfl⟩ := Option.map_eq_some_iff.mp (holds.records.data node made)
  exact ⟨parent, found⟩

theorem Holds.children_eq (made : node ∈ descendantsOf forest) :
    arena.children node.id = node.children.map Node.id := by
  obtain ⟨parent, found⟩ := holds.entry made
  rw [children, found]
  cases node <;> rfl

theorem Holds.token?_eq (made : node ∈ descendantsOf forest) :
    arena.token? node.id = node.entry?.map Prod.snd := by
  obtain ⟨parent, found⟩ := holds.entry made
  rw [token?, found]
  cases node <;> rfl

theorem Holds.bounds?_eq (made : node ∈ descendantsOf forest) :
    arena.bounds? node.id = some (node.firstIndex, node.lastIndex) :=
  bounds?_of_data (holds.records.data node made)

theorem Holds.parent?_iff (id parent : Nat) : arena.parent? id = some parent ↔ id ∈ arena.children parent := by
  constructor
  · intro isParent
    obtain ⟨node, made, rfl⟩ := holds.exists_node (lt_size_of_parent isParent)
    obtain ⟨site, here, rfl⟩ := exists_site made
    rcases mem_sitesIn here with ⟨root, isRoot, rfl⟩ | ⟨upper, found, isChild⟩
    · rw [Site.ofNode, holds.records.root root isRoot] at isParent
      cases isParent
    · have above := node_mem_descendantsOf found
      have hangs := Site.node_of_child isChild
      rw [holds.records.child upper.node above site.node hangs] at isParent
      obtain rfl := Option.some.inj isParent
      rw [holds.children_eq above]
      exact List.mem_map_of_mem hangs
  · intro isChild
    obtain ⟨node, made, rfl⟩ := holds.exists_node (lt_size_of_child isChild)
    rw [holds.children_eq made] at isChild
    obtain ⟨child, hangs, rfl⟩ := List.mem_map.mp isChild
    exact holds.records.child node made child hangs

theorem Holds.older {child : Nat} (isChild : child ∈ arena.children id) : child < id := by
  obtain ⟨node, made, rfl⟩ := holds.exists_node (lt_size_of_child isChild)
  rw [holds.children_eq made] at isChild
  obtain ⟨below, hangs, rfl⟩ := List.mem_map.mp isChild
  exact Node.child_id_lt holds.numbers made hangs

theorem Holds.children_nodup (id : Nat) : (arena.children id).Nodup := by
  by_cases made : id < arena.size
  · obtain ⟨node, isMade, rfl⟩ := holds.exists_node made
    rw [holds.children_eq isMade]
    exact children_different holds.different isMade
  · rw [children, size_le_of_missing made]
    exact List.nodup_nil

end Holds

/-! The way up. Parents are younger than their children, so that it comes to an end. -/

theorem climb_succ (upward : ∀ id parent, arena.parent? id = some parent → id < parent) (count id : Nat)
    (enough : arena.size ≤ id + count) : arena.climb (count + 1) id = arena.climb count id := by
  induction count generalizing id with
  | zero =>
    have missing : arena[id]? = none := size_le_of_missing (Nat.not_lt.mpr enough)
    simp [climb, parent?, missing]
  | succ count ih =>
    rw [climb, climb]
    cases isParent : arena.parent? id with
    | none => rfl
    | some parent =>
      have more := upward id parent isParent
      exact congrArg (parent :: ·) (ih parent (by omega))

theorem ancestors_eq (upward : ∀ id parent, arena.parent? id = some parent → id < parent) (id : Nat) :
    arena.ancestors id = match arena.parent? id with
      | some parent => parent :: arena.ancestors parent
      | none => [] := by
  rw [ancestors, ← climb_succ upward _ _ (Nat.le_add_left _ _), climb]
  rfl

theorem length_climb (upward : ∀ id parent, arena.parent? id = some parent → id < parent ∧ parent < arena.size)
    (count : Nat) {id : Nat} (made : id < arena.size) : (arena.climb count id).length + id < arena.size := by
  induction count generalizing id with
  | zero => simpa [climb] using made
  | succ count ih =>
    rw [climb]
    cases isParent : arena.parent? id with
    | none => simpa using made
    | some parent =>
      obtain ⟨more, inside⟩ := upward id parent isParent
      have rest := ih inside
      simp only [List.length_cons]
      omega

/-! The walk down. -/

theorem Holds.walk_eq (holds : arena.Holds forest) (count : Nat) (nodes : List (Node κ))
    (made : ∀ node ∈ nodes, node ∈ descendantsOf forest) (enough : (descendantsOf nodes).length ≤ count) :
    arena.walk count (nodes.map Node.id) = (descendantsOf nodes).map Node.id := by
  induction count generalizing nodes with
  | zero =>
    cases nodes with
    | nil => rfl
    | cons node rest =>
      rw [descendantsOf, Node.descendants_eq] at enough
      simp at enough
  | succ count ih =>
    cases nodes with
    | nil => rfl
    | cons node rest =>
      have split : descendantsOf (node :: rest) = node :: descendantsOf (node.children ++ rest) := by
        rw [descendantsOf, Node.descendants_eq, Node.descendantsOf_append,
          Node.descendantsOf_eq_flatMap node.children, List.cons_append]
      rw [List.forall_mem_cons] at made
      have below : ∀ other ∈ node.children ++ rest, other ∈ descendantsOf forest := by
        intro other member
        rcases List.mem_append.mp member with isChild | later
        · exact Node.descendantsOf_child made.1 isChild
        · exact made.2 other later
      rw [split] at enough ⊢
      rw [List.map_cons, walk, holds.children_eq made.1, ← List.map_append, ih _ below, List.map_cons]
      simpa using enough

theorem Holds.descendants_eq (holds : arena.Holds forest) {node : Node κ} (made : node ∈ descendantsOf forest) :
    arena.descendants node.id = node.descendants.map Node.id := by
  have whole : descendantsOf [node] = node.descendants := List.append_nil _
  have few : (node.descendants.map Node.id).length ≤ arena.size := by
    have once : (node.descendants.map Node.id).Nodup :=
      ((Node.descendantsOf_among _ made).sublist.map _).nodup holds.different
    have inside : node.descendants.map Node.id ⊆ List.range arena.size := by
      intro id member
      obtain ⟨other, below, rfl⟩ := List.mem_map.mp member
      exact Node.id_mem_range holds.numbers ((Node.descendantsOf_among _ made).subset below)
    have fewer := (List.subperm_of_subset once inside).length_le
    rwa [List.length_range] at fewer
  have walked := holds.walk_eq arena.size [node] (by simpa using made) (by simpa [whole] using few)
  rw [whole] at walked
  exact walked

/-! The siblings. -/

theorem scanBefore_of_split {id : Nat} {front back : List Nat} (before : Option Nat) (absent : id ∉ front) :
    scanBefore id before (front ++ id :: back) = front.getLast?.or before := by
  induction front generalizing before with
  | nil => simp [scanBefore]
  | cons other front ih =>
    rw [List.mem_cons, not_or] at absent
    rw [List.cons_append, scanBefore, if_neg (Ne.symm absent.1), ih _ absent.2, List.getLast?_cons]
    cases front.getLast? <;> rfl

section Siblings

variable (holds : arena.Holds forest)
include holds

theorem Holds.siblings_of_split {parent id : Nat} {front back : List Nat}
    (split : arena.children parent = front ++ id :: back) :
    arena.prevSibling? id = front.getLast? ∧ arena.nextSibling? id = back.head? := by
  have isParent : arena.parent? id = some parent := (holds.parent?_iff id parent).mpr (by simp [split])
  have once := holds.children_nodup parent
  rw [split] at once
  have absent : id ∉ front := fun member =>
    (List.nodup_append.mp once).2.2 id member id (List.mem_cons_self ..) rfl
  constructor
  · rw [prevSibling?, isParent]
    simp [split, scanBefore_of_split none absent]
  · have passed : (front ++ id :: back).dropWhile (· != id) = id :: back := by
      rw [List.dropWhile_append_of_pos]
      · simp
      · intro other member
        simpa using fun same : other = id => absent (same ▸ member)
    rw [nextSibling?, isParent]
    simp [split, passed, List.head?_eq_getElem?]

theorem Holds.prevSibling?_iff (id other : Nat) : arena.prevSibling? id = some other ↔
    ∃ parent front back, arena.children parent = front ++ other :: id :: back := by
  constructor
  · intro found
    cases isParent : arena.parent? id with
    | none => simp [prevSibling?, isParent] at found
    | some parent =>
      obtain ⟨front, back, split⟩ := List.append_of_mem ((holds.parent?_iff id parent).mp isParent)
      rw [(holds.siblings_of_split split).1] at found
      obtain ⟨rest, rfl⟩ := List.getLast?_eq_some_iff.mp found
      exact ⟨parent, rest, back, by rw [split, List.append_assoc, List.singleton_append]⟩
  · rintro ⟨parent, front, back, split⟩
    rw [← List.singleton_append, ← List.append_assoc] at split
    rw [(holds.siblings_of_split split).1, List.getLast?_concat]

theorem Holds.nextSibling?_iff (id other : Nat) : arena.nextSibling? id = some other ↔
    ∃ parent front back, arena.children parent = front ++ id :: other :: back := by
  constructor
  · intro found
    cases isParent : arena.parent? id with
    | none => simp [nextSibling?, isParent] at found
    | some parent =>
      obtain ⟨front, back, split⟩ := List.append_of_mem ((holds.parent?_iff id parent).mp isParent)
      rw [(holds.siblings_of_split split).2] at found
      obtain ⟨rest, rfl⟩ := List.head?_eq_some_iff.mp found
      exact ⟨parent, front, rest, split⟩
  · rintro ⟨parent, front, back, split⟩
    rw [(holds.siblings_of_split split).2, List.head?_cons]

end Siblings

end Arena

/-- The nodes of an arena over `tokenCount` tokens stand well among the tokens and among each other. -/
structure Arena.WellFormed (arena : Arena κ) (tokenCount : Nat) : Prop where
  nonempty : ∀ (id : Nat) (kind : κ) (first last : Nat) (children : List Nat) (parent : Option Nat),
    arena[id]? = some ⟨.rule kind first last children, parent⟩ → children ≠ []
  within : ∀ id first last, arena.bounds? id = some (first, last) → first ≤ last ∧ last < tokenCount
  startsWith : ∀ id, ∀ child ∈ (arena.children id).head?,
    (arena.bounds? child).map Prod.fst = (arena.bounds? id).map Prod.fst
  consecutive : ∀ id, (arena.children id).IsChain fun left right =>
    ∃ first last next, arena.bounds? left = some (first, last) ∧ arena.bounds? right = some (last + 1, next)
  endsWith : ∀ id, ∀ child ∈ (arena.children id).getLast?,
    (arena.bounds? child).map Prod.snd = (arena.bounds? id).map Prod.snd
  older : ∀ id, ∀ child ∈ arena.children id, child < id
  parent : ∀ id parent, arena.parent? id = some parent ↔ id ∈ arena.children parent
  childrenOnce : ∀ id, (arena.children id).Nodup
  preOrder : ∀ id < arena.size, arena.descendants id = id :: (arena.children id).flatMap arena.descendants
  below : ∀ id < arena.size, ∀ other, other ∈ arena.descendants id ↔
    Relation.ReflTransGen (fun upper lower => lower ∈ arena.children upper) id other
  once : ∀ id < arena.size, (arena.descendants id).Nodup
  spelled : ∀ id first last, arena.bounds? id = some (first, last) →
    (arena.descendants id).filterMap arena.token? = List.range' first (last + 1 - first)
  ancestors : ∀ id, arena.ancestors id = match arena.parent? id with
    | some parent => parent :: arena.ancestors parent
    | none => []
  finite : ∀ id < arena.size, (arena.ancestors id).length < arena.size
  inverse : ∀ id other, arena.nextSibling? id = some other ↔ arena.prevSibling? other = some id

/-- What a site tells about its node is what the arena of the tree holds. -/
structure Site.Agrees (site : Site κ) (tree : Tree κ) : Prop where
  tokens : ∃ first last, tree.arena.bounds? site.node.id = some (first, last) ∧
    site.node.tokens = (tree.tokens.drop first).take (last + 1 - first)
  children : tree.arena.children site.node.id = site.node.children.map Node.id
  parent : tree.arena.parent? site.node.id = site.parent?.map Node.id
  ancestors : tree.arena.ancestors site.node.id = site.ancestors.map Node.id
  descendants : tree.arena.descendants site.node.id = site.node.descendants.map Node.id
  before : tree.arena.prevSibling? site.node.id = site.before.map Node.id
  after : tree.arena.nextSibling? site.node.id = site.after.map Node.id

/-- The arena of the tree is well formed, and the sites that are met on a walk over the tree agree with
it. The root hangs below nothing and reaches to the last token. -/
structure Tree.WellFormed (tree : Tree κ) : Prop where
  arena : tree.arena.WellFormed tree.tokens.length
  sites : ∀ site ∈ tree.sites, site.Agrees tree
  root : ∀ root ∈ tree.root, tree.arena.parent? root.id = none ∧
    ∃ first last, tree.arena.bounds? root.id = some (first, last) ∧ last + 1 = tree.tokens.length

section WellFormed

variable {arena : Arena κ} {forest : List (Node κ)} {tokens : List (Token κ)}

theorem Arena.Holds.mem_descendants_iff (holds : arena.Holds forest) {node : Node κ}
    (made : node ∈ descendantsOf forest) (other : Nat) : other ∈ arena.descendants node.id ↔
      Relation.ReflTransGen (fun upper lower => lower ∈ arena.children upper) node.id other := by
  have inside {below : Node κ} (member : below ∈ node.descendants) : below ∈ descendantsOf forest :=
    (Node.descendantsOf_among _ made).subset member
  rw [holds.descendants_eq made, List.mem_map]
  constructor
  · rintro ⟨below, member, rfl⟩
    induction (node.mem_descendants_iff below).mp member with
    | refl => exact .refl
    | @tail upper lower way hangs ih =>
      have isUpper := (node.mem_descendants_iff upper).mpr way
      refine (ih isUpper).tail ?_
      rw [holds.children_eq (inside isUpper)]
      exact List.mem_map_of_mem hangs
  · intro way
    induction way with
    | refl => exact ⟨node, node.mem_descendants, rfl⟩
    | tail _ isChild ih =>
      obtain ⟨upper, member, rfl⟩ := ih
      rw [holds.children_eq (inside member)] at isChild
      obtain ⟨lower, hangs, rfl⟩ := List.mem_map.mp isChild
      refine ⟨lower, ?_, rfl⟩
      rw [node.mem_descendants_iff] at member ⊢
      exact member.tail hangs

theorem Arena.Holds.spelled (holds : arena.Holds forest) (leaves : leavesOf forest = tokens.zipIdx) {node : Node κ}
    (made : node ∈ descendantsOf forest) : (arena.descendants node.id).filterMap arena.token? =
      List.range' node.firstIndex (node.lastIndex + 1 - node.firstIndex) := by
  have places : (arena.descendants node.id).filterMap arena.token? = (leavesOf [node]).map Prod.snd := by
    rw [holds.descendants_eq made, List.filterMap_map, Node.leavesOf_singleton, List.map_filterMap]
    refine List.filterMap_congr fun below member => ?_
    exact holds.token?_eq ((Node.descendantsOf_among _ made).subset member)
  obtain ⟨order, bound, slice⟩ := Node.leaves_eq_slice (leaves ▸ Node.leavesOf_among made)
  have width : node.firstIndex + (node.lastIndex + 1 - node.firstIndex) ≤ tokens.length := by omega
  rw [places, slice, List.map_take, List.map_drop, List.zipIdx_map_snd, List.drop_range', Nat.mul_one,
    Nat.zero_add]
  refine List.ext_getElem (by simp; omega) fun i _ _ => by simp

theorem Arena.Holds.consecutive (holds : arena.Holds forest) (leaves : leavesOf forest = tokens.zipIdx) {node : Node κ}
    (made : node ∈ descendantsOf forest) : (arena.children node.id).IsChain fun left right =>
      ∃ first last next, arena.bounds? left = some (first, last) ∧ arena.bounds? right = some (last + 1, next) := by
  have among : leavesOf [node] <:+: tokens.zipIdx := leaves ▸ Node.leavesOf_among made
  rw [holds.children_eq made, List.isChain_map]
  refine (Node.children_consecutive among).imp_of_mem_imp fun left right isLeft isRight behind => ?_
  refine ⟨left.firstIndex, left.lastIndex, right.lastIndex, ?_, ?_⟩
  · exact holds.bounds?_eq (Node.descendantsOf_child made isLeft)
  · rw [← behind]
    exact holds.bounds?_eq (Node.descendantsOf_child made isRight)

/-- An arena that holds a forest over the tokens is well formed. -/
theorem Arena.Holds.wellFormed (holds : arena.Holds forest) (leaves : leavesOf forest = tokens.zipIdx) :
    arena.WellFormed tokens.length := by
  have among {node : Node κ} (made : node ∈ descendantsOf forest) : leavesOf [node] <:+: tokens.zipIdx :=
    leaves ▸ Node.leavesOf_among made
  have node {id first last : Nat} (found : arena.bounds? id = some (first, last)) :
      ∃ node ∈ descendantsOf forest, node.id = id ∧ node.firstIndex = first ∧ node.lastIndex = last := by
    have inside : id < arena.size := by
      by_contra missing
      rw [bounds?, size_le_of_missing missing] at found
      cases found
    obtain ⟨node, made, rfl⟩ := holds.exists_node inside
    rw [holds.bounds?_eq made] at found
    cases found
    exact ⟨node, made, rfl, rfl, rfl⟩
  have upward (id parent : Nat) (isParent : arena.parent? id = some parent) :
      id < parent ∧ parent < arena.size := by
    have isChild := (holds.parent?_iff id parent).mp isParent
    exact ⟨holds.older isChild, lt_size_of_child isChild⟩
  constructor
  case nonempty =>
    intro id kind first last children parent found
    have inside : id < arena.size := (Array.getElem?_eq_some_iff.mp found).1
    obtain ⟨node, made, rfl⟩ := holds.exists_node inside
    obtain ⟨parent', found'⟩ := holds.entry made
    rw [found] at found'
    cases node with
    | leaf id index token => cases found'
    | rule id kind front rest =>
      cases found'
      exact List.cons_ne_nil _ _
  case within =>
    intro id first last found
    obtain ⟨node, made, rfl, rfl, rfl⟩ := node found
    obtain ⟨order, bound, -⟩ := Node.leaves_eq_slice (among made)
    exact ⟨order, bound⟩
  case startsWith =>
    intro id child isFirst
    obtain ⟨node, made, rfl⟩ := holds.exists_node (lt_size_of_child (List.mem_of_head? isFirst))
    rw [holds.children_eq made, List.head?_map] at isFirst
    obtain ⟨below, isHead, rfl⟩ := Option.map_eq_some_iff.mp isFirst
    have hangs : below ∈ node.children := List.mem_of_head? isHead
    rw [holds.bounds?_eq made, holds.bounds?_eq (Node.descendantsOf_child made hangs)]
    exact congrArg some (Node.firstIndex_of_head isHead)
  case consecutive =>
    intro id
    by_cases inside : id < arena.size
    · obtain ⟨node, made, rfl⟩ := holds.exists_node inside
      exact holds.consecutive leaves made
    · rw [children, size_le_of_missing inside]
      exact List.isChain_nil
  case endsWith =>
    intro id child isLast
    obtain ⟨node, made, rfl⟩ := holds.exists_node (lt_size_of_child (List.mem_of_getLast? isLast))
    rw [holds.children_eq made, List.getLast?_map] at isLast
    obtain ⟨below, isBelow, rfl⟩ := Option.map_eq_some_iff.mp isLast
    have hangs : below ∈ node.children := List.mem_of_getLast? isBelow
    rw [holds.bounds?_eq made, holds.bounds?_eq (Node.descendantsOf_child made hangs)]
    exact congrArg some (Node.lastIndex_of_getLast isBelow)
  case older => exact fun id child => holds.older
  case parent => exact holds.parent?_iff
  case childrenOnce => exact holds.children_nodup
  case preOrder =>
    intro id inside
    obtain ⟨node, made, rfl⟩ := holds.exists_node inside
    rw [holds.descendants_eq made, node.descendants_eq, holds.children_eq made, List.map_cons, List.map_flatMap,
      List.flatMap_map]
    refine congrArg (node.id :: ·) (List.flatMap_congr fun child hangs => ?_)
    exact (holds.descendants_eq (Node.descendantsOf_child made hangs)).symm
  case below =>
    intro id inside
    obtain ⟨node, made, rfl⟩ := holds.exists_node inside
    exact holds.mem_descendants_iff made
  case once =>
    intro id inside
    obtain ⟨node, made, rfl⟩ := holds.exists_node inside
    rw [holds.descendants_eq made]
    exact ((Node.descendantsOf_among _ made).sublist.map _).nodup holds.different
  case spelled =>
    intro id first last found
    obtain ⟨node, made, rfl, rfl, rfl⟩ := node found
    exact holds.spelled leaves made
  case ancestors => exact ancestors_eq fun id parent isParent => (upward id parent isParent).1
  case finite => exact fun id made => Nat.lt_of_le_of_lt (Nat.le_add_right _ _) (length_climb upward _ made)
  case inverse =>
    intro id other
    rw [holds.nextSibling?_iff, holds.prevSibling?_iff]

theorem Arena.Holds.ancestors_eq {tree : Tree κ} (holds : tree.arena.Holds forest)
    (wellFormed : tree.arena.WellFormed tree.tokens.length) {site : Site κ} (here : site ∈ sitesIn forest) :
    tree.arena.ancestors site.node.id = site.ancestors.map Node.id := by
  -- The induction goes up from the site: its parent's site has one node fewer above it.
  induction above : site.ancestors generalizing site with
  | nil =>
    rcases mem_sitesIn here with ⟨root, isRoot, rfl⟩ | ⟨upper, -, isChild⟩
    · rw [wellFormed.ancestors, Site.ofNode, holds.records.root root isRoot]
      rfl
    · rw [Site.ancestors_of_child isChild] at above
      cases above
  | cons parent rest ih =>
    rcases mem_sitesIn here with ⟨root, -, rfl⟩ | ⟨upper, found, isChild⟩
    · cases above
    · rw [Site.ancestors_of_child isChild] at above
      obtain ⟨rfl, rfl⟩ := List.cons_eq_cons.mp above
      have link := holds.records.child upper.node (node_mem_descendantsOf found) site.node
        (Site.node_of_child isChild)
      rw [wellFormed.ancestors, link, List.map_cons]
      exact congrArg (upper.node.id :: ·) (ih found rfl)

theorem Arena.Holds.siblings_eq (holds : arena.Holds forest) {site : Site κ} (here : site ∈ sitesIn forest) :
    arena.prevSibling? site.node.id = site.before.map Node.id ∧
      arena.nextSibling? site.node.id = site.after.map Node.id := by
  rcases mem_sitesIn here with ⟨root, isRoot, rfl⟩ | ⟨upper, found, isChild⟩
  · have alone : arena.parent? (Site.ofNode root).node.id = none := holds.records.root root isRoot
    rw [prevSibling?, nextSibling?, alone]
    exact ⟨rfl, rfl⟩
  · obtain ⟨front, back, split, -, left, right⟩ := Site.mem_row isChild
    rw [Option.or_none] at left
    have numbers := holds.children_eq (node_mem_descendantsOf found)
    rw [split, List.map_append, List.map_cons] at numbers
    obtain ⟨previous, next⟩ := holds.siblings_of_split numbers
    rw [previous, next, left, right, List.getLast?_map, List.head?_map]
    exact ⟨rfl, rfl⟩

theorem Arena.Holds.agrees {tree : Tree κ} (holds : tree.arena.Holds forest)
    (leaves : leavesOf forest = tree.tokens.zipIdx) {site : Site κ} (here : site ∈ sitesIn forest) :
    site.Agrees tree := by
  have made := node_mem_descendantsOf here
  constructor
  case tokens =>
    obtain ⟨-, -, slice⟩ := Node.leaves_eq_slice (leaves ▸ Node.leavesOf_among made)
    refine ⟨_, _, holds.bounds?_eq made, ?_⟩
    have tokens := congrArg (List.map Prod.fst) slice
    rw [Node.map_fst_leavesOf, List.map_take, List.map_drop, List.zipIdx_map_fst] at tokens
    rw [← tokens]
    exact (List.append_nil _).symm
  case children => exact holds.children_eq made
  case parent =>
    rcases mem_sitesIn here with ⟨root, isRoot, rfl⟩ | ⟨upper, found, isChild⟩
    · exact holds.records.root root isRoot
    · rw [Site.parent?, Site.ancestors_of_child isChild]
      exact holds.records.child _ (node_mem_descendantsOf found) _ (Site.node_of_child isChild)
  case ancestors => exact holds.ancestors_eq (holds.wellFormed leaves) here
  case descendants => exact holds.descendants_eq made
  case before => exact (holds.siblings_eq here).1
  case after => exact (holds.siblings_eq here).2

end WellFormed

/-- Whatever is called on a builder, it yields a well-formed tree over the tokens it was given. -/
theorem Builder.finish_wellFormed (source : String) (calls : List (Call κ)) :
    ((ofText source).run calls).finish.WellFormed ∧
      ((ofText source).run calls).finish.tokens = calls.filterMap Call.token? := by
  have start : (ofText source : Builder κ).InOrder := ⟨complete_ofText source, ordered_ofText source⟩
  generalize isBuilder : (ofText source).run calls = b
  have inOrder : b.InOrder := isBuilder ▸ start.run calls
  have recorded : b.Recorded := isBuilder ▸ (recorded_ofText source).run start calls
  have closed := inOrder.finishNodes b.openNodes.length
  have holds : b.finish.arena.Holds (b.finishNodes b.openNodes.length).roots :=
    ⟨recorded.finishNodes inOrder _, closed.ordered.numbers⟩
  have top : (b.finishNodes b.openNodes.length).roots = (b.finishNodes b.openNodes.length).top := by
    rw [roots, across, openNodes_finishNodes, List.reverse_nil, List.flatMap_nil, List.append_nil]
  have leaves : leavesOf (b.finishNodes b.openNodes.length).top = b.finish.tokens.zipIdx := by
    have complete := closed.complete
    rw [Complete, Builder.leaves, openNodes_finishNodes, List.reverse_nil, List.flatMap_nil,
      List.append_nil] at complete
    exact complete
  rw [top] at holds
  have rooted {root : Node κ} (isRoot : b.finish.root = some root) :
      ∃ front, (b.finishNodes b.openNodes.length).top = front ++ [root] := List.getLast?_eq_some_iff.mp isRoot
  refine ⟨⟨holds.wellFormed leaves, fun site here => ?_, fun root isRoot => ?_⟩, ?_⟩
  · refine holds.agrees leaves ?_
    rw [Tree.sites] at here
    split at here
    · next root isRoot =>
      obtain ⟨front, isTop⟩ := rooted isRoot
      exact List.mem_flatMap.mpr ⟨root, by rw [isTop]; simp, here⟩
    · cases here
  · obtain ⟨front, isTop⟩ := rooted isRoot
    rw [isTop] at holds leaves
    have made : root ∈ descendantsOf (front ++ [root]) := by
      rw [Node.descendantsOf_append]
      exact List.mem_append_right _ (List.mem_append_left _ root.mem_descendants)
    have whole : b.finish.tokens.zipIdx = leavesOf front ++ leavesOf [root] ++ [] := by
      rw [← leaves, Node.leavesOf_append, List.append_nil]
    have last := (Node.places_of_split whole).2
    rw [List.append_nil] at whole
    rw [← whole, List.length_zipIdx] at last
    exact ⟨holds.records.root root (by simp), _, _, holds.bounds?_eq made, last⟩
  · rw [finish, tokens_finishNodes, ← isBuilder, tokens_run]
    rfl

end SqlFerry
