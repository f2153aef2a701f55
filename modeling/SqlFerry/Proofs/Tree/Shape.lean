import SqlFerry.Proofs.Tree.Builder
import SqlFerry.Proofs.Tree.Sites

/-! The shape of a tree: what is left of it without the numbers of its nodes and the positions of its
tokens. While a tree is built, the open nodes hold one another; `around` lists for each of them, from
the inside, its kind and what stands in front of it in the next one. -/
namespace SqlFerry

inductive Shape (κ : Type) where
  | leaf (kind : κ) (text : String)
  | rule (kind : κ) (children : List (Shape κ))

variable {κ : Type}

def Shape.kind : Shape κ → κ
  | leaf kind _ | rule kind _ => kind

namespace Node

mutual

def shape : Node κ → Shape κ
  | leaf _ _ token => .leaf token.kind token.text
  | rule _ kind first rest => .rule kind (first.shape :: shapesOf rest)

def shapesOf : List (Node κ) → List (Shape κ)
  | [] => []
  | node :: rest => node.shape :: shapesOf rest

end

theorem shapesOf_eq_map (nodes : List (Node κ)) : shapesOf nodes = nodes.map shape := by
  induction nodes with
  | nil => rfl
  | cons node rest ih => rw [shapesOf, ih, List.map_cons]

theorem shape_rule (id : Nat) (kind : κ) (first : Node κ) (rest : List (Node κ)) :
    (rule id kind first rest).shape = .rule kind ((first :: rest).map shape) := by
  rw [shape, shapesOf_eq_map, List.map_cons]

theorem kind_shape (node : Node κ) : node.shape.kind = node.kind := by
  cases node <;> rfl

/-! Trees of the same shape. -/

section Same

variable {a b : Node κ}

theorem kind_of_shape (same : a.shape = b.shape) : a.kind = b.kind := by
  rw [← kind_shape, same, kind_shape]

theorem children_of_shape (same : a.shape = b.shape) : a.children.map shape = b.children.map shape := by
  cases a <;> cases b <;> simp_all [shape, children, shapesOf_eq_map]

theorem child?_of_shape (same : a.shape = b.shape) (index : Nat) :
    (a.child? index).map shape = (b.child? index).map shape := by
  rw [child?, child?, ← List.getElem?_map, ← List.getElem?_map, children_of_shape same]

theorem firstChild?_of_shape [BEq κ] (same : a.shape = b.shape) (kind : κ) :
    (a.firstChild? kind).map shape = (b.firstChild? kind).map shape := by
  have found (node : Node κ) :
      (node.firstChild? kind).map shape = (node.children.map shape).find? (·.kind == kind) := by
    simp only [firstChild?, List.find?_map, Function.comp_def, kind_shape]
  rw [found, found, children_of_shape same]

theorem startToken_of_shape (same : a.shape = b.shape) : a.startToken.kind = b.startToken.kind := by
  induction a using Node.induction generalizing b with
  | step a ih =>
    cases a with
    | leaf => cases b with
      | leaf => exact kind_of_shape same
      | rule => cases same
    | rule _ _ first rest => cases b with
      | leaf => cases same
      | rule _ _ first' rest' =>
        have children : first.shape :: rest.map shape = first'.shape :: rest'.map shape := children_of_shape same
        rw [startToken, startToken]
        exact ih first List.mem_cons_self (List.head_eq_of_cons_eq children)

theorem exists_of_shape (same : a.shape = b.shape) {below : Node κ} (member : below ∈ a.descendants) :
    ∃ other ∈ b.descendants, below.shape = other.shape := by
  induction a using Node.induction generalizing b with
  | step a ih =>
    rw [descendants_eq] at member
    rcases List.mem_cons.mp member with rfl | inside
    · exact ⟨b, mem_descendants b, same⟩
    · obtain ⟨child, isChild, inside⟩ := List.mem_flatMap.mp inside
      have shown : child.shape ∈ b.children.map shape :=
        children_of_shape same ▸ List.mem_map_of_mem isChild
      obtain ⟨child', isChild', sameChild⟩ := List.mem_map.mp shown
      obtain ⟨other, isBelow, sameBelow⟩ := ih child isChild sameChild.symm inside
      exact ⟨other, (descendants_among b (descendants_of_child isChild')).subset isBelow, sameBelow⟩

end Same

end Node

namespace Builder

def innermost (top : List (Node κ)) : List (κ × List (Node κ)) → List (Node κ)
  | [] => top
  | (_, nodes) :: _ => nodes

def aroundOf (top : List (Node κ)) : List (κ × List (Node κ)) → List (κ × List (Shape κ))
  | [] => []
  | (kind, _) :: outer => (kind, (innermost top outer).map Node.shape) :: aroundOf top outer

def shapes (b : Builder κ) : List (Shape κ) := b.children.map Node.shape

/-- The kinds of the open nodes and what stands in front of them. -/
def around (b : Builder κ) : List (κ × List (Shape κ)) := aroundOf b.top b.openNodes

theorem children_eq (b : Builder κ) : b.children = innermost b.top b.openNodes := by
  rcases b with ⟨_, _, _, _ | ⟨_, _⟩, _⟩ <;> rfl

theorem shapes_setChildren (b : Builder κ) (nodes : List (Node κ)) :
    (b.setChildren nodes).shapes = nodes.map Node.shape := by
  rcases b with ⟨_, _, _, _ | ⟨_, _⟩, _⟩ <;> rfl

theorem around_setChildren (b : Builder κ) (nodes : List (Node κ)) :
    (b.setChildren nodes).around = b.around := by
  rcases b with ⟨_, _, _, _ | ⟨_, _⟩, _⟩ <;> rfl

theorem shapes_push (b : Builder κ) (node : Node κ) :
    (b.push node).shapes = b.shapes ++ [node.shape] := by
  rw [push, shapes_setChildren, List.map_append, shapes]
  rfl

theorem around_push (b : Builder κ) (node : Node κ) : (b.push node).around = b.around :=
  around_setChildren ..

theorem shapes_token (b : Builder κ) (token : Token κ) :
    (b.token token).shapes = b.shapes ++ [.leaf token.kind token.text] := shapes_push ..

theorem around_token (b : Builder κ) (token : Token κ) : (b.token token).around = b.around :=
  around_push ..

theorem shapes_startNode (b : Builder κ) (kind : κ) : (b.startNode kind).shapes = [] := rfl

theorem around_startNode (b : Builder κ) (kind : κ) :
    (b.startNode kind).around = (kind, b.shapes) :: b.around := by
  rw [shapes, children_eq]
  rfl

theorem shapes_startNodeAt (b : Builder κ) (mark : Checkpoint) (kind : κ) :
    (b.startNodeAt mark kind).shapes = b.shapes.drop mark.childCount := by
  rw [shapes, shapes, ← List.map_drop]
  rfl

theorem around_startNodeAt (b : Builder κ) (mark : Checkpoint) (kind : κ) :
    (b.startNodeAt mark kind).around = (kind, b.shapes.take mark.childCount) :: b.around := by
  have kept := around_startNode (b.setChildren (b.children.take mark.childCount)) kind
  rw [shapes_setChildren, around_setChildren, List.map_take] at kept
  exact kept

theorem shapes_finishNode {b : Builder κ} {kind : κ} {front : List (Shape κ)}
    {outer : List (κ × List (Shape κ))} (opened : b.around = (kind, front) :: outer)
    (made : b.shapes ≠ []) :
    b.finishNode.1.shapes = front ++ [.rule kind b.shapes] ∧ b.finishNode.1.around = outer := by
  rcases b with ⟨lines, tokens, arena, _ | ⟨⟨kind', _ | ⟨first, rest⟩⟩, stack⟩, top⟩
  · simp [around, aroundOf] at opened
  · simp [shapes, children] at made
  · obtain ⟨⟨rfl, rfl⟩, rfl⟩ : (kind' = kind ∧ (innermost top stack).map Node.shape = front) ∧
        aroundOf top stack = outer := by
      simpa [around, aroundOf] using opened
    let closed : Builder κ := ⟨lines, tokens, arena.addRule kind' first.id (rest.map Node.id), stack, top⟩
    have behind := shapes_push closed (.rule arena.size kind' first rest)
    rw [shapes, shapes, children_eq closed, Node.shape_rule] at behind
    exact ⟨behind, around_push closed _⟩

/-- A node without children that is finished leaves no trace. -/
theorem shapes_finishNode_nil {b : Builder κ} {kind : κ} {front : List (Shape κ)}
    {outer : List (κ × List (Shape κ))} (opened : b.around = (kind, front) :: outer)
    (none : b.shapes = []) :
    b.finishNode.1.shapes = front ∧ b.finishNode.1.around = outer := by
  rcases b with ⟨lines, tokens, arena, _ | ⟨⟨kind', _ | ⟨first, rest⟩⟩, stack⟩, top⟩
  · simp [around, aroundOf] at opened
  · obtain ⟨⟨rfl, rfl⟩, rfl⟩ : (kind' = kind ∧ (innermost top stack).map Node.shape = front) ∧
        aroundOf top stack = outer := by
      simpa [around, aroundOf] using opened
    refine ⟨?_, rfl⟩
    rw [shapes, children_eq]
    rfl
  · simp [shapes, children] at none

theorem checkpoint_eq (b : Builder κ) : b.checkpoint = ⟨b.shapes.length⟩ := by
  rw [checkpoint, shapes, List.length_map]

theorem root_finish {b : Builder κ} {shape : Shape κ} (closed : b.around = [])
    (single : b.shapes = [shape]) : ∃ root, b.finish.root = some root ∧ root.shape = shape := by
  rcases b with ⟨lines, tokens, arena, _ | ⟨⟨kind, nodes⟩, stack⟩, top⟩
  · obtain ⟨root, rfl, rfl⟩ := List.map_eq_singleton_iff.mp single
    exact ⟨root, rfl, rfl⟩
  · cases closed

end Builder

end SqlFerry
