import Mathlib.Data.List.Nodup
import Mathlib.Logic.Relation
import SqlFerry.Proofs.Tree.Builder
import SqlFerry.Proofs.Tree.Nodes

/-! Where the nodes of some trees stand. Every site is that of a root or a child of another site, and
once the nodes have different numbers, a node stands at one site only. What a site says about the
nodes above and beside it can then be read off the children of its parent. -/
namespace SqlFerry

variable {κ : Type}

namespace Node

/-- One node hangs directly below the other. -/
def HasChild (parent child : Node κ) : Prop := child ∈ parent.children

theorem descendantsOf_eq_flatMap (nodes : List (Node κ)) :
    descendantsOf nodes = nodes.flatMap descendants := by
  induction nodes with
  | nil => rfl
  | cons node rest ih => rw [descendantsOf, ih, List.flatMap_cons]

theorem descendants_eq (node : Node κ) :
    node.descendants = node :: node.children.flatMap descendants := by
  cases node with
  | leaf id index token => rfl
  | rule id kind first rest =>
    rw [descendants, descendantsOf_eq_flatMap, children, List.flatMap_cons]

theorem sublist_descendants (nodes : List (Node κ)) :
    nodes.Sublist (nodes.flatMap descendants) := by
  induction nodes with
  | nil => exact .slnil
  | cons node rest ih =>
    rw [List.flatMap_cons, descendants_eq, List.cons_append]
    exact (ih.trans (List.sublist_append_right _ _)).cons_cons node

theorem sizeOf_child {node child : Node κ} (isChild : node.HasChild child) :
    sizeOf child < sizeOf node := by
  cases node with
  | leaf id index token => cases isChild
  | rule id kind first rest =>
    rw [rule.sizeOf_spec]
    rcases List.mem_cons.mp isChild with rfl | later
    · omega
    · have := List.sizeOf_lt_of_mem later
      omega

/-- What holds of a node as soon as it holds of its children holds of every node. -/
theorem induction {P : Node κ → Prop} (step : ∀ node, (∀ child ∈ node.children, P child) → P node)
    (node : Node κ) : P node :=
  step node fun child _isChild => induction step child
termination_by sizeOf node
decreasing_by exact sizeOf_child _isChild

theorem mem_descendants_iff (node other : Node κ) :
    other ∈ node.descendants ↔ Relation.ReflTransGen HasChild node other := by
  constructor
  · induction node using induction with
    | step node ih =>
      intro member
      rw [descendants_eq] at member
      rcases List.mem_cons.mp member with rfl | below
      · exact .refl
      · obtain ⟨child, isChild, within⟩ := List.mem_flatMap.mp below
        exact .head isChild (ih child isChild within)
  · intro way
    induction way using Relation.ReflTransGen.head_induction_on with
    | refl => exact mem_descendants other
    | head isChild _ ih =>
      rw [descendants_eq]
      exact List.mem_cons_of_mem _ (List.mem_flatMap.mpr ⟨_, isChild, ih⟩)

def idsOf (nodes : List (Node κ)) : List Nat := (descendantsOf nodes).map id

def sitesIn (forest : List (Node κ)) : List (Site κ) :=
  forest.flatMap fun root => root.sites [] none none

end Node

namespace Site

/-- The site and all sites below it, each in front of its children. -/
def below (site : Site κ) : List (Site κ) := site.node.sites site.ancestors site.before site.after

theorem sitesOf_eq (ancestors : List (Node κ)) (before : Node κ) (nodes : List (Node κ)) :
    Node.sitesOf ancestors before nodes = (row ancestors (some before) nodes).flatMap below := by
  induction nodes generalizing before with
  | nil => rfl
  | cons node rest ih =>
    rw [Node.sitesOf, ih, row, List.flatMap_cons]
    rfl

theorem below_eq (site : Site κ) : site.below = site :: site.children.flatMap below := by
  rcases site with ⟨_ | ⟨id, kind, first, rest⟩, ancestors, before, after⟩
  · rfl
  · simp only [below, Node.sites, children, Node.children, row, List.flatMap_cons, sitesOf_eq]

theorem mem_row {site : Site κ} {ancestors : List (Node κ)} {nodes : List (Node κ)}
    {before : Option (Node κ)} (member : site ∈ row ancestors before nodes) :
    ∃ front back, nodes = front ++ site.node :: back ∧ site.ancestors = ancestors ∧
      site.before = front.getLast?.or before ∧ site.after = back.head? := by
  induction nodes generalizing before with
  | nil => cases member
  | cons node rest ih =>
    rcases List.mem_cons.mp member with rfl | later
    · exact ⟨[], rest, rfl, rfl, rfl, rfl⟩
    · obtain ⟨front, back, whole, above, left, right⟩ := ih later
      refine ⟨node :: front, back, by rw [whole, List.cons_append], above, ?_, right⟩
      rw [left, List.getLast?_cons]
      cases front.getLast? <;> rfl

theorem ancestors_of_child {site child : Site κ} (isChild : child ∈ site.children) :
    child.ancestors = site.node :: site.ancestors := by
  obtain ⟨front, back, -, above, -⟩ := mem_row isChild
  exact above

theorem node_of_child {site child : Site κ} (isChild : child ∈ site.children) :
    site.node.HasChild child.node := by
  obtain ⟨front, back, whole, -⟩ := mem_row isChild
  rw [Node.HasChild, whole]
  exact List.mem_append_right front (List.mem_cons_self ..)

theorem map_node_below (site : Site κ) : site.below.map (·.node) = site.node.descendants := by
  obtain ⟨node, ancestors, before, after⟩ := site
  induction node using Node.induction generalizing ancestors before after with
  | step node ih =>
    have inside : ∀ child ∈ row (node :: ancestors) none node.children,
        child.below.map (·.node) = child.node.descendants := by
      intro child isChild
      have hangs : node.HasChild child.node := @node_of_child _ ⟨node, ancestors, before, after⟩ _ isChild
      exact ih child.node hangs ..
    rw [below_eq, List.map_cons, List.map_flatMap, Node.descendants_eq]
    simp only [children]
    conv => rhs; rw [← map_node_row (node :: ancestors) none node.children, List.flatMap_map]
    rw [List.flatMap_congr inside]

theorem mem_below {site other : Site κ} (member : other ∈ site.below) :
    other = site ∨ ∃ parent ∈ site.below, other ∈ parent.children := by
  obtain ⟨node, ancestors, before, after⟩ := site
  induction node using Node.induction generalizing ancestors before after with
  | step node ih =>
    rw [below_eq] at member ⊢
    rcases List.mem_cons.mp member with rfl | later
    · exact .inl rfl
    · right
      obtain ⟨child, isChild, within⟩ := List.mem_flatMap.mp later
      rcases ih child.node (node_of_child isChild) _ _ _ within with rfl | ⟨parent, found, inner⟩
      · exact ⟨_, List.mem_cons_self .., isChild⟩
      · exact ⟨parent, List.mem_cons_of_mem _ (List.mem_flatMap.mpr ⟨child, isChild, found⟩), inner⟩

end Site

section Forest

open Node (sitesIn descendantsOf idsOf)

variable {forest : List (Node κ)} {site other : Site κ}

theorem map_node_sitesIn (forest : List (Node κ)) :
    (sitesIn forest).map (·.node) = descendantsOf forest := by
  rw [sitesIn, List.map_flatMap, Node.descendantsOf_eq_flatMap]
  exact List.flatMap_congr fun root _ => Site.map_node_below (.ofNode root)

/-- A site of a forest is that of a root, which has nothing around it, or the child of a site. -/
theorem mem_sitesIn (member : site ∈ sitesIn forest) :
    (∃ root ∈ forest, site = .ofNode root) ∨ ∃ parent ∈ sitesIn forest, site ∈ parent.children := by
  obtain ⟨root, isRoot, within⟩ := List.mem_flatMap.mp member
  rcases @Site.mem_below _ (.ofNode root) _ within with rfl | ⟨parent, found, isChild⟩
  · exact .inl ⟨root, isRoot, rfl⟩
  · exact .inr ⟨parent, List.mem_flatMap.mpr ⟨root, isRoot, found⟩, isChild⟩

theorem node_mem_descendantsOf (member : site ∈ sitesIn forest) :
    site.node ∈ descendantsOf forest :=
  map_node_sitesIn forest ▸ List.mem_map_of_mem member

theorem exists_site {node : Node κ} (member : node ∈ descendantsOf forest) :
    ∃ site ∈ sitesIn forest, site.node = node :=
  List.mem_map.mp (map_node_sitesIn forest ▸ member)

theorem children_different (different : (idsOf forest).Nodup) {parent : Node κ}
    (made : parent ∈ descendantsOf forest) : (parent.children.map Node.id).Nodup := by
  have inside : (parent.descendants.map Node.id).Nodup :=
    ((Node.descendantsOf_among _ made).sublist.map _).nodup different
  rw [Node.descendants_eq, List.map_cons, List.nodup_cons] at inside
  exact ((Node.sublist_descendants _).map _).nodup inside.2

end Forest

end SqlFerry
