import SqlFerry.Tree.Node

/-! A site is a node together with what stands around it: the nodes above it, nearest first, and
the siblings on either side. Walks over a tree go from site to site. -/
namespace SqlFerry

structure Site (κ : Type) where
  node : Node κ
  ancestors : List (Node κ) := []
  before : Option (Node κ) := none
  after : Option (Node κ) := none

namespace Site

variable {κ : Type}

/-- The site of a node that stands alone. -/
def ofNode (node : Node κ) : Site κ := { node }

def findAncestor? [BEq κ] (site : Site κ) (kind : κ) : Option (Node κ) :=
  site.ancestors.find? (·.kind == kind)

def parent? (site : Site κ) : Option (Node κ) := site.ancestors.head?

/-- The sites of consecutive nodes below `ancestors`, the first of them behind `before`. -/
def row (ancestors : List (Node κ)) (before : Option (Node κ)) : List (Node κ) → List (Site κ)
  | [] => []
  | node :: rest => ⟨node, ancestors, before, rest.head?⟩ :: row ancestors (some node) rest

def children (site : Site κ) : List (Site κ) :=
  row (site.node :: site.ancestors) none site.node.children

def kind (site : Site κ) : κ := site.node.kind

def child? (site : Site κ) (index : Nat) : Option (Site κ) := site.children[index]?

def childrenOf [BEq κ] (site : Site κ) (kind : κ) : List (Site κ) :=
  site.children.filter (·.kind == kind)

def firstChild? [BEq κ] (site : Site κ) (kind : κ) : Option (Site κ) :=
  site.children.find? (·.kind == kind)

end Site

namespace Node

variable {κ : Type}

mutual

/-- The sites of a node and of all nodes below it, each in front of its children. -/
def sites (ancestors : List (Node κ)) (before after : Option (Node κ)) : Node κ → List (Site κ)
  | leaf id index token => [⟨leaf id index token, ancestors, before, after⟩]
  | rule id kind first rest =>
    let node := rule id kind first rest
    ⟨node, ancestors, before, after⟩ ::
      (first.sites (node :: ancestors) none rest.head? ++
        sitesOf (node :: ancestors) first rest)

def sitesOf (ancestors : List (Node κ)) (before : Node κ) : List (Node κ) → List (Site κ)
  | [] => []
  | node :: rest =>
    node.sites ancestors (some before) rest.head? ++ sitesOf ancestors node rest

end

end Node

end SqlFerry
