import SqlFerry.Pass.Visit
import SqlFerry.Proofs.Editor.Stretch
import SqlFerry.Proofs.Tree.Sites
import SqlFerry.Proofs.Tsql.Form

/-! Walks over a tree that is written on one line. A walk that reaches all of a form turns its text into
another one; what it does to a node is put together from what it does to the children. -/
namespace SqlFerry

open Text (byteLength)

namespace Tsql

variable {number : Nat}

mutual

theorem Form.Fills.spans : ∀ {form : Form} {column : Nat} {node : Node Kind},
    form.Fills number column node → node.Spans number column form.text
  | .leaf kind text, column, node, fills => by
    obtain ⟨id, index, token, rfl, -, on⟩ := fills
    have trail : Trail number column ([] ++ text.toList ++ []) [token] :=
      .cons (by simpa using on) .nil
    exact ⟨by simpa [Form.text, Node.tokens] using trail, on.start⟩
  | .rule kind first rest, column, node, fills => by
    obtain ⟨id, top, others, rfl, inFirst, inRest⟩ := fills
    exact ⟨inFirst.spans.trail.append inRest.trail, inFirst.spans.start⟩

theorem Forms.Fill.trail : ∀ {forms : Forms} {column : Nat} {nodes : List (Node Kind)},
    forms.Fill number column nodes → Trail number column forms.text (Node.tokensOf nodes)
  | .nil, column, nodes, fill => by
    obtain rfl : nodes = [] := fill
    exact .nil
  | .cons gap form rest, column, nodes, fill => by
    obtain ⟨node, others, rfl, inFirst, inRest⟩ := fill
    have trail := inFirst.spans.trail.append inRest.trail
    rw [Node.tokensOf, Forms.text, List.append_assoc]
    cases shape : node.tokens with
    | nil => simpa [shape] using node.head?_tokens
    | cons token tokens =>
      rw [shape] at trail
      exact trail.behindGap gap

end

theorem Form.Fills.kind {form : Form} {column : Nat} {node : Node Kind}
    (fills : form.Fills number column node) : node.kind = form.kind := by
  cases form with
  | leaf kind text => obtain ⟨_, _, _, rfl, isKind, -⟩ := fills; exact isKind
  | rule kind first rest => obtain ⟨_, _, _, rfl, -, -⟩ := fills; rfl

theorem Form.Fills.kinds {form : Form} {column : Nat} {node : Node Kind}
    (fills : form.Fills number column node) : ∀ below ∈ node.descendants, below.kind ∈ form.kinds :=
  kinds_of_shape form fills.shape

theorem kinds_below {form : Form} {node child below : Node Kind} (same : node.shape = form.shape) (isChild : child ∈ node.children) (isBelow : below ∈ child.descendants) : below.kind ∈ form.kinds.tail := by
  cases form with
  | leaf kind text =>
    cases node with
    | leaf id index token => cases isChild
    | rule id kind' top others => simp [Node.shape, Form.shape] at same
  | rule kind first rest =>
    cases node with
    | leaf id index token => cases isChild
    | rule id kind' top others =>
      simp only [Node.shape, Form.shape, Shape.rule.injEq, List.cons.injEq] at same
      rcases List.mem_cons.mp isChild with rfl | later
      · exact List.mem_append_left _ (kinds_of_shape first same.2.1 below isBelow)
      · refine List.mem_append_right _ (kinds_of_shapes rest same.2.2 below ?_)
        rw [Node.descendantsOf_eq_flatMap]
        exact List.mem_flatMap.mpr ⟨child, later, isBelow⟩

end Tsql

open Tsql (Kind Form Forms)

namespace Visit

/-- The walk goes as deep as the node does. -/
def Reaches (visit : Visit) (node : Node Kind) (recur : Site Kind → Edit Unit) : Prop :=
  ∃ depth, node.height ≤ depth ∧ recur = visit.run depth

/-- The visit goes on to all children of nodes of a kind and does nothing else there. -/
def Passes (visit : Visit) (kind : Kind) : Prop :=
  ∀ recur site, site.kind = kind → visit recur site = Visit.children recur site

variable {visit : Visit} {recur : Site Kind → Edit Unit} {node : Node Kind}

theorem Reaches.step (reaches : visit.Reaches node recur) :
    ∃ below, recur = visit below ∧ ∀ child ∈ node.children, visit.Reaches child below := by
  obtain ⟨depth, deep, rfl⟩ := reaches
  cases depth with
  | zero => cases node <;> simp [Node.height] at deep
  | succ depth =>
    refine ⟨visit.run depth, rfl, fun child member => ⟨depth, ?_, rfl⟩⟩
    cases node with
    | leaf id index token => cases member
    | rule id kind first rest =>
      have short := Node.height_le_heightOf member
      simp only [Node.height, Node.children, Node.heightOf] at deep short
      omega

theorem Reaches.child {child : Node Kind} (reaches : visit.Reaches node recur)
    (isChild : child ∈ node.children) : visit.Reaches child recur := by
  obtain ⟨depth, deep, rfl⟩ := reaches
  refine ⟨depth, ?_, rfl⟩
  cases node with
  | leaf id index token => cases isChild
  | rule id kind first rest =>
    have short := Node.height_le_heightOf isChild
    simp only [Node.height, Node.children, Node.heightOf] at deep short
    omega

/-- A node with a single child where nothing else is done is what the child is. -/
theorem Reaches.single {site : Site Kind} {child : Node Kind} (reaches : visit.Reaches site.node recur)
    (passes : ∀ below, visit below site = Visit.children below site) (only : site.node.children = [child]) :
    ∃ below inner, recur site = below inner ∧ inner.node = child ∧ visit.Reaches inner.node below ∧
      inner.parent? = some site.node := by
  obtain ⟨below, rfl, deeper⟩ := reaches.step
  refine ⟨below, ⟨child, site.node :: site.ancestors, none, none⟩, ?_, rfl, ?_, rfl⟩
  · rw [passes below, Visit.children, Site.children, only]
    simp [Site.row]
  · exact deeper child (by rw [only]; simp)

end Visit

namespace Tsql

/-- The walk turns the text of a form into another one. -/
def Form.Becomes (visit : Visit) (page : Page) (form : Form) (new : List Char) : Prop :=
  ∀ recur column site, visit.Reaches site.node recur → form.Fills page.number column site.node →
    Turns page column form.text (recur site) new

def Forms.Become (visit : Visit) (page : Page) (forms : Forms) (new : List Char) : Prop :=
  ∀ recur column ancestors before nodes, (∀ node ∈ nodes, visit.Reaches node recur) →
    forms.Fill page.number column nodes →
    Turns page column forms.text ((Site.row ancestors before nodes).forM recur) new

variable {visit : Visit} {page : Page} {recur : Site Kind → Edit Unit} {column : Nat}
  {site : Site Kind} {kind : Kind} {first form : Form} {rest : Forms} {new others : List Char}

theorem Forms.become_nil : Forms.nil.Become visit page [] := by
  intro recur column ancestors before nodes _ fill
  obtain rfl : nodes = [] := fill
  exact Turns.keep page column []

theorem Forms.become_cons (gap : List Char) (first : form.Becomes visit page new)
    (later : rest.Become visit page others) :
    (Forms.cons gap form rest).Become visit page (gap ++ new ++ others) := by
  intro recur column ancestors before nodes reaches fill
  obtain ⟨node, nodes, rfl, inFirst, inRest⟩ := fill
  have here := first recur _ ⟨node, ancestors, before, nodes.head?⟩ (reaches _ List.mem_cons_self) inFirst
  have behind := later recur _ ancestors (some node) nodes
    (fun other member => reaches other (List.mem_cons_of_mem _ member)) inRest
  rw [Forms.text, List.append_assoc, List.append_assoc]
  exact (Turns.keep page column gap).append (here.append behind)

theorem Form.turns_children (top : first.Becomes visit page new)
    (later : rest.Become visit page others)
    (reaches : ∀ child ∈ site.node.children, visit.Reaches child recur)
    (fills : (Form.rule kind first rest).Fills page.number column site.node) :
    Turns page column (Form.rule kind first rest).text (Visit.children recur site) (new ++ others) := by
  obtain ⟨id, node, nodes, isNode, inFirst, inRest⟩ := fills
  rw [isNode] at reaches
  have here := top recur column ⟨node, site.node :: site.ancestors, none, nodes.head?⟩
    (reaches _ List.mem_cons_self) inFirst
  have behind := later recur _ (site.node :: site.ancestors) (some node) nodes
    (fun other member => reaches other (List.mem_cons_of_mem _ member)) inRest
  rw [Visit.children, Site.children]
  rw [isNode] at here behind ⊢
  exact here.append behind

theorem Form.becomes_rule (passes : visit.Passes kind) (top : first.Becomes visit page new)
    (later : rest.Become visit page others) :
    (Form.rule kind first rest).Becomes visit page (new ++ others) := by
  intro recur column site reaches fills
  obtain ⟨below, rfl, inside⟩ := reaches.step
  rw [passes below site fills.kind]
  exact turns_children top later inside fills

theorem Form.becomes_leaf (text : String) (passes : visit.Passes kind) :
    (Form.leaf kind text).Becomes visit page text.toList := by
  intro recur column site reaches fills
  obtain ⟨below, rfl, -⟩ := reaches.step
  rw [passes below site fills.kind]
  obtain ⟨id, index, token, isNode, -, -⟩ := fills
  rw [Visit.children, Site.children, isNode]
  exact Turns.keep page column _

mutual

/-- A walk that passes all nodes of a form leaves its text as it is. -/
theorem Form.becomes_same : ∀ form : Form, (∀ kind ∈ form.kinds, visit.Passes kind) →
    form.Becomes visit page form.text
  | .leaf kind text, passes => Form.becomes_leaf text (passes _ List.mem_cons_self)
  | .rule kind first rest, passes => by
    rw [Form.kinds, List.forall_mem_cons, List.forall_mem_append] at passes
    exact Form.becomes_rule passes.1 (first.becomes_same passes.2.1) (rest.become_same passes.2.2)

theorem Forms.become_same : ∀ forms : Forms, (∀ kind ∈ forms.kinds, visit.Passes kind) →
    forms.Become visit page forms.text
  | .nil, _ => Forms.become_nil
  | .cons gap form rest, passes => by
    rw [Forms.kinds, List.forall_mem_append] at passes
    exact Forms.become_cons gap (form.becomes_same passes.1) (rest.become_same passes.2)

end

end Tsql

end SqlFerry
