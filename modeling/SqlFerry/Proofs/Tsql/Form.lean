import SqlFerry.Proofs.Editor.Page
import SqlFerry.Proofs.Tsql.Derivation
import SqlFerry.Proofs.Tsql.Reading

/-! Trees that are written down. A form is a shape with the gaps between its tokens: it tells the text,
the tokens that the text is read as, and where each node of the tree stands. -/
namespace SqlFerry.Tsql

open Text (byteLength)

mutual

/-- A node with the gaps between its children. -/
inductive Form where
  | leaf (kind : Kind) (text : String)
  | rule (kind : Kind) (first : Form) (rest : Forms)

inductive Forms where
  | nil
  | cons (gap : List Char) (form : Form) (rest : Forms)

end

structure Spaced where
  gap : List Char
  kind : Kind
  text : String

namespace Spaced

def face (s : Spaced) : Kind × String := (s.kind, s.text)

def chars (s : Spaced) : List Char := s.gap ++ s.text.toList

/-- The tokens of a text from a position on. -/
def placed (p : Position) : List Spaced → List (Token Kind)
  | [] => []
  | s :: rest => ⟨s.kind, s.text, (p.advance s.gap).line, (p.advance s.gap).column⟩ ::
      placed (p.advance s.chars) rest

theorem map_face_placed (p : Position) (items : List Spaced) :
    (placed p items).map Tsql.face = items.map face := by
  induction items generalizing p with
  | nil => rfl
  | cons s items ih => rw [placed, List.map_cons, List.map_cons, ih]; rfl

theorem placed_append (p : Position) (xs ys : List Spaced) :
    placed p (xs ++ ys) = placed p xs ++ placed (p.advance (xs.flatMap chars)) ys := by
  induction xs generalizing p with
  | nil => rfl
  | cons s xs ih =>
    rw [List.cons_append, placed, placed, ih, List.flatMap_cons, Position.advance_append, List.cons_append]

/-- The tokens can be told from one another: each ends in front of what comes next. -/
def Readable : List Spaced → Prop
  | [] => True
  | s :: rest => (∀ c ∈ s.gap, isGapChar c = true) ∧
      (∃ c cs, s.text.toList = c :: cs ∧
        piece c (cs ++ rest.flatMap chars) = .ok (some s.kind, cs.length)) ∧
      Readable rest

theorem readable_cons {s : Spaced} {rest : List Spaced} (gap : ∀ c ∈ s.gap, isGapChar c = true)
    (alone : Standalone s.kind s.text) (apart : Apart (rest.flatMap chars)) (readable : Readable rest) :
    Readable (s :: rest) := by
  obtain ⟨c, cs, shape, found⟩ := alone
  exact ⟨gap, ⟨c, cs, shape, found _ apart⟩, readable⟩

theorem lexFrom_blanks {gap : List Char} (blank : ∀ c ∈ gap, isGapChar c = true) (p : Position)
    (rest : List Char) : lexFrom p (gap ++ rest) = lexFrom (p.advance gap) rest := by
  induction gap generalizing p with
  | nil => rfl
  | cons c gap ih =>
    obtain ⟨first, others⟩ := List.forall_mem_cons.mp blank
    rw [List.cons_append, lexFrom_gap first, ih others]
    rfl

theorem lexFrom_readable {items : List Spaced} (readable : Readable items) (p : Position) :
    lexFrom p (items.flatMap chars) = .ok (placed p items) := by
  induction items generalizing p with
  | nil => simp [lexFrom, placed]
  | cons s items ih =>
    obtain ⟨blank, ⟨c, cs, shape, found⟩, readable⟩ := readable
    have later := ih readable (p.advance s.chars)
    have same : String.ofList (c :: cs) = s.text := by rw [← shape, String.ofList_toList]
    have behind : (p.advance s.gap).advance (c :: cs) = p.advance s.chars := by
      rw [← shape, chars, Position.advance_append]
    rw [List.flatMap_cons, chars, List.append_assoc, lexFrom_blanks blank, shape, List.cons_append, lexFrom,
      found]
    simp only [List.take_left', List.drop_left', behind, later, same, placed]

end Spaced

mutual

def Form.text : Form → List Char
  | .leaf _ text => text.toList
  | .rule _ first rest => first.text ++ rest.text

def Forms.text : Forms → List Char
  | .nil => []
  | .cons gap form rest => gap ++ form.text ++ rest.text

end

mutual

def Form.shape : Form → Shape Kind
  | .leaf kind text => .leaf kind text
  | .rule kind first rest => .rule kind (first.shape :: rest.shapes)

def Forms.shapes : Forms → List (Shape Kind)
  | .nil => []
  | .cons _ form rest => form.shape :: rest.shapes

end

def Form.kind : Form → Kind
  | .leaf kind _ => kind
  | .rule kind _ _ => kind

mutual

def Form.kinds : Form → List Kind
  | .leaf kind _ => [kind]
  | .rule kind first rest => kind :: (first.kinds ++ rest.kinds)

def Forms.kinds : Forms → List Kind
  | .nil => []
  | .cons _ form rest => form.kinds ++ rest.kinds

end

mutual

def Form.faces : Form → List (Kind × String)
  | .leaf kind text => [(kind, text)]
  | .rule _ first rest => first.faces ++ rest.faces

def Forms.faces : Forms → List (Kind × String)
  | .nil => []
  | .cons _ form rest => form.faces ++ rest.faces

end

mutual

def Form.items (gap : List Char) : Form → List Spaced
  | .leaf kind text => [⟨gap, kind, text⟩]
  | .rule _ first rest => first.items gap ++ rest.items

def Forms.items : Forms → List Spaced
  | .nil => []
  | .cons gap form rest => form.items gap ++ rest.items

end

mutual

theorem Form.flatMap_items (gap : List Char) : ∀ form : Form,
    (form.items gap).flatMap Spaced.chars = gap ++ form.text
  | .leaf kind text => by simp [Form.items, Form.text, Spaced.chars]
  | .rule kind first rest => by
    rw [Form.items, List.flatMap_append, first.flatMap_items, rest.flatMap_items, Form.text,
      List.append_assoc]

theorem Forms.flatMap_items : ∀ forms : Forms, forms.items.flatMap Spaced.chars = forms.text
  | .nil => rfl
  | .cons gap form rest => by
    rw [Forms.items, List.flatMap_append, form.flatMap_items, rest.flatMap_items, Forms.text]

end

mutual

theorem Form.map_face_items (gap : List Char) : ∀ form : Form,
    (form.items gap).map Spaced.face = form.faces
  | .leaf kind text => rfl
  | .rule kind first rest => by
    rw [Form.items, List.map_append, first.map_face_items, rest.map_face_items, Form.faces]

theorem Forms.map_face_items : ∀ forms : Forms, forms.items.map Spaced.face = forms.faces
  | .nil => rfl
  | .cons gap form rest => by
    rw [Forms.items, List.map_append, form.map_face_items, rest.map_face_items, Forms.faces]

end

mutual

/-- The node is what the form says, and stands on the line from the column on. -/
def Form.Fills (number : Nat) : Form → Nat → Node Kind → Prop
  | .leaf kind text, column, node => ∃ id index token, node = .leaf id index token ∧
      token.kind = kind ∧ token.On number column text.toList
  | .rule kind first rest, column, node => ∃ id top others, node = .rule id kind top others ∧
      first.Fills number column top ∧ rest.Fill number (column + byteLength first.text) others

def Forms.Fill (number : Nat) : Forms → Nat → List (Node Kind) → Prop
  | .nil, _, nodes => nodes = []
  | .cons gap form rest, column, nodes => ∃ node others, nodes = node :: others ∧
      form.Fills number (column + byteLength gap) node ∧
      rest.Fill number (column + byteLength gap + byteLength form.text) others

end

mutual

theorem faces_of_shape : ∀ (form : Form) {node : Node Kind}, node.shape = form.shape →
    node.tokens.map face = form.faces
  | .leaf kind text, .leaf id index token, same => by
    simp only [Node.shape, Form.shape, Shape.leaf.injEq] at same
    rw [Node.tokens, List.map_singleton, face, same.1, same.2, Form.faces]
  | .rule kind first rest, .rule id kind' top others, same => by
    simp only [Node.shape, Form.shape, Shape.rule.injEq, List.cons.injEq] at same
    rw [Node.tokens, Form.faces, List.map_append, faces_of_shape first same.2.1,
      faces_of_shapes rest same.2.2]

theorem faces_of_shapes : ∀ (forms : Forms) {nodes : List (Node Kind)},
    Node.shapesOf nodes = forms.shapes → (Node.tokensOf nodes).map face = forms.faces
  | .nil, [], _ => rfl
  | .cons gap form rest, node :: others, same => by
    simp only [Node.shapesOf, Forms.shapes, List.cons.injEq] at same
    rw [Node.tokensOf, Forms.faces, List.map_append, faces_of_shape form same.1,
      faces_of_shapes rest same.2]

end

mutual

theorem kinds_of_shape : ∀ (form : Form) {node : Node Kind}, node.shape = form.shape →
    ∀ below ∈ node.descendants, below.kind ∈ form.kinds
  | .leaf kind text, .leaf id index token, same => by
    simp only [Node.shape, Form.shape, Shape.leaf.injEq] at same
    simp [Node.descendants, Node.kind, Form.kinds, same.1]
  | .rule kind first rest, .rule id kind' top others, same => by
    simp only [Node.shape, Form.shape, Shape.rule.injEq, List.cons.injEq] at same
    rw [Node.descendants, Form.kinds, List.forall_mem_cons, List.forall_mem_append]
    refine ⟨same.1 ▸ List.mem_cons_self, fun below member => ?_, fun below member => ?_⟩
    · exact List.mem_cons_of_mem _ (List.mem_append_left _ (kinds_of_shape first same.2.1 below member))
    · exact List.mem_cons_of_mem _ (List.mem_append_right _ (kinds_of_shapes rest same.2.2 below member))

theorem kinds_of_shapes : ∀ (forms : Forms) {nodes : List (Node Kind)}, Node.shapesOf nodes = forms.shapes →
    ∀ below ∈ Node.descendantsOf nodes, below.kind ∈ forms.kinds
  | .nil, [], _ => by simp [Node.descendantsOf]
  | .cons gap form rest, node :: others, same => by
    simp only [Node.shapesOf, Forms.shapes, List.cons.injEq] at same
    rw [Node.descendantsOf, Forms.kinds, List.forall_mem_append]
    exact ⟨fun below member => List.mem_append_left _ (kinds_of_shape form same.1 below member),
      fun below member => List.mem_append_right _ (kinds_of_shapes rest same.2 below member)⟩

end

mutual

theorem Form.Fills.shape {number : Nat} : ∀ {form : Form} {column : Nat} {node : Node Kind},
    form.Fills number column node → node.shape = form.shape
  | .leaf kind text, column, node, fills => by
    obtain ⟨id, index, token, rfl, rfl, on⟩ := fills
    rw [Node.shape, Form.shape, String.toList_inj.mp on.text]
  | .rule kind first rest, column, node, fills => by
    obtain ⟨id, top, others, rfl, atFirst, atRest⟩ := fills
    rw [Node.shape, Form.shape, atFirst.shape, atRest.shapes]

theorem Forms.Fill.shapes {number : Nat} : ∀ {forms : Forms} {column : Nat} {nodes : List (Node Kind)},
    forms.Fill number column nodes → Node.shapesOf nodes = forms.shapes
  | .nil, column, nodes, fill => by
    obtain rfl : nodes = [] := fill
    rfl
  | .cons gap form rest, column, nodes, fill => by
    obtain ⟨node, others, rfl, atForm, atRest⟩ := fill
    rw [Node.shapesOf, Forms.shapes, atForm.shape, atRest.shapes]

end

mutual

/-- The node is what the form says, and stands at the position. -/
def Form.Lies : Form → Position → Node Kind → Prop
  | .leaf kind text, p, node =>
      ∃ id index, node = .leaf id index ⟨kind, text, p.line, p.column⟩ ∧ text.toList ≠ []
  | .rule kind first rest, p, node => ∃ id top others, node = .rule id kind top others ∧
      first.Lies p top ∧ rest.Lie (p.advance first.text) others

def Forms.Lie : Forms → Position → List (Node Kind) → Prop
  | .nil, _, nodes => nodes = []
  | .cons gap form rest, p, nodes => ∃ node others, nodes = node :: others ∧
      form.Lies (p.advance gap) node ∧ rest.Lie ((p.advance gap).advance form.text) others

end

mutual

theorem Form.Lies.fills {number : Nat} : ∀ {form : Form} {column : Nat} {node : Node Kind},
    form.Lies ⟨number, column⟩ node → '\n' ∉ form.text → form.Fills number column node
  | .leaf kind text, column, node, lies, flat => by
    obtain ⟨id, index, rfl, visible⟩ := lies
    exact ⟨id, index, _, rfl, rfl, rfl, rfl, flat, visible, rfl⟩
  | .rule kind first rest, column, node, lies, flat => by
    obtain ⟨id, top, others, rfl, atFirst, atRest⟩ := lies
    rw [Form.text, List.mem_append, not_or] at flat
    rw [Position.advance_of_no_line_end _ flat.1] at atRest
    exact ⟨id, top, others, rfl, atFirst.fills flat.1, atRest.fill flat.2⟩

theorem Forms.Lie.fill {number : Nat} : ∀ {forms : Forms} {column : Nat} {nodes : List (Node Kind)},
    forms.Lie ⟨number, column⟩ nodes → '\n' ∉ forms.text → forms.Fill number column nodes
  | .nil, column, nodes, lie, _ => lie
  | .cons gap form rest, column, nodes, lie, flat => by
    obtain ⟨node, others, rfl, atForm, atRest⟩ := lie
    simp only [Forms.text, List.mem_append, not_or] at flat
    rw [Position.advance_of_no_line_end _ flat.1.1] at atForm atRest
    rw [Position.advance_of_no_line_end _ flat.1.2] at atRest
    exact ⟨node, others, rfl, atForm.fills flat.1.2, atRest.fill flat.2⟩

end

theorem length_placed (p : Position) (gap : List Char) {form : Form} {node : Node Kind}
    (same : node.shape = form.shape) :
    node.tokens.length = (Spaced.placed p (form.items gap)).length := by
  have faces := faces_of_shape form same
  rw [← form.map_face_items gap, ← Spaced.map_face_placed p] at faces
  simpa using congrArg List.length faces

/-- Tokens that can be seen. -/
def Spaced.Visible (items : List Spaced) : Prop := ∀ s ∈ items, s.text.toList ≠ []

theorem Spaced.Readable.visible {items : List Spaced} (readable : Readable items) : Visible items := by
  induction items with
  | nil => simp [Visible]
  | cons s items ih =>
    obtain ⟨-, ⟨c, cs, shape, -⟩, readable⟩ := readable
    exact List.forall_mem_cons.mpr ⟨by simp [shape], ih readable⟩

mutual

/-- A node over the tokens of a form that has its shape stands where they do. -/
theorem lies_of_tokens {p : Position} {gap : List Char} : ∀ (form : Form) {node : Node Kind},
    Spaced.Visible (form.items gap) → node.shape = form.shape →
    node.tokens = Spaced.placed p (form.items gap) → form.Lies (p.advance gap) node
  | .leaf kind text, .leaf id index token, visible, same, tokens => by
    obtain rfl : token = ⟨kind, text, (p.advance gap).line, (p.advance gap).column⟩ := by
      simpa [Node.tokens, Form.items, Spaced.placed] using tokens
    exact ⟨id, index, rfl, visible _ List.mem_cons_self⟩
  | .rule kind first rest, .rule id kind' top others, visible, same, tokens => by
    simp only [Node.shape, Form.shape, Shape.rule.injEq, List.cons.injEq] at same
    obtain ⟨rfl, sameFirst, sameRest⟩ := same
    rw [Node.tokens, Form.items, Spaced.placed_append, first.flatMap_items, Position.advance_append] at tokens
    obtain ⟨atFirst, atRest⟩ := List.append_inj tokens (length_placed p gap sameFirst)
    rw [Form.items, Spaced.Visible, List.forall_mem_append] at visible
    exact ⟨id, top, others, rfl, lies_of_tokens first visible.1 sameFirst atFirst,
      lie_of_tokens rest visible.2 sameRest atRest⟩

theorem lie_of_tokens {p : Position} : ∀ (forms : Forms) {nodes : List (Node Kind)},
    Spaced.Visible forms.items → Node.shapesOf nodes = forms.shapes →
    Node.tokensOf nodes = Spaced.placed p forms.items → forms.Lie p nodes
  | .nil, [], _, _, _ => rfl
  | .cons gap form rest, node :: others, visible, same, tokens => by
    simp only [Node.shapesOf, Forms.shapes, List.cons.injEq] at same
    rw [Node.tokensOf, Forms.items, Spaced.placed_append, form.flatMap_items, Position.advance_append] at tokens
    obtain ⟨atFirst, atRest⟩ := List.append_inj tokens (length_placed p gap same.1)
    rw [Forms.items, Spaced.Visible, List.forall_mem_append] at visible
    exact ⟨node, others, rfl, lies_of_tokens form visible.1 same.1 atFirst,
      lie_of_tokens rest visible.2 same.2 atRest⟩

end

theorem parse_lies {form : Form} {tree : Tree Kind} {root : Node Kind}
    (readable : Spaced.Readable (form.items []))
    (parsed : parse (.ofList form.text) = .ok tree) (isRoot : tree.root = some root)
    (shaped : root.shape = form.shape) : form.Lies .origin root := by
  obtain ⟨lexed, -, leaves⟩ := parse_tree parsed
  rw [isRoot] at leaves
  have read := Spaced.lexFrom_readable readable .origin
  rw [form.flatMap_items, List.nil_append] at read
  rw [lex, String.toList_ofList] at lexed
  have tokens := Except.ok.inj (lexed.symm.trans read)
  exact lies_of_tokens form readable.visible shaped (leaves.trans tokens)

/-- A form that the grammar reads as its shape has a tree that fills it. -/
theorem parse_form {form : Form} (readable : Spaced.Readable (form.items []))
    (taken : Takes (readRule (80 * (form.faces.length + 1)) .compileUnit) ⟨form.faces, [], []⟩
      ⟨[], [form.shape], []⟩) :
    ∃ tree root, parse (.ofList form.text) = .ok tree ∧ tree.root = some root ∧
      root.shape = form.shape := by
  have lexed : lex (.ofList form.text) = .ok (Spaced.placed .origin (form.items [])) := by
    have read := Spaced.lexFrom_readable readable .origin
    rw [form.flatMap_items, List.nil_append] at read
    rwa [lex, String.toList_ofList]
  have faces : (Spaced.placed .origin (form.items [])).map face = form.faces := by
    rw [Spaced.map_face_placed, form.map_face_items]
  refine parse_of_takes lexed ?_
  rw [faces, depthFor, ← List.length_map, faces]
  exact taken

end SqlFerry.Tsql
