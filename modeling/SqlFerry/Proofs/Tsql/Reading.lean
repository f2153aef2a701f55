import SqlFerry.Proofs.Tree.Shape
import SqlFerry.Proofs.Tsql.Production
import SqlFerry.Proofs.Tsql.Spacing
import SqlFerry.Tsql.Parser

/-! What a production reads. `Takes` says of a way of reading that it succeeds, which tokens are left
and what has been added to the tree, with one rule for each operator of productions. Only the kinds
and texts of tokens and the shapes of nodes count here, which is all that productions look at unless
they ask for lines. -/
namespace SqlFerry.Tsql

/-- A cursor without positions and numbers. -/
structure Sketch where
  /-- The tokens still to be read. -/
  rest : List (Kind × String)
  /-- The children of the innermost open node. -/
  children : List (Shape Kind)
  around : List (Kind × List (Shape Kind))

def Cursor.sketch (c : Cursor) : Sketch := ⟨c.rest.map face, c.builder.shapes, c.builder.around⟩

namespace Look

/-- The test does not ask for the lines of tokens. -/
def lineless : Look → Bool
  | sameLine => false
  | not l => l.lineless
  | and l r | or l r => l.lineless && r.lineless
  | kind _ _ | word _ _ | atEnd => true

/-- The token is a keyword or plain name that reads as the word. -/
def reads (w : String) (token : Kind × String) : Bool := token.1.isWord && Text.sameWord token.2 w

/-- The answer of a test that does not ask for lines. -/
def foresees : Look → List (Kind × String) → Bool
  | kind n k, rest => rest[n]?.any (·.1 == k)
  | word n w, rest => rest[n]?.any (reads w)
  | sameLine, _ => false
  | atEnd, rest => rest.isEmpty
  | not l, rest => !l.foresees rest
  | and l r, rest => l.foresees rest && r.foresees rest
  | or l r, rest => l.foresees rest || r.foresees rest

theorem holds_eq {l : Look} (plain : l.lineless = true) (c : Cursor) :
    l.holds c = l.foresees (c.rest.map face) := by
  induction l with
  | kind n k =>
    rw [holds, foresees, List.getElem?_map]
    cases c.rest[n]? <;> rfl
  | word n w =>
    rw [holds, foresees, List.getElem?_map]
    cases c.rest[n]? <;> rfl
  | sameLine => cases plain
  | atEnd => simp [holds, foresees]
  | not l ih => rw [holds, foresees, ih plain]
  | and l r ihl ihr =>
    obtain ⟨plainL, plainR⟩ := Bool.and_eq_true_iff.mp plain
    rw [holds, foresees, ihl plainL, ihr plainR]
  | or l r ihl ihr =>
    obtain ⟨plainL, plainR⟩ := Bool.and_eq_true_iff.mp plain
    rw [holds, foresees, ihl plainL, ihr plainR]

theorem foresees_and_left {l r : Look} {rest : List (Kind × String)}
    (fails : l.foresees rest = false) : (l &&& r).foresees rest = false :=
  Bool.and_eq_false_iff.mpr (.inl fails)

theorem foresees_and_right {l r : Look} {rest : List (Kind × String)}
    (fails : r.foresees rest = false) : (l &&& r).foresees rest = false :=
  Bool.and_eq_false_iff.mpr (.inr fails)

theorem foresees_any (looks : List Look) (rest : List (Kind × String)) :
    (any looks).foresees rest = looks.any (·.foresees rest) := by
  induction looks with
  | nil => simp [any, foresees]
  | cons look looks ih =>
    rw [List.any_cons, ← ih]
    rfl

end Look

/-- Reading succeeds on every cursor that looks like `s` and leaves one that looks like `s'`. -/
def Takes (run : Cursor → Except ParseError Cursor) (s s' : Sketch) : Prop :=
  ∀ c, c.sketch = s → ∃ c', run c = .ok c' ∧ c'.sketch = s'

theorem sketch_finishNode {c : Cursor} {kind : Kind} {rest : List (Kind × String)}
    {front made : List (Shape Kind)} {around : List (Kind × List (Shape Kind))}
    (visible : made ≠ []) (opened : c.sketch = ⟨rest, made, (kind, front) :: around⟩) :
    c.finishNode.sketch = ⟨rest, front ++ [.rule kind made], around⟩ := by
  obtain ⟨rfl, rfl, holder⟩ := Sketch.mk.inj opened
  obtain ⟨shapes, outer⟩ := Builder.shapes_finishNode holder visible
  simp [Cursor.sketch, Cursor.finishNode, shapes, outer]

namespace Takes

variable {call : Rule → Cursor → Except ParseError Cursor} {mark : Checkpoint}
  {s s' middle : Sketch} {p q : Production Rule}

open Production

theorem giving {run : Cursor → Except ParseError Cursor} {rest : List (Kind × String)}
    {children children' : List (Shape Kind)} {around : List (Kind × List (Shape Kind))}
    (taken : Takes run s ⟨rest, children, around⟩)
    (same : children = children') : Takes run s ⟨rest, children', around⟩ :=
  same ▸ taken

theorem nothing : Takes (done.exec call mark) s s := fun c same => ⟨c, rfl, same⟩

theorem token {kind : Kind} {text : String} {rest : List (Kind × String)}
    {children : List (Shape Kind)} {around : List (Kind × List (Shape Kind))} :
    Takes (take.exec call mark) ⟨(kind, text) :: rest, children, around⟩
      ⟨rest, children ++ [.leaf kind text], around⟩ := by
  rintro ⟨tokens, last, builder⟩ same
  obtain ⟨left, rfl, rfl⟩ : tokens.map face = (kind, text) :: rest ∧ builder.shapes = children ∧
      builder.around = around := by simpa [Cursor.sketch] using same
  obtain ⟨token, tokens, rfl, first, rfl⟩ := List.map_eq_cons_iff.mp left
  obtain ⟨rfl, rfl⟩ := Prod.mk.inj first
  refine ⟨_, rfl, ?_⟩
  simp [Cursor.sketch, Cursor.take, Builder.shapes_token, Builder.around_token]

theorem seq (first : Takes (p.exec call mark) s middle) (second : Takes (q.exec call mark) middle s') :
    Takes ((Production.seq p q).exec call mark) s s' := by
  intro c same
  obtain ⟨c', ran, same⟩ := first c same
  obtain ⟨c'', ranOn, same⟩ := second c' same
  exact ⟨c'', exec_seq.mpr ⟨c', ran, ranOn⟩, same⟩

theorem branch_pos {test : Look} (plain : test.lineless = true) (holds : test.foresees s.rest = true)
    (taken : Takes (p.exec call mark) s s') :
    Takes ((branch test p q).exec call mark) s s' := by
  rintro c rfl
  obtain ⟨c', ran, same⟩ := taken c rfl
  exact ⟨c', by rw [exec, if_pos ((Look.holds_eq plain c).trans holds), ran], same⟩

theorem branch_neg {test : Look} (plain : test.lineless = true)
    (fails : test.foresees s.rest = false) (taken : Takes (q.exec call mark) s s') :
    Takes ((branch test p q).exec call mark) s s' := by
  rintro c rfl
  obtain ⟨c', ran, same⟩ := taken c rfl
  have skipped : ¬ test.holds c = true := by simp [Look.holds_eq plain c, ← fails, Cursor.sketch]
  exact ⟨c', by rw [exec, if_neg skipped, ran], same⟩

theorem node {kind : Kind} {rest rest' : List (Kind × String)} {front made : List (Shape Kind)}
    {around : List (Kind × List (Shape Kind))} (visible : made ≠ [])
    (taken : Takes (p.exec call ⟨0⟩) ⟨rest, [], (kind, front) :: around⟩
      ⟨rest', made, (kind, front) :: around⟩) :
    Takes ((node kind p).exec call mark) ⟨rest, front, around⟩
      ⟨rest', front ++ [.rule kind made], around⟩ := by
  intro c same
  have opened : (c.startNode kind).sketch = ⟨rest, [], (kind, front) :: around⟩ := by
    cases same
    simp [Cursor.sketch, Cursor.startNode, Builder.shapes_startNode, Builder.around_startNode]
  obtain ⟨inner, ran, same⟩ := taken _ opened
  exact ⟨_, exec_node.mpr ⟨inner, ran, rfl⟩, sketch_finishNode visible same⟩

theorem node_empty {kind : Kind} {rest rest' : List (Kind × String)} {front : List (Shape Kind)}
    {around : List (Kind × List (Shape Kind))}
    (taken : Takes (p.exec call ⟨0⟩) ⟨rest, [], (kind, front) :: around⟩
      ⟨rest', [], (kind, front) :: around⟩) :
    Takes ((Production.node kind p).exec call mark) ⟨rest, front, around⟩ ⟨rest', front, around⟩ := by
  intro c same
  have opened : (c.startNode kind).sketch = ⟨rest, [], (kind, front) :: around⟩ := by
    cases same
    simp [Cursor.sketch, Cursor.startNode, Builder.shapes_startNode, Builder.around_startNode]
  obtain ⟨inner, ran, same⟩ := taken _ opened
  refine ⟨_, exec_node.mpr ⟨inner, ran, rfl⟩, ?_⟩
  obtain ⟨rfl, none, holder⟩ := Sketch.mk.inj same
  obtain ⟨shapes, outer⟩ := Builder.shapes_finishNode_nil holder none
  simp [Cursor.sketch, Cursor.finishNode, shapes, outer]

theorem adopt {kind : Kind} {rest rest' : List (Kind × String)}
    {front back made : List (Shape Kind)} {around : List (Kind × List (Shape Kind))}
    (visible : made ≠ [])
    (taken : Takes (p.exec call ⟨0⟩) ⟨rest, back, (kind, front) :: around⟩
      ⟨rest', made, (kind, front) :: around⟩) :
    Takes ((adopt kind p).exec call ⟨front.length⟩) ⟨rest, front ++ back, around⟩
      ⟨rest', front ++ [.rule kind made], around⟩ := by
  intro c same
  have opened : (c.startNodeAt ⟨front.length⟩ kind).sketch =
      ⟨rest, back, (kind, front) :: around⟩ := by
    obtain ⟨rfl, children, rfl⟩ := Sketch.mk.inj same
    simp [Cursor.sketch, Cursor.startNodeAt, Builder.shapes_startNodeAt,
      Builder.around_startNodeAt, children]
  obtain ⟨inner, ran, same⟩ := taken _ opened
  exact ⟨_, exec_adopt.mpr ⟨inner, ran, rfl⟩, sketch_finishNode visible same⟩

theorem group (taken : Takes (p.exec call ⟨s.children.length⟩) s s') :
    Takes ((group p).exec call mark) s s' := by
  rintro c rfl
  have ran := taken c rfl
  rw [Cursor.sketch, ← Builder.checkpoint_eq] at ran
  exact ran

theorem choose {choices : List (Look × Production Rule)} {choice : Look × Production Rule}
    {otherwise : Production Rule} (plain : choices.all (·.1.lineless) = true)
    (found : (choices.find? fun choice => choice.1.foresees s.rest) = some choice)
    (taken : Takes (choice.2.exec call mark) s s') :
    Takes ((choose choices otherwise).exec call mark) s s' := by
  induction choices with
  | nil => cases found
  | cons first choices ih =>
    obtain ⟨plainFirst, plain⟩ := Bool.and_eq_true_iff.mp plain
    rw [List.find?_cons] at found
    split at found
    · next holds =>
      obtain rfl : first = choice := Option.some.inj found
      exact branch_pos plainFirst holds taken
    · next fails => exact branch_neg plainFirst fails (ih plain found)

section Iterate

variable {test : Look} {step : Cursor → Except ParseError Cursor}

theorem rounds_end (plain : test.lineless = true) (fails : test.foresees s.rest = false)
    (tokens : List (Token Kind)) : Takes (iterate test step tokens) s s := by
  rintro c rfl
  refine ⟨c, ?_, rfl⟩
  have stopped : ¬ test.holds c = true := by simp [Look.holds_eq plain c, ← fails, Cursor.sketch]
  cases tokens with
  | nil => rfl
  | cons token tokens => rw [iterate, if_neg stopped]

theorem round {token : Token Kind} {tokens : List (Token Kind)} (plain : test.lineless = true)
    (holds : test.foresees s.rest = true) (stepped : Takes step s middle)
    (rest : Takes (iterate test step tokens) middle s') :
    Takes (iterate test step (token :: tokens)) s s' := by
  rintro c rfl
  obtain ⟨c', ran, same⟩ := stepped c rfl
  obtain ⟨c'', ranOn, same⟩ := rest c' same
  refine ⟨c'', ?_, same⟩
  rw [iterate, if_pos ((Look.holds_eq plain c).trans holds)]
  exact bind_eq_ok.mpr ⟨c', ran, ranOn⟩

end Iterate

/-- A loop has as many rounds as there are tokens, if it needs them. -/
theorem loop {test : Look}
    (rounds : ∀ tokens, tokens.length = s.rest.length →
      Takes (iterate test (p.exec call mark) tokens) s s') :
    Takes ((loop test p).exec call mark) s s' := by
  rintro c rfl
  exact rounds c.rest (by simp [Cursor.sketch]) c rfl

theorem loop_skipped {test : Look} (plain : test.lineless = true)
    (fails : test.foresees s.rest = false) : Takes ((Production.loop test p).exec call mark) s s :=
  loop fun tokens _ => rounds_end plain fails tokens

theorem entered {depth : Nat} {name : Rule}
    (taken : Takes ((Grammar.production name).exec (readRule depth) ⟨0⟩) s s') :
    Takes (readRule (depth + 1) name) s s' := taken

end Takes

/-- What the rule for whole texts takes is the tree of the text. -/
theorem parse_of_takes {source : String} {tokens : List (Token Kind)} {shape : Shape Kind}
    (lexed : lex source = .ok tokens)
    (taken : Takes (readRule (depthFor tokens) .compileUnit) ⟨tokens.map face, [], []⟩
      ⟨[], [shape], []⟩) :
    ∃ tree root, parse source = .ok tree ∧ tree.root = some root ∧ root.shape = shape := by
  obtain ⟨stop, ran, same⟩ := taken { rest := tokens, builder := .ofText source } rfl
  obtain ⟨-, single, closed⟩ := Sketch.mk.inj same
  obtain ⟨root, isRoot, shaped⟩ := Builder.root_finish closed single
  refine ⟨_, root, bind_eq_ok.mpr ⟨tokens, lexed, ?_⟩, isRoot, shaped⟩
  exact bind_eq_ok.mpr ⟨stop, ran, rfl⟩

end SqlFerry.Tsql
