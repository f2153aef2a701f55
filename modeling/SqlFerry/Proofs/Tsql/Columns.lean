import SqlFerry.Conversion
import SqlFerry.Proofs.Position
import SqlFerry.Proofs.Tsql.Production

/-! Reading does not look at columns. Two readings over tokens that differ only in their columns make the
same moves, so they build the same nodes with the same numbers, or stop on the same line for the same
reason. -/
namespace SqlFerry

variable {κ : Type}

/-- The token with its line but without its column. -/
def Token.atMargin (t : Token κ) : Token κ := { t with column := 0 }

namespace Node

mutual

/-- The node over its tokens without their columns. -/
def atMargin : Node κ → Node κ
  | leaf id index token => leaf id index token.atMargin
  | rule id kind first rest => rule id kind first.atMargin (atMarginAll rest)

def atMarginAll : List (Node κ) → List (Node κ)
  | [] => []
  | node :: rest => node.atMargin :: atMarginAll rest

end

theorem atMarginAll_eq_map (nodes : List (Node κ)) : atMarginAll nodes = nodes.map atMargin := by
  induction nodes with
  | nil => rfl
  | cons node rest ih => rw [atMarginAll, ih, List.map_cons]

theorem id_atMargin (node : Node κ) : node.atMargin.id = node.id := by cases node <;> rfl

end Node

namespace Builder

/-- The tree under construction without its columns and the text around it. -/
def atMargin (b : Builder κ) : Builder κ where
  lines := []
  tokens := b.tokens.map Token.atMargin
  arena := b.arena
  openNodes := b.openNodes.map fun (kind, nodes) => (kind, nodes.map Node.atMargin)
  top := b.top.map Node.atMargin

variable (b : Builder κ)

theorem children_atMargin : b.atMargin.children = b.children.map Node.atMargin := by
  rcases b with ⟨_, _, _, _ | ⟨_, _⟩, _⟩ <;> rfl

theorem atMargin_setChildren (nodes : List (Node κ)) :
    (b.setChildren nodes).atMargin = b.atMargin.setChildren (nodes.map Node.atMargin) := by
  rcases b with ⟨_, _, _, _ | ⟨_, _⟩, _⟩ <;> rfl

theorem atMargin_push (node : Node κ) : (b.push node).atMargin = b.atMargin.push node.atMargin := by
  rw [push, atMargin_setChildren, push, children_atMargin, List.map_append, List.map_singleton]

theorem checkpoint_atMargin : b.atMargin.checkpoint = b.checkpoint := by
  rw [checkpoint, checkpoint, children_atMargin, List.length_map]

theorem atMargin_startNodeAt (mark : Checkpoint) (kind : κ) :
    (b.startNodeAt mark kind).atMargin = b.atMargin.startNodeAt mark kind := by
  have kept := b.atMargin_setChildren (b.children.take mark.childCount)
  rw [List.map_take, ← children_atMargin] at kept
  have adopted : (b.children.drop mark.childCount).map Node.atMargin =
      b.atMargin.children.drop mark.childCount := by rw [children_atMargin, List.map_drop]
  simp only [startNodeAt, ← kept, ← adopted]
  rfl

theorem atMargin_token (token : Token κ) :
    (b.token token).atMargin = b.atMargin.token token.atMargin := by
  rw [Builder.token, atMargin_push, Builder.token]
  simp [atMargin, nodeCount, Node.atMargin]

theorem atMargin_finishNode : b.finishNode.1.atMargin = b.atMargin.finishNode.1 := by
  rcases b with ⟨lines, tokens, arena, _ | ⟨⟨kind, _ | ⟨first, rest⟩⟩, outer⟩, top⟩
  · rfl
  · rfl
  · have ids : (rest.map Node.atMargin).map Node.id = rest.map Node.id := by
      rw [List.map_map]
      exact List.map_congr_left fun node _ => node.id_atMargin
    simp only [finishNode, atMargin_push, Node.atMargin, Node.atMarginAll_eq_map]
    simp only [atMargin, List.map_cons, Node.id_atMargin, ids]
    rfl

theorem atMargin_finishNodes (n : Nat) : (finishNodes n b).atMargin = finishNodes n b.atMargin := by
  induction n generalizing b with
  | zero => rfl
  | succ n ih => rw [finishNodes, finishNodes, ih, atMargin_finishNode]

end Builder

def Tree.atMargin (tree : Tree κ) : Tree κ where
  lines := []
  tokens := tree.tokens.map Token.atMargin
  arena := tree.arena
  root := tree.root.map Node.atMargin

theorem Builder.atMargin_finish (b : Builder κ) : b.finish.atMargin = b.atMargin.finish := by
  have isOpen : b.atMargin.openNodes.length = b.openNodes.length := by simp [atMargin]
  rw [finish, finish, isOpen, ← atMargin_finishNodes]
  simp [Tree.atMargin, atMargin, List.getLast?_map]

namespace Tsql

/-- Two states of reading that differ only in columns. -/
structure Cursor.Alike (c d : Cursor) : Prop where
  rest : c.rest.map Token.atMargin = d.rest.map Token.atMargin
  line : c.last.line = d.last.line
  builder : c.builder.atMargin = d.builder.atMargin

/-- Both readings go on alike, or both stop on the same line for the same reason. -/
def EndAlike : Except ParseError Cursor → Except ParseError Cursor → Prop
  | .ok c, .ok d => c.Alike d
  | .error e, .error e' => e.position.line = e'.position.line ∧ e.fault = e'.fault
  | _, _ => False

theorem Token.fields_of_atMargin {t t' : Token Kind} (same : t.atMargin = t'.atMargin) :
    t.kind = t'.kind ∧ t.text = t'.text ∧ t.line = t'.line := by
  simpa [Token.atMargin] using same

namespace Cursor.Alike

variable {c d : Cursor}

theorem length (alike : c.Alike d) : c.rest.length = d.rest.length := by
  simpa using congrArg List.length alike.rest

theorem startNode (alike : c.Alike d) (kind : Kind) : (c.startNode kind).Alike (d.startNode kind) where
  rest := alike.rest
  line := alike.line
  builder := congrArg (Builder.startNode · kind) alike.builder

theorem startNodeAt (alike : c.Alike d) (mark : Checkpoint) (kind : Kind) :
    (c.startNodeAt mark kind).Alike (d.startNodeAt mark kind) where
  rest := alike.rest
  line := alike.line
  builder := by
    simp only [Cursor.startNodeAt, Builder.atMargin_startNodeAt, alike.builder]

theorem finishNode (alike : c.Alike d) : c.finishNode.Alike d.finishNode where
  rest := alike.rest
  line := alike.line
  builder := by
    simp only [Cursor.finishNode, Builder.atMargin_finishNode, alike.builder]

theorem checkpoint (alike : c.Alike d) : c.builder.checkpoint = d.builder.checkpoint := by
  rw [← c.builder.checkpoint_atMargin, alike.builder, d.builder.checkpoint_atMargin]

theorem cases (alike : c.Alike d) : (c.rest = [] ∧ d.rest = []) ∨
    ∃ token rest token' rest', c.rest = token :: rest ∧ d.rest = token' :: rest' ∧
      token.atMargin = token'.atMargin ∧ rest.map Token.atMargin = rest'.map Token.atMargin := by
  have same := alike.rest
  cases first : c.rest with
  | nil =>
    rw [first] at same
    exact .inl ⟨rfl, List.map_eq_nil_iff.mp same.symm⟩
  | cons token rest =>
    cases second : d.rest with
    | nil => simp [first, second] at same
    | cons token' rest' =>
      rw [first, second, List.map_cons, List.map_cons] at same
      obtain ⟨head, tail⟩ := List.cons.inj same
      exact .inr ⟨token, rest, token', rest', rfl, rfl, head, tail⟩

theorem take (alike : c.Alike d) : c.take.Alike d.take := by
  rcases alike.cases with ⟨none, none'⟩ | ⟨token, rest, token', rest', first, second, head, tail⟩
  · simpa [Cursor.take, none, none'] using alike
  · obtain ⟨-, text, line⟩ := Token.fields_of_atMargin head
    have stop : token.stop.line = token'.stop.line := by
      rw [Token.stop, Token.stop, text, Position.line_advance, Position.line_advance]
      exact congrArg (· + _) line
    have built : (c.builder.token token).atMargin = (d.builder.token token').atMargin := by
      rw [Builder.atMargin_token, Builder.atMargin_token, alike.builder, head]
    simpa [Cursor.take, first, second] using Alike.mk tail stop built

theorem error (alike : c.Alike d) (expectation : String) :
    EndAlike (.error (c.error expectation)) (.error (d.error expectation)) := by
  rcases alike.cases with ⟨none, none'⟩ | ⟨token, rest, token', rest', first, second, head, -⟩
  · simpa [Cursor.error, none, none', EndAlike] using alike.line
  · obtain ⟨-, text, line⟩ := Token.fields_of_atMargin head
    simp [Cursor.error, first, second, EndAlike, Token.start, text, line]

theorem holds (alike : c.Alike d) (look : Look) : look.holds c = look.holds d := by
  have ahead (n : Nat) : (c.rest[n]?).map Token.atMargin = (d.rest[n]?).map Token.atMargin := by
    rw [← List.getElem?_map, ← List.getElem?_map, alike.rest]
  have any (n : Nat) (test : Token Kind → Bool) (blind : ∀ t, test t.atMargin = test t) :
      (c.rest[n]?).any test = (d.rest[n]?).any test := by
    have same := congrArg (Option.any test) (ahead n)
    simpa [Option.any_map, Function.comp_def, blind] using same
  induction look with
  | kind n kind => exact any n _ fun _ => rfl
  | word n word => exact any n _ fun _ => rfl
  | sameLine =>
    rw [Look.holds, Look.holds, alike.line, List.head?_eq_getElem?, List.head?_eq_getElem?]
    exact any 0 _ fun _ => rfl
  | atEnd =>
    rcases alike.cases with ⟨none, none'⟩ | ⟨token, rest, token', rest', first, second, -, -⟩
    · rw [Look.holds, Look.holds, none, none']
    · rw [Look.holds, Look.holds, first, second]
      rfl
  | not look ih => rw [Look.holds, Look.holds, ih]
  | and left right ihl ihr => rw [Look.holds, Look.holds, ihl, ihr]
  | or left right ihl ihr => rw [Look.holds, Look.holds, ihl, ihr]

end Cursor.Alike

section Runs

variable {x y : Except ParseError Cursor} {c d : Cursor}

theorem EndAlike.bind {f g : Cursor → Except ParseError Cursor} (ends : EndAlike x y)
    (next : ∀ c d, c.Alike d → EndAlike (f c) (g d)) : EndAlike (x >>= f) (y >>= g) := by
  cases x with
  | error e =>
    cases y with
    | error e' => exact ends
    | ok d => cases ends
  | ok c =>
    cases y with
    | error e' => cases ends
    | ok d => exact next c d ends

theorem EndAlike.map {f : Cursor → Cursor} (ends : EndAlike x y)
    (next : ∀ c d, c.Alike d → (f c).Alike (f d)) : EndAlike (f <$> x) (f <$> y) := by
  cases x with
  | error e =>
    cases y with
    | error e' => exact ends
    | ok d => cases ends
  | ok c =>
    cases y with
    | error e' => cases ends
    | ok d => exact next c d ends

theorem iterate_alike {test : Look} {step : Cursor → Except ParseError Cursor}
    (steps : ∀ c d, c.Alike d → EndAlike (step c) (step d)) {tokens tokens' : List (Token Kind)}
    (length : tokens.length = tokens'.length) (alike : c.Alike d) :
    EndAlike (iterate test step tokens c) (iterate test step tokens' d) := by
  induction tokens generalizing tokens' c d with
  | nil =>
    obtain rfl : tokens' = [] := List.length_eq_zero_iff.mp length.symm
    exact alike
  | cons token tokens ih =>
    cases tokens' with
    | nil => cases length
    | cons token' tokens' =>
      rw [iterate, iterate, alike.holds]
      split
      · exact (steps c d alike).bind fun c d alike => ih (Nat.succ.inj length) alike
      · exact alike

/-- Productions keep readings alike if the rules that they call do. -/
theorem Production.exec_alike {ρ : Type} {call : ρ → Cursor → Except ParseError Cursor}
    (called : ∀ name c d, c.Alike d → EndAlike (call name c) (call name d)) (p : Production ρ)
    (mark : Checkpoint) (alike : c.Alike d) : EndAlike (p.exec call mark c) (p.exec call mark d) := by
  induction p generalizing mark c d with
  | done => exact alike
  | take => exact alike.take
  | fail expectation => exact alike.error expectation
  | seq p q ihp ihq => exact (ihp mark alike).bind fun _ _ alike => ihq mark alike
  | branch test p q ihp ihq =>
    rw [exec, exec, alike.holds]
    split
    · exact ihp mark alike
    · exact ihq mark alike
  | loop test p ih => exact iterate_alike (fun _ _ alike => ih mark alike) alike.length alike
  | node kind p ih => exact (ih ⟨0⟩ (alike.startNode kind)).map fun _ _ alike => alike.finishNode
  | group p ih =>
    rw [exec, exec, alike.checkpoint]
    exact ih _ alike
  | adopt kind p ih =>
    exact (ih ⟨0⟩ (alike.startNodeAt mark kind)).map fun _ _ alike => alike.finishNode
  | rule name => exact called name c d alike

theorem readRule_alike (depth : Nat) (rule : Rule) (alike : c.Alike d) :
    EndAlike (readRule depth rule c) (readRule depth rule d) := by
  induction depth generalizing rule c d with
  | zero => exact ⟨alike.line, rfl⟩
  | succ depth ih =>
    exact Production.exec_alike (fun name c d alike => ih name alike) _ ⟨0⟩ alike

end Runs

/-- The words of the converted text do depend on the spacing: a name that loses its brackets runs into the
word in front of it. -/
theorem bracket_joins_words :
    (lex "SELECT[a]").toOption.map (·.map Token.atMargin) =
      (lex "SELECT [a]").toOption.map (·.map Token.atMargin) ∧
    (convert {} "SELECT[a]").toOption.map (·.lines) = some ["SELECTa;"] ∧
    (convert {} "SELECT [a]").toOption.map (·.lines) = some ["SELECT a;"] := by
  decide +kernel

end Tsql

end SqlFerry
