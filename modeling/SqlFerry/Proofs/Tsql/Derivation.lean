import SqlFerry.Proofs.Tsql.Parser

/-! What a reading leaves in the tree. A production turns the nodes that were read since its
checkpoint into others: it adds leaves, nodes and what the rules it calls add, and it may wrap all of
them into one. This relation between productions and lists of nodes no longer speaks of the tree under
construction, and facts about the children of nodes are proved by induction on it. -/
namespace SqlFerry

namespace Builder

variable {κ : Type}

@[simp] theorem lines_setChildren (b : Builder κ) (nodes : List (Node κ)) :
    (b.setChildren nodes).lines = b.lines := by
  unfold setChildren; split <;> rfl

theorem lines_finishNode (b : Builder κ) : b.finishNode.1.lines = b.lines := by
  unfold finishNode
  split <;> simp [push]

end Builder

namespace Tsql

/-- The node that is made of some children, if there are any. -/
def closed (id : Nat) (kind : Kind) : List (Node Kind) → List (Node Kind)
  | [] => []
  | first :: rest => [.rule id kind first rest]

theorem tokensOf_closed (id : Nat) (kind : Kind) (ys : List (Node Kind)) :
    Node.tokensOf (closed id kind ys) = Node.tokensOf ys := by
  cases ys <;> simp [closed, Node.tokensOf, Node.tokens]

theorem descendantsOf_closed (id : Nat) (kind : Kind) (ys : List (Node Kind)) :
    Node.descendantsOf ys ⊆ Node.descendantsOf (closed id kind ys) := by
  cases ys <;> simp [closed, Node.descendantsOf, Node.descendants]

/-- From some nodes since the checkpoint a production comes to others, where `calls` says which nodes
a rule adds. At the end of the tokens nothing is taken. -/
inductive Derives {ρ : Type} (calls : ρ → Cursor → List (Node Kind) → Cursor → Prop) :
    Production ρ → Cursor → List (Node Kind) → Cursor → List (Node Kind) → Prop
  | done {c : Cursor} {xs : List (Node Kind)} : Derives calls .done c xs c xs
  | take {c : Cursor} {xs : List (Node Kind)} {token : Token Kind} (id index : Nat) :
      c.rest.head? = some token → Derives calls .take c xs c.take (xs ++ [.leaf id index token])
  | stay {c : Cursor} {xs : List (Node Kind)} : c.rest = [] → Derives calls .take c xs c xs
  | seq {p q : Production ρ} {c c' c'' : Cursor} {xs ys zs : List (Node Kind)} :
      Derives calls p c xs c' ys → Derives calls q c' ys c'' zs →
      Derives calls (.seq p q) c xs c'' zs
  | holds {test : Look} {p q : Production ρ} {c c' : Cursor} {xs ys : List (Node Kind)} :
      test.holds c = true → Derives calls p c xs c' ys → Derives calls (.branch test p q) c xs c' ys
  | fails {test : Look} {p q : Production ρ} {c c' : Cursor} {xs ys : List (Node Kind)} :
      test.holds c = false → Derives calls q c xs c' ys → Derives calls (.branch test p q) c xs c' ys
  | stop {test : Look} {p : Production ρ} {c : Cursor} {xs : List (Node Kind)} :
      test.holds c = false → Derives calls (.loop test p) c xs c xs
  | round {test : Look} {p : Production ρ} {c c' c'' : Cursor} {xs ys zs : List (Node Kind)} :
      test.holds c = true → Derives calls p c xs c' ys → Derives calls (.loop test p) c' ys c'' zs →
      Derives calls (.loop test p) c xs c'' zs
  | node {kind : Kind} {p : Production ρ} {c c' : Cursor} {xs ys : List (Node Kind)} (id : Nat) :
      Derives calls p (c.startNode kind) [] c' ys →
      Derives calls (.node kind p) c xs c'.finishNode (xs ++ closed id kind ys)
  | group {p : Production ρ} {c c' : Cursor} {xs ys : List (Node Kind)} :
      Derives calls p c [] c' ys → Derives calls (.group p) c xs c' (xs ++ ys)
  | adopt {kind : Kind} {p : Production ρ} {mark : Checkpoint} {c c' : Cursor}
      {xs ys : List (Node Kind)} (id : Nat) : Derives calls p (c.startNodeAt mark kind) xs c' ys →
      Derives calls (.adopt kind p) c xs c'.finishNode (closed id kind ys)
  | rule {name : ρ} {c c' : Cursor} {xs ys : List (Node Kind)} : calls name c ys c' →
      Derives calls (.rule name) c xs c' (xs ++ ys)

/-- The innermost open node, its children and the open nodes around it. -/
def Open (kind : Kind) (nodes : List (Node Kind)) (outer : List (Kind × List (Node Kind)))
    (c : Cursor) : Prop :=
  c.builder.openNodes = (kind, nodes) :: outer

section Open

variable {kind inner : Kind} {front nodes : List (Node Kind)}
  {outer : List (Kind × List (Node Kind))} {c : Cursor}

theorem Open.take {token : Token Kind} (opened : Open kind nodes outer c)
    (next : c.rest.head? = some token) : ∃ id index,
      Open kind (nodes ++ [.leaf id index token]) outer c.take := by
  obtain ⟨rest, shape⟩ := List.head?_eq_some_iff.mp next
  refine ⟨c.builder.nodeCount, c.builder.tokens.size, ?_⟩
  unfold Open at opened ⊢
  rw [Cursor.take, shape]
  simp [Builder.token, Builder.push, Builder.setChildren, Builder.children, opened]

theorem Open.startNode (opened : Open kind nodes outer c) (inner : Kind) :
    Open inner [] ((kind, nodes) :: outer) (c.startNode inner) := by
  unfold Open at opened ⊢
  rw [← opened]
  rfl

theorem Open.startNodeAt (opened : Open kind (front ++ nodes) outer c) (inner : Kind)
    {mark : Checkpoint} (here : mark.childCount = front.length) :
    Open inner nodes ((kind, front) :: outer) (c.startNodeAt mark inner) := by
  unfold Open at opened ⊢
  simp [Cursor.startNodeAt, Builder.startNodeAt, Builder.setChildren, Builder.children, opened, here]

theorem Open.finishNode (opened : Open inner nodes ((kind, front) :: outer) c) :
    ∃ id, Open kind (front ++ closed id inner nodes) outer c.finishNode := by
  refine ⟨c.builder.nodeCount, ?_⟩
  unfold Open at opened ⊢
  cases nodes <;>
    simp [Cursor.finishNode, Builder.finishNode, opened, closed, Builder.push, Builder.setChildren,
      Builder.children]

end Open

variable {ρ : Type} {call : ρ → Cursor → Except ParseError Cursor}
  {calls : ρ → Cursor → List (Node Kind) → Cursor → Prop}

/-- A run of a production derives the children that it leaves. -/
theorem exec_derives {rules : ρ → Bool}
    (called : ∀ name c c' kind front outer, Open kind front outer c → call name c = .ok c' →
      ∃ ys, calls name c ys c' ∧ Open kind (front ++ ys) outer c')
    (forward : ∀ name c c', call name c = .ok c' → c'.rest.length ≤ c.rest.length)
    (reading : ∀ name c c', rules name = true → c.rest ≠ [] → call name c = .ok c' →
      c'.rest.length < c.rest.length)
    (p : Production ρ) (advances : p.advances rules = true) {mark : Checkpoint} {c c' : Cursor}
    {kind : Kind} {front xs : List (Node Kind)} {outer : List (Kind × List (Node Kind))}
    (opened : Open kind (front ++ xs) outer c)
    (marked : p.contained = true ∨ mark.childCount = front.length)
    (ran : p.exec call mark c = .ok c') :
    ∃ ys, Derives calls p c xs c' ys ∧ Open kind (front ++ ys) outer c' := by
  induction p generalizing mark c c' kind front xs outer with
  | done => cases ran; exact ⟨xs, .done, opened⟩
  | take =>
    cases ran
    cases next : c.rest.head? with
    | none =>
      have empty := List.head?_eq_none_iff.mp next
      have same : c.take = c := by rw [Cursor.take, empty]
      exact ⟨xs, same.symm ▸ .stay empty, same.symm ▸ opened⟩
    | some token =>
      obtain ⟨id, index, opened'⟩ := opened.take next
      exact ⟨_, .take id index next, by rw [← List.append_assoc]; exact opened'⟩
  | fail expectation => cases ran
  | seq p q ihp ihq =>
    obtain ⟨middle, first, second⟩ := Production.exec_seq.mp ran
    have both : (p.contained = true ∧ q.contained = true) ∨ mark.childCount = front.length :=
      marked.imp_left Bool.and_eq_true_iff.mp
    obtain ⟨advancesP, advancesQ⟩ := Bool.and_eq_true_iff.mp advances
    obtain ⟨ys, derives, opened'⟩ := ihp advancesP opened (both.imp_left And.left) first
    obtain ⟨zs, derives', opened''⟩ := ihq advancesQ opened' (both.imp_left And.right) second
    exact ⟨zs, .seq derives derives', opened''⟩
  | branch test p q ihp ihq =>
    have both : (p.contained = true ∧ q.contained = true) ∨ mark.childCount = front.length :=
      marked.imp_left Bool.and_eq_true_iff.mp
    obtain ⟨advancesP, advancesQ⟩ := Bool.and_eq_true_iff.mp advances
    rw [Production.exec] at ran
    split at ran
    · next holds =>
      obtain ⟨ys, derives, opened'⟩ := ihp advancesP opened (both.imp_left And.left) ran
      exact ⟨ys, .holds holds derives, opened'⟩
    · next fails =>
      obtain ⟨ys, derives, opened'⟩ := ihq advancesQ opened (both.imp_left And.right) ran
      exact ⟨ys, .fails (Bool.eq_false_iff.mpr fails) derives, opened'⟩
  | loop test p ih =>
    obtain ⟨inside, needed, shorter⟩ := Production.advances_loop forward reading advances
    -- There is a token for every round, so the loop ends because its test fails.
    have rounds (tokens : List (Token Kind)) : ∀ {c : Cursor} {xs : List (Node Kind)},
        c.rest.length ≤ tokens.length → Open kind (front ++ xs) outer c →
        iterate test (p.exec call mark) tokens c = .ok c' →
        ∃ ys, Derives calls (.loop test p) c xs c' ys ∧ Open kind (front ++ ys) outer c' := by
      induction tokens with
      | nil =>
        intro c xs enough opened ran
        obtain rfl : c = c' := Except.ok.inj ran
        have empty : c.rest = [] := List.length_eq_zero_iff.mp (Nat.le_zero.mp enough)
        exact ⟨xs, .stop (Bool.eq_false_iff.mpr fun holds => needed c holds empty), opened⟩
      | cons token tokens more =>
        intro c xs enough opened ran
        rw [iterate] at ran
        split at ran
        · next holds =>
          obtain ⟨next, stepped, rest⟩ := bind_eq_ok.mp ran
          obtain ⟨ys, derives, opened'⟩ := ih inside opened marked stepped
          have read := shorter mark c next holds stepped
          rw [List.length_cons] at enough
          obtain ⟨zs, derives', opened''⟩ := more (by omega) opened' rest
          exact ⟨zs, .round holds derives derives', opened''⟩
        · next fails =>
          cases ran
          exact ⟨xs, .stop (Bool.eq_false_iff.mpr fails), opened⟩
    exact rounds c.rest (Nat.le_refl _) opened ran
  | node inner p ih =>
    obtain ⟨last, body, rfl⟩ := Production.exec_node.mp ran
    have start : Open inner ([] ++ []) ((kind, front ++ xs) :: outer) (c.startNode inner) :=
      opened.startNode inner
    obtain ⟨ys, derives, opened'⟩ := ih advances start (.inr rfl) body
    obtain ⟨id, opened''⟩ := opened'.finishNode
    exact ⟨_, .node id derives, by rw [← List.append_assoc]; exact opened''⟩
  | group p ih =>
    have here : (c.builder.checkpoint).childCount = (front ++ xs).length := by
      have shape : c.builder.openNodes = (kind, front ++ xs) :: outer := opened
      simp [Builder.checkpoint, Builder.children, shape]
    have start : Open kind (front ++ xs ++ []) outer c := by rwa [List.append_nil]
    obtain ⟨ys, derives, opened'⟩ := ih advances start (.inr here) ran
    exact ⟨_, .group derives, by rw [← List.append_assoc]; exact opened'⟩
  | adopt inner p ih =>
    obtain ⟨last, body, rfl⟩ := Production.exec_adopt.mp ran
    have here : mark.childCount = front.length :=
      marked.resolve_left (by simp [Production.contained])
    have start : Open inner ([] ++ xs) ((kind, front) :: outer) (c.startNodeAt mark inner) :=
      opened.startNodeAt inner here
    obtain ⟨ys, derives, opened'⟩ := ih advances start (.inr rfl) body
    obtain ⟨id, opened''⟩ := opened'.finishNode
    exact ⟨_, .adopt id derives, opened''⟩
  | rule name =>
    obtain ⟨ys, called, opened'⟩ := called name c c' kind (front ++ xs) outer opened ran
    exact ⟨_, .rule called, by rw [← List.append_assoc]; exact opened'⟩

/-- The nodes that a rule adds, with at most `depth` rules one inside the other. -/
def Reads : Nat → Rule → Cursor → List (Node Kind) → Cursor → Prop
  | 0, _, _, _, _ => False
  | depth + 1, rule, c, ys, c' => Derives (Reads depth) (Grammar.production rule) c [] c' ys

theorem readRule_derives {depth : Nat} {rule : Rule} {c c' : Cursor} {kind : Kind}
    {front : List (Node Kind)} {outer : List (Kind × List (Node Kind))}
    (opened : Open kind front outer c) (ran : readRule depth rule c = .ok c') :
    ∃ ys, Reads depth rule c ys c' ∧ Open kind (front ++ ys) outer c' := by
  induction depth generalizing rule c c' kind front outer with
  | zero => cases ran
  | succ depth ih =>
    have start : Open kind (front ++ []) outer c := by rwa [List.append_nil]
    have called (name : Rule) (c c' : Cursor) (kind : Kind) (front : List (Node Kind))
        (outer : List (Kind × List (Node Kind))) (opened : Open kind front outer c)
        (ran : readRule depth name c = .ok c') :
        ∃ ys, Reads depth name c ys c' ∧ Open kind (front ++ ys) outer c' := ih opened ran
    exact exec_derives called (fun _ _ _ => readRule_length_le) (fun _ _ _ => readRule_reads) _
      (production_advances rule) start (.inl (production_contained rule)) ran

/-- The root of a text that can be read is read by the rule for units, to the end of the tokens. -/
theorem parse_reads {source : String} {tree : Tree Kind} {root : Node Kind}
    (parsed : parse source = .ok tree) (isRoot : tree.root = some root) :
    ∃ tokens c', lex source = .ok tokens ∧ c'.rest = [] ∧
      Reads (depthFor tokens) .compileUnit ⟨tokens, .origin, .ofText source⟩ [root] c' := by
  obtain ⟨tokens, lexed, read⟩ := bind_eq_ok.mp parsed
  obtain ⟨stop, ran, built⟩ := bind_eq_ok.mp read
  obtain rfl : stop.builder.finish = tree := Except.ok.inj built
  obtain ⟨atEnd, -⟩ := readRule_compileUnit rfl rfl ran
  obtain ⟨depth, enough⟩ : ∃ depth, depthFor tokens = depth + 1 :=
    ⟨80 * tokens.length + 79, by unfold depthFor; omega⟩
  rw [enough] at ran
  obtain ⟨inner, body, rfl⟩ := Production.exec_node.mp ran
  have called (name : Rule) (c c' : Cursor) (kind : Kind) (front : List (Node Kind))
      (outer : List (Kind × List (Node Kind))) (opened : Open kind front outer c)
      (ran : readRule depth name c = .ok c') :
      ∃ ys, Reads depth name c ys c' ∧ Open kind (front ++ ys) outer c' := readRule_derives opened ran
  have start : Open .compileUnit ([] ++ []) []
      (Cursor.startNode ⟨tokens, .origin, .ofText source⟩ .compileUnit) := rfl
  obtain ⟨ys, derives, opened⟩ := exec_derives called (fun _ _ _ => readRule_length_le)
    (fun _ _ _ => readRule_reads) _ (by exact production_advances .compileUnit) start (.inl rfl) body
  have shape : inner.builder.openNodes = [(.compileUnit, ys)] := opened
  have inside (name : Rule) (c c' : Cursor) (kind : Kind) (front : List (Node Kind))
      (outer : List (Kind × List (Node Kind))) (top : List (Node Kind))
      (inside : c.builder.Inside kind front outer top) (ran : readRule depth name c = .ok c') :
      c'.builder.Inside kind front outer top := readRule_inside inside ran
  obtain ⟨-, -, top⟩ : inner.builder.Inside .compileUnit [] [] [] :=
    Production.exec_inside inside _ ⟨[], rfl, rfl⟩ (.inl rfl) body
  refine ⟨tokens, inner.finishNode, lexed, atEnd, ?_⟩
  rw [enough]
  cases ys with
  | nil =>
    simp [Builder.finish, Builder.finishNodes, Cursor.finishNode, Builder.finishNode, shape,
      top] at isRoot
  | cons first rest =>
    obtain rfl : .rule inner.builder.nodeCount .compileUnit first rest = root := by
      simpa [Builder.finish, Builder.finishNodes, Cursor.finishNode, Builder.finishNode, shape,
        Builder.push, Builder.setChildren, Builder.children, top] using isRoot
    exact Derives.node inner.builder.nodeCount derives

theorem parse_derives {source : String} {tree : Tree Kind} {root : Node Kind}
    (parsed : parse source = .ok tree) (isRoot : tree.root = some root) :
    ∃ depth c c', Reads depth .compileUnit c [root] c' := by
  obtain ⟨tokens, c', -, -, reads⟩ := parse_reads parsed isRoot
  exact ⟨_, _, c', reads⟩

theorem stable_lines (lines : List String) : Stable fun c => c.builder.lines = lines where
  take c same := by
    unfold Cursor.take
    split
    · exact same
    · simpa [Builder.token, Builder.push] using same
  startNode _ _ same := same
  startNodeAt c mark kind same := by simpa [Cursor.startNodeAt, Builder.startNodeAt] using same
  finishNode c same := by simpa [Cursor.finishNode, Builder.lines_finishNode] using same

/-- A text that can be read has a tree over its lines and its tokens. -/
theorem parse_tree {source : String} {tree : Tree Kind} (parsed : parse source = .ok tree) :
    lex source = .ok tree.tokens ∧ tree.lines = Text.lines source ∧
      match tree.root with
      | some root => root.tokens = tree.tokens
      | none => tree.tokens = [] := by
  obtain ⟨tokens, lexed, read⟩ := bind_eq_ok.mp parsed
  obtain ⟨stop, ran, built⟩ := bind_eq_ok.mp read
  obtain rfl : stop.builder.finish = tree := Except.ok.inj built
  obtain ⟨atEnd, closed, top⟩ := readRule_compileUnit rfl rfl ran
  have accounted := readRule_stable (stable_accounted tokens)
    ⟨Builder.complete_ofText source, rfl⟩ ran
  have lines := readRule_stable (stable_lines (Text.lines source)) rfl ran
  have all : stop.builder.tokens.toList = tokens := by
    rw [← accounted.all, atEnd, List.append_nil]
  have leaves : Node.tokensOf stop.builder.top = tokens := by
    have complete := accounted.complete
    rw [Builder.Complete, all, Builder.leaves, closed] at complete
    have mapped := congrArg (List.map Prod.fst) complete
    simpa [Node.map_fst_leavesOf] using mapped
  have finished : stop.builder.finish =
      ⟨stop.builder.lines, tokens, stop.builder.arena, stop.builder.top.getLast?⟩ := by
    simp [Builder.finish, Builder.finishNodes, closed, all]
  rw [finished]
  refine ⟨lexed, lines, ?_⟩
  rcases top with empty | ⟨id, first, rest, shape, -⟩
  · rw [empty] at leaves ⊢
    exact leaves.symm
  · rw [shape] at leaves ⊢
    simpa [Node.tokensOf] using leaves

/-! Reading goes forward, and what a production needs to see is there. -/

theorem Derives.suffix {p : Production ρ} {c c' : Cursor} {xs ys : List (Node Kind)}
    (forward : ∀ name c ys c', calls name c ys c' → c'.rest <:+ c.rest)
    (derives : Derives calls p c xs c' ys) : c'.rest <:+ c.rest := by
  induction derives with
  | done => exact List.suffix_refl _
  | take => rw [Cursor.rest_take]; exact List.tail_suffix _
  | stay => exact List.suffix_refl _
  | seq _ _ ihp ihq => exact ihq.trans ihp
  | holds _ _ ih => exact ih
  | fails _ _ ih => exact ih
  | stop => exact List.suffix_refl _
  | round _ _ _ ihp ihq => exact ihq.trans ihp
  | node _ _ ih => exact ih
  | group _ ih => exact ih
  | adopt _ _ ih => exact ih
  | rule called => exact forward _ _ _ _ called

theorem Reads.suffix {depth : Nat} {rule : Rule} {c c' : Cursor} {ys : List (Node Kind)}
    (reads : Reads depth rule c ys c') : c'.rest <:+ c.rest := by
  induction depth generalizing rule c c' ys with
  | zero => exact reads.elim
  | succ depth ih => exact Derives.suffix (fun _ _ _ _ => ih) reads

section Inversion

variable {p q : Production ρ} {c c' : Cursor} {xs ys : List (Node Kind)}

theorem derives_seq : Derives calls (.seq p q) c xs c' ys ↔
    ∃ middle zs, Derives calls p c xs middle zs ∧ Derives calls q middle zs c' ys := by
  constructor
  · intro derives
    cases derives with
    | seq first second => exact ⟨_, _, first, second⟩
  · rintro ⟨_, _, first, second⟩
    exact .seq first second

theorem derives_done : Derives calls (.done : Production ρ) c xs c' ys ↔ c' = c ∧ ys = xs := by
  constructor
  · intro derives
    cases derives with
    | done => exact ⟨rfl, rfl⟩
  · rintro ⟨rfl, rfl⟩
    exact .done

theorem Look.exists_of_sees {kind : Kind} (sees : (Look.sees kind).holds c = true) :
    ∃ token rest, c.rest = token :: rest ∧ token.kind = kind := by
  rw [Look.sees, Look.holds, ← List.head?_eq_getElem?] at sees
  obtain ⟨token, next, isKind⟩ := (Option.any_eq_true _ _).mp sees
  obtain ⟨rest, shape⟩ := List.head?_eq_some_iff.mp next
  exact ⟨token, rest, shape, eq_of_beq isKind⟩

theorem Derives.taken (derives : Derives calls .take c xs c' ys) (left : c.rest ≠ []) :
    ∃ id index token, c.rest.head? = some token ∧ c' = c.take ∧
      ys = xs ++ [.leaf id index token] := by
  cases derives with
  | take id index next => exact ⟨id, index, _, next, rfl, rfl⟩
  | stay empty => exact absurd empty left

theorem Derives.expected {kind : Kind} {what : String}
    (derives : Derives calls (.expect kind what) c xs c' ys) :
    ∃ id index token, c.rest.head? = some token ∧ token.kind = kind ∧ c' = c.take ∧
      ys = xs ++ [.leaf id index token] := by
  cases derives with
  | holds sees taken =>
    obtain ⟨token, rest, shape, isKind⟩ := Look.exists_of_sees sees
    obtain ⟨id, index, token', next, rfl, rfl⟩ := taken.taken (by simp [shape])
    obtain rfl : token = token' := by simpa [shape] using next
    exact ⟨id, index, token, next, isKind, rfl, rfl⟩
  | fails _ derives => cases derives

theorem derives_rule {name : ρ} : Derives calls (.rule name) c xs c' ys ↔
    ∃ zs, calls name c zs c' ∧ ys = xs ++ zs := by
  constructor
  · intro derives
    cases derives with
    | rule called => exact ⟨_, called, rfl⟩
  · rintro ⟨zs, called, rfl⟩
    exact .rule called

end Inversion

end Tsql

end SqlFerry
