import SqlFerry.Proofs.Tree.Shape
import SqlFerry.Proofs.Tsql.Derivation

/-! The course of a reading. What a production does depends on the tokens ahead and on the line where the
last one ended, and on nothing that was built before. A course says from which place to which other one
a production reads and which nodes it makes. Every run has a course, and along every course there is a
run from each cursor that stands at its start. So readings of different texts are compared by their
courses, without a look at the trees under construction. -/
namespace SqlFerry.Tsql

/-- From a place and some nodes since the checkpoint a production comes to others, where `calls` says what
the rules do. -/
inductive Course {ρ : Type} (calls : ρ → Place → List (Node Kind) → Place → Prop) :
    Production ρ → Place → List (Node Kind) → Place → List (Node Kind) → Prop
  | done {s : Place} {xs : List (Node Kind)} : Course calls .done s xs s xs
  | take {token : Token Kind} {rest : List (Token Kind)} {line : Nat} {xs : List (Node Kind)}
      (id index : Nat) : Course calls .take ⟨token :: rest, line⟩ xs ⟨rest, token.stop.line⟩
        (xs ++ [.leaf id index token])
  | stay {line : Nat} {xs : List (Node Kind)} : Course calls .take ⟨[], line⟩ xs ⟨[], line⟩ xs
  | seq {p q : Production ρ} {s s' s'' : Place} {xs ys zs : List (Node Kind)} :
      Course calls p s xs s' ys → Course calls q s' ys s'' zs → Course calls (.seq p q) s xs s'' zs
  | holds {test : Look} {p q : Production ρ} {s s' : Place} {xs ys : List (Node Kind)} :
      test.answer s = true → Course calls p s xs s' ys → Course calls (.branch test p q) s xs s' ys
  | fails {test : Look} {p q : Production ρ} {s s' : Place} {xs ys : List (Node Kind)} :
      test.answer s = false → Course calls q s xs s' ys → Course calls (.branch test p q) s xs s' ys
  | stop {test : Look} {p : Production ρ} {s : Place} {xs : List (Node Kind)} :
      test.answer s = false → Course calls (.loop test p) s xs s xs
  | round {test : Look} {p : Production ρ} {s s' s'' : Place} {xs ys zs : List (Node Kind)} :
      test.answer s = true → Course calls p s xs s' ys → Course calls (.loop test p) s' ys s'' zs →
      Course calls (.loop test p) s xs s'' zs
  | node {kind : Kind} {p : Production ρ} {s s' : Place} {xs ys : List (Node Kind)} (id : Nat) :
      Course calls p s [] s' ys → Course calls (.node kind p) s xs s' (xs ++ closed id kind ys)
  | group {p : Production ρ} {s s' : Place} {xs ys : List (Node Kind)} :
      Course calls p s [] s' ys → Course calls (.group p) s xs s' (xs ++ ys)
  | adopt {kind : Kind} {p : Production ρ} {s s' : Place} {xs ys : List (Node Kind)} (id : Nat) :
      Course calls p s xs s' ys → Course calls (.adopt kind p) s xs s' (closed id kind ys)
  | rule {name : ρ} {s s' : Place} {xs ys : List (Node Kind)} : calls name s ys s' →
      Course calls (.rule name) s xs s' (xs ++ ys)

/-- The course of a rule, with at most `depth` rules one inside the other. -/
def RuleCourse : Nat → Rule → Place → List (Node Kind) → Place → Prop
  | 0, _, _, _, _ => False
  | depth + 1, rule, s, ys, s' => Course (RuleCourse depth) (Grammar.production rule) s [] s' ys

section Basics

variable {ρ : Type} {calls calls' : ρ → Place → List (Node Kind) → Place → Prop}
  {p q : Production ρ} {s s' : Place} {xs ys : List (Node Kind)} {depth depth' : Nat} {rule : Rule}

theorem Course.mono (more : ∀ name s ys s', calls name s ys s' → calls' name s ys s')
    (course : Course calls p s xs s' ys) : Course calls' p s xs s' ys := by
  induction course with
  | done => exact .done
  | take id index => exact .take id index
  | stay => exact .stay
  | seq _ _ ihp ihq => exact .seq ihp ihq
  | holds answer _ ih => exact .holds answer ih
  | fails answer _ ih => exact .fails answer ih
  | stop answer => exact .stop answer
  | round answer _ _ ihp ihq => exact .round answer ihp ihq
  | node id _ ih => exact .node id ih
  | group _ ih => exact .group ih
  | adopt id _ ih => exact .adopt id ih
  | rule called => exact .rule (more _ _ _ _ called)

theorem RuleCourse.mono (deeper : depth ≤ depth') (course : RuleCourse depth rule s ys s') :
    RuleCourse depth' rule s ys s' := by
  induction depth generalizing depth' rule s ys s' with
  | zero => exact course.elim
  | succ depth ih =>
    cases depth' with
    | zero => simp at deeper
    | succ depth' => exact Course.mono (fun _ _ _ _ => ih (Nat.le_of_succ_le_succ deeper)) course

theorem Course.suffix (forward : ∀ name s ys s', calls name s ys s' → s'.rest <:+ s.rest)
    (course : Course calls p s xs s' ys) : s'.rest <:+ s.rest := by
  induction course with
  | done | stay | stop => exact List.suffix_refl _
  | take => exact List.suffix_cons _ _
  | seq _ _ ihp ihq => exact ihq.trans ihp
  | holds _ _ ih | fails _ _ ih | node _ _ ih | group _ ih | adopt _ _ ih => exact ih
  | round _ _ _ ihp ihq => exact ihq.trans ihp
  | rule called => exact forward _ _ _ _ called

theorem RuleCourse.suffix (course : RuleCourse depth rule s ys s') : s'.rest <:+ s.rest := by
  induction depth generalizing rule s ys s' with
  | zero => exact course.elim
  | succ depth ih => exact Course.suffix (fun _ _ _ _ => ih) course

theorem Course.descendants (course : Course calls p s xs s' ys) :
    Node.descendantsOf xs ⊆ Node.descendantsOf ys := by
  have append (xs ys : List (Node Kind)) : Node.descendantsOf xs ⊆ Node.descendantsOf (xs ++ ys) := by
    rw [Node.descendantsOf_append]
    exact List.subset_append_left _ _
  induction course with
  | done | stay | stop => exact List.Subset.refl _
  | take | node | group | rule => exact append ..
  | seq _ _ ihp ihq => exact List.Subset.trans ihp ihq
  | holds _ _ ih | fails _ _ ih => exact ih
  | round _ _ _ ihp ihq => exact List.Subset.trans ihp ihq
  | adopt id _ ih => exact List.Subset.trans ih (descendantsOf_closed ..)

theorem Course.tokens
    (called : ∀ name s ys s', calls name s ys s' → s.rest = Node.tokensOf ys ++ s'.rest)
    (course : Course calls p s xs s' ys) :
    Node.tokensOf xs ++ s.rest = Node.tokensOf ys ++ s'.rest := by
  induction course with
  | done | stay | stop => rfl
  | take => simp [Node.tokensOf_append, Node.tokensOf, Node.tokens]
  | seq _ _ ihp ihq => exact ihp.trans ihq
  | holds _ _ ih | fails _ _ ih => exact ih
  | round _ _ _ ihp ihq => exact ihp.trans ihq
  | node id _ ih =>
    rw [Node.tokensOf_append, tokensOf_closed, List.append_assoc, ← ih]
    rfl
  | group _ ih =>
    rw [Node.tokensOf_append, List.append_assoc, ← ih]
    rfl
  | adopt id _ ih => rw [tokensOf_closed, ih]
  | rule ran => rw [Node.tokensOf_append, List.append_assoc, called _ _ _ _ ran]

theorem RuleCourse.tokens (course : RuleCourse depth rule s ys s') :
    s.rest = Node.tokensOf ys ++ s'.rest := by
  induction depth generalizing rule s ys s' with
  | zero => exact course.elim
  | succ depth ih => exact Course.tokens (fun _ _ _ _ => ih) course

end Basics

/-! Every run has a course. -/

theorem Cursor.place_take {c : Cursor} {token : Token Kind} (next : c.rest.head? = some token) :
    ∃ rest, c.place = ⟨token :: rest, c.last.line⟩ ∧ c.take.place = ⟨rest, token.stop.line⟩ := by
  obtain ⟨rest, shape⟩ := List.head?_eq_some_iff.mp next
  exact ⟨rest, by rw [place, shape], by rw [take, shape]; rfl⟩

theorem Derives.course {ρ : Type} {reads : ρ → Cursor → List (Node Kind) → Cursor → Prop}
    {calls : ρ → Place → List (Node Kind) → Place → Prop} {p : Production ρ} {c c' : Cursor}
    {xs ys : List (Node Kind)}
    (called : ∀ name c ys c', reads name c ys c' → calls name c.place ys c'.place)
    (derives : Derives reads p c xs c' ys) : Course calls p c.place xs c'.place ys := by
  induction derives with
  | done => exact .done
  | take id index next =>
    obtain ⟨rest, before, after⟩ := Cursor.place_take next
    rw [before, after]
    exact .take id index
  | stay empty =>
    rw [Cursor.place, empty]
    exact .stay
  | seq _ _ ihp ihq => exact .seq ihp ihq
  | holds answer _ ih => exact .holds (by rw [← Look.holds_eq_answer, answer]) ih
  | fails answer _ ih => exact .fails (by rw [← Look.holds_eq_answer, answer]) ih
  | stop answer => exact .stop (by rw [← Look.holds_eq_answer, answer])
  | round answer _ _ ihp ihq => exact .round (by rw [← Look.holds_eq_answer, answer]) ihp ihq
  | node id _ ih => exact .node id ih
  | group _ ih => exact .group ih
  | adopt id _ ih => exact .adopt id ih
  | rule read => exact .rule (called _ _ _ _ read)

theorem Reads.course {depth : Nat} {rule : Rule} {c c' : Cursor} {ys : List (Node Kind)}
    (reads : Reads depth rule c ys c') : RuleCourse depth rule c.place ys c'.place := by
  induction depth generalizing rule c c' ys with
  | zero => exact reads.elim
  | succ depth ih => exact Derives.course (fun _ _ _ _ => ih) reads

/-! Along every course there is a run. -/

/-- With enough tokens for its rounds a loop does not depend on their number. -/
theorem iterate_eq {test : Look} {step : Cursor → Except ParseError Cursor}
    (needed : ∀ c, test.holds c = true → c.rest ≠ [])
    (shorter : ∀ c c', test.holds c = true → step c = .ok c' → c'.rest.length < c.rest.length)
    {tokens tokens' : List (Token Kind)} {c : Cursor} (enough : c.rest.length ≤ tokens.length)
    (enough' : c.rest.length ≤ tokens'.length) :
    iterate test step tokens c = iterate test step tokens' c := by
  have atEnd (none : c.rest.length ≤ 0) : test.holds c = false :=
    Bool.eq_false_iff.mpr fun holds => needed c holds (by simpa using none)
  induction tokens generalizing tokens' c with
  | nil =>
    cases tokens' with
    | nil => rfl
    | cons => simp [iterate, atEnd enough]
  | cons token tokens ih =>
    cases tokens' with
    | nil => simp [iterate, atEnd enough']
    | cons token' tokens' =>
      rw [iterate, iterate]
      split
      · next holds =>
        cases stepped : step c with
        | error e => rfl
        | ok next =>
          have read := shorter c next holds stepped
          simp only [List.length_cons] at enough enough'
          refine ih (by omega) (by omega) fun none => Bool.eq_false_iff.mpr fun holds => ?_
          exact needed next holds (by simpa using none)
      · rfl

/-- The cursor stands at the place, and the innermost open node has children of these shapes. -/
structure Cursor.Holds (s : Place) (shapes : List (Shape Kind))
    (around : List (Kind × List (Shape Kind))) (c : Cursor) : Prop where
  place : c.place = s
  shapes : c.builder.shapes = shapes
  around : c.builder.around = around

section Runs

variable {ρ : Type} {call : ρ → Cursor → Except ParseError Cursor} {rules : ρ → Bool}
  {calls : ρ → Place → List (Node Kind) → Place → Prop}

theorem closed_shapes (id : Nat) (kind : Kind) (nodes : List (Node Kind)) :
    (closed id kind nodes).map Node.shape =
      if nodes = [] then [] else [.rule kind (nodes.map Node.shape)] := by
  cases nodes with
  | nil => rfl
  | cons first rest => simp [closed, Node.shape_rule]

theorem Cursor.Holds.finishNode {s : Place} {kind : Kind} {front : List (Shape Kind)}
    {nodes : List (Node Kind)} {around : List (Kind × List (Shape Kind))} {c : Cursor}
    (holds : c.Holds s (nodes.map Node.shape) ((kind, front) :: around)) (id : Nat) :
    c.finishNode.Holds s (front ++ (closed id kind nodes).map Node.shape) around := by
  obtain ⟨place, shapes, opened⟩ := holds
  rw [closed_shapes]
  split
  · next none =>
    obtain ⟨left, outer⟩ := Builder.shapes_finishNode_nil opened (by rw [shapes, none]; rfl)
    exact ⟨place, by rw [List.append_nil]; exact left, outer⟩
  · next some =>
    obtain ⟨left, outer⟩ := Builder.shapes_finishNode opened (by rw [shapes]; simpa using some)
    exact ⟨place, by rw [← shapes]; exact left, outer⟩

/-- A production runs along each of its courses, from every cursor that stands at its start. -/
theorem Course.exec
    (called : ∀ name s ys s' shapes around c, calls name s ys s' → c.Holds s shapes around →
      ∃ c', call name c = .ok c' ∧ c'.Holds s' (shapes ++ ys.map Node.shape) around)
    (forward : ∀ name c c', call name c = .ok c' → c'.rest.length ≤ c.rest.length)
    (reading : ∀ name c c', rules name = true → c.rest ≠ [] → call name c = .ok c' →
      c'.rest.length < c.rest.length)
    {p : Production ρ} {s s' : Place} {xs ys : List (Node Kind)} (course : Course calls p s xs s' ys)
    (advances : p.advances rules = true) {mark : Checkpoint} {c : Cursor} {front : List (Shape Kind)}
    {around : List (Kind × List (Shape Kind))}
    (holds : c.Holds s (front ++ xs.map Node.shape) around)
    (marked : p.contained = true ∨ mark.childCount = front.length) :
    ∃ c', p.exec call mark c = .ok c' ∧ c'.Holds s' (front ++ ys.map Node.shape) around := by
  induction course generalizing mark c front around with
  | done => exact ⟨c, rfl, holds⟩
  | @take token rest line xs id index =>
    obtain ⟨place, shapes, outer⟩ := holds
    have ahead : c.rest = token :: rest := congrArg Place.rest place
    refine ⟨c.take, rfl, ?_, ?_, ?_⟩
    · simp [Cursor.take, Cursor.place, ahead]
    · simp [Cursor.take, ahead, Builder.shapes_token, shapes, Node.shape]
    · simp [Cursor.take, ahead, Builder.around_token, outer]
  | stay =>
    have ahead : c.rest = [] := congrArg Place.rest holds.place
    exact ⟨c, by simp [Production.exec, Cursor.take, ahead], holds⟩
  | seq _ _ ihp ihq =>
    have both := marked.imp_left Bool.and_eq_true_iff.mp
    obtain ⟨advancesP, advancesQ⟩ := Bool.and_eq_true_iff.mp advances
    obtain ⟨middle, ran, holds'⟩ := ihp advancesP holds (both.imp_left And.left)
    obtain ⟨c', ran', holds''⟩ := ihq advancesQ holds' (both.imp_left And.right)
    exact ⟨c', Production.exec_seq.mpr ⟨middle, ran, ran'⟩, holds''⟩
  | holds answer _ ih =>
    obtain ⟨c', ran, holds'⟩ := ih (Bool.and_eq_true_iff.mp advances).1 holds
      (marked.imp_left fun h => (Bool.and_eq_true_iff.mp h).1)
    refine ⟨c', ?_, holds'⟩
    rw [Production.exec, Look.holds_eq_answer, holds.place, if_pos answer, ran]
  | fails answer _ ih =>
    obtain ⟨c', ran, holds'⟩ := ih (Bool.and_eq_true_iff.mp advances).2 holds
      (marked.imp_left fun h => (Bool.and_eq_true_iff.mp h).2)
    refine ⟨c', ?_, holds'⟩
    rw [Production.exec, Look.holds_eq_answer, holds.place, if_neg (by simp [answer]), ran]
  | @stop test p s xs answer =>
    refine ⟨c, ?_, holds⟩
    have fails := Look.holds_eq_answer test c
    rw [holds.place, answer] at fails
    rw [Production.exec]
    cases c.rest <;> simp [iterate, fails]
  | @round test p s s' s'' xs ys zs answer _ _ ihp ihq =>
    obtain ⟨inside, needed, shorter⟩ := Production.advances_loop forward reading advances
    have isTrue := Look.holds_eq_answer test c
    rw [holds.place, answer] at isTrue
    obtain ⟨next, ran, holds'⟩ := ihp inside holds marked
    obtain ⟨c', ran', holds''⟩ := ihq advances holds' marked
    have read := shorter mark c next isTrue ran
    refine ⟨c', ?_, holds''⟩
    rw [Production.exec] at ran' ⊢
    cases ahead : c.rest with
    | nil => exact absurd ahead (needed c isTrue)
    | cons token tokens =>
      rw [ahead, List.length_cons] at read
      rw [iterate, if_pos isTrue, ran]
      exact (iterate_eq needed (shorter mark) (by omega) (Nat.le_refl _)).trans ran'
  | @node kind p s s' xs ys id _ ih =>
    have opened : (c.startNode kind).Holds s ([] ++ [])
        ((kind, front ++ xs.map Node.shape) :: around) :=
      ⟨holds.place, rfl, by
        rw [Cursor.startNode, Builder.around_startNode, holds.shapes, holds.around]⟩
    obtain ⟨inner, ran, holds'⟩ := ih advances opened (.inr rfl)
    refine ⟨inner.finishNode, Production.exec_node.mpr ⟨inner, ran, rfl⟩, ?_⟩
    rw [List.map_append, ← List.append_assoc]
    exact holds'.finishNode id
  | @group p s s' xs ys _ ih =>
    have start : c.Holds s ((front ++ xs.map Node.shape) ++ []) around := by
      rw [List.append_nil]
      exact holds
    have here : c.builder.checkpoint.childCount = (front ++ xs.map Node.shape).length := by
      rw [Builder.checkpoint_eq, holds.shapes]
    obtain ⟨c', ran, holds'⟩ := ih advances start (.inr here)
    exact ⟨c', ran, by rw [List.map_append, ← List.append_assoc]; exact holds'⟩
  | @adopt kind p s s' xs ys id _ ih =>
    have here : mark.childCount = front.length :=
      marked.resolve_left (by simp [Production.contained])
    have opened : (c.startNodeAt mark kind).Holds s ([] ++ xs.map Node.shape)
        ((kind, front) :: around) := by
      refine ⟨holds.place, ?_, ?_⟩
      · rw [Cursor.startNodeAt, Builder.shapes_startNodeAt, holds.shapes, here, List.drop_left]
        rfl
      · rw [Cursor.startNodeAt, Builder.around_startNodeAt, holds.shapes, holds.around, here,
          List.take_left]
    obtain ⟨inner, ran, holds'⟩ := ih advances opened (.inr rfl)
    exact ⟨inner.finishNode, Production.exec_adopt.mpr ⟨inner, ran, rfl⟩, holds'.finishNode id⟩
  | rule read =>
    obtain ⟨c', ran, holds'⟩ := called _ _ _ _ _ _ _ read holds
    exact ⟨c', ran, by rw [List.map_append, ← List.append_assoc]; exact holds'⟩

theorem RuleCourse.exec {depth : Nat} {rule : Rule} {s s' : Place} {ys : List (Node Kind)}
    (course : RuleCourse depth rule s ys s') {shapes : List (Shape Kind)}
    {around : List (Kind × List (Shape Kind))} {c : Cursor} (holds : c.Holds s shapes around) :
    ∃ c', readRule depth rule c = .ok c' ∧ c'.Holds s' (shapes ++ ys.map Node.shape) around := by
  induction depth generalizing rule s s' ys shapes around c with
  | zero => exact course.elim
  | succ depth ih =>
    have start : c.Holds s (shapes ++ [].map Node.shape) around := by
      rw [List.map_nil, List.append_nil]
      exact holds
    have called (name : Rule) (s : Place) (ys : List (Node Kind)) (s' : Place)
        (shapes : List (Shape Kind)) (around : List (Kind × List (Shape Kind))) (c : Cursor)
        (course : RuleCourse depth name s ys s') (holds : c.Holds s shapes around) :
        ∃ c', readRule depth name c = .ok c' ∧ c'.Holds s' (shapes ++ ys.map Node.shape) around :=
      ih course holds
    exact Course.exec called
      (fun _ _ _ => readRule_length_le) (fun _ _ _ => readRule_reads) course
      (production_advances rule) start (.inl (production_contained rule))

end Runs

end SqlFerry.Tsql
