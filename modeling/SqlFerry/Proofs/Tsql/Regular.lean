import SqlFerry.Proofs.Tsql.Procedure

/-! Where conditions and parameters stand in a tree. Every conditional statement has a word and behind it a
condition without statements, and every procedure has words, its name, its parameters if there are any, some
other parts, and its statements. -/
namespace SqlFerry.Tsql

/-- The node has the parts that its kind asks for. -/
def Regular : Node Kind → Prop
  | .leaf _ _ _ => True
  | .rule _ kind first rest =>
    (kind = .ifStatement ∨ kind = .whileStatement →
      first.isLeaf = true ∧ ∃ condition others, rest = condition :: others ∧ Plain [condition]) ∧
    (kind = .createProcedure → ∃ words name parameters others body,
      Header (first :: rest) words name parameters others body)

/-- The kinds of nodes of which nothing is asked. -/
def Kind.isOrdinary : Kind → Bool
  | ifStatement | whileStatement | createProcedure => false
  | _ => true

theorem Kind.isOrdinary_of_ne {kind : Kind} (noCondition : ¬(kind = .ifStatement ∨ kind = .whileStatement))
    (noProcedure : kind ≠ .createProcedure) : kind.isOrdinary = true := by
  unfold isOrdinary
  split <;> simp_all

theorem regular_of_isOrdinary {id : Nat} {kind : Kind} {first : Node Kind} {rest : List (Node Kind)}
    (ordinary : kind.isOrdinary = true) : Regular (.rule id kind first rest) := by
  constructor
  · rintro (rfl | rfl) <;> cases ordinary
  · rintro rfl
    cases ordinary

theorem production_ordinary (rule : Rule) (other : rule ∉ [.ifStatement, .whileStatement, .createProcedure]) :
    (Grammar.production rule).within Kind.isOrdinary (fun _ => true) = true := by
  revert other
  cases rule <;> decide

section Readings

variable {depth : Nat} {s s' : Place} {ys : List (Node Kind)}

theorem Course.conditional {more : Production Rule} (contained : more.contained = true)
    (course : Course (RuleCourse depth) (.seq .take (.seq (.rule .expression) more)) s [] s' ys) :
    ∃ word condition others, ys = word :: condition :: others ∧ word.isLeaf = true ∧ Plain [condition] := by
  match course with
  | .seq taken (.seq (.rule condition) behind) =>
    obtain ⟨value, rfl⟩ := condition.expression_single
    obtain ⟨zs, rfl, -⟩ := behind.rebase contained
    cases taken with
    | take leaf index => exact ⟨.leaf leaf index _, value, zs, rfl, rfl, condition.plain rfl⟩
    | stay =>
      have read := condition.least_le (View.shows_blank _) (Nat.zero_le _)
      simp [Rule.budget, View.sided, View.glimpse, View.blank, Rule.least] at read

theorem RuleCourse.regular {rule : Rule} (course : RuleCourse depth rule s ys s') :
    ∀ node ∈ Node.descendantsOf ys, Regular node := by
  induction depth generalizing rule s ys s' with
  | zero => exact course.elim
  | succ depth ih =>
    have inside {p : Production Rule} {s s' : Place} {ys : List (Node Kind)}
        (course : Course (RuleCourse depth) p s [] s' ys) (ordinary : p.within Kind.isOrdinary (fun _ => true) = true) :
        ∀ node ∈ Node.descendantsOf ys, Regular node :=
      Course.everywhere (fun _ _ _ => trivial) (fun _ _ _ _ known => regular_of_isOrdinary known)
        (fun _ _ _ _ _ course => ih course) course ordinary nofun
    have closed {id : Nat} {kind : Kind} {first : Node Kind} {rest : List (Node Kind)}
        (root : Regular (.rule id kind first rest)) (below : ∀ node ∈ Node.descendantsOf (first :: rest), Regular node) :
        ∀ node ∈ Node.descendantsOf (closed id kind (first :: rest)), Regular node := by
      simp only [Tsql.closed, Node.descendantsOf, Node.descendants, List.append_nil] at below ⊢
      exact List.forall_mem_cons.mpr ⟨root, below⟩
    have conditional {kind : Kind} {more : Production Rule} (isKind : kind = .ifStatement ∨ kind = .whileStatement)
        (contained : more.contained = true)
        (ordinary : more.within Kind.isOrdinary (fun _ => true) = true)
        (course : Course (RuleCourse depth) (.node kind (.seq .take (.seq (.rule .expression) more))) s [] s' ys) :
        ∀ node ∈ Node.descendantsOf ys, Regular node := by
      match course with
      | .node id inner =>
        have below := inside inner ordinary
        obtain ⟨word, condition, others, rfl, isLeaf, plain⟩ := inner.conditional contained
        refine closed ⟨fun _ => ⟨isLeaf, condition, others, rfl, plain⟩, ?_⟩ below
        rintro rfl
        rcases isKind with contrary | contrary <;> cases contrary
    by_cases other : rule ∈ [.ifStatement, .whileStatement, .createProcedure]
    · simp only [List.mem_cons, List.not_mem_nil, or_false] at other
      rcases other with rfl | rfl | rfl
      · exact conditional (.inl rfl) rfl rfl course
      · exact conditional (.inr rfl) rfl rfl course
      · obtain ⟨id, s₁, s₂, s₃, words, name, parameters, rest, rfl, isName, parts⟩ := course.procedureParts
        obtain ⟨others, body, header⟩ := parts.header isName
        have below : ∀ node ∈ Node.descendantsOf (words ++ name :: (parameters ++ rest)), Regular node := by
          have split : words ++ name :: (parameters ++ rest) = words ++ ([name] ++ (parameters ++ rest)) := rfl
          simp only [split, Node.descendantsOf_append, List.forall_mem_append]
          exact ⟨inside parts.words rfl, ih parts.name, inside parts.parameters rfl, inside parts.rest rfl⟩
        obtain ⟨first, more, shape⟩ := List.exists_cons_of_ne_nil (l := words ++ name :: (parameters ++ rest)) (by simp)
        rw [shape] at header below ⊢
        refine closed ⟨?_, fun _ => ⟨words, name, parameters, others, body, header⟩⟩ below
        rintro (contrary | contrary) <;> cases contrary
    · exact inside course (production_ordinary rule other)

end Readings

/-- Every node of a tree has the parts that its kind asks for. -/
theorem parse_regular {source : String} {tree : Tree Kind} (parsed : parse source = .ok tree) :
    ∀ node ∈ tree.descendants, Regular node := by
  intro node member
  cases isRoot : tree.root with
  | none => simp [Tree.descendants, isRoot] at member
  | some root =>
    obtain ⟨depth, c, c', reads⟩ := parse_derives parsed isRoot
    rw [Tree.descendants, isRoot] at member
    exact reads.course.regular node (by simpa [Node.descendantsOf] using member)

end SqlFerry.Tsql
