import SqlFerry.Proofs.Tree.Sites
import SqlFerry.Proofs.Tsql.Transfer

/-! Rules with statements inside. A revision puts other nodes in the place of some statements, so that the
text changes behind their first words. The rules without statements inside do not notice that, and the
others read what has become of the statements. -/
namespace SqlFerry.Tsql

section Courses

variable {calls : Rule → Place → List (Node Kind) → Place → Prop} {p : Production Rule}
  {s s' : Place} {xs ys : List (Node Kind)} {depth : Nat} {rule : Rule}

/-- The line where the last of some tokens ends. -/
def lineBehind (line : Nat) (tokens : List (Token Kind)) : Nat :=
  tokens.getLast?.elim line (·.stop.line)

theorem lineBehind_append (line : Nat) (front back : List (Token Kind)) :
    lineBehind line (front ++ back) = lineBehind (lineBehind line front) back := by
  unfold lineBehind
  rw [List.getLast?_append]
  cases back.getLast? <;> rfl

/-- A reading stands on the line where the last token that it has read ends. -/
theorem Course.line
    (called : ∀ name s ys s', calls name s ys s' → s'.line = lineBehind s.line (Node.tokensOf ys))
    (course : Course calls p s xs s' ys) {line : Nat} (start : s.line = lineBehind line (Node.tokensOf xs)) :
    s'.line = lineBehind line (Node.tokensOf ys) := by
  induction course generalizing line with
  | done | stay | stop => exact start
  | take =>
    rw [Node.tokensOf_append, lineBehind_append]
    rfl
  | seq _ _ ihp ihq => exact ihq (ihp start)
  | holds _ _ ih | fails _ _ ih => exact ih start
  | round _ _ _ ihp ihq => exact ihq (ihp start)
  | @node _ _ s _ _ _ _ _ ih =>
    rw [Node.tokensOf_append, tokensOf_closed, lineBehind_append, ← start]
    exact ih rfl
  | group _ ih =>
    rw [Node.tokensOf_append, lineBehind_append, ← start]
    exact ih rfl
  | adopt _ _ ih =>
    rw [tokensOf_closed]
    exact ih start
  | rule ran =>
    rw [Node.tokensOf_append, lineBehind_append, ← start]
    exact called _ _ _ _ ran

theorem RuleCourse.line (course : RuleCourse depth rule s ys s') :
    s'.line = lineBehind s.line (Node.tokensOf ys) := by
  induction depth generalizing rule s ys s' with
  | zero => exact course.elim
  | succ depth ih => exact Course.line (fun _ _ _ _ => ih) course rfl

end Courses

/-- The kinds of statements, and of those with statements inside that may become others. -/
def Kind.isRemade : Kind → Bool
  | statement | createProcedure | ifStatement | whileStatement => true
  | _ => false

/-- What becomes of the nodes of a tree. -/
structure Revision where
  revise : Node Kind → List (Node Kind)
  /-- The kinds of nodes that do not only change with their children. -/
  remade : Kind → Bool
  leaf : ∀ id index token, revise (.leaf id index token) = [.leaf id index token]
  closed : ∀ id kind ys, remade kind = false →
    (closed id kind ys).flatMap revise = Tsql.closed id kind (ys.flatMap revise)
  compound : ∀ kind, remade kind = true → kind.isRemade = true

def Revision.all (R : Revision) (ys : List (Node Kind)) : List (Node Kind) := ys.flatMap R.revise

namespace Revision

variable (R : Revision)

@[simp] theorem all_nil : R.all [] = [] := rfl

@[simp] theorem all_append (xs ys : List (Node Kind)) : R.all (xs ++ ys) = R.all xs ++ R.all ys :=
  List.flatMap_append

theorem all_eq_self {ys : List (Node Kind)} (same : ∀ node ∈ ys, R.revise node = [node]) : R.all ys = ys := by
  induction ys with
  | nil => rfl
  | cons node ys ih =>
    obtain ⟨first, same⟩ := List.forall_mem_cons.mp same
    rw [all, List.flatMap_cons, first, List.singleton_append]
    exact congrArg (node :: ·) (ih same)

@[simp] theorem all_leaf (id index : Nat) (token : Token Kind) :
    R.all [.leaf id index token] = [.leaf id index token] := by
  rw [all, List.flatMap_singleton, R.leaf]

end Revision

/-- The production makes nodes of some kinds and calls some rules only. -/
def Production.within (kinds : Kind → Bool) (rules : Rule → Bool) : Production Rule → Bool
  | done | take | fail _ => true
  | seq p q | branch _ p q => p.within kinds rules && q.within kinds rules
  | loop _ p | group p => p.within kinds rules
  | node kind p | adopt kind p => kinds kind && p.within kinds rules
  | rule name => rules name

/-- What is true of leaves and of the nodes that a production makes is true of all nodes on its way. -/
theorem Course.everywhere {calls : Rule → Place → List (Node Kind) → Place → Prop} {p : Production Rule}
    {s s' : Place} {xs ys : List (Node Kind)} {holds : Node Kind → Prop} {kinds : Kind → Bool} {rules : Rule → Bool}
    (leaf : ∀ id index token, holds (.leaf id index token))
    (made : ∀ id kind first rest, kinds kind = true → holds (.rule id kind first rest))
    (called : ∀ name s ys s', rules name = true → calls name s ys s' → ∀ node ∈ Node.descendantsOf ys, holds node)
    (course : Course calls p s xs s' ys) (within : p.within kinds rules = true)
    (before : ∀ node ∈ Node.descendantsOf xs, holds node) : ∀ node ∈ Node.descendantsOf ys, holds node := by
  have append {xs ys : List (Node Kind)} (left : ∀ node ∈ Node.descendantsOf xs, holds node)
      (right : ∀ node ∈ Node.descendantsOf ys, holds node) : ∀ node ∈ Node.descendantsOf (xs ++ ys), holds node := by
    rw [Node.descendantsOf_append]
    exact List.forall_mem_append.mpr ⟨left, right⟩
  have closed (id : Nat) {kind : Kind} {ys : List (Node Kind)} (known : kinds kind = true)
      (inside : ∀ node ∈ Node.descendantsOf ys, holds node) : ∀ node ∈ Node.descendantsOf (closed id kind ys), holds node := by
    cases ys with
    | nil => exact inside
    | cons first rest =>
      simp only [Tsql.closed, Node.descendantsOf, Node.descendants, List.append_nil] at inside ⊢
      exact List.forall_mem_cons.mpr ⟨made id kind first rest known, inside⟩
  induction course with
  | done | stay | stop => exact before
  | take id index =>
    refine append before fun node member => ?_
    obtain rfl : node = .leaf id index _ := by simpa [Node.descendantsOf, Node.descendants] using member
    exact leaf id index _
  | seq _ _ ihp ihq =>
    obtain ⟨withinP, withinQ⟩ := Bool.and_eq_true_iff.mp within
    exact ihq withinQ (ihp withinP before)
  | holds _ _ ih => exact ih (Bool.and_eq_true_iff.mp within).1 before
  | fails _ _ ih => exact ih (Bool.and_eq_true_iff.mp within).2 before
  | round _ _ _ ihp ihq => exact ihq within (ihp within before)
  | node id _ ih =>
    obtain ⟨known, inside⟩ := Bool.and_eq_true_iff.mp within
    exact append before (closed id known (ih inside (List.forall_mem_nil _)))
  | group _ ih => exact append before (ih within (List.forall_mem_nil _))
  | adopt id _ ih =>
    obtain ⟨known, inside⟩ := Bool.and_eq_true_iff.mp within
    exact closed id known (ih inside before)
  | rule ran => exact append before (called _ _ _ _ within ran)

def Production.quiet (p : Production Rule) : Bool := p.within (!·.isRemade) (!·.isCompound)

theorem production_quiet (rule : Rule) (plain : rule.isCompound = false) :
    (Grammar.production rule).quiet = true := by
  revert plain
  cases rule <;> decide

/-- There are no statements among the nodes or below them. -/
def Plain (ys : List (Node Kind)) : Prop :=
  ∀ node ∈ Node.descendantsOf ys, node.isLeaf = true ∨ node.kind.isRemade = false

section Plain

variable {s s' : Place} {ys : List (Node Kind)} {depth : Nat}

theorem Course.plain_of_calls {calls : Rule → Place → List (Node Kind) → Place → Prop} {p : Production Rule}
    (called : ∀ name s ys s', (!name.isCompound) = true → calls name s ys s' → Plain ys)
    (course : Course calls p s [] s' ys) (quiet : p.quiet = true) : Plain ys :=
  Course.everywhere (fun _ _ _ => .inl rfl) (fun _ _ _ _ other => .inr (by simpa [Node.kind] using other)) called course quiet nofun

theorem RuleCourse.plain {rule : Rule} (plain : rule.isCompound = false)
    (course : RuleCourse depth rule s ys s') : Plain ys := by
  induction depth generalizing rule s ys s' with
  | zero => exact course.elim
  | succ depth ih =>
    exact Course.plain_of_calls (fun _ _ _ _ plain => ih (by simpa using plain)) course (production_quiet rule plain)

theorem Course.plain {p : Production Rule} (course : Course (RuleCourse depth) p s [] s' ys)
    (quiet : p.quiet = true) : Plain ys :=
  Course.plain_of_calls (fun _ _ _ _ plain => RuleCourse.plain (by simpa using plain)) course quiet

theorem plain_nil : Plain [] := List.forall_mem_nil _

theorem plain_leaf (id index : Nat) (token : Token Kind) : Plain [.leaf id index token] := by
  intro node member
  obtain rfl : node = .leaf id index token := by simpa [Node.descendantsOf, Node.descendants] using member
  exact .inl rfl

theorem plain_append {xs ys : List (Node Kind)} : Plain (xs ++ ys) ↔ Plain xs ∧ Plain ys := by
  rw [Plain, Node.descendantsOf_append]
  exact List.forall_mem_append

theorem Plain.of_mem (plain : Plain ys) {node : Node Kind} (member : node ∈ ys) : Plain [node] := by
  intro below inside
  refine plain below ?_
  rw [Node.descendantsOf_eq_flatMap] at inside ⊢
  rw [List.flatMap_singleton] at inside
  exact List.mem_flatMap.mpr ⟨node, member, inside⟩

theorem plain_rule {id : Nat} {kind : Kind} {first : Node Kind} {rest : List (Node Kind)} :
    Plain [.rule id kind first rest] ↔ kind.isRemade = false ∧ Plain (first :: rest) := by
  simp [Plain, Node.descendantsOf, Node.descendants, Node.isLeaf, Node.kind]

theorem Revision.all_plain (R : Revision) (plain : Plain ys) : R.all ys = ys := by
  refine R.all_eq_self fun node member => ?_
  have single := plain.of_mem member
  clear member
  induction node using Node.induction with
  | step node ih =>
    cases node with
    | leaf id index token => exact R.leaf id index token
    | rule id kind first rest =>
      obtain ⟨isPlain, below⟩ := plain_rule.mp single
      have children : R.all (first :: rest) = first :: rest :=
        R.all_eq_self fun child isChild => ih child isChild (below.of_mem isChild)
      have other : R.remade kind = false := by
        refine Bool.eq_false_iff.mpr fun remade => ?_
        rw [R.compound kind remade] at isPlain
        cases isPlain
      have same := R.closed id kind (first :: rest) other
      change _ = Tsql.closed id kind (R.all (first :: rest)) at same
      rw [children] at same
      simpa [Tsql.closed] using same

end Plain

namespace Rule

/-- The rules that read a token first, whatever they read. -/
def leads : Rule → Bool
  | compileUnit | statement | statementBody | tableElement | tableConstraint | .alias | caseTail => false
  | _ => true

theorem one_le_least {rule : Rule} (leads : rule.leads = true) (plain : rule.isCompound = false) :
    1 ≤ rule.least := by
  revert leads plain
  cases rule <;> decide

end Rule

/-- A statement that may be changed begins behind `n` tokens. Behind its first word the text goes on as the
glimpse says. -/
def View.opening (g : Glimpse) (n : Nat) : View := ⟨List.replicate n .same ++ [.opener heads, g], .free⟩

/-- How a text may go on behind the first word of a statement. -/
def glimpses : List Glimpse := [.same, .met [.semicolon, .leftParen]]

/-- What is seen where statements are changed that begin behind the first token. -/
def laterViews : List View := Outlook.far.view :: glimpses.flatMap fun g => [1, 2, 3].map (.opening g)

/-- What is seen where statements are changed. -/
def views : List View := glimpses.map (.opening · 0) ++ laterViews

/-- The first token is the same, and what follows is the same up to the first word of a statement. -/
def Later (r r' : List (Token Kind)) : Prop :=
  ∃ token rest rest', r = token :: rest ∧ r' = token :: rest' ∧ Diverges rest rest'

section Shows

variable {r r' : List (Token Kind)}

theorem Later.diverges : Later r r' → Diverges r r'
  | ⟨token, _, _, isFirst, isFirst', diverges⟩ => isFirst ▸ isFirst' ▸ diverges.append [token]

theorem View.shows_opening (before : List (Token Kind)) {first : Token Kind} (begins : Begins first)
    (follows : Follows r r') (line : Nat) : ∃ g ∈ glimpses,
    (opening g before.length).Shows ⟨before ++ first :: r, line⟩ ⟨before ++ first :: r', line⟩ := by
  have shows (g : Glimpse) (allows : g.Allows r.head? r'.head?) :
      (opening g before.length).Shows ⟨before ++ first :: r, line⟩ ⟨before ++ first :: r', line⟩ := by
    refine View.shows_append before (View.shows_cons ⟨rfl, first, rfl, begins⟩ ⟨fun n => ?_, rfl⟩)
    cases n with
    | zero => simpa [View.glimpse, ← List.head?_eq_getElem?] using allows
    | succ n => exact trivial
  rcases follows with same | other
  · exact ⟨.same, by simp [glimpses], shows _ same⟩
  · exact ⟨.met [.semicolon, .leftParen], by simp [glimpses], shows _ other⟩

theorem Diverges.shows_behind (diverges : Diverges r r') (front : List (Token Kind)) (line : Nat) :
    Outlook.far.view.Shows ⟨front ++ r, line⟩ ⟨front ++ r', line⟩ ∨
      ∃ n, front.length ≤ n ∧ n < 4 ∧ ∃ g ∈ glimpses,
        (View.opening g n).Shows ⟨front ++ r, line⟩ ⟨front ++ r', line⟩ := by
  rcases diverges with rfl | ⟨before, first, rest, rest', begins, follows, rfl, rfl⟩
  · exact .inl (Outlook.shows_far_self _)
  rw [← List.append_assoc, ← List.append_assoc]
  by_cases long : 4 ≤ (front ++ before).length
  · exact .inl (Outlook.shows_far long)
  · exact .inr ⟨(front ++ before).length, by simp, by omega, View.shows_opening _ begins follows line⟩

theorem Later.shows (later : Later r r') (line : Nat) :
    ∃ v ∈ laterViews, v.Shows ⟨r, line⟩ ⟨r', line⟩ := by
  obtain ⟨token, rest, rest', rfl, rfl, diverges⟩ := later
  rcases diverges.shows_behind [token] line with shows | ⟨n, behind, near, g, isGlimpse, shows⟩
  · exact ⟨_, List.mem_cons_self, shows⟩
  · refine ⟨_, List.mem_cons_of_mem _ (List.mem_flatMap.mpr ⟨g, isGlimpse, List.mem_map_of_mem ?_⟩), shows⟩
    simp only [List.length_singleton, List.mem_cons, List.not_mem_nil, or_false] at behind ⊢
    omega

theorem Diverges.shows (diverges : Diverges r r') (line : Nat) :
    ∃ v ∈ views, v.Shows ⟨r, line⟩ ⟨r', line⟩ := by
  rcases diverges.shows_behind [] line with shows | ⟨n, -, near, g, isGlimpse, shows⟩
  · exact ⟨_, by simp [views, laterViews], shows⟩
  · refine ⟨_, ?_, shows⟩
    cases n with
    | zero => exact List.mem_append_left _ (List.mem_map_of_mem isGlimpse)
    | succ n =>
      refine List.mem_append_right _ (List.mem_cons_of_mem _
        (List.mem_flatMap.mpr ⟨g, isGlimpse, List.mem_map_of_mem ?_⟩))
      simp only [List.mem_cons, List.not_mem_nil, or_false]
      omega

theorem Diverges.eq_nil (diverges : Diverges [] r') : r' = [] := by
  rcases diverges with rfl | ⟨before, first, rest, _, _, _, none, -⟩
  · rfl
  · simp at none

end Shows

/-- What is seen from where a rule is called, if the statements inside it and behind it are changed. A
statement may itself be changed behind its first word; what is seen then is given for each rule. -/
def Rule.sights (own : Rule → List View) (rule : Rule) : List View :=
  own rule ++ if rule.leads then laterViews else views

namespace Production

/-- What is seen from where a production starts, if `k` tokens are known to be ahead. -/
def sights (own : Rule → List View) : Production Rule → Nat → List View
  | take, k => if 0 < k then laterViews else views
  | fail _, _ => []
  | done, _ | loop _ _, _ | group _, _ | adopt _ _, _ => views
  | seq p _, k | node _ p, k => p.sights own k
  | branch test p q, k =>
    p.sights own (max k (test.demand true)) ++ q.sights own (max k (test.demand false))
  | rule name, _ => name.sights own

/-- Changes of statements inside and behind change no test, where `k` tokens are known to be ahead. Some rules
stand apart, and nodes of some kinds are remade. -/
def calm (own : Rule → List View) (remade : Kind → Bool) (apart : Rule → Bool) :
    Production Rule → Nat → Bool
  | done, _ | take, _ | fail _, _ => true
  | seq p q, k => p.calm own remade apart k && q.calm own remade apart (p.known k)
  | branch test p q, k =>
    (p.sights own (max k (test.demand true))).all test.keeps &&
      (q.sights own (max k (test.demand false))).all test.keeps &&
      p.calm own remade apart (max k (test.demand true)) &&
      q.calm own remade apart (max k (test.demand false))
  | loop test p, _ => views.all test.keeps && p.calm own remade apart (test.demand true)
  | node kind p, k => !remade kind && p.calm own remade apart k
  | group _, _ | adopt _ _, _ => false
  | rule name, k => !apart name && name.awaits ≤ k

end Production

/-- Between two places some nodes were read. In the revised text, which goes on with `r'`, what has become of
them is read. -/
structure Again (R : Revision) (s s' : Place) (zs : List (Node Kind)) (vs : List View)
    (r' : List (Token Kind)) (reads : Place → Place → Prop) : Prop where
  diverges : Diverges s.rest (Node.tokensOf (R.all zs) ++ r')
  shows : ∃ v ∈ vs, v.Shows s ⟨Node.tokensOf (R.all zs) ++ r', s.line⟩
  reads : reads ⟨Node.tokensOf (R.all zs) ++ r', s.line⟩ ⟨r', s'.line⟩

theorem Look.answer_views {vs : List View} {test : Look} (keeps : vs.all test.keeps = true)
    {s d : Place} (shows : ∃ v ∈ vs, v.Shows s d) : test.answer d = test.answer s := by
  obtain ⟨v, member, shows⟩ := shows
  exact (answer_eq_of_keeps shows (List.all_eq_true.mp keeps v member)).symm

theorem Again.weaken {R : Revision} {s s' : Place} {zs : List (Node Kind)} {vs ws : List View}
    {r' : List (Token Kind)} {reads : Place → Place → Prop} (again : Again R s s' zs vs r' reads)
    (more : vs ⊆ ws) : Again R s s' zs ws r' reads := by
  obtain ⟨v, member, shows⟩ := again.shows
  exact ⟨again.diverges, ⟨v, more member, shows⟩, again.reads⟩

section Calm

variable {calls calls' : Rule → Place → List (Node Kind) → Place → Prop} {R : Revision}
  {own : Rule → List View} {remade : Kind → Bool} {apart : Rule → Bool} {sound : Node Kind → Prop}

theorem Course.again (fewer : ∀ kind, R.remade kind = true → remade kind = true)
    (called : ∀ name s ys s' r', apart name = false → calls name s ys s' →
      name.awaits ≤ s.rest.length → (∀ node ∈ Node.descendantsOf ys, sound node) → Diverges s'.rest r' →
      Again R s s' ys (name.sights own) r' fun d d' => calls' name d (R.all ys) d')
    {p : Production Rule} {s s' : Place} {xs ys : List (Node Kind)} (course : Course calls p s xs s' ys)
    {k : Nat} (calm : p.calm own remade apart k = true) (enough : k ≤ s.rest.length)
    (isSound : ∀ node ∈ Node.descendantsOf ys, sound node) :
    ∃ zs, ys = xs ++ zs ∧ ∀ r', Diverges s'.rest r' → Again R s s' zs (p.sights own k) r' fun d d' =>
      Course calls' p d (R.all xs) d' (R.all ys) := by
  induction course generalizing k with
  | @done s xs => exact ⟨[], by simp, fun r' diverges => ⟨diverges, diverges.shows s.line, .done⟩⟩
  | @take token rest line xs id index =>
    have tokens : Node.tokensOf (R.all [.leaf id index token]) = [token] := by
      simp [Node.tokensOf, Node.tokens]
    refine ⟨[.leaf id index token], rfl, fun r' diverges => ?_⟩
    have later : Later (token :: rest) ([token] ++ r') := ⟨token, rest, r', rfl, rfl, diverges⟩
    refine ⟨tokens ▸ later.diverges, ?_, ?_⟩
    · rw [tokens, Production.sights]
      split
      · exact later.shows line
      · exact later.diverges.shows line
    · rw [R.all_append, R.all_leaf]
      exact .take id index
  | @stay line xs =>
    refine ⟨[], by simp, fun r' diverges => ?_⟩
    obtain rfl := diverges.eq_nil
    refine ⟨diverges, ?_, .stay⟩
    rw [Production.sights, if_neg (by simpa using enough)]
    exact diverges.shows line
  | @seq p q s s' s'' xs ys zs first second ihp ihq =>
    obtain ⟨calmP, calmQ⟩ := Bool.and_eq_true_iff.mp calm
    obtain ⟨front, rfl, againP⟩ := ihp calmP enough fun node member => isSound node (second.descendants member)
    obtain ⟨back, rfl, againQ⟩ := ihq calmQ (first.known_le enough) isSound
    refine ⟨front ++ back, by simp, fun r' diverges => ?_⟩
    have behind := againQ r' diverges
    obtain ⟨diverges, shows, reads⟩ := againP _ behind.diverges
    rw [← List.append_assoc, ← Node.tokensOf_append, ← R.all_append] at diverges shows reads
    exact ⟨diverges, shows, .seq reads behind.reads⟩
  | @holds test p q s s' xs ys answer inner ih =>
    simp only [Production.calm, Bool.and_eq_true] at calm
    obtain ⟨⟨⟨keeps, -⟩, calmP⟩, -⟩ := calm
    obtain ⟨zs, isZs, again⟩ := ih calmP (Nat.max_le.mpr ⟨enough, Look.demand_le answer⟩) isSound
    refine ⟨zs, isZs, fun r' diverges => ?_⟩
    obtain ⟨diverges, shows, reads⟩ := again r' diverges
    have same := Look.answer_views keeps shows
    exact Again.weaken ⟨diverges, shows, .holds (same.trans answer) reads⟩ (List.subset_append_left ..)
  | @fails test p q s s' xs ys answer inner ih =>
    simp only [Production.calm, Bool.and_eq_true] at calm
    obtain ⟨⟨⟨-, keeps⟩, -⟩, calmQ⟩ := calm
    obtain ⟨zs, isZs, again⟩ := ih calmQ (Nat.max_le.mpr ⟨enough, Look.demand_le answer⟩) isSound
    refine ⟨zs, isZs, fun r' diverges => ?_⟩
    obtain ⟨diverges, shows, reads⟩ := again r' diverges
    have same := Look.answer_views keeps shows
    exact Again.weaken ⟨diverges, shows, .fails (same.trans answer) reads⟩ (List.subset_append_right ..)
  | @stop test p s xs answer =>
    refine ⟨[], by simp, fun r' diverges => ⟨diverges, diverges.shows s.line, .stop ?_⟩⟩
    exact (Look.answer_views (Bool.and_eq_true_iff.mp calm).1 (diverges.shows s.line)).trans answer
  | @round test p s s' s'' xs ys zs answer first second ihp ihq =>
    obtain ⟨keeps, calmP⟩ := Bool.and_eq_true_iff.mp calm
    obtain ⟨front, rfl, againP⟩ := ihp calmP (Look.demand_le answer) fun node member =>
      isSound node (second.descendants member)
    obtain ⟨back, rfl, againQ⟩ := @ihq 0 calm (Nat.zero_le _) isSound
    refine ⟨front ++ back, by simp, fun r' diverges => ?_⟩
    have behind := againQ r' diverges
    obtain ⟨diverges, -, reads⟩ := againP _ behind.diverges
    rw [← List.append_assoc, ← Node.tokensOf_append, ← R.all_append] at diverges reads
    have shows := diverges.shows s.line
    have same := Look.answer_views keeps shows
    exact ⟨diverges, shows, .round (same.trans answer) reads behind.reads⟩
  | @node kind p s s' xs ys id inner ih =>
    obtain ⟨other, calmP⟩ := Bool.and_eq_true_iff.mp calm
    obtain ⟨zs, isZs, again⟩ := ih calmP enough fun node member => isSound node (by
      rw [Node.descendantsOf_append]
      exact List.mem_append_right _ (descendantsOf_closed id kind _ member))
    obtain rfl : ys = zs := isZs
    have same : R.all (closed id kind ys) = closed id kind (R.all ys) := by
      refine R.closed id kind ys (Bool.eq_false_iff.mpr fun isRemade => ?_)
      rw [fewer kind isRemade] at other
      cases other
    refine ⟨closed id kind ys, rfl, fun r' diverges => ?_⟩
    obtain ⟨diverges, shows, reads⟩ := again r' diverges
    have tokens : Node.tokensOf (R.all (closed id kind ys)) = Node.tokensOf (R.all ys) := by
      rw [same, tokensOf_closed]
    refine ⟨tokens ▸ diverges, tokens ▸ shows, ?_⟩
    rw [tokens, R.all_append, same]
    exact .node id reads
  | group | adopt => cases calm
  | @rule name s s' xs ys ran =>
    obtain ⟨other, awaits⟩ := Bool.and_eq_true_iff.mp calm
    refine ⟨ys, rfl, fun r' diverges => ?_⟩
    obtain ⟨diverges, shows, reads⟩ := called name s ys s' r' (by simpa using other) ran
      (Nat.le_trans (of_decide_eq_true awaits) enough) (fun node member => isSound node (by
        rw [Node.descendantsOf_append]
        exact List.mem_append_right _ member)) diverges
    refine ⟨diverges, shows, ?_⟩
    rw [R.all_append]
    exact .rule reads

end Calm

theorem plain_again {R : Revision} {own : Rule → List View} {depth : Nat} {name : Rule} {s s' : Place}
    {ys : List (Node Kind)} {r' : List (Token Kind)} (plain : name.isCompound = false)
    (course : RuleCourse depth name s ys s') (enough : name.awaits ≤ s.rest.length)
    (diverges : Diverges s'.rest r') :
    Again R s s' ys (name.sights own) r' fun d d' => RuleCourse depth name d (R.all ys) d' := by
  have tokens := course.tokens
  have again := @transfers_later (fun _ => True) _ _ diverges depth name plain s ys s'
    (Node.tokensOf ys) [] course enough (fun _ _ => trivial) tokens rfl (Nat.zero_le _)
  have same : R.all ys = ys := R.all_plain (course.plain plain)
  have changed : Diverges s.rest (Node.tokensOf ys ++ r') := by
    rw [tokens]
    exact diverges.append _
  rw [← same] at again changed
  have shows : ∃ v ∈ if name.leads then laterViews else views,
      v.Shows s ⟨Node.tokensOf (R.all ys) ++ r', s.line⟩ := by
    split
    · next leads =>
      refine Later.shows ?_ s.line
      have read := course.least_le (View.shows_blank s) enough
      have some := Rule.one_le_least leads plain
      rw [same]
      cases isTokens : Node.tokensOf ys with
      | nil =>
        rw [tokens, isTokens] at read
        simp [Rule.budget, View.sided, View.glimpse, View.blank] at read
        omega
      | cons token more =>
        exact ⟨token, more ++ s'.rest, more ++ r', by rw [tokens, isTokens]; rfl, rfl, diverges.append more⟩
    · exact changed.shows s.line
  exact Again.weaken ⟨changed, shows, again⟩ (List.subset_append_right ..)

end SqlFerry.Tsql
