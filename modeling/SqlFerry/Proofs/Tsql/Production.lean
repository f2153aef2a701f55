import SqlFerry.Proofs.Tree.Builder
import SqlFerry.Tsql.Grammar.Production

/-! What running a production can do. A run is made of four moves: taking the next token, opening a
node at the end or at a checkpoint, and finishing one. What all moves keep, every run keeps. Two more
facts are read off the productions by an analysis: which of them read a token or fail, and which leave
the children alone that were there before. -/
namespace SqlFerry.Tsql

theorem bind_eq_ok {ε α β : Type} {x : Except ε α} {f : α → Except ε β} {b : β} :
    x >>= f = .ok b ↔ ∃ a, x = .ok a ∧ f a = .ok b := by
  cases x <;> simp [bind, Except.bind]

theorem map_eq_ok {ε α β : Type} {x : Except ε α} {f : α → β} {b : β} :
    f <$> x = .ok b ↔ ∃ a, x = .ok a ∧ b = f a := by
  cases x <;> simp [Functor.map, Except.map, eq_comm]

/-- Where a reading stands: the tokens still to be read, and the line where the last one ended. -/
structure Place where
  rest : List (Token Kind)
  line : Nat

def Cursor.place (c : Cursor) : Place := ⟨c.rest, c.last.line⟩

namespace Look

/-- The answer of a test, which depends on nothing but the place. -/
def answer : Look → Place → Bool
  | kind n k, s => s.rest[n]?.any (·.kind == k)
  | word n w, s => s.rest[n]?.any fun t => t.kind.isWord && t.isWord w
  | sameLine, s => s.rest.head?.any (·.line == s.line)
  | atEnd, s => s.rest.isEmpty
  | not l, s => !l.answer s
  | and l r, s => l.answer s && r.answer s
  | or l r, s => l.answer s || r.answer s

theorem holds_eq_answer (l : Look) (c : Cursor) : l.holds c = l.answer c.place := by
  induction l with
  | kind | word | sameLine | atEnd => rfl
  | not l ih => rw [holds, answer, ih]
  | and l r ihl ihr => rw [holds, answer, ihl, ihr]
  | or l r ihl ihr => rw [holds, answer, ihl, ihr]

def isAtEnd : Look → Bool
  | atEnd => true
  | _ => false

/-- More tokens than any test asks for: what is demanded by an answer that is never given. -/
def never : Nat := 5

/-- How many tokens are left at least where a test has given an answer. -/
def demand : Look → Bool → Nat
  | kind n _, true | word n _, true => n + 1
  | sameLine, true | atEnd, false => 1
  | kind _ _, false | word _ _, false | sameLine, false | atEnd, true => 0
  | not l, answer => l.demand !answer
  | and l r, true =>
    if l.isAtEnd && 0 < r.demand true then never else max (l.demand true) (r.demand true)
  | and l r, false => min (l.demand false) (r.demand false)
  | or l r, true => min (l.demand true) (r.demand true)
  | or l r, false => max (l.demand false) (r.demand false)

theorem demand_le {l : Look} {s : Place} {b : Bool} (answered : l.answer s = b) :
    l.demand b ≤ s.rest.length := by
  have within {n : Nat} {p : Token Kind → Bool} (found : s.rest[n]?.any p = true) :
      n < s.rest.length := by
    refine Nat.lt_of_not_le fun outside => ?_
    rw [List.getElem?_eq_none outside] at found
    cases found
  induction l generalizing b with
  | kind n k => cases b with
    | false => exact Nat.zero_le _
    | true => exact within answered
  | word n w => cases b with
    | false => exact Nat.zero_le _
    | true => exact within answered
  | sameLine => cases b with
    | false => exact Nat.zero_le _
    | true => exact within (by rw [← List.head?_eq_getElem?]; exact answered)
  | atEnd => cases b with
    | false => exact List.length_pos_iff.mpr (by simpa [answer] using answered)
    | true => exact Nat.zero_le _
  | not l ih => exact ih (by rw [← answered, answer, Bool.not_not])
  | and l r ihl ihr => cases b with
    | false =>
      rcases Bool.and_eq_false_iff.mp answered with left | right
      · exact Nat.le_trans (Nat.min_le_left ..) (ihl left)
      · exact Nat.le_trans (Nat.min_le_right ..) (ihr right)
    | true =>
      obtain ⟨left, right⟩ := Bool.and_eq_true_iff.mp answered
      rw [demand]
      split
      · next contrary =>
        obtain ⟨ends, some⟩ := Bool.and_eq_true_iff.mp contrary
        cases l <;> simp [isAtEnd] at ends
        have none : s.rest = [] := by simpa [answer] using left
        have := ihr right
        simp [none] at this some
        omega
      · exact Nat.max_le.mpr ⟨ihl left, ihr right⟩
  | or l r ihl ihr => cases b with
    | false =>
      obtain ⟨left, right⟩ := Bool.or_eq_false_iff.mp answered
      exact Nat.max_le.mpr ⟨ihl left, ihr right⟩
    | true =>
      rcases Bool.or_eq_true_iff.mp answered with left | right
      · exact Nat.le_trans (Nat.min_le_left ..) (ihl left)
      · exact Nat.le_trans (Nat.min_le_right ..) (ihr right)

theorem answer_at_end (l : Look) (line : Nat) : l.answer ⟨[], line⟩ = l.answer ⟨[], 0⟩ := by
  induction l with
  | kind | word | sameLine | atEnd => rfl
  | not l ih => rw [answer, ih, answer]
  | and l r ihl ihr | or l r ihl ihr => rw [answer, ihl, ihr, answer]

end Look

/-- Whether there are tokens to be read. -/
inductive Supply where
  | left
  | spent
deriving DecidableEq

namespace Supply

def of : Nat → Supply
  | 0 => spent
  | _ + 1 => left

/-- A test may give the answer. At the end of the tokens it has only one. -/
def allows : Supply → Look → Bool → Bool
  | left, _, _ => true
  | spent, test, answer => test.answer ⟨[], 0⟩ == answer

theorem allows_holds (test : Look) (c : Cursor) : (of c.rest.length).allows test (test.holds c) = true := by
  cases shape : c.rest with
  | nil =>
    have same := Look.answer_at_end test c.last.line
    rw [Look.holds_eq_answer, Cursor.place, shape, same]
    exact beq_self_eq_true _
  | cons token rest => rfl

end Supply

/-- A property of the reading state that no move of a run destroys. -/
structure Stable (P : Cursor → Prop) : Prop where
  take : ∀ c, P c → P c.take
  startNode : ∀ c kind, P c → P (c.startNode kind)
  startNodeAt : ∀ c mark kind, P c → P (c.startNodeAt mark kind)
  finishNode : ∀ c, P c → P c.finishNode

section Iterate

variable {P : Cursor → Prop} {test : Look} {step : Cursor → Except ParseError Cursor}

theorem iterate_preserves
    (preserved : ∀ c c', P c → test.holds c = true → step c = .ok c' → P c')
    {tokens : List (Token Kind)} {c c' : Cursor} (start : P c)
    (ran : iterate test step tokens c = .ok c') : P c' := by
  induction tokens generalizing c with
  | nil => cases ran; exact start
  | cons token tokens ih =>
    rw [iterate] at ran
    split at ran
    · next holds =>
      obtain ⟨next, stepped, rest⟩ := bind_eq_ok.mp ran
      exact ih (preserved c next start holds stepped) rest
    · cases ran; exact start

/-- A loop whose rounds all read tokens runs until its test fails. -/
theorem iterate_stops (needed : ∀ c, test.holds c = true → c.rest ≠ [])
    (shorter : ∀ c c', test.holds c = true → step c = .ok c' → c'.rest.length < c.rest.length)
    {tokens : List (Token Kind)} {c c' : Cursor} (enough : c.rest.length ≤ tokens.length)
    (ran : iterate test step tokens c = .ok c') : test.holds c' = false := by
  induction tokens generalizing c with
  | nil =>
    obtain rfl : c = c' := Except.ok.inj ran
    have empty : c.rest = [] := List.length_eq_zero_iff.mp (Nat.le_zero.mp enough)
    exact Bool.eq_false_iff.mpr fun holds => needed c holds empty
  | cons token tokens ih =>
    rw [iterate] at ran
    split at ran
    · next holds =>
      obtain ⟨next, stepped, rest⟩ := bind_eq_ok.mp ran
      have read := shorter c next holds stepped
      rw [List.length_cons] at enough
      exact ih (by omega) rest
    · next fails => cases ran; exact Bool.eq_false_iff.mpr fails

end Iterate

namespace Production

variable {ρ : Type} {call : ρ → Cursor → Except ParseError Cursor} {mark : Checkpoint}
  {c c' : Cursor} {p q : Production ρ}

theorem exec_seq : (seq p q).exec call mark c = .ok c' ↔
    ∃ middle, p.exec call mark c = .ok middle ∧ q.exec call mark middle = .ok c' := by
  rw [exec, bind_eq_ok]

theorem exec_node {kind : Kind} : (node kind p).exec call mark c = .ok c' ↔
    ∃ inner, p.exec call ⟨0⟩ (c.startNode kind) = .ok inner ∧ c' = inner.finishNode := by
  rw [exec, map_eq_ok]

theorem exec_adopt {kind : Kind} : (adopt kind p).exec call mark c = .ok c' ↔
    ∃ inner, p.exec call ⟨0⟩ (c.startNodeAt mark kind) = .ok inner ∧ c' = inner.finishNode := by
  rw [exec, map_eq_ok]

/-- Every run keeps what its moves and the rules it calls keep. -/
theorem exec_stable {P : Cursor → Prop} (stable : Stable P)
    (called : ∀ name c c', P c → call name c = .ok c' → P c') (p : Production ρ)
    {mark : Checkpoint} {c c' : Cursor} (start : P c) (ran : p.exec call mark c = .ok c') :
    P c' := by
  induction p generalizing mark c c' with
  | done => cases ran; exact start
  | take => cases ran; exact stable.take c start
  | fail expectation => cases ran
  | seq p q ihp ihq =>
    obtain ⟨middle, first, second⟩ := exec_seq.mp ran
    exact ihq (ihp start first) second
  | branch test p q ihp ihq =>
    rw [exec] at ran
    split at ran
    · exact ihp start ran
    · exact ihq start ran
  | loop test p ih =>
    exact iterate_preserves (fun _ _ start _ stepped => ih start stepped) start ran
  | node kind p ih =>
    obtain ⟨inner, body, rfl⟩ := exec_node.mp ran
    exact stable.finishNode _ (ih (stable.startNode c kind start) body)
  | group p ih => exact ih start ran
  | adopt kind p ih =>
    obtain ⟨inner, body, rfl⟩ := exec_adopt.mp ran
    exact stable.finishNode _ (ih (stable.startNodeAt c mark kind start) body)
  | rule name => exact called name c c' start ran

/-- The production may come to its end without having read a token, if the rules do as told. -/
def stays (supply : Supply) (rules : ρ → Bool) : Production ρ → Bool
  | done => true
  | take => supply == .spent
  | fail _ => false
  | seq p q => p.stays supply rules && q.stays supply rules
  | branch test p q =>
    (supply.allows test true && p.stays supply rules) || (supply.allows test false && q.stays supply rules)
  | loop _ _ => true
  | node _ p | group p | adopt _ p => p.stays supply rules
  | rule name => rules name

/-- The production reads a token where one is left, or fails, if the rules it calls do as told. -/
def reads (rules : ρ → Bool) : Production ρ → Bool
  | done => false
  | take => true
  | fail _ => true
  | seq p q => p.reads rules || q.reads rules
  | branch _ p q => p.reads rules && q.reads rules
  | loop _ _ => false
  | node _ p => p.reads rules
  | group p => p.reads rules
  | adopt _ p => p.reads rules
  | rule name => rules name

/-- Every round of a loop reads a token, if the rules do as told. -/
def advances (rules : ρ → Bool) : Production ρ → Bool
  | done | take | fail _ | rule _ => true
  | seq p q | branch _ p q => p.advances rules && q.advances rules
  | loop test p => 0 < test.demand true && p.reads rules && p.advances rules
  | node _ p | group p | adopt _ p => p.advances rules

theorem stable_length (n : Nat) : Stable fun c => c.rest.length ≤ n where
  take c short := by rw [Cursor.rest_take, List.length_tail]; omega
  startNode _ _ short := short
  startNodeAt _ _ _ short := short
  finishNode _ short := short

theorem exec_length_le
    (called : ∀ name c c', call name c = .ok c' → c'.rest.length ≤ c.rest.length)
    (p : Production ρ) {mark : Checkpoint} {c c' : Cursor} (ran : p.exec call mark c = .ok c') :
    c'.rest.length ≤ c.rest.length :=
  exec_stable (stable_length c.rest.length)
    (fun name _ _ short ran => Nat.le_trans (called name _ _ ran) short) p (Nat.le_refl _) ran

/-- A production that does not stay reads a token or fails. -/
theorem exec_leaves {rules : ρ → Bool} {n : Nat}
    (called : ∀ name c c', call name c = .ok c' → c'.rest.length ≤ c.rest.length)
    (leaving : ∀ name c c', rules name = false → c.rest.length = n → call name c = .ok c' → c'.rest.length < n)
    (p : Production ρ) (leaves : p.stays (.of n) rules = false) {mark : Checkpoint} {c c' : Cursor}
    (here : c.rest.length = n) (ran : p.exec call mark c = .ok c') : c'.rest.length < n := by
  induction p generalizing mark c c' with
  | done => cases leaves
  | take =>
    cases ran
    cases n with
    | zero => cases leaves
    | succ n =>
      rw [Cursor.rest_take, List.length_tail, here]
      omega
  | fail expectation => cases ran
  | seq p q ihp ihq =>
    obtain ⟨middle, first, second⟩ := exec_seq.mp ran
    have lengthP := exec_length_le called p first
    have lengthQ := exec_length_le called q second
    rcases Bool.and_eq_false_iff.mp leaves with inP | inQ
    · have := ihp inP here first
      omega
    · by_cases stayed : middle.rest.length = n
      · exact ihq inQ stayed second
      · omega
  | branch test p q ihp ihq =>
    have allowed := Supply.allows_holds test c
    rw [here] at allowed
    rw [stays, Bool.or_eq_false_iff] at leaves
    rw [exec] at ran
    split at ran
    · next holds =>
      rw [holds] at allowed
      exact ihp (by simpa [allowed] using leaves.1) here ran
    · next fails =>
      rw [Bool.eq_false_iff.mpr fails] at allowed
      exact ihq (by simpa [allowed] using leaves.2) here ran
  | loop test p ih => cases leaves
  | node kind p ih =>
    obtain ⟨inner, body, rfl⟩ := exec_node.mp ran
    have less := ih leaves (c := c.startNode kind) here body
    exact less
  | group p ih => exact ih leaves here ran
  | adopt kind p ih =>
    obtain ⟨inner, body, rfl⟩ := exec_adopt.mp ran
    have less := ih leaves (c := c.startNodeAt mark kind) here body
    exact less
  | rule name => exact leaving name c c' leaves here ran

theorem stays_left (rules : ρ → Bool) (p : Production ρ) :
    p.stays .left (fun name => !rules name) = !p.reads rules := by
  induction p with
  | done | take | fail _ | loop _ _ | rule _ => rfl
  | seq p q ihp ihq => rw [stays, ihp, ihq, reads, Bool.not_or]
  | branch test p q ihp ihq => rw [stays, ihp, ihq, reads, Bool.not_and]; rfl
  | node _ p ih | group p ih | adopt _ p ih => exact ih

theorem exec_reads {rules : ρ → Bool}
    (called : ∀ name c c', call name c = .ok c' → c'.rest.length ≤ c.rest.length)
    (reading : ∀ name c c', rules name = true → c.rest ≠ [] → call name c = .ok c' →
      c'.rest.length < c.rest.length)
    (p : Production ρ) (reads : p.reads rules = true) {mark : Checkpoint} {c c' : Cursor}
    (left : c.rest ≠ []) (ran : p.exec call mark c = .ok c') :
    c'.rest.length < c.rest.length := by
  obtain ⟨n, length⟩ := Nat.exists_eq_succ_of_ne_zero (mt List.length_eq_zero_iff.mp left)
  have leaving (name : ρ) (c c' : Cursor) (leaves : (!rules name) = false) (here : c.rest.length = n + 1)
      (ran : call name c = .ok c') : c'.rest.length < n + 1 := by
    rw [← here]
    exact reading name c c' (by simpa using leaves) (List.ne_nil_of_length_eq_add_one here) ran
  rw [length]
  exact exec_leaves called leaving p (by rw [Supply.of, stays_left, reads]; rfl) length ran

theorem advances_loop {rules : ρ → Bool} {test : Look}
    (called : ∀ name c c', call name c = .ok c' → c'.rest.length ≤ c.rest.length)
    (reading : ∀ name c c', rules name = true → c.rest ≠ [] → call name c = .ok c' →
      c'.rest.length < c.rest.length)
    (advances : (loop test p).advances rules = true) :
    p.advances rules = true ∧ (∀ c, test.holds c = true → c.rest ≠ []) ∧
      ∀ mark c c', test.holds c = true → p.exec call mark c = .ok c' →
        c'.rest.length < c.rest.length := by
  simp only [Production.advances, Bool.and_eq_true, decide_eq_true_eq] at advances
  obtain ⟨⟨demands, reads⟩, inside⟩ := advances
  have left (c : Cursor) (holds : test.holds c = true) : c.rest ≠ [] := by
    rw [Look.holds_eq_answer] at holds
    exact List.length_pos_iff.mp (Nat.lt_of_lt_of_le demands (Look.demand_le holds))
  exact ⟨inside, left, fun mark c c' holds ran =>
    exec_reads called reading p reads (left c holds) ran⟩

/-- The production adopts no children but those of its own groups and nodes. -/
def contained : Production ρ → Bool
  | done | take | fail _ | node _ _ | group _ | rule _ => true
  | seq p q => p.contained && q.contained
  | branch _ p q => p.contained && q.contained
  | loop _ p => p.contained
  | adopt _ _ => false

section Inside

variable {kind : Kind} {front : List (Node Kind)} {outer : List (Kind × List (Node Kind))}
  {top : List (Node Kind)}

theorem inside_take (inside : c.builder.Inside kind front outer top) :
    c.take.builder.Inside kind front outer top := by
  unfold Cursor.take
  split
  · exact inside
  · exact inside.token _

/-- A run stays inside the innermost open node and keeps the children in front of its checkpoint, or
all of them if it is contained. -/
theorem exec_inside
    (called : ∀ name c c' kind front outer top, c.builder.Inside kind front outer top →
      call name c = .ok c' → c'.builder.Inside kind front outer top)
    (p : Production ρ) {mark : Checkpoint} {c c' : Cursor}
    (inside : c.builder.Inside kind front outer top)
    (marked : p.contained = true ∨ mark.childCount = front.length)
    (ran : p.exec call mark c = .ok c') : c'.builder.Inside kind front outer top := by
  induction p generalizing mark c c' kind front outer top with
  | done => cases ran; exact inside
  | take => cases ran; exact inside_take inside
  | fail expectation => cases ran
  | seq p q ihp ihq =>
    obtain ⟨middle, first, second⟩ := exec_seq.mp ran
    have both : (p.contained = true ∧ q.contained = true) ∨ mark.childCount = front.length :=
      marked.imp_left Bool.and_eq_true_iff.mp
    exact ihq (ihp inside (both.imp_left And.left) first) (both.imp_left And.right) second
  | branch test p q ihp ihq =>
    have both : (p.contained = true ∧ q.contained = true) ∨ mark.childCount = front.length :=
      marked.imp_left Bool.and_eq_true_iff.mp
    rw [exec] at ran
    split at ran
    · exact ihp inside (both.imp_left And.left) ran
    · exact ihq inside (both.imp_left And.right) ran
  | loop test p ih =>
    exact iterate_preserves (fun _ _ inside _ stepped => ih inside marked stepped) inside ran
  | node inner p ih =>
    obtain ⟨last, body, rfl⟩ := exec_node.mp ran
    obtain ⟨more, shape, rfl⟩ := inside
    have opened := ih (c := c.startNode inner) (c.builder.inside_startNode inner) (.inr rfl) body
    rw [shape] at opened
    obtain ⟨made, shape', same, -⟩ := Builder.finishNode_inside opened
    exact ⟨more ++ made, by rw [← List.append_assoc]; exact shape', same⟩
  | group p ih =>
    obtain ⟨more, shape, same⟩ := inside
    have marked : (c.builder.checkpoint).childCount = (front ++ more).length := by
      simp [Builder.checkpoint, Builder.children, shape]
    exact (ih ⟨[], by rw [shape, List.append_nil], same⟩ (.inr marked) ran).shorten
  | adopt inner p ih =>
    obtain ⟨last, body, rfl⟩ := exec_adopt.mp ran
    obtain ⟨more, shape, rfl⟩ := inside
    have here : mark.childCount = front.length := marked.resolve_left (by simp [contained])
    have opened := ih (c := c.startNodeAt mark inner)
      (Builder.Inside.startNodeAt inner mark shape here) (.inr rfl) body
    obtain ⟨made, shape', same, -⟩ := Builder.finishNode_inside opened
    exact ⟨made, shape', same⟩
  | rule name => exact called name c c' _ _ _ _ inside ran

theorem exec_node_made
    (called : ∀ name c c' kind front outer top, c.builder.Inside kind front outer top →
      call name c = .ok c' → c'.builder.Inside kind front outer top)
    {inner : Kind} (p : Production ρ) {mark : Checkpoint} {c c' : Cursor}
    (shape : c.builder.openNodes = (kind, front) :: outer)
    (ran : (node inner p).exec call mark c = .ok c') :
    ∃ made, c'.builder.openNodes = (kind, front ++ made) :: outer ∧
      c'.builder.top = c.builder.top ∧ ∀ node ∈ made, node.kind = inner ∧ node.isLeaf = false := by
  obtain ⟨last, body, rfl⟩ := exec_node.mp ran
  have opened := exec_inside called p (c := c.startNode inner) (c.builder.inside_startNode inner)
    (.inr rfl) body
  rw [shape] at opened
  exact Builder.finishNode_inside opened

end Inside

end Production

end SqlFerry.Tsql
