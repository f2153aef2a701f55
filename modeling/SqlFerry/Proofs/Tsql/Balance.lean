import SqlFerry.Proofs.Tsql.Course
import SqlFerry.Proofs.Tree.Nodes

/-! Where parentheses are paired. Most rules read an opening parenthesis only together with its
partner. A few read tokens without a look at them: the token behind the dot of a type or of a column
that is set, the options of a procedure, a session and `RAISERROR`, and the first token of a statement
that no rule knows. As long as the parentheses among these tokens are paired, those of the text are.

The proof follows how deep a production stands inside parentheses. That takes a look at the next two
tokens, since the rules read the words that brought them there without a second look. -/
namespace SqlFerry.Tsql

/-- What a token is to the pairing of parentheses. -/
inductive Paren where
  | left | right | other
deriving DecidableEq

namespace Paren

def ofKind : Kind → Paren
  | .leftParen => left
  | .rightParen => right
  | _ => other

theorem eq_left {kind : Kind} (isLeft : ofKind kind = left) : kind = .leftParen := by
  revert isLeft
  cases kind <;> simp [ofKind]

theorem eq_right {kind : Kind} (isRight : ofKind kind = right) : kind = .rightParen := by
  revert isRight
  cases kind <;> simp [ofKind]

theorem ofKind_ne {kind other : Kind} (differs : kind ≠ other) :
    ofKind kind = .other ∨ ofKind kind ≠ ofKind other := by
  cases paren : ofKind kind with
  | left => exact .inr fun same => differs ((eq_left paren).trans (eq_left same.symm).symm)
  | right => exact .inr fun same => differs ((eq_right paren).trans (eq_right same.symm).symm)
  | other => exact .inl rfl

def ofToken? : Option (Token Kind) → Paren
  | none => other
  | some token => ofKind token.kind

/-- The depth behind a parenthesis that is read at a depth. -/
def step : Paren → Nat → Option Nat
  | left, depth => some (depth + 1)
  | right, 0 => none
  | right, depth + 1 => some depth
  | other, depth => some depth

theorem step_add {paren : Paren} {depth next : Nat} (stepped : paren.step depth = some next)
    (more : Nat) : paren.step (depth + more) = some (next + more) := by
  cases paren with
  | left =>
    obtain rfl := Option.some.inj stepped
    exact congrArg some (Nat.add_right_comm depth more 1)
  | right =>
    cases depth with
    | zero => cases stepped
    | succ depth =>
      obtain rfl := Option.some.inj stepped
      rw [Nat.add_right_comm, step]
  | other =>
    obtain rfl := Option.some.inj stepped
    rfl

end Paren

/-- The depth behind some tokens, if no parenthesis among them closes more than is open. -/
def walk : Nat → List (Token Kind) → Option Nat
  | depth, [] => some depth
  | depth, token :: rest => (Paren.ofKind token.kind).step depth >>= (walk · rest)

def countLeft (tokens : List (Token Kind)) : Nat := tokens.countP (·.kind == .leftParen)

def countRight (tokens : List (Token Kind)) : Nat := tokens.countP (·.kind == .rightParen)

theorem countLeft_cons (token : Token Kind) (rest : List (Token Kind)) :
    countLeft (token :: rest) =
      countLeft rest + if Paren.ofKind token.kind = .left then 1 else 0 := by
  rw [countLeft, List.countP_cons]
  cases token.kind <;> rfl

theorem countRight_cons (token : Token Kind) (rest : List (Token Kind)) :
    countRight (token :: rest) =
      countRight rest + if Paren.ofKind token.kind = .right then 1 else 0 := by
  rw [countRight, List.countP_cons]
  cases token.kind <;> rfl

/-- No closing parenthesis comes too early, and none is missing at the end. -/
def Balanced (tokens : List (Token Kind)) : Prop :=
  (∀ front, front <+: tokens → countRight front ≤ countLeft front) ∧
    countLeft tokens = countRight tokens

theorem walk_append (depth : Nat) (xs ys : List (Token Kind)) :
    walk depth (xs ++ ys) = walk depth xs >>= (walk · ys) := by
  induction xs generalizing depth with
  | nil => rfl
  | cons x xs ih =>
    simp only [List.cons_append, walk]
    cases (Paren.ofKind x.kind).step depth with
    | none => rfl
    | some next => exact ih next

theorem walk_add {depth stop : Nat} {tokens : List (Token Kind)} (walked : walk depth tokens = some stop)
    (more : Nat) : walk (depth + more) tokens = some (stop + more) := by
  induction tokens generalizing depth with
  | nil =>
    obtain rfl := Option.some.inj walked
    rfl
  | cons token rest ih =>
    obtain ⟨next, stepped, later⟩ := Option.bind_eq_some_iff.mp walked
    exact Option.bind_eq_some_iff.mpr ⟨_, Paren.step_add stepped more, ih later⟩

/-- The walk gets through exactly where enough is open all the time. -/
theorem walk_eq_some_iff {depth stop : Nat} {tokens : List (Token Kind)} :
    walk depth tokens = some stop ↔
      (∀ front, front <+: tokens → countRight front ≤ depth + countLeft front) ∧
        depth + countLeft tokens = stop + countRight tokens := by
  induction tokens generalizing depth with
  | nil => simp [walk, countLeft, countRight]
  | cons token rest ih =>
    have unfolded : (∀ front, front <+: token :: rest → countRight front ≤ depth + countLeft front) ↔
        ∀ front, front <+: rest → countRight (token :: front) ≤ depth + countLeft (token :: front) := by
      constructor
      · exact fun all front before => all _ (List.cons_prefix_cons.mpr ⟨rfl, before⟩)
      · intro all front before
        rcases List.prefix_cons_iff.mp before with rfl | ⟨rest', rfl, before'⟩
        · exact Nat.zero_le _
        · exact all rest' before'
    rw [unfolded, walk, Option.bind_eq_bind, Option.bind_eq_some_iff]
    simp only [countLeft_cons, countRight_cons]
    cases Paren.ofKind token.kind with
    | left =>
      simp only [Paren.step, Option.some.injEq, exists_eq_left', ih]
      refine and_congr (forall₂_congr fun front _ => ?_) ?_ <;> simp only [reduceCtorEq, if_true, if_false] <;> omega
    | right =>
      cases depth with
      | zero =>
        simp only [Paren.step, reduceCtorEq, false_and, exists_false, false_iff]
        intro ⟨all, _⟩
        have := all [] List.nil_prefix
        simp [countLeft, countRight] at this
      | succ depth =>
        simp only [Paren.step, Option.some.injEq, exists_eq_left', ih]
        refine and_congr (forall₂_congr fun front _ => ?_) ?_ <;> simp only [reduceCtorEq, if_true, if_false] <;> omega
    | other =>
      simp only [Paren.step, Option.some.injEq, exists_eq_left', ih]
      refine and_congr (forall₂_congr fun front _ => ?_) ?_ <;> simp only [reduceCtorEq, if_false] <;> omega

theorem balanced_iff {tokens : List (Token Kind)} : Balanced tokens ↔ walk 0 tokens = some 0 := by
  simp only [Balanced, walk_eq_some_iff, Nat.zero_add]

theorem walk_of_balanced {tokens : List (Token Kind)} (balanced : Balanced tokens) (depth : Nat) :
    walk depth tokens = some depth := by
  simpa using walk_add (balanced_iff.mp balanced) depth

theorem Balanced.append {xs ys : List (Token Kind)} (first : Balanced xs) (second : Balanced ys) :
    Balanced (xs ++ ys) := by
  rw [balanced_iff, walk_append, balanced_iff.mp first]
  exact balanced_iff.mp second

instance (tokens : List (Token Kind)) : Decidable (Balanced tokens) :=
  decidable_of_iff _ balanced_iff.symm

/-- Dots, each with the token behind it. -/
def dotted : List (Token Kind) → List (Token Kind)
  | dot :: token :: rest => if dot.kind = .dot then dot :: token :: dotted rest else []
  | [dot] => if dot.kind = .dot then [dot] else []
  | [] => []

/-- The tokens behind the parenthesis that closes the first group. -/
def behindGroup : Nat → List (Token Kind) → List (Token Kind)
  | _, [] => []
  | depth, token :: rest =>
    match Paren.ofKind token.kind, depth with
    | .left, depth => behindGroup (depth + 1) rest
    | .right, depth + 2 => behindGroup (depth + 1) rest
    | .right, _ => rest
    | .other, depth => behindGroup depth rest

theorem behindGroup_append {depth stop : Nat} {inside : List (Token Kind)}
    (walked : walk depth inside = some stop) (back : List (Token Kind)) :
    behindGroup (depth + 1) (inside ++ back) = behindGroup (stop + 1) back := by
  induction inside generalizing depth with
  | nil =>
    obtain rfl := Option.some.inj walked
    rfl
  | cons token rest ih =>
    obtain ⟨next, stepped, later⟩ := Option.bind_eq_some_iff.mp walked
    rw [← ih later, List.cons_append]
    cases paren : Paren.ofKind token.kind with
    | left | other =>
      rw [paren] at stepped
      obtain rfl := Option.some.inj stepped
      simp only [behindGroup, paren]
    | right =>
      rw [paren] at stepped
      cases depth with
      | zero => cases stepped
      | succ depth =>
        obtain rfl := Option.some.inj stepped
        simp only [behindGroup, paren]

theorem walk_plain {front : List (Token Kind)} (plain : ∀ token ∈ front, Paren.ofKind token.kind = .other)
    (depth : Nat) : walk depth front = some depth := by
  induction front with
  | nil => rfl
  | cons token front ih =>
    obtain ⟨isPlain, others⟩ := List.forall_mem_cons.mp plain
    rw [walk, isPlain]
    exact ih others

section Group

variable {front inside back : List (Token Kind)} {left right : Token Kind}
  (plain : ∀ token ∈ front, Paren.ofKind token.kind = .other) (isLeft : left.kind = .leftParen)
  (paired : Balanced inside) (isRight : right.kind = .rightParen)

include plain isLeft paired isRight

theorem balanced_group (behind : Balanced back) :
    Balanced (front ++ left :: (inside ++ right :: back)) := by
  rw [balanced_iff, walk_append, walk_plain plain]
  simp only [Option.bind_eq_bind, Option.bind_some, walk, isLeft, Paren.ofKind, Paren.step, walk_append,
    walk_of_balanced paired, isRight]
  exact balanced_iff.mp behind

theorem behindGroup_eq : behindGroup 0 (front ++ left :: (inside ++ right :: back)) = back := by
  induction front with
  | nil =>
    have opened : behindGroup 0 (left :: (inside ++ right :: back)) = behindGroup 1 (inside ++ right :: back) := by
      simp only [behindGroup, isLeft, Paren.ofKind]
    rw [List.nil_append, opened, behindGroup_append (balanced_iff.mp paired)]
    simp only [behindGroup, isRight, Paren.ofKind]
  | cons token front ih =>
    obtain ⟨isPlain, others⟩ := List.forall_mem_cons.mp plain
    simp only [List.cons_append, behindGroup, isPlain, ih others]

end Group

/-- Nodes that take all their tokens without a look at them. -/
def Kind.isBlind : Kind → Bool
  | .columnRef | .procedureOptions | .setOption => true
  | _ => false

/-- The tokens of a node that are taken whatever they are, with the words and the dots between them. -/
def Kind.unseen (kind : Kind) (tokens : List (Token Kind)) : List (Token Kind) :=
  match kind with
  | .otherStatement => tokens.take 1
  | .dataType => tokens.take 1 ++ dotted tokens.tail
  | .raiseError => behindGroup 0 tokens
  | kind => if kind.isBlind then tokens else []

theorem Kind.unseen_nil (kind : Kind) : kind.unseen [] = [] := by cases kind <;> rfl

theorem Kind.unseen_of_isBlind {kind : Kind} (blind : kind.isBlind = true) (tokens : List (Token Kind)) :
    kind.unseen tokens = tokens := by
  cases kind <;> first | rfl | cases blind

/-- Among the tokens below that are taken without a look the parentheses are paired. -/
def Tight (nodes : List (Node Kind)) : Prop :=
  ∀ node ∈ Node.descendantsOf nodes, Balanced (node.kind.unseen node.tokens)

/-- What the next two tokens may be. -/
structure Ahead where
  now : List Paren
  next : List Paren

namespace Ahead

def unknown : List Paren := [.left, .right, .other]

/-- Nothing is known beyond `n` tokens that are no parentheses. -/
def plain : Nat → Ahead
  | 0 => ⟨unknown, unknown⟩
  | 1 => ⟨[.other], unknown⟩
  | _ => ⟨[.other], [.other]⟩

def Knows (ahead : Ahead) (rest : List (Token Kind)) : Prop :=
  Paren.ofToken? rest[0]? ∈ ahead.now ∧ Paren.ofToken? rest[1]? ∈ ahead.next

/-- What may be one of two things. The list does not grow, so that the analysis stays small. -/
def either (xs ys : List Paren) : List Paren :=
  unknown.filter fun paren => xs.contains paren || ys.contains paren

def join (a b : Ahead) : Ahead := ⟨either a.now b.now, either a.next b.next⟩

/-- What is left when the token `n` places ahead passes the check. -/
def keep (ahead : Ahead) (n : Nat) (check : Paren → Bool) : Ahead :=
  match n with
  | 0 => { ahead with now := ahead.now.filter check }
  | 1 => { ahead with next := ahead.next.filter check }
  | _ => ahead

/-- Whether the first `n` tokens are known to be no parentheses. -/
def isPlain (ahead : Ahead) : Nat → Bool
  | 0 => true
  | 1 => ahead.now.all (· == .other)
  | _ => ahead.now.all (· == .other) && ahead.next.all (· == .other)

/-- The depth behind the next token, if all that it may be leads to the same. -/
def step (ahead : Ahead) (depth : Nat) : Option Nat :=
  if ahead.now.all (· == .other) then some depth
  else if ahead.now.all (· == .left) then some (depth + 1)
  else if ahead.now.all (· == .right) then Paren.step .right depth
  else none

end Ahead

/-- What is known once a test has given an answer. -/
def Look.learn : Look → Bool → Ahead → Ahead
  | kind n k, true, ahead => ahead.keep n (· == Paren.ofKind k)
  | kind n k, false, ahead => ahead.keep n fun paren => paren == .other || paren != Paren.ofKind k
  | word n _, true, ahead => ahead.keep n (· == .other)
  | word _ _, false, ahead => ahead
  | sameLine, _, ahead => ahead
  | atEnd, true, ahead => (ahead.keep 0 (· == .other)).keep 1 (· == .other)
  | atEnd, false, ahead => ahead
  | not l, answer, ahead => l.learn (!answer) ahead
  | and l r, true, ahead => r.learn true (l.learn true ahead)
  | and l r, false, ahead => (l.learn false ahead).join (r.learn false ahead)
  | or l r, true, ahead => (l.learn true ahead).join (r.learn true ahead)
  | or l r, false, ahead => r.learn false (l.learn false ahead)

/-- Where a production ends. -/
inductive Verdict where
  /-- Nothing can be said. -/
  | lost
  /-- It never ends well. -/
  | never
  | at (depth : Nat) (ahead : Ahead)

namespace Verdict

def join : Verdict → Verdict → Verdict
  | lost, _ | _, lost => lost
  | never, out | out, never => out
  | .at depth a, .at depth' b => if depth = depth' then .at depth (a.join b) else lost

def bind : Verdict → (Nat → Ahead → Verdict) → Verdict
  | lost, _ => lost
  | never, _ => never
  | .at depth ahead, next => next depth ahead

/-- The walk over the tokens that were read and the rest behind them are as the verdict says. -/
def Means : Verdict → Option Nat → List (Token Kind) → Prop
  | lost, _, _ => True
  | never, _, _ => False
  | .at depth ahead, walked, rest => walked = some depth ∧ ahead.Knows rest

/-- The production ends at the depth or not at all. -/
def returnsTo (depth : Nat) : Verdict → Bool
  | lost => false
  | never => true
  | .at stop _ => stop == depth

end Verdict

namespace Production

variable {ρ : Type}

/-- How deep a production ends inside parentheses. A rule needs some tokens that are no parentheses
in front of it and ends where it began; those without such a number are left out. -/
def track (needs : ρ → Option Nat) : Production ρ → Nat → Ahead → Verdict
  | done, depth, ahead => .at depth ahead
  | take, depth, ahead =>
    match ahead.step depth with
    | some depth' => .at depth' ⟨ahead.next, Ahead.unknown⟩
    | none => .lost
  | fail _, _, _ => .never
  | seq p q, depth, ahead => (p.track needs depth ahead).bind (q.track needs)
  | branch test p q, depth, ahead =>
    (p.track needs depth (test.learn true ahead)).join (q.track needs depth (test.learn false ahead))
  | loop test p, depth, _ =>
    if (p.track needs depth (test.learn true (.plain 0))).returnsTo depth then .at depth (.plain 0)
    else .lost
  | node kind p, depth, ahead =>
    if kind.isBlind then .at depth (.plain 0) else p.track needs depth ahead
  | group p, depth, ahead => p.track needs depth ahead
  | adopt _ p, depth, ahead => p.track needs depth ahead
  | rule name, depth, ahead =>
    match needs name with
    | some n => if ahead.isPlain n then .at depth (.plain 0) else .lost
    | none => .lost

end Production

/-- How many tokens in front of a rule are no parentheses where the rule is called. The options of a
procedure are not followed, since a node takes them blindly. -/
def Rule.needs : Rule → Option Nat
  | .procedureOption => none
  | .createTable | .dropTable | .setVariable | .tryCatch => some 2
  | .declare | .createIndex | .truncate | .topClause | .fromClause | .tableHint | .whereClause
  | .orderByClause | .insert | .outputClause | .update | .delete | .ifStatement | .whileStatement
  | .block | .transaction | .returnStatement | .print | .raiseError | .execute | .caseExpression
  | .castExpression | .convertExpression | .nameOrCall => some 1
  | _ => some 0

/-- Rules that take some tokens without a look and pair the parentheses of the others. -/
def Rule.isMixed : Rule → Bool
  | .dataType | .raiseError | .otherStatement => true
  | _ => false

theorem production_track (rule : Rule) (n : Nat) (followed : rule.needs = some n)
    (ordinary : rule.isMixed = false) :
    ((Grammar.production rule).track Rule.needs 0 (.plain n)).returnsTo 0 = true := by
  cases rule <;> cases ordinary <;> cases followed <;> decide

namespace Ahead

theorem knows_plain_zero (rest : List (Token Kind)) : (plain 0).Knows rest := by
  constructor <;> cases Paren.ofToken? _ <;> decide

theorem mem_either_left {paren : Paren} {xs : List Paren} (member : paren ∈ xs) (ys : List Paren) :
    paren ∈ either xs ys := by
  refine List.mem_filter.mpr ⟨by cases paren <;> decide, ?_⟩
  rw [List.contains_iff_mem.mpr member, Bool.true_or]

theorem mem_either_right {paren : Paren} {ys : List Paren} (member : paren ∈ ys) (xs : List Paren) :
    paren ∈ either xs ys := by
  refine List.mem_filter.mpr ⟨by cases paren <;> decide, ?_⟩
  rw [List.contains_iff_mem.mpr member, Bool.or_true]

theorem Knows.join_left {a : Ahead} {rest : List (Token Kind)} (knows : a.Knows rest)
    (b : Ahead) : (a.join b).Knows rest :=
  ⟨mem_either_left knows.1 _, mem_either_left knows.2 _⟩

theorem Knows.join_right {b : Ahead} {rest : List (Token Kind)} (knows : b.Knows rest)
    (a : Ahead) : (a.join b).Knows rest :=
  ⟨mem_either_right knows.1 _, mem_either_right knows.2 _⟩

theorem Knows.keep {ahead : Ahead} {rest : List (Token Kind)} (knows : ahead.Knows rest) {n : Nat}
    {check : Paren → Bool} (passed : check (Paren.ofToken? rest[n]?) = true) :
    (ahead.keep n check).Knows rest := by
  match n with
  | 0 => exact ⟨List.mem_filter.mpr ⟨knows.1, passed⟩, knows.2⟩
  | 1 => exact ⟨knows.1, List.mem_filter.mpr ⟨knows.2, passed⟩⟩
  | _ + 2 => exact knows

theorem Knows.tail {ahead : Ahead} {rest : List (Token Kind)} (knows : ahead.Knows rest) :
    Knows ⟨ahead.next, unknown⟩ rest.tail := by
  refine ⟨?_, (knows_plain_zero rest.tail).2⟩
  rw [List.getElem?_tail]
  exact knows.2

theorem Knows.plain {ahead : Ahead} {rest : List (Token Kind)} (knows : ahead.Knows rest) {n : Nat}
    (isPlain : ahead.isPlain n = true) : (Ahead.plain n).Knows rest := by
  have single {xs : List Paren} {paren : Paren} (all : xs.all (· == .other) = true)
      (member : paren ∈ xs) : paren ∈ [Paren.other] := by
    simpa using List.all_eq_true.mp all paren member
  match n with
  | 0 => exact knows_plain_zero rest
  | 1 => exact ⟨single isPlain knows.1, (knows_plain_zero rest).2⟩
  | _ + 2 =>
    obtain ⟨now, next⟩ := Bool.and_eq_true_iff.mp isPlain
    exact ⟨single now knows.1, single next knows.2⟩

theorem step_sound {ahead : Ahead} {paren : Paren} (now : paren ∈ ahead.now) {depth next : Nat}
    (stepped : ahead.step depth = some next) : paren.step depth = some next := by
  unfold step at stepped
  split at stepped
  · next all => rwa [show paren = .other by simpa using List.all_eq_true.mp all paren now]
  · split at stepped
    · next all => rwa [show paren = .left by simpa using List.all_eq_true.mp all paren now]
    · split at stepped
      · next all => rwa [show paren = .right by simpa using List.all_eq_true.mp all paren now]
      · cases stepped

end Ahead

/-- What is learned from the answer of a test is true. -/
theorem Look.knows_learn (test : Look) {answer : Bool} {ahead : Ahead} {c : Cursor}
    (knows : ahead.Knows c.rest) (answered : test.holds c = answer) :
    (test.learn answer ahead).Knows c.rest := by
  induction test generalizing answer ahead with
  | kind n k =>
    rw [holds] at answered
    cases answer with
    | true =>
      obtain ⟨token, there, isKind⟩ := (Option.any_eq_true _ _).mp answered
      refine knows.keep ?_
      rw [there, Paren.ofToken?, eq_of_beq isKind, beq_self_eq_true]
    | false =>
      refine knows.keep ?_
      cases there : c.rest[n]? with
      | none => rfl
      | some token =>
        rw [there, Option.any_some] at answered
        have differs : token.kind ≠ k := by simpa using answered
        simpa [Paren.ofToken?] using Paren.ofKind_ne differs
  | word n w =>
    rw [holds] at answered
    cases answer with
    | true =>
      obtain ⟨token, there, reads⟩ := (Option.any_eq_true _ _).mp answered
      refine knows.keep ?_
      rw [there]
      have isWord := (Bool.and_eq_true_iff.mp reads).1
      revert isWord
      cases shape : token.kind <;> simp [Paren.ofToken?, Paren.ofKind, shape, Kind.isWord]
    | false => exact knows
  | sameLine => exact knows
  | atEnd =>
    cases answer with
    | true =>
      have empty : c.rest = [] := List.isEmpty_iff.mp answered
      refine (knows.keep ?_).keep ?_ <;> rw [empty] <;> rfl
    | false => exact knows
  | not l ih => exact ih knows (by rw [← answered, holds, Bool.not_not])
  | and l r ihl ihr =>
    rw [holds] at answered
    cases answer with
    | true =>
      obtain ⟨left, right⟩ := Bool.and_eq_true_iff.mp answered
      exact ihr (ihl knows left) right
    | false =>
      rcases Bool.and_eq_false_iff.mp answered with left | right
      · exact (ihl knows left).join_left _
      · exact (ihr knows right).join_right _
  | or l r ihl ihr =>
    rw [holds] at answered
    cases answer with
    | true =>
      rcases Bool.or_eq_true_iff.mp answered with left | right
      · exact (ihl knows left).join_left _
      · exact (ihr knows right).join_right _
    | false =>
      obtain ⟨left, right⟩ := Bool.or_eq_false_iff.mp answered
      exact ihr (ihl knows left) right

namespace Verdict

variable {walked : Option Nat} {rest : List (Token Kind)}

theorem Means.join_left {a : Verdict} (means : a.Means walked rest) (b : Verdict) :
    (a.join b).Means walked rest := by
  cases a with
  | lost => trivial
  | never => cases means
  | «at» depth ahead =>
    cases b with
    | lost => trivial
    | never => exact means
    | «at» depth' other =>
      rw [join]
      split
      · exact ⟨means.1, means.2.join_left other⟩
      · trivial

theorem Means.join_right {b : Verdict} (means : b.Means walked rest) (a : Verdict) :
    (a.join b).Means walked rest := by
  cases b with
  | lost => cases a <;> trivial
  | never => cases means
  | «at» depth ahead =>
    cases a with
    | lost => trivial
    | never => exact means
    | «at» depth' other =>
      rw [join]
      split
      · next same => exact ⟨same ▸ means.1, means.2.join_right other⟩
      · trivial

theorem Means.returned {out : Verdict} {depth : Nat} (means : out.Means walked rest)
    (returns : out.returnsTo depth = true) : walked = some depth := by
  cases out with
  | lost => cases returns
  | never => cases means
  | «at» stop ahead => exact means.1.trans (congrArg some (eq_of_beq returns))

end Verdict

section Tracking

variable {ρ : Type} {calls : ρ → Cursor → List (Node Kind) → Cursor → Prop} {p : Production ρ}
  {c c' : Cursor} {xs ys : List (Node Kind)}

theorem derives_descendants (derives : Derives calls p c xs c' ys) :
    Node.descendantsOf xs ⊆ Node.descendantsOf ys := by
  have course : Course (fun _ _ _ _ => True) p c.place xs c'.place ys :=
    derives.course fun _ _ _ _ _ => trivial
  exact course.descendants

theorem Tight.before (tight : Tight ys) (derives : Derives calls p c xs c' ys) : Tight xs :=
  fun node member => tight node (derives_descendants derives member)

theorem Tight.inside {kind : Kind} {id : Nat} (tight : Tight (closed id kind ys)) : Tight ys :=
  fun node member => tight node (descendantsOf_closed id kind ys member)

theorem Tight.right (tight : Tight (xs ++ ys)) : Tight ys := by
  intro node member
  refine tight node ?_
  rw [Node.descendantsOf_append]
  exact List.mem_append_right _ member

theorem Tight.closed {kind : Kind} {id : Nat} (tight : Tight (Tsql.closed id kind ys)) :
    Balanced (kind.unseen (Node.tokensOf ys)) := by
  cases ys with
  | nil =>
    rw [Node.tokensOf, kind.unseen_nil]
    exact balanced_iff.mpr rfl
  | cons first rest => exact tight (.rule id kind first rest) (List.mem_append_left _ (Node.mem_descendants _))

theorem derives_track {needs : ρ → Option Nat}
    (called : ∀ name n c ys c', calls name c ys c' → needs name = some n → (Ahead.plain n).Knows c.rest →
      Tight ys → Balanced (Node.tokensOf ys))
    (derives : Derives calls p c xs c' ys) (tight : Tight ys) (depth : Nat) {ahead : Ahead}
    (knows : ahead.Knows c.rest) : ∃ read, Node.tokensOf ys = Node.tokensOf xs ++ read ∧
      (p.track needs depth ahead).Means (walk depth read) c'.rest := by
  induction derives generalizing depth ahead with
  | done => exact ⟨[], (List.append_nil _).symm, rfl, knows⟩
  | @take c xs token id index next =>
    refine ⟨[token], by rw [Node.tokensOf_append]; rfl, ?_⟩
    have isNext : c.rest[0]? = some token := by rw [← next, List.head?_eq_getElem?]
    have now : Paren.ofKind token.kind ∈ ahead.now := by simpa [isNext, Paren.ofToken?] using knows.1
    have later : Ahead.Knows ⟨ahead.next, Ahead.unknown⟩ c.take.rest := by
      rw [Cursor.rest_take]
      exact knows.tail
    rw [Production.track]
    split
    · next stop stepped => exact ⟨by rw [walk, ahead.step_sound now stepped]; rfl, later⟩
    · trivial
  | @stay c xs empty =>
    refine ⟨[], (List.append_nil _).symm, ?_⟩
    have now : Paren.other ∈ ahead.now := by simpa [empty, Paren.ofToken?] using knows.1
    have later : Ahead.Knows ⟨ahead.next, Ahead.unknown⟩ c.rest := by
      have shifted := knows.tail
      rwa [empty] at shifted ⊢
    rw [Production.track]
    split
    · next stop stepped => exact ⟨ahead.step_sound now stepped, later⟩
    · trivial
  | @seq p q c c' c'' xs ys zs first second ihp ihq =>
    obtain ⟨front, whole, means⟩ := ihp (tight.before second) depth knows
    rw [Production.track]
    cases verdict : p.track needs depth ahead with
    | lost =>
      obtain ⟨back, whole', -⟩ := ihq tight depth (Ahead.knows_plain_zero _)
      exact ⟨front ++ back, by rw [whole', whole, List.append_assoc], trivial⟩
    | never =>
      rw [verdict] at means
      cases means
    | «at» middle between =>
      rw [verdict] at means
      obtain ⟨back, whole', means'⟩ := ihq tight middle means.2
      refine ⟨front ++ back, by rw [whole', whole, List.append_assoc], ?_⟩
      rw [walk_append, means.1]
      exact means'
  | holds answered _ ih =>
    obtain ⟨read, whole, means⟩ := ih tight depth (Look.knows_learn _ knows answered)
    exact ⟨read, whole, means.join_left _⟩
  | fails answered _ ih =>
    obtain ⟨read, whole, means⟩ := ih tight depth (Look.knows_learn _ knows answered)
    exact ⟨read, whole, means.join_right _⟩
  | stop =>
    refine ⟨[], (List.append_nil _).symm, ?_⟩
    rw [Production.track]
    split
    · exact ⟨rfl, Ahead.knows_plain_zero _⟩
    · trivial
  | @round test p c c' c'' xs ys zs answered first later ihp ihq =>
    obtain ⟨front, whole, means⟩ :=
      ihp (tight.before later) depth (Look.knows_learn test (Ahead.knows_plain_zero _) answered)
    obtain ⟨back, whole', means'⟩ := ihq tight depth (Ahead.knows_plain_zero _)
    refine ⟨front ++ back, by rw [whole', whole, List.append_assoc], ?_⟩
    rw [Production.track] at means' ⊢
    split
    · next returns =>
      rw [if_pos returns] at means'
      rw [walk_append, means.returned returns]
      exact means'
    · trivial
  | @node kind p c c' xs ys id body ih =>
    refine ⟨Node.tokensOf ys, by rw [Node.tokensOf_append, tokensOf_closed], ?_⟩
    have below : Tight (closed id kind ys) := tight.right
    rw [Production.track]
    split
    · next blind =>
      have paired := below.closed
      rw [kind.unseen_of_isBlind blind] at paired
      exact ⟨walk_of_balanced paired depth, Ahead.knows_plain_zero _⟩
    · obtain ⟨read, whole, means⟩ := ih below.inside depth knows
      rwa [whole]
  | group body ih =>
    obtain ⟨read, whole, means⟩ := ih tight.right depth knows
    exact ⟨read, by rw [Node.tokensOf_append, whole]; rfl, means⟩
  | adopt id body ih =>
    obtain ⟨read, whole, means⟩ := ih tight.inside depth knows
    exact ⟨read, by rw [tokensOf_closed, whole], means⟩
  | @rule name c c' xs ys ran =>
    refine ⟨Node.tokensOf ys, Node.tokensOf_append .., ?_⟩
    rw [Production.track]
    split
    · next n needed =>
      split
      · next isPlain =>
        have balanced := called name n c ys c' ran needed (knows.plain isPlain) tight.right
        exact ⟨walk_of_balanced balanced depth, Ahead.knows_plain_zero _⟩
      · trivial
    · trivial

theorem derives_returns {needs : ρ → Option Nat}
    (called : ∀ name n c ys c', calls name c ys c' → needs name = some n → (Ahead.plain n).Knows c.rest →
      Tight ys → Balanced (Node.tokensOf ys))
    (derives : Derives calls p c xs c' ys) (tight : Tight ys)
    (returns : (p.track needs 0 (.plain 0)).returnsTo 0 = true) :
    ∃ read, Node.tokensOf ys = Node.tokensOf xs ++ read ∧ Balanced read := by
  obtain ⟨read, tokens, means⟩ := derives_track called derives tight 0 (Ahead.knows_plain_zero _)
  exact ⟨read, tokens, balanced_iff.mpr (means.returned returns)⟩

theorem derives_take (derives : Derives calls .take c xs c' ys) :
    Node.tokensOf ys = Node.tokensOf xs ++ c.rest.take 1 ∧ c'.rest = c.rest.tail := by
  cases derives with
  | take id index next =>
    obtain ⟨rest, shape⟩ := List.head?_eq_some_iff.mp next
    rw [Node.tokensOf_append, Cursor.rest_take, shape]
    exact ⟨rfl, rfl⟩
  | stay empty =>
    rw [empty]
    exact ⟨(List.append_nil _).symm, rfl⟩

/-- A loop over dots reads each with the token behind it, and what is read next starts no other round. -/
theorem derives_dotted (derives : Derives calls (.loop (.sees .dot) (.steps [.take, .take])) c xs c' ys) :
    ∃ read, Node.tokensOf ys = Node.tokensOf xs ++ read ∧
      ∀ back, back <+: c'.rest → dotted (read ++ back) = read := by
  generalize isLoop : Production.loop (.sees .dot) (.steps [.take, .take]) = p at derives
  induction derives with
  | @stop test p c xs answered =>
    refine ⟨[], (List.append_nil _).symm, fun back next => ?_⟩
    obtain ⟨rfl, -⟩ := Production.loop.inj isLoop
    cases back with
    | nil => rfl
    | cons token back =>
      obtain ⟨later, shape⟩ := next
      have notDot : token.kind ≠ .dot := by simpa [Look.sees, Look.holds, ← shape] using answered
      cases back <;> exact if_neg notDot
  | @round test p c c' c'' xs ys zs answered first later _ ih =>
    obtain ⟨rfl, rfl⟩ := Production.loop.inj isLoop
    obtain ⟨c₁, xs₁, dot, first⟩ := derives_seq.mp first
    obtain ⟨c₂, xs₂, taken, first⟩ := derives_seq.mp first
    obtain ⟨rfl, rfl⟩ := derives_done.mp first
    obtain ⟨tokens₁, rest₁⟩ := derives_take dot
    obtain ⟨tokens₂, rest₂⟩ := derives_take taken
    obtain ⟨read, tokens, stops⟩ := ih rfl
    obtain ⟨token, rest, shape, isDot⟩ := Look.exists_of_sees answered
    rw [shape] at tokens₁ rest₁
    refine ⟨token :: rest.take 1 ++ read, ?_, fun back next => ?_⟩
    · rw [tokens, tokens₂, tokens₁, rest₁]
      simp
    · cases rest with
      | cons behind rest => simpa [dotted, isDot] using stops back next
      | nil =>
        -- Behind a dot that is the last token there is nothing to read.
        have none : c'.rest = [] := by rw [rest₂, rest₁]; rfl
        cases later with
        | stop =>
          obtain rfl : read = [] := List.append_right_eq_self.mp tokens.symm
          obtain rfl : back = [] := List.prefix_nil.mp (none ▸ next)
          exact if_pos isDot
        | round answered => simp [Look.sees, Look.holds, none] at answered
  | _ => cases isLoop

end Tracking

section Mixed

variable {depth : Nat} {c c' : Cursor} {xs ys : List (Node Kind)}

theorem derives_tokens {p : Production Rule} (derives : Derives (Reads depth) p c xs c' ys) :
    Node.tokensOf xs ++ c.rest = Node.tokensOf ys ++ c'.rest := by
  have course : Course (RuleCourse depth) p c.place xs c'.place ys := derives.course fun _ _ _ _ read => read.course
  exact course.tokens fun _ _ _ _ => RuleCourse.tokens

variable (called : ∀ name n c ys c', Reads depth name c ys c' → Rule.needs name = some n →
    (Ahead.plain n).Knows c.rest → Tight ys → Balanced (Node.tokensOf ys))

include called

/-- A statement that no rule knows counts the parentheses behind its first token. -/
theorem otherStatement_balanced (reads : Reads (depth + 1) .otherStatement c ys c') (tight : Tight ys) :
    Balanced (Node.tokensOf ys) := by
  cases reads with
  | @node _ _ _ c' _ ys id body =>
    have below : Tight (closed id .otherStatement ys) := tight
    obtain ⟨c₁, xs₁, first, body⟩ := derives_seq.mp body
    obtain ⟨read, tokens, paired⟩ := derives_returns called body below.inside (by decide)
    obtain ⟨front, -⟩ := derives_take first
    have unseen : Balanced ((Node.tokensOf ys).take 1) := below.closed
    have counted : Balanced (Node.tokensOf ys) := by
      rw [front] at tokens
      rw [tokens] at unseen ⊢
      refine .append ?_ paired
      change Balanced (c.rest.take 1)
      cases rest : c.rest with
      | nil => exact balanced_iff.mpr rfl
      | cons token more =>
        rw [show (c.startNode .otherStatement).rest = token :: more from rest] at unseen
        exact unseen
    rwa [List.nil_append, tokensOf_closed]

/-- The length of a type is a group of its own. -/
theorem dataType_balanced (reads : Reads (depth + 1) .dataType c ys c') (tight : Tight ys) :
    Balanced (Node.tokensOf ys) := by
  cases reads with
  | fails _ failing => cases failing
  | holds named reads =>
    cases reads with
    | @node _ _ _ c' _ ys id body =>
      have below : Tight (closed id .dataType ys) := tight
      obtain ⟨c₁, xs₁, name, body⟩ := derives_seq.mp body
      obtain ⟨c₂, xs₂, parts, body⟩ := derives_seq.mp body
      obtain ⟨back, tokens, paired⟩ := derives_returns called body below.inside (by decide)
      obtain ⟨front, -⟩ := derives_take name
      obtain ⟨middle, tokens', stops⟩ := derives_dotted parts
      have next : back <+: c₂.rest := by
        have passed := derives_tokens body
        rw [tokens, List.append_assoc] at passed
        exact ⟨_, (List.append_cancel_left passed).symm⟩
      have unseen : Balanced ((Node.tokensOf ys).take 1 ++ dotted (Node.tokensOf ys).tail) := below.closed
      rw [tokens', front] at tokens
      rw [List.nil_append, tokensOf_closed]
      cases rest : c.rest with
      | nil =>
        have nothing : Grammar.atNamePart.holds c = false := by
          change (Option.any _ c.rest[0]? || Option.any _ c.rest[0]? || Option.any _ c.rest[0]?) = false
          rw [rest]
          rfl
        cases nothing.symm.trans named
      | cons token more =>
        rw [show (c.startNode .dataType).rest = token :: more from rest] at tokens
        have whole : Node.tokensOf ys = token :: (middle ++ back) := tokens
        rw [whole, List.tail_cons, stops back next] at unseen
        rw [whole, ← List.cons_append]
        exact .append unseen paired

/-- The options of `RAISERROR` stand behind the group of its arguments. -/
theorem raiseError_balanced (reads : Reads (depth + 1) .raiseError c ys c')
    (knows : (Ahead.plain 1).Knows c.rest) (tight : Tight ys) : Balanced (Node.tokensOf ys) := by
  cases reads with
  | @node _ _ _ c' _ ys id body =>
    have below : Tight (closed id .raiseError ys) := tight
    obtain ⟨c₁, xs₁, word, body⟩ := derives_seq.mp body
    obtain ⟨c₂, xs₂, left, body⟩ := derives_seq.mp body
    obtain ⟨c₃, xs₃, arguments, body⟩ := derives_seq.mp body
    obtain ⟨c₄, xs₄, right, options⟩ := derives_seq.mp body
    obtain ⟨inside, read, rfl⟩ := derives_rule.mp arguments
    have above : Tight (xs₂ ++ inside) := (below.inside.before options).before right
    have paired : Balanced (Node.tokensOf inside) :=
      called _ _ _ _ _ read rfl (Ahead.knows_plain_zero _) above.right
    obtain ⟨back, tokens, -⟩ := derives_track called options below.inside 0 (Ahead.knows_plain_zero _)
    obtain ⟨_, _, closing, -, isRight, -, rfl⟩ := right.expected
    obtain ⟨_, _, opening, -, isLeft, -, rfl⟩ := left.expected
    obtain ⟨front, -⟩ := derives_take word
    have plain : ∀ token ∈ c.rest.take 1, Paren.ofKind token.kind = .other := by
      cases rest : c.rest with
      | nil => simp
      | cons token more => simpa [Ahead.plain, Ahead.Knows, Paren.ofToken?, rest] using knows.1
    have whole : Node.tokensOf ys =
        c.rest.take 1 ++ opening :: (Node.tokensOf inside ++ closing :: back) := by
      have front : Node.tokensOf xs₁ = c.rest.take 1 := front
      rw [tokens]
      simp [Node.tokensOf_append, Node.tokensOf, Node.tokens, front]
    have unseen : Balanced (behindGroup 0 (Node.tokensOf ys)) := below.closed
    rw [List.nil_append, tokensOf_closed]
    rw [whole] at unseen ⊢
    rw [behindGroup_eq plain isLeft paired isRight] at unseen
    exact balanced_group plain isLeft paired isRight unseen

end Mixed

theorem reads_balanced {depth : Nat} {rule : Rule} {n : Nat} {c c' : Cursor} {ys : List (Node Kind)}
    (reads : Reads depth rule c ys c') (followed : rule.needs = some n)
    (knows : (Ahead.plain n).Knows c.rest) (tight : Tight ys) : Balanced (Node.tokensOf ys) := by
  induction depth generalizing rule n c c' ys with
  | zero => exact reads.elim
  | succ depth ih =>
    have called (name : Rule) (n : Nat) (c : Cursor) (ys : List (Node Kind)) (c' : Cursor)
        (reads : Reads depth name c ys c') (followed : name.needs = some n)
        (knows : (Ahead.plain n).Knows c.rest) (tight : Tight ys) : Balanced (Node.tokensOf ys) :=
      ih reads followed knows tight
    cases mixed : rule.isMixed with
    | false =>
      obtain ⟨read, whole, means⟩ := derives_track called reads tight 0 knows
      rw [balanced_iff, whole]
      exact means.returned (production_track rule n followed mixed)
    | true =>
      cases rule with
      | otherStatement => exact otherStatement_balanced called reads tight
      | dataType => exact dataType_balanced called reads tight
      | raiseError =>
        obtain rfl := Option.some.inj followed
        exact raiseError_balanced called reads knows tight
      | _ => cases mixed

theorem parse_of_toOption {source : String} {tree : Tree Kind}
    (parsed : (parse source).toOption = some tree) : parse source = .ok tree := by
  generalize parse source = result at parsed ⊢
  cases result with
  | error _ => cases parsed
  | ok _ => exact congrArg Except.ok (Option.some.inj parsed)

/-- The parentheses of a text that can be read are paired, as long as they are among the tokens that are
taken without a look at them. -/
theorem parse_balanced {source : String} {tree : Tree Kind} (parsed : parse source = .ok tree)
    (tight : ∀ node ∈ tree.descendants, Balanced (node.kind.unseen node.tokens)) :
    Balanced tree.tokens := by
  obtain ⟨-, -, covers⟩ := parse_tree parsed
  cases isRoot : tree.root with
  | none =>
    rw [isRoot] at covers
    exact balanced_iff.mpr (by rw [covers]; rfl)
  | some root =>
    rw [isRoot] at covers
    obtain ⟨depth, c, c', reads⟩ := parse_derives parsed isRoot
    have below : Tight [root] := by
      intro node member
      refine tight node ?_
      simpa [Tree.descendants, isRoot, Node.descendantsOf] using member
    have balanced := reads_balanced reads rfl (Ahead.knows_plain_zero _) below
    rw [← covers]
    simpa [Node.tokensOf] using balanced

theorem balanced_of_hinted_batch :
    ∃ tree, parse "DECLARE @a decimal(5) RAISERROR('x', (2)) WITH NOWAIT DBCC SHRINKFILE (a, (1))" = .ok tree ∧
      (tree.descendants.flatMap fun node => node.kind.unseen node.tokens).map Token.text =
        ["decimal", "WITH", "NOWAIT", "DBCC"] ∧
      Balanced tree.tokens := by
  have facts : (parse "DECLARE @a decimal(5) RAISERROR('x', (2)) WITH NOWAIT DBCC SHRINKFILE (a, (1))").toOption.map
      (fun tree => ((tree.descendants.flatMap fun node => node.kind.unseen node.tokens).map Token.text,
        decide (∀ node ∈ tree.descendants, Balanced (node.kind.unseen node.tokens)))) =
      some (["decimal", "WITH", "NOWAIT", "DBCC"], true) := by
    decide +kernel
  obtain ⟨tree, parsed, facts⟩ := Option.map_eq_some_iff.mp facts
  obtain ⟨unseen, tight⟩ := Prod.mk.inj facts
  have parsed := parse_of_toOption parsed
  exact ⟨tree, parsed, unseen, parse_balanced parsed (of_decide_eq_true tight)⟩

/-- A closing parenthesis where a statement is expected is read as one. -/
theorem lone_parenthesis_accepted : ∃ tree, parse ")" = .ok tree ∧ ¬ Balanced tree.tokens := by
  have facts : (parse ")").toOption.map (fun tree => decide (¬ Balanced tree.tokens)) = some true := by
    decide +kernel
  obtain ⟨tree, parsed, unpaired⟩ := Option.map_eq_some_iff.mp facts
  exact ⟨tree, parse_of_toOption parsed, of_decide_eq_true unpaired⟩

theorem exists_unpaired {kind : Kind} (source : String)
    (check : (parse source).toOption.any (fun tree => tree.descendants.any fun node =>
      node.kind == kind && decide (¬ Balanced (kind.unseen node.tokens) ∧ ¬ Balanced tree.tokens)) = true) :
    ∃ source tree, parse source = .ok tree ∧ ¬ Balanced tree.tokens ∧
      ∃ node ∈ tree.descendants, node.kind = kind ∧ ¬ Balanced (kind.unseen node.tokens) := by
  obtain ⟨tree, parsed, found⟩ := (Option.any_eq_true _ _).mp check
  obtain ⟨node, member, facts⟩ := List.any_eq_true.mp found
  obtain ⟨isKind, unpaired⟩ := Bool.and_eq_true_iff.mp facts
  obtain ⟨inNode, inTree⟩ := of_decide_eq_true unpaired
  exact ⟨source, tree, parse_of_toOption parsed, inTree, node, member, eq_of_beq isKind, inNode⟩

/-- In each of the kinds of nodes that take tokens without a look an unpaired parenthesis gets through. -/
theorem unseen_unpaired (kind : Kind) (tokens : List (Token Kind)) (takes : kind.unseen tokens ≠ []) :
    ∃ source tree, parse source = .ok tree ∧ ¬ Balanced tree.tokens ∧
      ∃ node ∈ tree.descendants, node.kind = kind ∧ ¬ Balanced (kind.unseen node.tokens) := by
  cases kind <;> try exact absurd rfl takes
  case otherStatement => exact exists_unpaired "(SELECT 1" (by decide +kernel)
  case dataType => exact exists_unpaired "DECLARE @a b.(" (by decide +kernel)
  case columnRef => exact exists_unpaired "UPDATE t SET a.) = 1" (by decide +kernel)
  case procedureOptions => exact exists_unpaired "CREATE PROC p WITH ( AS" (by decide +kernel)
  case setOption => exact exists_unpaired "SET (" (by decide +kernel)
  case raiseError => exact exists_unpaired "RAISERROR('a') WITH )" (by decide +kernel)

end SqlFerry.Tsql
