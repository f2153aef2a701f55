import SqlFerry.Proofs.Text.Ascii
import SqlFerry.Proofs.Tsql.Production

/-! Looking ahead in two texts. A view is what is known about the next tokens of two texts that differ:
that both have the same token, that the second one has a token of some kind, or nothing. From a view follows which
answers a test may give in the first text and in the second one, and where the two answers can differ. -/
namespace SqlFerry.Tsql

/-- What is known about the tokens that stand at the same distance in two texts. -/
inductive Glimpse where
  /-- They are the same, or both texts have ended. -/
  | same
  /-- They are the same keyword, one of these. -/
  | opener (words : List String)
  /-- They are the same keyword, none of these. -/
  | other (words : List String)
  /-- They are the same, and no keyword. -/
  | named
  /-- The second text has a token of one of these kinds here. -/
  | met (kinds : List Kind)
  | free

def Glimpse.Allows : Glimpse → Option (Token Kind) → Option (Token Kind) → Prop
  | same, t, t' => t = t'
  | opener words, t, t' => t = t' ∧ ∃ token, t = some token ∧ token.kind = .keyword ∧
      ∃ word ∈ words, token.isWord word = true
  | other words, t, t' => t = t' ∧ ∃ token, t = some token ∧ token.kind = .keyword ∧
      ∀ word ∈ words, token.isWord word = false
  | named, t, t' => t = t' ∧ ∀ token, t = some token → token.kind ≠ .keyword
  | met kinds, _, t' => ∃ token, t' = some token ∧ token.kind ∈ kinds
  | free, _, _ => True

/-- Pairs of answers that a test may give in the first text and in the second one. -/
abbrev Answers := List (Bool × Bool)

namespace Answers

def all : Answers := [(true, true), (true, false), (false, true), (false, false)]

def agreed : Answers := [(true, true), (false, false)]

def refused : Answers := [(true, false), (false, false)]

def never : Answers := [(false, false)]

def always : Answers := [(true, true)]

theorem mem_all (a b : Bool) : (a, b) ∈ all := by revert a b; decide

theorem mem_agreed (a : Bool) : (a, a) ∈ agreed := by revert a; decide

theorem mem_refused (a : Bool) : (a, false) ∈ refused := by revert a; decide

/-- The answers of a test that is put together from two tests. The list does not grow, so that the analysis
stays small. -/
def lift (f : Bool → Bool → Bool) (xs ys : Answers) : Answers :=
  all.filter fun pair => xs.any fun x => ys.any fun y => (f x.1 y.1, f x.2 y.2) == pair

theorem mem_lift {f : Bool → Bool → Bool} {xs ys : Answers} {a b a' b' : Bool}
    (first : (a, a') ∈ xs) (second : (b, b') ∈ ys) : (f a b, f a' b') ∈ lift f xs ys := by
  refine List.mem_filter.mpr ⟨mem_all _ _, ?_⟩
  exact List.any_eq_true.mpr ⟨_, first, List.any_eq_true.mpr ⟨_, second, beq_self_eq_true _⟩⟩

end Answers

namespace Glimpse

open Answers

def kind (k : Kind) : Glimpse → Answers
  | same => agreed
  | opener _ | other _ => if k = .keyword then always else never
  | named => if k = .keyword then never else agreed
  | met kinds =>
    if kinds.all (· == k) then [(true, true), (false, true)] else if k ∈ kinds then all else refused
  | free => all

def word (w : String) : Glimpse → Answers
  | same | named => agreed
  | opener words => if words.any (Text.sameWord w) then agreed else never
  | other words => if words.any (Text.sameWord w) then never else agreed
  | met kinds => if kinds.any Kind.isWord then all else refused
  | free => all

def sameLine : Glimpse → Answers
  | same | opener _ | other _ | named => agreed
  | met _ | free => all

def atEnd : Glimpse → Answers
  | same | named => agreed
  | opener _ | other _ => never
  | met _ => refused
  | free => all

variable {g : Glimpse} {t t' : Option (Token Kind)}

theorem mem_keyword {token : Token Kind} (isKeyword : token.kind = .keyword) (k : Kind) :
    ((some token).any (·.kind == k), (some token).any (·.kind == k)) ∈
      if k = .keyword then always else never := by
  rw [Option.any_some, isKeyword]
  split
  · next same => simp [same, always]
  · next other => simp [Ne.symm other, never]

theorem mem_kind (allows : g.Allows t t') (k : Kind) :
    (t.any (·.kind == k), t'.any (·.kind == k)) ∈ g.kind k := by
  cases g with
  | same =>
    obtain rfl : t = t' := allows
    exact mem_agreed _
  | opener words | other words =>
    obtain ⟨rfl, token, rfl, isKeyword, -⟩ := allows
    exact mem_keyword isKeyword k
  | named =>
    obtain ⟨rfl, notKeyword⟩ := allows
    rw [kind]
    split
    · next same =>
      have fails : t.any (·.kind == k) = false := by
        cases t with
        | none => rfl
        | some token => simpa [same] using notKeyword token rfl
      rw [fails]
      exact List.mem_singleton.mpr rfl
    · exact mem_agreed _
  | met kinds =>
    obtain ⟨token, rfl, isMet⟩ := allows
    rw [kind]
    split
    · next only =>
      have holds : (some token).any (·.kind == k) = true := List.all_eq_true.mp only _ isMet
      rw [holds]
      cases t.any (·.kind == k) <;> decide
    split
    · exact mem_all _ _
    · next other =>
      have fails : (some token).any (·.kind == k) = false :=
        beq_eq_false_iff_ne.mpr fun same => other (same ▸ isMet)
      rw [fails]
      exact mem_refused _
  | free => exact mem_all _ _

theorem mem_word (allows : g.Allows t t') (w : String) :
    (t.any fun t => t.kind.isWord && t.isWord w, t'.any fun t => t.kind.isWord && t.isWord w) ∈
      g.word w := by
  cases g with
  | same =>
    obtain rfl : t = t' := allows
    exact mem_agreed _
  | opener words =>
    obtain ⟨rfl, token, rfl, -, word, member, reads⟩ := allows
    rw [Glimpse.word]
    split
    · exact mem_agreed _
    · next none =>
      have fails : token.isWord w = false := by
        refine Bool.eq_false_iff.mpr fun alsoReads => none (List.any_eq_true.mpr ⟨word, member, ?_⟩)
        exact Text.sameWord_of_both alsoReads reads
      simp [fails, never]
  | other words =>
    obtain ⟨rfl, token, rfl, -, none⟩ := allows
    rw [Glimpse.word]
    split
    · next some =>
      obtain ⟨word, member, same⟩ := List.any_eq_true.mp some
      have fails : token.isWord w = false := (Text.sameWord_congr_right same token.text).trans (none word member)
      simp [fails, never]
    · exact mem_agreed _
  | named =>
    obtain ⟨rfl, -⟩ := allows
    exact mem_agreed _
  | met kinds =>
    obtain ⟨token, rfl, isMet⟩ := allows
    rw [word]
    split
    · exact mem_all _ _
    · next none =>
      have noWord : token.kind.isWord = false :=
        Bool.eq_false_iff.mpr fun isWord => none (List.any_eq_true.mpr ⟨_, isMet, isWord⟩)
      rw [Option.any_some, noWord, Bool.false_and]
      exact mem_refused _
  | free => exact mem_all _ _

theorem mem_sameLine (allows : g.Allows t t') (line : Nat) :
    (t.any (·.line == line), t'.any (·.line == line)) ∈ g.sameLine := by
  cases g with
  | same =>
    obtain rfl : t = t' := allows
    exact mem_agreed _
  | opener words | other words | named =>
    obtain ⟨rfl, -⟩ := allows
    exact mem_agreed _
  | met _ | free => exact mem_all _ _

theorem mem_atEnd (allows : g.Allows t t') : (t.isNone, t'.isNone) ∈ g.atEnd := by
  cases g with
  | same =>
    obtain rfl : t = t' := allows
    exact mem_agreed _
  | opener words | other words =>
    obtain ⟨rfl, token, rfl, -⟩ := allows
    exact List.mem_singleton.mpr rfl
  | named =>
    obtain ⟨rfl, -⟩ := allows
    exact mem_agreed _
  | met kinds =>
    obtain ⟨token, rfl, -⟩ := allows
    exact mem_refused _
  | free => exact mem_all _ _

end Glimpse

/-- What is known about the next tokens of two texts. -/
structure View where
  near : List Glimpse
  far : Glimpse

namespace View

def glimpse (v : View) (n : Nat) : Glimpse := v.near.getD n v.far

structure Shows (v : View) (s s' : Place) : Prop where
  tokens : ∀ n, (v.glimpse n).Allows s.rest[n]? s'.rest[n]?
  line : s.line = s'.line

def blank : View := ⟨[], .free⟩

theorem shows_blank (s : Place) : blank.Shows s s := ⟨fun _ => trivial, rfl⟩

section Shows

variable {g far : Glimpse} {gs : List Glimpse} {r r' : List (Token Kind)} {line : Nat}

theorem shows_cons {token token' : Token Kind} (allows : g.Allows (some token) (some token'))
    (shows : Shows ⟨gs, far⟩ ⟨r, line⟩ ⟨r', line⟩) :
    Shows ⟨g :: gs, far⟩ ⟨token :: r, line⟩ ⟨token' :: r', line⟩ := by
  refine ⟨fun n => ?_, rfl⟩
  cases n with
  | zero => exact allows
  | succ n => exact shows.tokens n

theorem shows_append (front : List (Token Kind)) (shows : Shows ⟨gs, far⟩ ⟨r, line⟩ ⟨r', line⟩) :
    Shows ⟨List.replicate front.length .same ++ gs, far⟩ ⟨front ++ r, line⟩ ⟨front ++ r', line⟩ := by
  induction front with
  | nil => exact shows
  | cons token front ih => exact shows_cons rfl ih

theorem shows_met {kinds : List Kind} {token : Token Kind} (isMet : token.kind ∈ kinds) :
    Shows ⟨[.met kinds], .free⟩ ⟨r, line⟩ ⟨token :: r', line⟩ := by
  refine ⟨fun n => ?_, rfl⟩
  cases n with
  | zero => exact ⟨token, rfl, isMet⟩
  | succ n => exact trivial

end Shows

end View

namespace Look

def answers (v : View) : Look → Answers
  | kind n k => (v.glimpse n).kind k
  | word n w => (v.glimpse n).word w
  | sameLine => (v.glimpse 0).sameLine
  | atEnd => (v.glimpse 0).atEnd
  | not l => (l.answers v).map fun pair => (!pair.1, !pair.2)
  | and l r => Answers.lift (· && ·) (l.answers v) (r.answers v)
  | or l r => Answers.lift (· || ·) (l.answers v) (r.answers v)

theorem mem_answers {v : View} {s s' : Place} (shows : v.Shows s s') (l : Look) :
    (l.answer s, l.answer s') ∈ l.answers v := by
  induction l with
  | kind n k => exact Glimpse.mem_kind (shows.tokens n) k
  | word n w => exact Glimpse.mem_word (shows.tokens n) w
  | sameLine =>
    rw [answer, answer, ← shows.line, List.head?_eq_getElem?, List.head?_eq_getElem?]
    exact Glimpse.mem_sameLine (shows.tokens 0) s.line
  | atEnd =>
    have ends (s : Place) : s.rest.isEmpty = s.rest[0]?.isNone := by cases s.rest <;> rfl
    rw [answer, answer, ends, ends]
    exact Glimpse.mem_atEnd (shows.tokens 0)
  | not l ih => exact List.mem_map.mpr ⟨_, ih, rfl⟩
  | and l r ihl ihr => exact Answers.mem_lift ihl ihr
  | or l r ihl ihr => exact Answers.mem_lift ihl ihr

def may (v : View) (l : Look) (b : Bool) : Bool := (l.answers v).any (·.1 == b)

theorem may_of_answer {v : View} {s s' : Place} (shows : v.Shows s s') {l : Look} {b : Bool}
    (answer : l.answer s = b) : l.may v b = true :=
  List.any_eq_true.mpr ⟨_, mem_answers shows l, by simp [answer]⟩

def keeps (v : View) (l : Look) : Bool := List.all (l.answers v) fun pair => pair.1 == pair.2

theorem answer_eq_of_keeps {v : View} {s s' : Place} (shows : v.Shows s s') {l : Look}
    (keeps : l.keeps v = true) : l.answer s = l.answer s' :=
  beq_iff_eq.mp (List.all_eq_true.mp keeps _ (mem_answers shows l))

end Look

end SqlFerry.Tsql
