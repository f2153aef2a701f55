import SqlFerry.Proofs.Tsql.Course
import SqlFerry.Proofs.Tsql.Lookahead

/-! Readings that do not notice what comes behind them. A production reads some tokens, and behind these
the text goes on in another way than before. Whether the production goes the same way is decided by an
analysis: where a test may give another answer than before, the way that was gone must read more tokens
than there are up to the change, so that it cannot have been gone. To this end the analysis follows how
many tokens are known to be ahead, and how many a production reads at least. -/
namespace SqlFerry.Tsql

namespace Production

variable {ρ : Type}

/-- How many tokens are known to be left behind a production, from how many are in front of it. -/
def known : Production ρ → Nat → Nat
  | done, k => k
  | take, k => k - 1
  | fail _, _ => Look.never
  | seq p q, k => q.known (p.known k)
  | branch test p q, k =>
    min (p.known (max k (test.demand true))) (q.known (max k (test.demand false)))
  | loop _ _, _ | rule _, _ => 0
  | node _ p, k | group p, k | adopt _ p, k => p.known k

def idle (v : View) : Production ρ → Bool
  | done => true
  | seq p q => p.idle v && q.idle v
  | branch test p q => (!test.may v true || p.idle v) && (!test.may v false || q.idle v)
  | take | fail _ | loop _ _ | node _ _ | group _ | adopt _ _ | rule _ => false

end Production

/-- What is known about rules: how many tokens are ahead where they are called, and how many they read at
least. -/
structure Budget (ρ : Type) where
  needs : ρ → Nat
  least : View → ρ → Nat

/-- How many tokens a production reads at least, if the tokens ahead are as the view says and `k` of them are
known to be there. -/
def Production.least {ρ : Type} (b : Budget ρ) : Production ρ → View → Nat → Nat
  | done, _, _ | loop _ _, _, _ => 0
  | take, _, k => min 1 k
  | fail _, _, _ => Look.never
  | seq p q, v, k => p.least b v k + q.least b (if p.idle v then v else .blank) (p.known k)
  | branch test p q, v, k =>
    min (if test.may v true then p.least b v (max k (test.demand true)) else Look.never)
      (if test.may v false then q.least b v (max k (test.demand false)) else Look.never)
  | node _ p, v, k | group p, v, k | adopt _ p, v, k => p.least b v k
  | rule name, v, k => if b.needs name ≤ k then b.least v name else 0

section Least

variable {ρ : Type} {calls : ρ → Place → List (Node Kind) → Place → Prop} {p : Production ρ}
  {s s' d : Place} {xs ys : List (Node Kind)}

theorem Course.known_le (course : Course calls p s xs s' ys) {k : Nat}
    (enough : k ≤ s.rest.length) : p.known k ≤ s'.rest.length := by
  induction course generalizing k with
  | done => exact enough
  | take => exact Nat.sub_le_of_le_add enough
  | stay => exact Nat.le_trans (Nat.sub_le ..) enough
  | seq _ _ ihp ihq => exact ihq (ihp enough)
  | holds answer _ ih =>
    exact Nat.le_trans (Nat.min_le_left ..) (ih (Nat.max_le.mpr ⟨enough, Look.demand_le answer⟩))
  | fails answer _ ih =>
    exact Nat.le_trans (Nat.min_le_right ..) (ih (Nat.max_le.mpr ⟨enough, Look.demand_le answer⟩))
  | stop | round | rule => exact Nat.zero_le _
  | node _ _ ih | group _ ih | adopt _ _ ih => exact ih enough

theorem Course.idle_eq {v : View} (course : Course calls p s xs s' ys) (shows : v.Shows s d)
    (idle : p.idle v = true) : s' = s := by
  induction course with
  | done => rfl
  | seq _ _ ihp ihq =>
    obtain ⟨idleP, idleQ⟩ := Bool.and_eq_true_iff.mp idle
    obtain rfl := ihp shows idleP
    exact ihq shows idleQ
  | holds answer _ ih =>
    have may := Look.may_of_answer shows answer
    exact ih shows (by simpa [may] using (Bool.and_eq_true_iff.mp idle).1)
  | fails answer _ ih =>
    have may := Look.may_of_answer shows answer
    exact ih shows (by simpa [may] using (Bool.and_eq_true_iff.mp idle).2)
  | take | stay | stop | round | node | group | adopt | rule => cases idle

theorem Course.least_le {b : Budget ρ} {v : View} {k : Nat}
    (called : ∀ name v s ys s' d, calls name s ys s' → v.Shows s d → b.needs name ≤ s.rest.length →
      s'.rest.length + b.least v name ≤ s.rest.length)
    (forward : ∀ name s ys s', calls name s ys s' → s'.rest <:+ s.rest)
    (course : Course calls p s xs s' ys) (shows : v.Shows s d) (enough : k ≤ s.rest.length) :
    s'.rest.length + p.least b v k ≤ s.rest.length := by
  induction course generalizing v k d with
  | done | stop => exact Nat.le_refl _
  | take => exact Nat.add_le_add_left (Nat.min_le_left ..) _
  | stay => exact Nat.le_trans (Nat.add_le_add_left (Nat.min_le_right ..) _) (by simpa using enough)
  | @seq p q s s' s'' xs ys zs first second ihp ihq =>
    have before := ihp shows enough
    have after : s''.rest.length + q.least b (if p.idle v then v else .blank) (p.known k) ≤
        s'.rest.length := by
      split
      · next idle =>
        obtain rfl := first.idle_eq shows idle
        exact ihq shows (first.known_le enough)
      · exact ihq (View.shows_blank s') (first.known_le enough)
    rw [Production.least]
    omega
  | holds answer _ ih =>
    have read := ih shows (Nat.max_le.mpr ⟨enough, Look.demand_le answer⟩)
    rw [Production.least, if_pos (Look.may_of_answer shows answer)]
    omega
  | fails answer _ ih =>
    have read := ih shows (Nat.max_le.mpr ⟨enough, Look.demand_le answer⟩)
    rw [Production.least, if_pos (Look.may_of_answer shows answer)]
    omega
  | @round test p s s' s'' xs ys zs answer first second _ _ =>
    exact ((second.suffix forward).trans (first.suffix forward)).length_le
  | node _ _ ih | group _ ih | adopt _ _ ih => exact ih shows enough
  | @rule name s s' xs ys ran =>
    rw [Production.least]
    split
    · next needed => exact called _ _ _ _ _ _ ran shows (Nat.le_trans needed enough)
    · exact (forward _ _ _ _ ran).length_le

end Least

/-- A view of what comes when at most so many tokens are left up to the change. -/
structure Outlook where
  view : View
  within : Option Nat

namespace Outlook

/-- More tokens are read than are left up to the change. -/
def blocks (l : Outlook) (n : Nat) : Bool := l.within.any (· < n)

/-- Where the test may give another answer than before, the way gone before is blocked. It has read `m`
tokens at least if the test held, and `n` if it failed. -/
def allows (l : Outlook) (test : Look) (m n : Nat) : Bool :=
  List.all (test.answers l.view) fun
    | (true, false) => l.blocks m
    | (false, true) => l.blocks n
    | _ => true

variable {l : Outlook} {test : Look} {m n : Nat} {s d : Place}

theorem answer_eq (allows : l.allows test m n = true) (shows : l.view.Shows s d)
    (free : l.blocks (if test.answer s then m else n) = false) : test.answer d = test.answer s := by
  have member := List.all_eq_true.mp allows _ (Look.mem_answers shows test)
  cases before : test.answer s <;> cases now : test.answer d <;> simp_all

theorem blocks_eq_false {left : Nat} (within : ∀ most ∈ l.within, left ≤ most) (read : n ≤ left) :
    l.blocks n = false := by
  cases bound : l.within with
  | none => simp [blocks, bound]
  | some most =>
    have := within most bound
    simp [blocks, bound]
    omega

end Outlook

/-- How a text may go on in another way. -/
structure Setting (ρ : Type) where
  outlooks : List Outlook
  /-- The rules that may be called, and how many tokens have to be left when they are done. -/
  scope : ρ → Option Nat
  /-- The text has ended where it goes on now. -/
  ended : Bool

/-- One of the outlooks shows what comes, where `front` is left up to the change and the text goes on with `r`
before and with `r'` now. -/
def Seen (ls : List Outlook) (front r r' : List (Token Kind)) (line : Nat) : Prop :=
  ∃ l ∈ ls, l.view.Shows ⟨front ++ r, line⟩ ⟨front ++ r', line⟩ ∧ ∀ most ∈ l.within, front.length ≤ most

/-- The text may go on with `r'` in the place of `r`. -/
structure Setting.Fits {ρ : Type} (w : Setting ρ) (r r' : List (Token Kind)) : Prop where
  outlook : ∀ front line, Seen w.outlooks front r r' line
  ended : w.ended = false → r = [] → r' = []

section Seen

variable {ls : List Outlook} {front r r' : List (Token Kind)} {test : Look} {s : Place}

/-- A test answers as before, unless the way gone before is blocked. -/
theorem Seen.answer_eq (seen : Seen ls front r r' s.line) {m n : Outlook → Nat}
    (allows : (ls.all fun l => l.allows test (m l) (n l)) = true) (start : s.rest = front ++ r)
    (read : ∀ l d, l.view.Shows s d → (if test.answer s then m l else n l) ≤ front.length) :
    test.answer ⟨front ++ r', s.line⟩ = test.answer s := by
  obtain ⟨l, member, shows, within⟩ := seen
  rw [← start] at shows
  exact Outlook.answer_eq (List.all_eq_true.mp allows l member) shows
    (Outlook.blocks_eq_false within (read l _ shows))

theorem Seen.filter (seen : Seen ls front r r' s.line) (start : s.rest = front ++ r) {b : Bool}
    (answer : test.answer s = b) : Seen (ls.filter (test.may ·.view b)) front r r' s.line := by
  obtain ⟨l, member, shows, within⟩ := seen
  refine ⟨l, List.mem_filter.mpr ⟨member, ?_⟩, shows, within⟩
  rw [← start] at shows
  exact Look.may_of_answer shows answer

end Seen

/-- The production goes the same way as before, where `k` tokens are known to be ahead, one of the outlooks
`ls` shows them, and at least `o` are left up to the change when it is done. -/
def Production.steady {ρ : Type} (b : Budget ρ) (w : Setting ρ) :
    Production ρ → List Outlook → Nat → Nat → Bool
  | done, _, _, _ | fail _, _, _, _ => true
  | take, _, k, o => !w.ended || 0 < k || 0 < o
  | seq p q, ls, k, o =>
    p.steady b w ls k (o + q.least b .blank (p.known k)) && q.steady b w w.outlooks (p.known k) o
  | branch test p q, ls, k, o =>
    (ls.all fun l => l.allows test (o + p.least b l.view (max k (test.demand true)))
      (o + q.least b l.view (max k (test.demand false)))) &&
    p.steady b w (ls.filter (test.may ·.view true)) (max k (test.demand true)) o &&
    q.steady b w (ls.filter (test.may ·.view false)) (max k (test.demand false)) o
  | loop test p, _, _, o =>
    (w.outlooks.all fun l => l.allows test (o + p.least b l.view (test.demand true)) o) &&
    p.steady b w (w.outlooks.filter (test.may ·.view true)) (test.demand true) o
  | node _ p, ls, k, o | group p, ls, k, o | adopt _ p, ls, k, o => p.steady b w ls k o
  | rule name, _, k, o => b.needs name ≤ k && (w.scope name).any (· ≤ o)

section Transfer

variable {ρ : Type} {calls calls' : ρ → Place → List (Node Kind) → Place → Prop} {b : Budget ρ}
  {w : Setting ρ} {sound : Node Kind → Prop} {r r' : List (Token Kind)}

theorem exists_front {tokens front : List (Token Kind)} (suffix : front ++ r <:+ tokens) :
    ∃ more, tokens = more ++ r ∧ front.length ≤ more.length := by
  obtain ⟨gone, rfl⟩ := suffix
  exact ⟨gone ++ front, by rw [List.append_assoc], by simp⟩

/-- A steady production reads the same when the text behind goes on in another way. -/
theorem Course.transfer
    (called : ∀ name o s ys s' front front', w.scope name = some o → calls name s ys s' →
      b.needs name ≤ s.rest.length → (∀ node ∈ Node.descendantsOf ys, sound node) →
      s.rest = front ++ r → s'.rest = front' ++ r → o ≤ front'.length →
      calls' name ⟨front ++ r', s.line⟩ ys ⟨front' ++ r', s'.line⟩)
    (leastCalled : ∀ name v s ys s' d, calls name s ys s' → v.Shows s d →
      b.needs name ≤ s.rest.length → s'.rest.length + b.least v name ≤ s.rest.length)
    (forward : ∀ name s ys s', calls name s ys s' → s'.rest <:+ s.rest)
    (fits : w.Fits r r') {p : Production ρ} {s s' : Place} {xs ys : List (Node Kind)}
    (course : Course calls p s xs s' ys) {ls : List Outlook} {k o : Nat}
    (steady : p.steady b w ls k o = true) (enough : k ≤ s.rest.length)
    (isSound : ∀ node ∈ Node.descendantsOf ys, sound node) {front front' : List (Token Kind)}
    (start : s.rest = front ++ r) (stop : s'.rest = front' ++ r) (left : o ≤ front'.length)
    (seen : Seen ls front r r' s.line) :
    Course calls' p ⟨front ++ r', s.line⟩ xs ⟨front' ++ r', s'.line⟩ ys := by
  induction course generalizing ls k o front front' with
  | done =>
    obtain rfl : front = front' := List.append_cancel_right (start.symm.trans stop)
    exact .done
  | @take token rest line xs id index =>
    cases front with
    | nil =>
      have lengths := congrArg List.length (start.symm.trans (congrArg (token :: ·) stop))
      simp at lengths
      omega
    | cons first front =>
      obtain ⟨rfl, tail⟩ := List.cons.inj start
      obtain rfl : front = front' := List.append_cancel_right (tail.symm.trans stop)
      exact .take id index
  | stay =>
    obtain ⟨rfl, rfl⟩ := List.append_eq_nil_iff.mp start.symm
    obtain ⟨rfl, -⟩ := List.append_eq_nil_iff.mp stop.symm
    have goesOn : w.ended = false := by
      simp only [Production.steady, Bool.or_eq_true, Bool.not_eq_true', decide_eq_true_eq] at steady
      simp only [List.length_nil] at enough left
      rcases steady with (goesOn | known) | owed
      · exact goesOn
      · omega
      · omega
    rw [fits.ended goesOn rfl]
    exact .stay
  | @seq p q s s' s'' xs ys zs first second ihp ihq =>
    obtain ⟨steadyP, steadyQ⟩ := Bool.and_eq_true_iff.mp steady
    obtain ⟨middle, isMiddle, -⟩ := exists_front (stop ▸ second.suffix forward)
    have known := first.known_le enough
    have read := second.least_le leastCalled forward (View.shows_blank s') known
    rw [isMiddle, stop, List.length_append, List.length_append] at read
    exact .seq (ihp steadyP enough (fun node member => isSound node (second.descendants member))
        start isMiddle (by omega) seen)
      (ihq steadyQ known isSound isMiddle stop left (fits.outlook ..))
  | @holds test p q s s' xs ys answer inner ih =>
    simp only [Production.steady, Bool.and_eq_true] at steady
    obtain ⟨⟨allows, steadyP⟩, -⟩ := steady
    have more := Nat.max_le.mpr ⟨enough, Look.demand_le answer⟩
    have same : test.answer ⟨front ++ r', s.line⟩ = test.answer s := by
      refine seen.answer_eq allows start fun l d shows => ?_
      have read := inner.least_le leastCalled forward shows more
      rw [start, stop, List.length_append, List.length_append] at read
      rw [if_pos answer]
      omega
    exact .holds (same.trans answer) (ih steadyP more isSound start stop left (seen.filter start answer))
  | @fails test p q s s' xs ys answer inner ih =>
    simp only [Production.steady, Bool.and_eq_true] at steady
    obtain ⟨⟨allows, -⟩, steadyQ⟩ := steady
    have more := Nat.max_le.mpr ⟨enough, Look.demand_le answer⟩
    have same : test.answer ⟨front ++ r', s.line⟩ = test.answer s := by
      refine seen.answer_eq allows start fun l d shows => ?_
      have read := inner.least_le leastCalled forward shows more
      rw [start, stop, List.length_append, List.length_append] at read
      rw [if_neg (by simp [answer])]
      omega
    exact .fails (same.trans answer) (ih steadyQ more isSound start stop left (seen.filter start answer))
  | @stop test p s xs answer =>
    obtain rfl : front = front' := List.append_cancel_right (start.symm.trans stop)
    have same : test.answer ⟨front ++ r', s.line⟩ = test.answer s := by
      refine (fits.outlook front s.line).answer_eq (Bool.and_eq_true_iff.mp steady).1 start fun l d shows => ?_
      rw [if_neg (by simp [answer])]
      exact left
    exact .stop (same.trans answer)
  | @round test p s s' s'' xs ys zs answer first second ihp ihq =>
    obtain ⟨allows, steadyP⟩ := Bool.and_eq_true_iff.mp steady
    obtain ⟨middle, isMiddle, longer⟩ := exists_front (stop ▸ second.suffix forward)
    have demanded := Look.demand_le answer
    have same : test.answer ⟨front ++ r', s.line⟩ = test.answer s := by
      refine (fits.outlook front s.line).answer_eq allows start fun l d shows => ?_
      have read := first.least_le leastCalled forward shows demanded
      rw [start, isMiddle, List.length_append, List.length_append] at read
      rw [if_pos answer]
      omega
    have here := ihp steadyP demanded (fun node member => isSound node (second.descendants member))
      start isMiddle (Nat.le_trans left longer) ((fits.outlook front s.line).filter start answer)
    have later := @ihq w.outlooks 0 o steady (Nat.zero_le _) isSound middle front' isMiddle stop left
      (fits.outlook ..)
    exact .round (same.trans answer) here later
  | @node kind p s s' xs ys id inner ih =>
    refine .node id (ih steady enough (fun node member => isSound node ?_) start stop left seen)
    rw [Node.descendantsOf_append]
    exact List.mem_append_right _ (descendantsOf_closed id kind ys member)
  | group inner ih =>
    refine .group (ih steady enough (fun node member => isSound node ?_) start stop left seen)
    rw [Node.descendantsOf_append]
    exact List.mem_append_right _ member
  | @adopt kind p s s' xs ys id inner ih =>
    exact .adopt id (ih steady enough
      (fun node member => isSound node (descendantsOf_closed id kind ys member)) start stop left seen)
  | @rule name s s' xs ys ran =>
    obtain ⟨needed, inScope⟩ := Bool.and_eq_true_iff.mp steady
    obtain ⟨owed, isOwed, less⟩ : ∃ owed, w.scope name = some owed ∧ owed ≤ o := by
      cases isScope : w.scope name with
      | none => simp [isScope] at inScope
      | some owed => exact ⟨owed, rfl, by simpa [isScope] using inScope⟩
    refine .rule (called name owed s ys s' front front' isOwed ran
      (Nat.le_trans (of_decide_eq_true needed) enough) (fun node member => isSound node ?_) start stop
      (Nat.le_trans less left))
    rw [Node.descendantsOf_append]
    exact List.mem_append_right _ member

end Transfer

end SqlFerry.Tsql
