import SqlFerry.Proofs.Tsql.Follow

/-! Rules that read as before. The rules without statements inside do not notice that statements which come
later are changed behind their first words, and those that read parts of a statement do not notice a
semicolon or a closing parenthesis behind them. -/
namespace SqlFerry.Tsql

/-- The token is the first word of a statement that may be changed behind it. -/
def Begins (token : Token Kind) : Prop :=
  token.kind = .keyword ∧ ∃ word ∈ heads, token.isWord word = true

theorem Begins.not_guard {token : Token Kind} (begins : Begins token) :
    ∀ word ∈ guards, token.isWord word = false := by
  obtain ⟨-, head, isHead, reads⟩ := begins
  have others : ∀ head ∈ heads, ∀ word ∈ guards, Text.sameWord word head = false := by decide
  refine fun word isGuard => Bool.eq_false_iff.mpr fun alsoReads => ?_
  have same := Text.sameWord_of_both alsoReads reads
  rw [others head isHead word isGuard] at same
  cases same

/-- Behind the first word of a statement comes the same token as before, or one that no word is. -/
def Follows (rest rest' : List (Token Kind)) : Prop :=
  rest.head? = rest'.head? ∨ ∃ token ∈ rest'.head?, token.kind ∈ [Kind.semicolon, .leftParen]

/-- The two lists are the same up to the first word of a statement. -/
def Diverges (r r' : List (Token Kind)) : Prop :=
  r = r' ∨ ∃ before first rest rest', Begins first ∧ Follows rest rest' ∧ r = before ++ first :: rest ∧
    r' = before ++ first :: rest'

theorem Diverges.append {r r' : List (Token Kind)} (diverges : Diverges r r') (front : List (Token Kind)) :
    Diverges (front ++ r) (front ++ r') := by
  rcases diverges with rfl | ⟨before, first, rest, rest', begins, follows, rfl, rfl⟩
  · exact .inl rfl
  · exact .inr ⟨front ++ before, first, rest, rest', begins, follows, by simp, by simp⟩

namespace Outlook

variable {r r' : List (Token Kind)} {line : Nat}

theorem shows_far {front : List (Token Kind)} (long : 4 ≤ front.length) :
    far.view.Shows ⟨front ++ r, line⟩ ⟨front ++ r', line⟩ := by
  have four : (front.take 4).length = 4 := by rw [List.length_take, Nat.min_eq_left long]
  have shows := View.shows_append (front.take 4)
    (⟨fun _ => trivial, rfl⟩ : View.Shows ⟨[], .free⟩ ⟨front.drop 4 ++ r, line⟩ ⟨front.drop 4 ++ r', line⟩)
  rw [four, ← List.append_assoc, ← List.append_assoc, List.take_append_drop] at shows
  exact shows

theorem shows_far_self (s : Place) : far.view.Shows s s :=
  ⟨fun | 0 | 1 | 2 | 3 => rfl | _ + 4 => trivial, rfl⟩

theorem shows_opening (before : List (Token Kind)) {first : Token Kind} (begins : Begins first) :
    (opening before.length).view.Shows ⟨before ++ first :: r, line⟩ ⟨before ++ first :: r', line⟩ := by
  refine View.shows_append before (View.shows_cons ?_ ⟨fun _ => trivial, rfl⟩)
  exact ⟨rfl, first, rfl, begins.1, begins.not_guard⟩

theorem shows_cut (front : List (Token Kind)) {kinds : List Kind} {closer : Token Kind}
    (closes : closer.kind ∈ kinds) :
    View.Shows ⟨List.replicate front.length .same ++ [.met kinds], .free⟩ ⟨front ++ r, line⟩
      ⟨front ++ closer :: r', line⟩ :=
  View.shows_append front (View.shows_met closes)

theorem shows_headed {g : Glimpse} {token : Token Kind} (allows : g.Allows (some token) (some token))
    (more : List (Token Kind)) {kinds : List Kind} {closer : Token Kind} (closes : closer.kind ∈ kinds) :
    (headed kinds g more.length).view.Shows ⟨token :: more ++ r, line⟩
      ⟨token :: more ++ closer :: r', line⟩ :=
  View.shows_cons allows (shows_cut more closes)

end Outlook

theorem Diverges.fits {r r' : List (Token Kind)} (diverges : Diverges r r') : Setting.later.Fits r r' := by
  constructor
  · intro front line
    rcases diverges with rfl | ⟨before, first, rest, rest', begins, -, rfl, rfl⟩
    · exact ⟨.far, by simp [Setting.later], Outlook.shows_far_self _, by simp [Outlook.far]⟩
    rw [Seen, ← List.append_assoc, ← List.append_assoc]
    by_cases long : 4 ≤ (front ++ before).length
    · exact ⟨.far, by simp [Setting.later], Outlook.shows_far long, by simp [Outlook.far]⟩
    · refine ⟨.opening (front ++ before).length, ?_, Outlook.shows_opening _ begins, by simp [Outlook.opening]⟩
      refine List.mem_cons_of_mem _ (List.mem_map_of_mem ?_)
      simp only [List.mem_cons, List.not_mem_nil, or_false]
      omega
  · rintro - rfl
    rcases diverges with rfl | ⟨before, first, rest, rest', -, -, none, -⟩
    · rfl
    · simp at none

theorem Setting.fits_closing {kinds : List Kind} (words : List String) (r r' : List (Token Kind))
    {closer : Token Kind} (closes : closer.kind ∈ kinds) :
    (Setting.closing kinds words).Fits r (closer :: r') := by
  refine ⟨fun front line => ?_, nofun⟩
  cases front with
  | nil =>
    exact ⟨.closing kinds, by simp [Setting.closing], Outlook.shows_cut [] closes, by simp [Outlook.closing]⟩
  | cons token more =>
    by_cases long : 4 ≤ (token :: more).length
    · exact ⟨.far, by simp [Setting.closing], Outlook.shows_far long, by simp [Outlook.far]⟩
    obtain ⟨g, allows, known⟩ : ∃ g : Glimpse, g.Allows (some token) (some token) ∧
        g ∈ [.opener words, .other words, .named] := by
      by_cases isKeyword : token.kind = .keyword
      · by_cases word : ∃ word ∈ words, token.isWord word = true
        · exact ⟨.opener words, ⟨rfl, token, rfl, isKeyword, word⟩, by simp⟩
        · exact ⟨.other words, ⟨rfl, token, rfl, isKeyword, by simpa using word⟩, by simp⟩
      · exact ⟨.named, ⟨rfl, by simpa using isKeyword⟩, by simp⟩
    refine ⟨.headed kinds g more.length, ?_, Outlook.shows_headed allows more closes,
      by simp [Outlook.headed]⟩
    have short : more.length ∈ [0, 1, 2] := by
      simp only [List.length_cons] at long
      simp only [List.mem_cons, List.not_mem_nil, or_false]
      omega
    refine List.mem_append_right _ (List.mem_flatMap.mpr ⟨_, short, ?_⟩)
    simp only [List.mem_cons, List.not_mem_nil, or_false] at known
    rcases known with rfl | rfl | rfl <;> simp

/-- A rule reads as before when the text goes on with `r'` in the place of `r`. -/
def Transfers (sound : Node Kind → Prop) (r r' : List (Token Kind)) (depth : Nat) (rule : Rule)
    (o : Nat) : Prop :=
  ∀ s ys s' front front', RuleCourse depth rule s ys s' → rule.awaits ≤ s.rest.length →
    (∀ node ∈ Node.descendantsOf ys, sound node) → s.rest = front ++ r → s'.rest = front' ++ r →
    o ≤ front'.length →
    RuleCourse depth rule ⟨front ++ r', s.line⟩ ys ⟨front' ++ r', s'.line⟩

section Transfers

variable {w : Setting Rule} {sound : Node Kind → Prop} {r r' : List (Token Kind)} {depth : Nat}

theorem Course.transfer_rules (fits : w.Fits r r')
    (called : ∀ name o, w.scope name = some o → Transfers sound r r' depth name o)
    {p : Production Rule} {s s' : Place} {xs ys : List (Node Kind)}
    (course : Course (RuleCourse depth) p s xs s' ys) {k o : Nat}
    (steady : p.steady Rule.budget w w.outlooks k o = true) (enough : k ≤ s.rest.length)
    (isSound : ∀ node ∈ Node.descendantsOf ys, sound node) {front front' : List (Token Kind)}
    (start : s.rest = front ++ r) (stop : s'.rest = front' ++ r) (left : o ≤ front'.length) :
    Course (RuleCourse depth) p ⟨front ++ r', s.line⟩ xs ⟨front' ++ r', s'.line⟩ ys :=
  Course.transfer (fun name o s ys s' front front' inScope => called name o inScope s ys s' front front')
    (fun _ _ _ _ _ _ => RuleCourse.least_le) (fun _ _ _ _ => RuleCourse.suffix) fits course steady
    enough isSound start stop left (fits.outlook ..)

theorem Transfers.succ (fits : w.Fits r r')
    (called : ∀ name o, w.scope name = some o → Transfers sound r r' depth name o) {rule : Rule}
    {o : Nat}
    (steady : (Grammar.production rule).steady Rule.budget w w.outlooks rule.awaits o = true) :
    Transfers sound r r' (depth + 1) rule o :=
  fun _ _ _ _ _ course enough isSound start stop left =>
    Course.transfer_rules fits called course steady enough isSound start stop left

end Transfers

theorem transfers_later {sound : Node Kind → Prop} {r r' : List (Token Kind)}
    (diverges : Diverges r r') (depth : Nat) {rule : Rule} (plain : rule.isCompound = false) :
    Transfers sound r r' depth rule 0 := by
  induction depth generalizing rule with
  | zero => exact fun _ _ _ _ _ course => course.elim
  | succ depth ih =>
    refine Transfers.succ diverges.fits (fun name o inScope => ?_) (production_steady_later rule plain)
    cases compound : name.isCompound with
    | true => simp [Setting.later, compound] at inScope
    | false =>
      obtain rfl : 0 = o := by simpa [Setting.later, compound] using inScope
      exact ih compound

/-! Rules that read as before for a reason of their own. -/

/-- What should come behind the last child of a node is missing, as only happens at the end of a text: a part
of a type behind a dot, or an option of a `RAISERROR` behind `WITH` or a comma. -/
def dangles : Kind → Node Kind → Bool
  | .dataType, last => last.kind == .dot
  | .raiseError, last => last.kind == .comma || last.isWord "WITH"
  | _, _ => false

def isDangling (node : Node Kind) : Bool := node.children.getLast?.any (dangles node.kind)

theorem dangles_closed {id : Nat} {kind : Kind} {ys : List (Node Kind)}
    (complete : ∀ node ∈ Node.descendantsOf (closed id kind ys), isDangling node = false) :
    ys.getLast?.any (dangles kind) = false := by
  cases ys with
  | nil => rfl
  | cons first rest => exact complete _ List.mem_cons_self

theorem ne_of_mem_closers {kind other : Kind} (closes : kind ∈ closingKinds) (isOther : other ∉ closingKinds) :
    kind ≠ other := by
  rintro rfl
  exact isOther closes

theorem isWord_of_mem_closers {kind : Kind} (closes : kind ∈ closingKinds) : kind.isWord = false := by
  have all : ∀ kind ∈ closingKinds, kind.isWord = false := by decide
  exact all kind closes

section Loose

variable {calls calls' : Rule → Place → List (Node Kind) → Place → Prop} {r r' : List (Token Kind)}
  {s s' : Place} {xs ys : List (Node Kind)} {front front' : List (Token Kind)}

theorem Look.rest_ne_nil {test : Look} (answer : test.answer s = true) (needs : 0 < test.demand true) :
    s.rest ≠ [] :=
  List.ne_nil_of_length_pos (Nat.lt_of_lt_of_le needs (demand_le answer))

theorem Course.take_or_end (course : Course calls .take s xs s' ys) (start : s.rest = front ++ r)
    (stop : s'.rest = front' ++ r) :
    (∃ token id index, front = token :: front' ∧ s = ⟨token :: (front' ++ r), s.line⟩ ∧
      s' = ⟨front' ++ r, token.stop.line⟩ ∧ ys = xs ++ [.leaf id index token]) ∨
    (s.rest = [] ∧ s' = s ∧ ys = xs) := by
  cases course with
  | @take token rest line _ id index =>
    cases front with
    | nil =>
      have lengths := congrArg List.length (start.symm.trans (congrArg (token :: ·) stop))
      simp at lengths
      omega
    | cons first front =>
      obtain ⟨rfl, tail⟩ := List.cons.inj start
      obtain rfl : front = front' := List.append_cancel_right (tail.symm.trans stop)
      subst tail
      exact .inl ⟨token, id, index, rfl, rfl, rfl, rfl⟩
  | stay => exact .inr ⟨rfl, rfl, rfl⟩

theorem Course.reads_separator {p : Production Rule} {sep : Kind}
    (forward : ∀ name s ys s', calls name s ys s' → s'.rest <:+ s.rest)
    (answer : (Look.sees sep).answer s = true) (course : Course calls (.seq .take p) s xs s' ys) :
    s'.rest.length < s.rest.length := by
  cases course with
  | seq first second =>
    have behind := (second.suffix forward).length_le
    cases first with
    | take => exact Nat.lt_succ_of_le behind
    | stay => cases answer

/-- A loop over separators reads as before, if what stands behind each separator does. -/
theorem Course.chain {p : Production Rule} {sep : Kind} (fine : List (Node Kind) → Prop)
    (forward : ∀ name s ys s', calls name s ys s' → s'.rest <:+ s.rest)
    (refused : (Look.sees sep).answer ⟨r', 0⟩ = false)
    (inside : ∀ s xs s' ys front front' id index token, token.kind = sep →
      Course calls p s (xs ++ [.leaf id index token]) s' ys → s.rest = front ++ r →
      s'.rest = front' ++ r → (front' = [] → (Look.sees sep).answer s' = false ∧ fine ys) →
      Course calls' p ⟨front ++ r', s.line⟩ (xs ++ [.leaf id index token]) ⟨front' ++ r', s'.line⟩ ys)
    (course : Course calls (.loop (.sees sep) (.seq .take p)) s xs s' ys)
    (start : s.rest = front ++ r) (stop : s'.rest = front' ++ r) (isFine : front' = [] → fine ys) :
    Course calls' (.loop (.sees sep) (.seq .take p)) ⟨front ++ r', s.line⟩ xs
      ⟨front' ++ r', s'.line⟩ ys := by
  generalize isLoop : Production.loop (.sees sep) (.seq .take p) = loop at course
  induction course generalizing front with
  | @stop _ _ s xs answer =>
    cases isLoop
    obtain rfl : front = front' := List.append_cancel_right (start.symm.trans stop)
    refine .stop ?_
    cases front with
    | nil => exact refused
    | cons token front =>
      rw [← answer]
      cases s
      cases start
      rfl
  | @round _ _ s middle s' xs ys zs answer first second _ ih =>
    cases isLoop
    obtain ⟨more, isMiddle, -⟩ := exists_front (stop ▸ second.suffix forward)
    have last (none : more = []) : (Look.sees sep).answer middle = false ∧ fine ys := by
      subst none
      cases second with
      | stop answer => exact ⟨answer, isFine (List.append_cancel_right (stop.symm.trans isMiddle))⟩
      | round answer again others =>
        have read := again.reads_separator forward answer
        have behind := (others.suffix forward).length_le
        rw [stop, List.length_append] at behind
        rw [isMiddle, List.nil_append] at read
        omega
    cases first with
    | seq taken others =>
      cases taken with
      | stay => cases answer
      | @take token rest line _ id index =>
        cases front with
        | nil =>
          have behind : middle.rest.length ≤ rest.length := (others.suffix forward).length_le
          rw [isMiddle, List.length_append] at behind
          have lengths := congrArg List.length start
          simp at lengths
          omega
        | cons first front =>
          obtain ⟨rfl, tail⟩ := List.cons.inj start
          have isSep : token.kind = sep := by simpa [Look.sees, Look.answer] using answer
          exact .round answer (.seq (.take id index) (inside _ xs middle ys front more id index token
            isSep others tail isMiddle last)) (ih isMiddle stop isFine rfl)
  | _ => cases isLoop

variable {closer : Token Kind} {sound : Node Kind → Prop}

theorem sees_other {sep : Kind} (other : closer.kind ≠ sep) :
    (Look.sees sep).answer ⟨closer :: r', 0⟩ = false := by
  simp [Look.sees, Look.answer, other]

theorem transfers_qualifiedName (other : closer.kind ≠ .dot) (depth : Nat) :
    Transfers sound r (closer :: r') (depth + 1) .qualifiedName 0 := by
  intro s ys s' front front' course _ _ start stop _
  have forward (name : Rule) (s : Place) (ys : List (Node Kind)) (s' : Place)
      (course : RuleCourse depth name s ys s') : s'.rest <:+ s.rest := course.suffix
  match course with
  | .fails _ failed => nomatch failed
  | .holds answer (.node id (.seq first (.seq chain .done))) =>
    obtain ⟨more, isMore, -⟩ := exists_front (stop ▸ chain.suffix forward)
    rcases first.take_or_end start isMore with ⟨token, id', index, rfl, same, rfl, rfl⟩ | ⟨none, -⟩
    · rw [same] at answer ⊢
      refine .holds answer (.node id (.seq (.take id' index) (.seq ?_ .done)))
      refine Course.chain (fun _ => True) forward (sees_other other) ?_ chain
        isMore stop fun _ => trivial
      intro s xs s' ys front front' id index token _ part start stop last
      match part with
      | .seq (.holds dot .done) .done =>
        obtain rfl : front = front' := List.append_cancel_right (start.symm.trans stop)
        cases s
        subst start
        cases front with
        | nil => exact absurd (dot.symm.trans (last rfl).1) (by decide)
        | cons => exact .seq (.holds dot .done) .done
      | .seq (.fails _ (.fails _ failed)) .done => nomatch failed
      | .seq (.fails noDot (.holds isName taken)) .done =>
        rcases taken.take_or_end start stop with ⟨name, id, index, rfl, same, rfl, rfl⟩ | ⟨none, -⟩
        · rw [same] at noDot isName
          exact .seq (.fails noDot (.holds isName (.take id index))) .done
        · exact absurd none (Look.rest_ne_nil isName (by decide))
    · exact absurd none (Look.rest_ne_nil answer (by decide))

theorem Course.pairs {p : Production Rule} {sep : Kind} (other : closer.kind ≠ sep)
    (forward : ∀ name s ys s', calls name s ys s' → s'.rest <:+ s.rest)
    (isTake : ∀ (calls : Rule → Place → List (Node Kind) → Place → Prop) s xs s' ys,
      Course calls p s xs s' ys ↔ Course calls .take s xs s' ys)
    (course : Course calls (.loop (.sees sep) (.seq .take p)) s xs s' ys)
    (start : s.rest = front ++ r) (stop : s'.rest = front' ++ r)
    (complete : s'.rest = [] → ys.getLast?.any (·.kind == sep) = false) :
    Course calls' (.loop (.sees sep) (.seq .take p)) ⟨front ++ closer :: r', s.line⟩ xs
      ⟨front' ++ closer :: r', s'.line⟩ ys := by
  refine Course.chain (fun ys => r = [] → ys.getLast?.any (·.kind == sep) = false) forward
    (sees_other other) ?_ course start stop
    fun none empty => complete (by rw [stop, none, empty]; rfl)
  intro s xs s' ys front front' id index token isSep part start stop last
  rcases ((isTake ..).mp part).take_or_end start stop with
    ⟨next, id, index, rfl, same, rfl, rfl⟩ | ⟨none, rfl, rfl⟩
  · exact (isTake ..).mpr (.take id index)
  · rw [none] at start stop
    obtain ⟨rfl, rfl⟩ := List.append_eq_nil_iff.mp stop.symm
    have contrary := (last rfl).2 rfl
    simp [Node.kind, isSep] at contrary

theorem transfers_dataType (closes : closer.kind ∈ closingKinds) {depth : Nat}
    (called : ∀ name o, (Setting.closing closingKinds sides).scope name = some o →
      Transfers sound r (closer :: r') depth name o)
    (complete : r = [] → ∀ node, sound node → isDangling node = false) :
    Transfers sound r (closer :: r') (depth + 1) .dataType 0 := by
  intro s ys s' front front' course _ isSound start stop _
  have forward (name : Rule) (s : Place) (ys : List (Node Kind)) (s' : Place)
      (course : RuleCourse depth name s ys s') : s'.rest <:+ s.rest := course.suffix
  match course with
  | .fails _ failed => nomatch failed
  | .holds answer (.node id (.seq first (.seq chain (.seq width .done)))) =>
    obtain ⟨behind, isBehind, -⟩ := exists_front (stop ▸ width.suffix forward)
    obtain ⟨more, isMore, -⟩ := exists_front (isBehind ▸ chain.suffix forward)
    have read := Course.transfer_rules (Setting.fits_closing sides r r' closes) called width
      (by decide : _ = true) (Nat.zero_le _)
      (fun node member => isSound node (descendantsOf_closed id .dataType _ member)) isBehind stop
      (Nat.zero_le _)
    rcases first.take_or_end start isMore with ⟨token, id', index, rfl, same, rfl, rfl⟩ | ⟨none, -⟩
    · rw [same] at answer ⊢
      refine .holds answer (.node id (.seq (.take id' index) (.seq ?_ (.seq read .done))))
      refine Course.pairs (ne_of_mem_closers closes (by decide)) forward (fun _ _ _ _ _ => ?_) chain isMore isBehind
        fun none => ?_
      · constructor
        · rintro (_ | _ | _ | ⟨taken, ⟨⟩⟩)
          exact taken
        · exact fun taken => .seq taken .done
      · match width with
        | .holds paren _ => exact absurd none (Look.rest_ne_nil paren (by decide))
        | .fails _ .done =>
          have zero := (List.append_eq_nil_iff.mp (stop.symm.trans none)).2
          exact dangles_closed fun node member => complete zero node (isSound node member)
    · exact absurd none (Look.rest_ne_nil answer (by decide))

theorem Course.options (closes : closer.kind ∈ closingKinds) (forward : ∀ name s ys s', calls name s ys s' → s'.rest <:+ s.rest)
    (course : Course calls (.whenever (.on "WITH") (.steps [.take, .list .take])) s xs s' ys)
    (start : s.rest = front ++ r) (stop : s'.rest = front' ++ r)
    (complete : r = [] → ys.getLast?.any (dangles .raiseError) = false) :
    Course calls' (.whenever (.on "WITH") (.steps [.take, .list .take]))
      ⟨front ++ closer :: r', s.line⟩ xs ⟨front' ++ closer :: r', s'.line⟩ ys := by
  match course with
  | .fails noWith .done =>
    obtain rfl : front = front' := List.append_cancel_right (start.symm.trans stop)
    refine .fails ?_ .done
    cases front with
    | nil => simp [Look.on, Look.answer, isWord_of_mem_closers closes]
    | cons token front => simpa [Look.on, Look.answer, start] using noWith
  | .holds isWith (.seq taken (.seq (.seq option chain) .done)) =>
    obtain ⟨front₂, at₂, -⟩ := exists_front (stop ▸ chain.suffix forward)
    obtain ⟨front₁, at₁, -⟩ := exists_front (at₂ ▸ option.suffix forward)
    rcases taken.take_or_end start at₁ with ⟨token, id₁, index₁, rfl, same, rfl, rfl⟩ | ⟨none, -⟩
    · rw [same] at isWith
      rcases option.take_or_end at₁ at₂ with
        ⟨next, id₂, index₂, rfl, -, rfl, rfl⟩ | ⟨none, rfl, rfl⟩
      · refine .holds isWith (.seq (.take id₁ index₁) (.seq (.seq (.take id₂ index₂) ?_) .done))
        refine Course.pairs (ne_of_mem_closers closes (by decide)) forward (fun _ _ _ _ _ => Iff.rfl) chain at₂ stop
          fun none => ?_
        have all := complete (List.append_eq_nil_iff.mp (stop.symm.trans none)).2
        cases last : ys.getLast? with
        | none => rfl
        | some node =>
          simp [last, dangles] at all
          simpa using all.1
      · cases chain with
        | round comma _ _ => exact absurd none (Look.rest_ne_nil comma (by decide))
        | stop _ =>
          have all := complete (List.append_eq_nil_iff.mp (stop.symm.trans none)).2
          simp [Look.on, Look.answer] at isWith
          simp [dangles, Node.isWord, Node.token?, isWith.2] at all
    · exact absurd none (Look.rest_ne_nil isWith (by decide))

theorem transfers_raiseError (closes : closer.kind ∈ closingKinds) {depth : Nat}
    (called : ∀ name o, (Setting.closing closingKinds sides).scope name = some o →
      Transfers sound r (closer :: r') depth name o)
    (complete : r = [] → ∀ node, sound node → isDangling node = false) :
    Transfers sound r (closer :: r') (depth + 1) .raiseError 0 := by
  intro s ys s' front front' course enough isSound start stop _
  have forward (name : Rule) (s : Place) (ys : List (Node Kind)) (s' : Place)
      (course : RuleCourse depth name s ys s') : s'.rest <:+ s.rest := course.suffix
  match course with
  | .node id (.seq first (.seq left (.seq list (.seq right (.seq options .done))))) =>
    obtain ⟨more, isMore, -⟩ := exists_front (stop ▸ options.suffix forward)
    have call := Course.transfer_rules (Setting.fits_closing sides r r' closes) called
      (.seq first (.seq left (.seq list (.seq right .done)))) (by decide : _ = true) enough
      (fun node member => isSound node (descendantsOf_closed id .raiseError _ (options.descendants member)))
      start isMore (Nat.zero_le _)
    match call with
    | .seq first (.seq left (.seq list (.seq right .done))) =>
      refine .node id (.seq first (.seq left (.seq list (.seq right (.seq ?_ .done)))))
      exact options.options closes forward isMore stop fun zero =>
        dangles_closed fun node member => complete zero node (isSound node member)

/-- The rules that read parts of a statement do not notice a token behind them that closes. -/
theorem transfers_closing (closes : closer.kind ∈ closingKinds)
    (complete : r = [] → ∀ node, sound node → isDangling node = false) (depth : Nat) {rule : Rule} {o : Nat}
    (owes : rule.owes = some o) (isSemicolon : rule = .createIndex → closer.kind = .semicolon) :
    Transfers sound r (closer :: r') depth rule o := by
  induction depth generalizing rule o with
  | zero => exact fun _ _ _ _ _ course => course.elim
  | succ depth ih =>
    have called (kinds : List Kind) (semicolon : kinds = [.semicolon] → closer.kind = .semicolon) (name : Rule)
        (o : Nat) (inScope : (Setting.closing kinds sides).scope name = some o) :
        Transfers sound r (closer :: r') depth name o := by
      simp only [Setting.closing] at inScope
      split at inScope
      · cases inScope
      · next known =>
        refine ih inScope fun isIndex => semicolon ?_
        simpa [isIndex] using known
    have others := called closingKinds fun contrary => absurd contrary (by decide)
    cases loose : rule.isLoose with
    | false =>
      exact Transfers.succ (Setting.fits_closing sides r r' closes) others
        (production_steady_closing rule owes loose)
    | true =>
      cases rule with
      | qualifiedName =>
        cases owes
        exact transfers_qualifiedName (ne_of_mem_closers closes (by decide)) depth
      | dataType =>
        cases owes
        exact transfers_dataType closes others complete
      | raiseError =>
        cases owes
        exact transfers_raiseError closes others complete
      | createIndex =>
        cases owes
        have semicolon := isSemicolon rfl
        exact Transfers.succ (Setting.fits_closing sides r r' (by simp [semicolon]))
          (called [.semicolon] fun _ => semicolon) createIndex_steady_semicolon
      | _ => cases loose

end Loose

end SqlFerry.Tsql
