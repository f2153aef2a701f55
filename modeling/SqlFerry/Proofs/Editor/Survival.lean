import SqlFerry.Proofs.Editor.View
import SqlFerry.Proofs.Position

/-! Edits of a line given by its tokens leave the other tokens whole. A token may move while edits are
made around it, and its end may move away from its text, since what is inserted behind a token goes
in front of its resolved end. The invariant therefore keeps the start and the end of every token
apart: the text stands at the start, the end lies at or behind the text, and the next token starts
at or behind the end. Blanks are only eaten up to the next token, because no token starts with a
blank. -/
namespace SqlFerry

open Text (StandsAt)

variable {κ : Type} {n : Nat}

namespace Line

def startOf (l : Line) (token : Token κ) : Nat := l.shifts.resolve token.column

def stopOf (l : Line) (token : Token κ) : Nat := l.shifts.resolve (token.column + token.size)

/-- The tokens that are `alive` stand in the line, in their order and apart from each other. -/
structure Intact (l : Line) (tokens : Fin n → Token κ) (alive : Fin n → Prop) : Prop where
  stands : ∀ i, alive i → StandsAt l.text (l.startOf (tokens i)) (tokens i).text
  stops : ∀ i, alive i → StandsAt l.text (l.stopOf (tokens i)) ""
  whole : ∀ i, alive i → l.startOf (tokens i) + (tokens i).size ≤ l.stopOf (tokens i)
  apart : ∀ i j, alive i → alive j → i < j → l.stopOf (tokens i) ≤ l.startOf (tokens j)

/-- A token that is not empty and does not start with a blank. -/
def Solid (token : Token κ) : Prop := token.text.toList.head?.any (!Text.isIndent ·) = true

instance (token : Token κ) : Decidable (Solid token) := inferInstanceAs (Decidable (_ = true))

theorem Solid.size_pos {token : Token κ} (solid : Solid token) : 0 < token.size := by
  cases shape : token.text.toList with
  | nil => simp [Solid, shape] at solid
  | cons d rest => have := d.utf8Size_pos; simp [Token.size, Text.size, shape, Text.byteLength]; omega

section Splice

variable {l : Line} {tokens : Fin n → Token κ} {alive alive' : Fin n → Prop} {start stop : Nat}
  {text : String}

theorem Intact.startOf_le (intact : Intact l tokens alive) {i : Fin n} (living : alive i) :
    l.startOf (tokens i) ≤ Text.size l.text :=
  Nat.le_trans (Nat.le_add_right _ _) (intact.stands i living).size_le

theorem Intact.stopOf_le (intact : Intact l tokens alive) {i : Fin n} (living : alive i) :
    l.stopOf (tokens i) ≤ Text.size l.text :=
  Nat.le_trans (Nat.le_add_right _ _) (intact.stops i living).size_le

/-- A splice moves every column of the line that it does not cut off. -/
theorem resolve_splice_of_le {column : Nat} (left : StandsAt l.text start "")
    (right : StandsAt l.text stop "") (ordered : start ≤ stop)
    (fits : Text.size l.text ≤ columnLimit)
    (fits' : Text.size (l.splice start stop text).text ≤ columnLimit)
    (inside : l.shifts.resolve column ≤ Text.size l.text) :
    (l.splice start stop text).shifts.resolve column =
      moved start stop (Text.size text) (l.shifts.resolve column) := by
  have grown : Text.size (l.splice start stop text).text + stop =
      Text.size l.text + start + Text.size text := Text.size_splice text left right ordered
  apply resolve_splice
  · omega
  · unfold moved
    split <;> omega

/-- Splicing keeps the tokens on either side of the replaced stretch. -/
theorem Intact.splice (intact : Intact l tokens alive) (left : StandsAt l.text start "")
    (right : StandsAt l.text stop "") (ordered : start ≤ stop)
    (fits : Text.size l.text ≤ columnLimit)
    (fits' : Text.size (l.splice start stop text).text ≤ columnLimit)
    (solid : ∀ i, Solid (tokens i)) (living : ∀ i, alive' i → alive i)
    (aside : ∀ i, alive' i → l.stopOf (tokens i) ≤ start ∨ stop ≤ l.startOf (tokens i)) :
    Intact (l.splice start stop text) tokens alive' := by
  have starts (i) (h : alive' i) : (l.splice start stop text).startOf (tokens i) =
      moved start stop (Text.size text) (l.startOf (tokens i)) :=
    resolve_splice_of_le left right ordered fits fits' (intact.startOf_le (living i h))
  have ends (i) (h : alive' i) : (l.splice start stop text).stopOf (tokens i) =
      moved start stop (Text.size text) (l.stopOf (tokens i)) :=
    resolve_splice_of_le left right ordered fits fits' (intact.stopOf_le (living i h))
  constructor
  · intro i h
    have whole := intact.whole i (living i h)
    have positive := (solid i).size_pos
    rw [starts i h]
    rcases aside i h with before | behind
    · rw [moved_of_lt (by omega)]
      exact (intact.stands i (living i h)).splice_before left right ordered
        (Nat.le_trans whole before)
    · rw [moved_of_le behind]
      exact (intact.stands i (living i h)).splice_behind left right ordered behind
  · intro i h
    have whole := intact.whole i (living i h)
    rw [ends i h]
    by_cases inFront : l.stopOf (tokens i) < stop
    · have before : l.stopOf (tokens i) ≤ start := by
        rcases aside i h with before | behind <;> omega
      rw [moved_of_lt inFront]
      exact (intact.stops i (living i h)).splice_before left right ordered before
    · rw [moved_of_le (Nat.not_lt.mp inFront)]
      exact (intact.stops i (living i h)).splice_behind left right ordered (Nat.not_lt.mp inFront)
  · intro i h
    have whole := intact.whole i (living i h)
    have positive := (solid i).size_pos
    have side := aside i h
    rw [starts i h, ends i h]
    unfold moved
    split <;> split <;> omega
  · intro i j hi hj earlier
    have wholeI := intact.whole i (living i hi)
    have wholeJ := intact.whole j (living j hj)
    have apart := intact.apart i j (living i hi) (living j hj) earlier
    have sideI := aside i hi
    have sideJ := aside j hj
    have positiveI := (solid i).size_pos
    have positiveJ := (solid j).size_pos
    rw [ends i hi, starts j hj]
    unfold moved
    split <;> split <;> omega

theorem Intact.aside_splice (intact : Intact l tokens alive) (left : StandsAt l.text start "")
    (right : StandsAt l.text stop "") (ordered : start ≤ stop)
    (fits : Text.size l.text ≤ columnLimit)
    (fits' : Text.size (l.splice start stop text).text ≤ columnLimit) {i : Fin n} (living : alive i)
    (aside : l.stopOf (tokens i) ≤ start ∨ stop ≤ l.startOf (tokens i)) :
    (l.splice start stop text).stopOf (tokens i) ≤ start + Text.size text ∨
      start + Text.size text ≤ (l.splice start stop text).startOf (tokens i) := by
  have starts : (l.splice start stop text).startOf (tokens i) =
      moved start stop (Text.size text) (l.startOf (tokens i)) :=
    resolve_splice_of_le left right ordered fits fits' (intact.startOf_le living)
  have ends : (l.splice start stop text).stopOf (tokens i) =
      moved start stop (Text.size text) (l.stopOf (tokens i)) :=
    resolve_splice_of_le left right ordered fits fits' (intact.stopOf_le living)
  rw [starts, ends]
  unfold moved
  split <;> split <;> omega

/-- Eating keeps all tokens: the eaten run ends in front of the next token. -/
theorem Intact.eat (intact : Intact l tokens alive) {column : Nat}
    (boundary : StandsAt l.text column "") (fits : Text.size l.text ≤ columnLimit)
    (solid : ∀ i, Solid (tokens i))
    (aside : ∀ i, alive i → l.stopOf (tokens i) ≤ column ∨ column ≤ l.startOf (tokens i)) :
    Intact (l.eat column).1 tokens alive := by
  rcases l.eat_cases boundary with same | ⟨stop, kept, eaten, spliced⟩
  · rwa [same]
  · have ordered : column ≤ stop := by have := eaten.shrinks; omega
    have shrunk := Text.size_splice kept boundary eaten.boundary ordered
    have fits' : Text.size (l.splice column stop kept).text ≤ columnLimit := by
      have := eaten.shrinks
      change Text.size (Text.splice l.text column stop kept) ≤ columnLimit
      omega
    rw [spliced]
    refine intact.splice boundary eaten.boundary ordered fits fits' solid (fun _ h => h) ?_
    intro i living
    rcases aside i living with before | behind
    · exact .inl before
    · right
      apply Nat.not_lt.mp
      intro inside
      obtain ⟨c, head, visible⟩ := (Option.any_eq_true _ _).mp (solid i)
      have blank := eaten.blank _ _ c (intact.stands i living) head behind inside
      simp [blank] at visible

theorem Intact.replace (intact : Intact l tokens alive) {column length : Nat} (eats : Bool)
    (inside : column + length ≤ columnLimit)
    (left : StandsAt l.text (l.shifts.resolve column) "")
    (right : StandsAt l.text (l.shifts.resolve (column + length)) "")
    (ordered : l.shifts.resolve column ≤ l.shifts.resolve (column + length))
    (held : Text.size l.text ≤ textLimit) (heldText : Text.size text ≤ textLimit)
    (solid : ∀ i, Solid (tokens i)) (living : ∀ i, alive' i → alive i)
    (aside : ∀ i, alive' i → l.stopOf (tokens i) ≤ l.shifts.resolve column ∨
      l.shifts.resolve (column + length) ≤ l.startOf (tokens i)) :
    Intact (l.replace column length text eats) tokens alive' := by
  have fits : Text.size l.text ≤ columnLimit := Nat.le_trans held (by decide)
  have fits' : Text.size (l.splice (l.shifts.resolve column)
      (l.shifts.resolve (column + length)) text).text ≤ columnLimit := by
    have grown := Text.size_splice text left right ordered
    have limits : textLimit + textLimit ≤ columnLimit := by decide
    change Text.size (Text.splice _ _ _ _) ≤ columnLimit
    omega
  have spliced := intact.splice left right ordered fits fits' solid living aside
  rw [Line.replace, columnBehind_eq inside, place_eq left, place_eq right]
  simp only [Nat.max_eq_right ordered]
  cases eats with
  | false => exact spliced
  | true =>
    have boundary := (Text.standsAt_splice text left right ordered).boundary_behind
    exact spliced.eat boundary fits' solid fun i h =>
      intact.aside_splice left right ordered fits fits' (living i h) (aside i h)

theorem Intact.weaken (intact : Intact l tokens alive) (living : ∀ i, alive' i → alive i) :
    Intact l tokens alive' where
  stands i h := intact.stands i (living i h)
  stops i h := intact.stops i (living i h)
  whole i h := intact.whole i (living i h)
  apart i j hi hj := intact.apart i j (living i hi) (living j hj)

theorem Intact.startOf_mono (intact : Intact l tokens alive) {i j : Fin n} (hi : alive i)
    (hj : alive j) (ordered : i ≤ j) : l.startOf (tokens i) ≤ l.startOf (tokens j) := by
  rcases Nat.lt_or_eq_of_le ordered with earlier | same
  · have := intact.whole i hi
    have := intact.apart i j hi hj earlier
    omega
  · exact Nat.le_of_eq (by rw [Fin.ext same])

theorem Intact.stopOf_mono (intact : Intact l tokens alive) {i j : Fin n} (hi : alive i)
    (hj : alive j) (ordered : i ≤ j) : l.stopOf (tokens i) ≤ l.stopOf (tokens j) := by
  rcases Nat.lt_or_eq_of_le ordered with earlier | same
  · have := intact.whole j hj
    have := intact.apart i j hi hj earlier
    omega
  · exact Nat.le_of_eq (by rw [Fin.ext same])

end Splice

end Line

/-- Tokens of a line, in order and apart from each other, none of them empty or starting with a
blank. -/
structure TokensOf (number : Nat) (text : String) (tokens : Fin n → Token κ) : Prop where
  starts : ∀ i, (tokens i).line = number
  stops : ∀ i, (tokens i).stop.line = number
  stands : ∀ i, StandsAt text (tokens i).column (tokens i).text
  solid : ∀ i, Line.Solid (tokens i)
  apart : ∀ i j, i < j → (tokens i).column + (tokens i).size ≤ (tokens j).column

namespace TokensOf

variable {number : Nat} {text : String} {tokens : Fin n → Token κ}

theorem stop_eq (laid : TokensOf number text tokens) (i : Fin n) :
    (tokens i).stop = ⟨number, (tokens i).column + (tokens i).size⟩ := by
  have flat : '\n' ∉ (tokens i).text.toList := by
    apply Position.no_line_end_of_line_advance (p := (tokens i).start)
    exact (laid.stops i).trans (laid.starts i).symm
  rw [Token.stop, Position.advance_of_no_line_end _ flat, ← laid.starts i]
  rfl

theorem intact (laid : TokensOf number text tokens) :
    Line.Intact { text } tokens (fun _ => True) where
  stands i _ := laid.stands i
  stops i _ := (laid.stands i).boundary_behind
  whole _ _ := Nat.le_refl _
  apart i j _ _ earlier := laid.apart i j earlier

theorem column_le (laid : TokensOf number text tokens) {i j : Fin n} (ordered : i ≤ j) :
    (tokens i).column ≤ (tokens j).column := by
  rcases Nat.lt_or_eq_of_le ordered with earlier | same
  · have := laid.apart i j earlier; omega
  · exact Nat.le_of_eq (by rw [Fin.ext same])

end TokensOf

/-- An edit that is given by tokens of a line. -/
inductive TokenEdit (n : Nat) where
  | replaceToken (i : Fin n) (text : String) (eats : Bool)
  | removeToken (i : Fin n) (eats : Bool)
  | replaceTokens (i j : Fin n) (ordered : i ≤ j) (text : String) (eats : Bool)
  | removeBetween (i j : Fin n) (ordered : i < j) (eats : Bool)
  | insertBefore (i : Fin n) (text : String) (eats : Bool)
  | insertAfter (i : Fin n) (text : String) (eats : Bool)

namespace TokenEdit

def run [ToString κ] (tokens : Fin n → Token κ) : TokenEdit n → Edit Unit
  | replaceToken i text eats => Edit.replaceToken (tokens i) text eats
  | removeToken i eats => Edit.removeToken (tokens i) eats
  | replaceTokens i j _ text eats => Edit.replaceTokens (tokens i) (tokens j) text eats
  | removeBetween i j _ eats => Edit.removeBetween (tokens i) (tokens j) eats
  | insertBefore i text eats => Edit.insertBeforeToken (tokens i) text eats
  | insertAfter i text eats => Edit.insertAfterToken (tokens i) text eats

def text : TokenEdit n → String
  | replaceToken _ text _ | replaceTokens _ _ _ text _ => text
  | insertBefore _ text _ | insertAfter _ text _ => text
  | removeToken _ _ | removeBetween _ _ _ _ => ""

/-- The edit is given by this token. -/
def Names : TokenEdit n → Fin n → Prop
  | replaceToken i _ _, k | removeToken i _, k => k = i
  | insertBefore i _ _, k | insertAfter i _ _, k => k = i
  | replaceTokens i j _ _ _, k | removeBetween i j _ _, k => k = i ∨ k = j

/-- The edit replaces or removes this token. -/
def Covers : TokenEdit n → Fin n → Prop
  | replaceToken i _ _, k | removeToken i _, k => k = i
  | replaceTokens i j _ _ _, k => i ≤ k ∧ k ≤ j
  | removeBetween i j _ _, k => i < k ∧ k < j
  | insertBefore _ _ _, _ | insertAfter _ _ _, _ => False

instance (edit : TokenEdit n) : DecidablePred edit.Names := fun k =>
  match edit with
  | replaceToken i _ _ | removeToken i _ | insertBefore i _ _ | insertAfter i _ _ =>
    inferInstanceAs (Decidable (k = i))
  | replaceTokens i j _ _ _ | removeBetween i j _ _ => inferInstanceAs (Decidable (k = i ∨ k = j))

instance (edit : TokenEdit n) : DecidablePred edit.Covers := fun k =>
  match edit with
  | replaceToken i _ _ | removeToken i _ => inferInstanceAs (Decidable (k = i))
  | replaceTokens i j _ _ _ => inferInstanceAs (Decidable (i ≤ k ∧ k ≤ j))
  | removeBetween i j _ _ => inferInstanceAs (Decidable (i < k ∧ k < j))
  | insertBefore _ _ _ | insertAfter _ _ _ => inferInstanceAs (Decidable False)

/-- What the edit does to the line of its tokens. -/
def onLine (tokens : Fin n → Token κ) : TokenEdit n → Line → Line
  | replaceToken i text eats, l => l.replace (tokens i).column (tokens i).size text eats
  | removeToken i eats, l => l.replace (tokens i).column (tokens i).size "" eats
  | replaceTokens i j _ text eats, l => l.replace (tokens i).column
      ((tokens j).column + (tokens j).size - (tokens i).column) text eats
  | removeBetween i j _ eats, l =>
    if (tokens i).column + (tokens i).size < (tokens j).column then
      l.replace ((tokens i).column + (tokens i).size)
        ((tokens j).column - ((tokens i).column + (tokens i).size)) "" eats
    else l
  | insertBefore i text eats, l => l.replace (tokens i).column 0 text eats
  | insertAfter i text eats, l => l.replace ((tokens i).column + (tokens i).size) 0 text eats

section Step

variable {number : Nat} {original : String} {tokens : Fin n → Token κ} {alive : Fin n → Prop}
  {l : Line}

theorem intact_replaceTokens (laid : TokensOf number original tokens)
    (short : Text.size original ≤ textLimit) (intact : Line.Intact l tokens alive) {i j : Fin n}
    (ordered : i ≤ j) (hi : alive i) (hj : alive j) (text : String) (eats : Bool)
    (held : Text.size l.text ≤ textLimit) (heldText : Text.size text ≤ textLimit) :
    Line.Intact ((replaceTokens i j ordered text eats).onLine tokens l) tokens
      (fun k => alive k ∧ ¬ (i ≤ k ∧ k ≤ j)) := by
  have columns := laid.column_le ordered
  have behind : (tokens i).column + ((tokens j).column + (tokens j).size - (tokens i).column) =
      (tokens j).column + (tokens j).size := by omega
  have inside : (tokens j).column + (tokens j).size ≤ columnLimit :=
    Nat.le_trans (laid.stands j).size_le (Nat.le_trans short (by decide))
  have starts := intact.startOf_mono hi hj ordered
  have whole := intact.whole j hj
  refine intact.replace eats (by rwa [behind]) (intact.stands i hi).boundary ?_ ?_ held heldText
    laid.solid (fun _ h => h.1) ?_
  · rw [behind]; exact intact.stops j hj
  · rw [behind]; exact Nat.le_trans starts (Nat.le_trans (Nat.le_add_right _ _) whole)
  · rintro k ⟨hk, outside⟩
    rw [behind]
    by_cases before : k < i
    · exact .inl (intact.apart k i hk hi before)
    · have after : j < k := by omega
      exact .inr (intact.apart j k hj hk after)

theorem intact_removeBetween (laid : TokensOf number original tokens)
    (short : Text.size original ≤ textLimit) (intact : Line.Intact l tokens alive) {i j : Fin n}
    (ordered : i < j) (hi : alive i) (hj : alive j) (eats : Bool)
    (held : Text.size l.text ≤ textLimit) :
    Line.Intact ((removeBetween i j ordered eats).onLine tokens l) tokens
      (fun k => alive k ∧ ¬ (i < k ∧ k < j)) := by
  rw [onLine]
  split
  · next gap =>
    have behind : (tokens i).column + (tokens i).size +
        ((tokens j).column - ((tokens i).column + (tokens i).size)) = (tokens j).column := by omega
    have inside : (tokens j).column ≤ columnLimit :=
      Nat.le_trans (laid.stands j).boundary.size_le (Nat.le_trans short (by decide))
    refine intact.replace eats (by rwa [behind]) (intact.stops i hi) ?_ ?_ held (by decide)
      laid.solid (fun _ h => h.1) ?_
    · rw [behind]; exact (intact.stands j hj).boundary
    · rw [behind]; exact intact.apart i j hi hj ordered
    · rintro k ⟨hk, outside⟩
      rw [behind]
      by_cases before : k ≤ i
      · exact .inl (intact.stopOf_mono hk hi before)
      · exact .inr (intact.startOf_mono hj hk (by omega))
  · exact intact.weaken fun _ h => h.1

theorem intact_insertBefore (laid : TokensOf number original tokens)
    (short : Text.size original ≤ textLimit) (intact : Line.Intact l tokens alive) {i : Fin n}
    (hi : alive i) (text : String) (eats : Bool)
    (held : Text.size l.text ≤ textLimit) (heldText : Text.size text ≤ textLimit) :
    Line.Intact ((insertBefore i text eats).onLine tokens l) tokens alive := by
  have inside : (tokens i).column ≤ columnLimit :=
    Nat.le_trans (laid.stands i).boundary.size_le (Nat.le_trans short (by decide))
  have boundary := (intact.stands i hi).boundary
  refine intact.replace eats inside boundary boundary (Nat.le_refl _) held heldText
    laid.solid (fun _ h => h) ?_
  intro k hk
  by_cases before : k < i
  · exact .inl (intact.apart k i hk hi before)
  · exact .inr (intact.startOf_mono hi hk (by omega))

theorem intact_insertAfter (laid : TokensOf number original tokens)
    (short : Text.size original ≤ textLimit) (intact : Line.Intact l tokens alive) {i : Fin n}
    (hi : alive i) (text : String) (eats : Bool)
    (held : Text.size l.text ≤ textLimit) (heldText : Text.size text ≤ textLimit) :
    Line.Intact ((insertAfter i text eats).onLine tokens l) tokens alive := by
  have inside : (tokens i).column + (tokens i).size ≤ columnLimit :=
    Nat.le_trans (laid.stands i).size_le (Nat.le_trans short (by decide))
  refine intact.replace eats inside (intact.stops i hi) (intact.stops i hi) (Nat.le_refl _) held
    heldText laid.solid (fun _ h => h) ?_
  intro k hk
  by_cases before : k ≤ i
  · exact .inl (intact.stopOf_mono hk hi before)
  · exact .inr (intact.apart i k hi hk (by omega))

/-- One edit keeps every token that it does not cover. -/
theorem onLine_intact (laid : TokensOf number original tokens)
    (short : Text.size original ≤ textLimit) (intact : Line.Intact l tokens alive)
    (edit : TokenEdit n) (named : ∀ i, edit.Names i → alive i)
    (held : Text.size l.text ≤ textLimit) (heldText : Text.size edit.text ≤ textLimit) :
    Line.Intact (edit.onLine tokens l) tokens (fun k => alive k ∧ ¬ edit.Covers k) := by
  have single (i : Fin n) (hi : alive i) (text : String) (eats : Bool)
      (heldText : Text.size text ≤ textLimit) :
      Line.Intact (l.replace (tokens i).column (tokens i).size text eats) tokens
        (fun k => alive k ∧ ¬ k = i) := by
    have replaced := intact_replaceTokens laid short intact (Fin.le_refl i) hi hi text eats held
      heldText
    rw [onLine, Nat.add_sub_cancel_left] at replaced
    exact replaced.weaken fun k h => ⟨h.1, fun same => h.2 (Fin.le_antisymm same.2 same.1)⟩
  cases edit with
  | replaceToken i text eats => exact single i (named i rfl) text eats heldText
  | removeToken i eats => exact single i (named i rfl) "" eats heldText
  | replaceTokens i j ordered text eats =>
    exact intact_replaceTokens laid short intact ordered (named i (.inl rfl)) (named j (.inr rfl))
      text eats held heldText
  | removeBetween i j ordered eats =>
    exact intact_removeBetween laid short intact ordered (named i (.inl rfl)) (named j (.inr rfl))
      eats held
  | insertBefore i text eats =>
    exact (intact_insertBefore laid short intact (named i rfl) text eats held heldText).weaken
      fun _ h => h.1
  | insertAfter i text eats =>
    exact (intact_insertAfter laid short intact (named i rfl) text eats held heldText).weaken
      fun _ h => h.1

end Step

theorem run_eq [ToString κ] {number : Nat} {original : String} {tokens : Fin n → Token κ}
    (laid : TokensOf number original tokens) (edit : TokenEdit n) {e : Editor} {l : Line}
    (present : row? e.lines number = some l) :
    (edit.run tokens).run e =
      .ok () (e.setLine number (edit.onLine tokens l)) := by
  cases edit with
  | replaceToken i text eats =>
    rw [run, Edit.replaceToken, laid.stop_eq, laid.starts, if_pos rfl, Edit.replace_run present, onLine]
  | removeToken i eats =>
    rw [run, Edit.removeToken, Edit.replaceToken, laid.stop_eq, laid.starts, if_pos rfl,
      Edit.replace_run present, onLine]
  | replaceTokens i j ordered text eats =>
    rw [run, Edit.replaceTokens, laid.stop_eq, laid.starts, if_pos rfl, Edit.replace_run present, onLine]
  | removeBetween i j ordered eats =>
    rw [run, Edit.removeBetween, laid.stop_eq, laid.starts, if_pos rfl, onLine]
    split
    · rw [Edit.replace_run present]
    · rw [Editor.setLine_of_row? present]; rfl
  | insertBefore i text eats =>
    rw [run, Edit.insertBeforeToken, Edit.insert, laid.starts, Edit.replace_run present, onLine]
  | insertAfter i text eats =>
    rw [run, Edit.insertAfterToken, Edit.insert, laid.stop_eq, Edit.replace_run present, onLine]

/-- No edit covers the token. -/
def Untouched (edits : List (TokenEdit n)) (i : Fin n) : Prop := ∀ edit ∈ edits, ¬ edit.Covers i

instance (edits : List (TokenEdit n)) : DecidablePred (Untouched edits) := fun i =>
  inferInstanceAs (Decidable (∀ edit ∈ edits, ¬ edit.Covers i))

/-- The editors from the first to the last of a sequence of edits. -/
def states [ToString κ] (tokens : Fin n → Token κ) (edits : List (TokenEdit n)) (e : Editor) :
    List Editor :=
  edits.scanl (fun e edit => match (edit.run tokens).run e with | .ok _ e | .error _ e => e) e

theorem forM_intact [ToString κ] {number : Nat} {original : String} {tokens : Fin n → Token κ}
    (laid : TokensOf number original tokens) (short : Text.size original ≤ textLimit)
    (edits : List (TokenEdit n)) {alive : Fin n → Prop} {e : Editor} {l : Line}
    (present : row? e.lines number = some l) (intact : Line.Intact l tokens alive)
    (named : ∀ edit ∈ edits, ∀ i, edit.Names i → alive i)
    (admissible : edits.Pairwise fun earlier later => ∀ i, later.Names i → ¬ earlier.Covers i)
    (held : ∀ state ∈ states tokens edits e, ∀ l ∈ row? state.lines number,
      Text.size l.text ≤ textLimit)
    (heldTexts : ∀ edit ∈ edits, Text.size edit.text ≤ textLimit) :
    ∃ e' l', (edits.forM (run tokens)).run e = .ok () e' ∧ row? e'.lines number = some l' ∧
      Line.Intact l' tokens (fun k => alive k ∧ Untouched edits k) := by
  induction edits generalizing e l alive with
  | nil => exact ⟨e, l, rfl, present, intact.weaken fun _ h => h.1⟩
  | cons edit edits ih =>
    have step := run_eq laid edit present
    obtain ⟨fromFirst, admissible⟩ := List.pairwise_cons.mp admissible
    simp only [states, List.scanl_cons, List.mem_cons, forall_eq_or_imp, step] at held
    have intact' := onLine_intact laid short intact edit (named edit List.mem_cons_self)
      (held.1 l present) (heldTexts edit List.mem_cons_self)
    obtain ⟨e', l', ran, present', survives⟩ := ih (Editor.row?_setLine present _) intact'
      (fun later member i names => ⟨named later (List.mem_cons_of_mem _ member) i names,
        fromFirst later member i names⟩)
      admissible held.2 (fun later member => heldTexts later (List.mem_cons_of_mem _ member))
    refine ⟨e', l', ?_, present', survives.weaken ?_⟩
    · change ((edit.run tokens) >>= fun _ => edits.forM (run tokens)).run e = _
      rw [EStateM.run_bind, step]
      exact ran
    · intro k h
      exact ⟨⟨h.1, h.2 edit List.mem_cons_self⟩,
        fun later member => h.2 later (List.mem_cons_of_mem _ member)⟩

end TokenEdit

/-- Whatever is done to some tokens of a line, every other token stands where its start resolves to,
and the tokens stay in order. -/
theorem TokenEdit.untouched_tokens_survive [ToString κ] (e : Editor) (number : Nat) (text : String)
    (tokens : Fin n → Token κ) (edits : List (TokenEdit n))
    (fresh : row? e.lines number = some { text }) (laid : TokensOf number text tokens)
    (admissible : edits.Pairwise fun earlier later => ∀ i, later.Names i → ¬ earlier.Covers i)
    (held : ∀ state ∈ states tokens edits e, ∀ l ∈ row? state.lines number,
      Text.size l.text ≤ textLimit)
    (heldTexts : ∀ edit ∈ edits, Text.size edit.text ≤ textLimit) :
    ∃ e' current, (edits.forM (run tokens)).run e = .ok () e' ∧ e'.line number = .ok current ∧
      (∀ i, Untouched edits i →
        StandsAt current (e'.resolve (tokens i).start).column (tokens i).text) ∧
      ∀ i j, Untouched edits i → Untouched edits j → i < j →
        (e'.resolve (tokens i).start).column < (e'.resolve (tokens j).start).column := by
  have short : Text.size text ≤ textLimit := held e (by cases edits <;> simp [states]) _ fresh
  obtain ⟨e', l, ran, present, intact⟩ := forM_intact laid short edits fresh laid.intact
    (fun _ _ _ _ => trivial) admissible held heldTexts
  have resolved (i : Fin n) : (e'.resolve (tokens i).start).column = l.startOf (tokens i) := by
    rw [Token.start, laid.starts, Editor.resolve_of_row? present]
    rfl
  refine ⟨e', l.text, ran, Editor.line_of_row? present, ?_, ?_⟩
  · intro i untouched
    rw [resolved]
    exact intact.stands i ⟨trivial, untouched⟩
  · intro i j hi hj earlier
    have whole := intact.whole i ⟨trivial, hi⟩
    have apart := intact.apart i j ⟨trivial, hi⟩ ⟨trivial, hj⟩ earlier
    have positive := (laid.solid i).size_pos
    rw [resolved, resolved]
    omega

namespace Survival

/-- The tokens of `a = (b)  c`. -/
def tokens : Fin 6 → Token String := fun i =>
  [⟨"name", "a", 1, 0⟩, ⟨"sign", "=", 1, 2⟩, ⟨"sign", "(", 1, 4⟩, ⟨"name", "b", 1, 5⟩,
    ⟨"sign", ")", 1, 6⟩, ⟨"name", "c", 1, 9⟩].get i

def edits : List (TokenEdit 6) := [
  .insertAfter 2 "  " true, .removeToken 0 true, .insertBefore 3 "x " true,
  .replaceTokens 1 1 (by decide) "IS" true, .removeBetween 4 5 (by decide) true]

theorem tokens_survive :
    ∃ e' current, (edits.forM (TokenEdit.run tokens)).run (.ofLines ["a = (b)  c"]) = .ok () e' ∧
      e'.line 1 = .ok current ∧
      (∀ i, 2 ≤ i → StandsAt current (e'.resolve (tokens i).start).column (tokens i).text) ∧
      ∀ i j, 2 ≤ i → i < j →
        (e'.resolve (tokens i).start).column < (e'.resolve (tokens j).start).column := by
  have untouched : ∀ i : Fin 6, 2 ≤ i → TokenEdit.Untouched edits i := by decide
  obtain ⟨e', current, ran, line, stand, ordered⟩ :=
    TokenEdit.untouched_tokens_survive (.ofLines ["a = (b)  c"]) 1 "a = (b)  c" tokens edits rfl
      ⟨by decide, by decide, by decide, by decide, by decide⟩ (by decide) (by decide) (by decide)
  exact ⟨e', current, ran, line, fun i later => stand i (untouched i later),
    fun i j later earlier => ordered i j (untouched i later)
      (untouched j (Fin.le_trans later (Fin.le_of_lt earlier))) earlier⟩

end Survival

end SqlFerry
