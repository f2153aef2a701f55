import SqlFerry.Proofs.Editor.Survival

/-! What a call of the editor can do to a text. Whatever the arguments are, columns are brought to the
characters of the line first, so every change of a line is a splice between two of its boundaries or two
such splices, and the shifts account for each of them. A call that edits a single place is refused before
anything is changed, or it changes one line in this way. -/
namespace SqlFerry

open Text (StandsAt)

variable {κ : Type}

theorem row_setRow_of_ne {α : Type} {rows : List α} {number other : Nat} (apart : other ≠ number) (new : α) :
    row (setRow rows number new) other = row rows other := by
  simp only [row, row?_setRow_of_ne apart, length_setRow]

namespace Line

/-- The line has been edited: its shifts go on with at most `n` more, and these add up to what its text
has gained. -/
structure Grows (n : Nat) (l l' : Line) : Prop where
  shifts : ∃ added : Shifts, l'.shifts = l.shifts ++ added ∧ added.length ≤ n
  exact : l'.shifts.total - Text.size l'.text = l.shifts.total - Text.size l.text

theorem Grows.refl (l : Line) (n : Nat) : Grows n l l :=
  ⟨⟨[], by simp⟩, rfl⟩

theorem Grows.trans {m n : Nat} {l l' l'' : Line} (first : Grows m l l') (second : Grows n l' l'') :
    Grows (m + n) l l'' := by
  obtain ⟨added, shifts, few⟩ := first.shifts
  obtain ⟨added', shifts', few'⟩ := second.shifts
  refine ⟨⟨added ++ added', by rw [shifts', shifts, List.append_assoc], ?_⟩,
    second.exact.trans first.exact⟩
  rw [List.length_append]
  omega

theorem Grows.mono {m n : Nat} {l l' : Line} (grows : Grows m l l') (most : m ≤ n) : Grows n l l' := by
  obtain ⟨added, shifts, few⟩ := grows.shifts
  exact ⟨⟨added, shifts, Nat.le_trans few most⟩, grows.exact⟩

theorem grows_splice (l : Line) {start stop : Nat} (text : String) (left : StandsAt l.text start "")
    (right : StandsAt l.text stop "") (ordered : start ≤ stop) : Grows 1 l (l.splice start stop text) where
  shifts := by
    unfold splice Shifts.record
    split
    · exact ⟨[], by simp⟩
    · exact ⟨[_], rfl, Nat.le_refl 1⟩
  exact := by
    have size := Text.size_splice text left right ordered
    simp only [splice, Shifts.total_record]
    omega

theorem place_boundary (l : Line) (column : Nat) : StandsAt l.text (l.place column) "" :=
  Text.standsAt_floorColumn _ _

theorem eat_floorColumn (l : Line) (column : Nat) : l.eat (Text.floorColumn l.text column) = l.eat column := by
  have same := (Text.standsAt_floorColumn l.text column).floorColumn_eq
  simp only [eat, same]

theorem grows_eat (l : Line) (column : Nat) : Grows 1 l (l.eat column).1 := by
  have boundary := Text.standsAt_floorColumn l.text column
  rw [← eat_floorColumn]
  rcases l.eat_cases boundary with same | ⟨stop, kept, eaten, spliced⟩
  · rw [same]
    exact .refl l 1
  · have shrinks := eaten.shrinks
    rw [spliced]
    exact l.grows_splice kept boundary eaten.boundary (by omega)

/-- A replaced stretch ends at a boundary, also where its end would lie in front of its start. -/
theorem stop_boundary (l : Line) (column length : Nat) :
    StandsAt l.text (max (l.place column) (l.place (columnBehind column length))) "" := by
  rcases Nat.le_total (l.place column) (l.place (columnBehind column length)) with h | h
  · rw [Nat.max_eq_right h]
    exact l.place_boundary _
  · rw [Nat.max_eq_left h]
    exact l.place_boundary _

theorem grows_replace (l : Line) (column length : Nat) (text : String) (eats : Bool) :
    Grows 2 l (l.replace column length text eats) := by
  have spliced := l.grows_splice text (l.place_boundary column) (l.stop_boundary column length)
    (Nat.le_max_left _ _)
  unfold replace
  split
  · exact spliced.trans (grows_eat _ _)
  · exact spliced.mono (by decide)

end Line

/-- What is left of the editor, whether the edit succeeds or fails. -/
def Edit.after {α : Type} (edit : Edit α) (e : Editor) : Editor :=
  match edit.run e with
  | .ok _ e' | .error _ e' => e'

/-- A call that edits a single place. -/
inductive PlaceEdit (κ : Type) where
  | replace (line column length : Nat) (text : String) (eats : Bool)
  | insert (line column : Nat) (text : String) (eats : Bool)
  | replaceToken (token : Token κ) (text : String) (eats : Bool)
  | removeToken (token : Token κ) (eats : Bool)
  | replaceTokens (first last : Token κ) (text : String) (eats : Bool)
  | removeBetween (first last : Token κ) (eats : Bool)
  | insertBeforeToken (token : Token κ) (text : String) (eats : Bool)
  | insertAfterToken (token : Token κ) (text : String) (eats : Bool)
  | replaceNode (node : Node κ) (text : String) (eats : Bool)
  | replaceUntouched (tree : Tree κ) (node : Node κ) (text : String) (eats : Bool)
  | removeWhole (node : Node κ)
  | removeFirstToken (node : Node κ)
  | insertBefore (node : Node κ) (text : String) (eats : Bool)
  | insertAfter (node : Node κ) (text : String) (eats : Bool)

/-- Any call that may change an editor. -/
inductive EditorCall (κ : Type) where
  | place (edit : PlaceEdit κ)
  | eat (line column : Nat)
  | indentRegion (first last : Nat) (indent : String)
  | skip (node : Node κ) (message : String)
  | takeDiagnostics

def Edit.made (edit : Edit Unit) : Edit Bool := do
  edit
  return true

/-- The edit, and whether it is made. -/
def PlaceEdit.run [ToString κ] : PlaceEdit κ → Edit Bool
  | replace line column length text eats => (Edit.replace line column length text eats).made
  | insert line column text eats => (Edit.insert line column text eats).made
  | replaceToken token text eats => (Edit.replaceToken token text eats).made
  | removeToken token eats => (Edit.removeToken token eats).made
  | replaceTokens first last text eats => (Edit.replaceTokens first last text eats).made
  | removeBetween first last eats => (Edit.removeBetween first last eats).made
  | insertBeforeToken token text eats => (Edit.insertBeforeToken token text eats).made
  | insertAfterToken token text eats => (Edit.insertAfterToken token text eats).made
  | replaceNode node text eats => (Edit.replaceNode node text eats).made
  | replaceUntouched tree node text eats => Edit.replaceUntouched tree node text eats
  | removeWhole node => (Edit.removeWhole node).made
  | removeFirstToken node => (Edit.removeFirstToken node).made
  | insertBefore node text eats => (Edit.insertBefore node text eats).made
  | insertAfter node text eats => (Edit.insertAfter node text eats).made

def EditorCall.after [ToString κ] (e : Editor) : EditorCall κ → Editor
  | place edit => edit.run.after e
  | eat line column => (Edit.eat line column).after e
  | indentRegion first last indent => (Edit.indentRegion first last indent).after e
  | skip node message => (Edit.skip node message).after e
  | takeDiagnostics => { e with diagnostics := [] }

section Place

/-- The ways in which a call that edits a single place can end: it is refused, or there is nothing to do,
and the editor stays as it was; one line is edited; or a note says that nothing was done. -/
inductive EndsLocally (e : Editor) : EStateM.Result EditError Editor Bool → Prop where
  | refused (error : EditError) : EndsLocally e (.error error e)
  | idle : EndsLocally e (.ok true e)
  | edited {number : Nat} {l l' : Line} (present : row? e.lines number = some l) (grows : l.Grows 2 l') :
    EndsLocally e (.ok true (e.setLine number l'))
  | noted (note : Diagnostic) : EndsLocally e (.ok false { e with diagnostics := e.diagnostics ++ [note] })

variable {e : Editor}

theorem endsLocally_throw (error : EditError) : EndsLocally e ((throw error : Edit Unit).made.run e) :=
  .refused error

variable (aligned : e.Aligned)
include aligned

theorem endsLocally_replace (number column length : Nat) (text : String) (eats : Bool) :
    EndsLocally e ((Edit.replace number column length text eats).made.run e) := by
  rw [Edit.made, EStateM.run_bind]
  rcases aligned.row?_cases number with ⟨l, present⟩ | missing
  · rw [Edit.replace_run present]
    exact .edited present (l.grows_replace column length text eats)
  · rw [Edit.replace_run_of_missing missing]
    exact .refused _

theorem endsLocally_replaceToken [ToString κ] (token : Token κ) (text : String) (eats : Bool) :
    EndsLocally e ((Edit.replaceToken token text eats).made.run e) := by
  unfold Edit.replaceToken
  split
  · exact endsLocally_replace aligned _ _ _ _ _
  · exact endsLocally_throw _

theorem endsLocally_replaceTokens (first last : Token κ) (text : String) (eats : Bool) :
    EndsLocally e ((Edit.replaceTokens first last text eats).made.run e) := by
  unfold Edit.replaceTokens
  split
  · exact endsLocally_replace aligned _ _ _ _ _
  · exact endsLocally_throw _

theorem endsLocally_removeBetween (first last : Token κ) (eats : Bool) :
    EndsLocally e ((Edit.removeBetween first last eats).made.run e) := by
  unfold Edit.removeBetween
  split
  · split
    · exact endsLocally_replace aligned _ _ _ _ _
    · exact .idle
  · exact endsLocally_throw _

theorem endsLocally_replaceNode [ToString κ] (node : Node κ) (text : String) (eats : Bool) :
    EndsLocally e ((Edit.replaceNode node text eats).made.run e) := by
  unfold Edit.replaceNode
  split
  · exact endsLocally_replaceTokens aligned _ _ _ _
  · exact endsLocally_throw _

theorem endsLocally_replaceUntouched [ToString κ] (tree : Tree κ) (node : Node κ) (text : String)
    (eats : Bool) : EndsLocally e ((Edit.replaceUntouched tree node text eats).run e) := by
  by_cases untouched : e.isUntouched tree node = true
  · have same : (Edit.replaceUntouched tree node text eats).run e =
        (Edit.replaceNode node text eats).made.run e := by
      simp only [Edit.replaceUntouched, Edit.made, EStateM.run_bind, EStateM.run_get, untouched, if_true]
    rw [same]
    exact endsLocally_replaceNode aligned node text eats
  · simp only [Edit.replaceUntouched, Edit.skip, EStateM.run_bind, EStateM.run_get, untouched]
    exact .noted _

/-- Each call that edits a single place is a replacement on one line, if it is not refused. -/
theorem PlaceEdit.endsLocally [ToString κ] (edit : PlaceEdit κ) : EndsLocally e (edit.run.run e) := by
  cases edit with
  | replace line column length text eats => exact endsLocally_replace aligned line column length text eats
  | insert line column text eats => exact endsLocally_replace aligned line column 0 text eats
  | replaceToken token text eats => exact endsLocally_replaceToken aligned token text eats
  | removeToken token eats => exact endsLocally_replaceToken aligned token "" eats
  | replaceTokens first last text eats => exact endsLocally_replaceTokens aligned first last text eats
  | removeBetween first last eats => exact endsLocally_removeBetween aligned first last eats
  | insertBeforeToken token text eats => exact endsLocally_replace aligned _ _ 0 text eats
  | insertAfterToken token text eats => exact endsLocally_replace aligned _ _ 0 text eats
  | replaceNode node text eats => exact endsLocally_replaceNode aligned node text eats
  | replaceUntouched tree node text eats => exact endsLocally_replaceUntouched aligned tree node text eats
  | removeWhole node =>
    cases node with
    | leaf id index token => exact endsLocally_replaceToken aligned token "" true
    | rule id kind first rest => exact endsLocally_replaceNode aligned _ "" true
  | removeFirstToken node => exact endsLocally_replaceToken aligned _ "" true
  | insertBefore node text eats => exact endsLocally_replace aligned _ _ 0 text eats
  | insertAfter node text eats => exact endsLocally_replace aligned _ _ 0 text eats

end Place

namespace Editor

/-- Every line has shifts, and they add up to what the line has gained over the unedited `lines`. -/
structure Accounts (lines : List String) (e : Editor) : Prop where
  aligned : e.Aligned
  count : e.buffer.lineCount = lines.length
  exact : ∀ {number : Nat} {l : Line} {original : String}, row? e.lines number = some l →
    row? lines number = some original → l.shifts.total = (Text.size l.text : Int) - Text.size original

theorem accounts_ofLines (lines : List String) : Accounts lines (.ofLines lines) where
  aligned := aligned_ofLines lines
  count := rfl
  exact := by
    intro number l original present unedited
    rw [lines_ofLines, row?_map, unedited] at present
    obtain rfl := Option.some.inj present
    simp [Shifts.total]

section Accounts

variable {lines : List String} {e : Editor} {number n : Nat} {l l' : Line}

theorem Accounts.setLine (accounts : Accounts lines e) (present : row? e.lines number = some l)
    (grows : l.Grows n l') : Accounts lines (e.setLine number l') where
  aligned := accounts.aligned.setLine number l'
  count := (length_setRow _ _ _).trans accounts.count
  exact := by
    intro other line original found unedited
    rw [lines_setLine] at found
    by_cases same : other = number
    · subst same
      rw [row?_setRow (by simp [present])] at found
      obtain rfl := Option.some.inj found
      have before := accounts.exact present unedited
      have gained := grows.exact
      omega
    · rw [row?_setRow_of_ne same] at found
      exact accounts.exact found unedited

theorem Accounts.notes (accounts : Accounts lines e) (notes : List Diagnostic) :
    Accounts lines { e with diagnostics := notes } :=
  ⟨accounts.aligned, accounts.count, accounts.exact⟩

theorem Accounts.eat (accounts : Accounts lines e) (number column : Nat) :
    Accounts lines ((Edit.eat number column).after e) := by
  rw [Edit.after]
  rcases accounts.aligned.row?_cases number with ⟨l, present⟩ | missing
  · rw [Edit.eat_run present]
    exact accounts.setLine present (l.grows_eat column)
  · rw [Edit.eat_run_of_missing missing]
    exact accounts

theorem Accounts.indentLines (accounts : Accounts lines e) (indent : String) (count line : Nat) :
    Accounts lines ((Edit.indentRegion.indentLines indent line count).after e) := by
  induction count generalizing line e with
  | zero => exact accounts
  | succ count ih =>
    simp only [Edit.indentRegion.indentLines, Edit.after, EStateM.run_bind]
    rcases accounts.aligned.row?_cases line with ⟨l, present⟩ | missing
    · have grows : l.Grows 1 (l.splice 0 0 indent) :=
        l.grows_splice indent (Text.standsAt_zero _) (Text.standsAt_zero _) (Nat.le_refl 0)
      rw [Edit.splice_run present]
      exact ih (accounts.setLine present grows) (line + 1)
    · rw [Edit.splice_run_of_missing missing]
      exact accounts

theorem Accounts.call [ToString κ] (accounts : Accounts lines e) (call : EditorCall κ) :
    Accounts lines (call.after e) := by
  cases call with
  | place edit =>
    have ends := edit.endsLocally accounts.aligned
    simp only [EditorCall.after, Edit.after]
    generalize edit.run.run e = result at ends
    cases ends with
    | refused error => exact accounts
    | idle => exact accounts
    | edited present grows => exact accounts.setLine present grows
    | noted note => exact accounts.notes _
  | eat line column => exact accounts.eat line column
  | indentRegion first last indent => exact accounts.indentLines indent _ _
  | skip node message => exact accounts.notes _
  | takeDiagnostics => exact accounts.notes _

theorem Accounts.calls [ToString κ] (accounts : Accounts lines e) (calls : List (EditorCall κ)) :
    Accounts lines (calls.foldl EditorCall.after e) := by
  induction calls generalizing e with
  | nil => exact accounts
  | cons call calls ih => exact ih (accounts.call call)

end Accounts

/-- The lengths of the lines and of their shifts agree: there is one list of shifts for each line, and it
adds up to what the line has gained over the unedited one. -/
structure Exact (lines : List String) (e : Editor) : Prop where
  ledger : e.ledger.lineCount = e.buffer.lineCount
  buffer : e.buffer.lineCount = lines.length
  gained : ∀ number current original, e.line number = .ok current → row? lines number = some original →
    (e.ledger.entries number).total = (Text.size current : Int) - Text.size original

theorem Accounts.isExact {lines : List String} {e : Editor} (accounts : Accounts lines e) :
    Exact lines e where
  ledger := accounts.aligned
  buffer := accounts.count
  gained := by
    intro number current original read unedited
    have found : row? e.buffer.lines number = some current := by
      rw [line, Buffer.line, row] at read
      split at read
      · next isLine => rw [isLine, Except.ok.inj read]
      · cases read
    obtain ⟨l, present, rfl⟩ := accounts.aligned.exists_row found
    rw [entries_of_row? present]
    exact accounts.exact present unedited

/-- At most one line changes: all others keep their texts and shifts, and its own shifts go on with at most
two more. -/
structure ChangesOneLine (e e' : Editor) (number : Nat) : Prop where
  texts : ∀ other, other ≠ number → e'.line other = e.line other
  shifts : ∀ other, other ≠ number → e'.ledger.entries other = e.ledger.entries other
  added : ∃ added : Shifts, e'.ledger.entries number = e.ledger.entries number ++ added ∧ added.length ≤ 2
  notes : e'.diagnostics = e.diagnostics

theorem ChangesOneLine.refl (e : Editor) (number : Nat) : ChangesOneLine e e number :=
  ⟨fun _ _ => rfl, fun _ _ => rfl, ⟨[], by simp⟩, rfl⟩

theorem changesOneLine_setLine {e : Editor} {number : Nat} {l l' : Line}
    (present : row? e.lines number = some l) (grows : l.Grows 2 l') :
    ChangesOneLine e (e.setLine number l') number where
  texts := fun _ apart => row_setRow_of_ne apart _
  shifts := by
    intro other apart
    simp only [setLine, Ledger.entries, row?_setRow_of_ne apart]
  added := by
    rw [entries_of_row? present, entries_of_row? (row?_setLine present l')]
    exact grows.shifts
  notes := rfl

/-- After any calls with any arguments, the shifts of each line account for its length, and a call that
edits a single place either fails and leaves the editor as it was, or changes at most one line, or does
nothing but to add a note. -/
theorem place_edits_atomic [ToString κ] (lines : List String) (calls : List (EditorCall κ))
    (edit : PlaceEdit κ) :
    let e := calls.foldl EditorCall.after (ofLines lines)
    Exact lines e ∧
      match edit.run.run e with
      | .error _ e' => e' = e
      | .ok true e' => ∃ number, ChangesOneLine e e' number
      | .ok false e' => ∃ note, e' = { e with diagnostics := e.diagnostics ++ [note] } := by
  intro e
  have accounts : Accounts lines e := (accounts_ofLines lines).calls calls
  refine ⟨accounts.isExact, ?_⟩
  have ends := edit.endsLocally accounts.aligned
  generalize edit.run.run e = result at ends
  cases ends with
  | refused error => rfl
  | idle => exact ⟨0, .refl e 0⟩
  | edited present grows => exact ⟨_, changesOneLine_setLine present grows⟩
  | noted note => exact ⟨note, rfl⟩

end Editor

end SqlFerry
