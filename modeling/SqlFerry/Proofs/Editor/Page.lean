import SqlFerry.Proofs.Editor.Patchwork
import SqlFerry.Proofs.Editor.Survival

/-! What edits do to one line of a text. A triple says that an edit succeeds from every editor of some
kind and what the editor is like afterwards. The editors are described by a page, which is everything
around one line, and by the patches that the line shows. -/
namespace SqlFerry

open Patch
open Text (byteLength)

/-- From every editor with `before` the edit succeeds, and its result and editor have `after`. -/
def Yields {α : Type} (before : Editor → Prop) (edit : Edit α) (after : α → Editor → Prop) : Prop :=
  ∀ e, before e → ∃ a e', edit.run e = .ok a e' ∧ after a e'

namespace Yields

variable {α β : Type} {before before' : Editor → Prop} {after after' : α → Editor → Prop}

theorem pure {a : α} (holds : ∀ e, before e → after a e) :
    Yields before (Pure.pure a : Edit α) after :=
  fun e start => ⟨a, e, rfl, holds e start⟩

theorem bind {edit : Edit α} {next : α → Edit β} {last : β → Editor → Prop}
    (first : Yields before edit after) (second : ∀ a, Yields (after a) (next a) last) :
    Yields before (edit >>= next) last := by
  intro e start
  obtain ⟨a, e', ran, middle⟩ := first e start
  obtain ⟨b, e'', ran', stop⟩ := second a e' middle
  exact ⟨b, e'', by rw [EStateM.run_bind, ran]; exact ran', stop⟩

theorem weaken {edit : Edit α} (yields : Yields before edit after)
    (start : ∀ e, before' e → before e) (stop : ∀ a e, after a e → after' a e) :
    Yields before' edit after' := by
  intro e holds
  obtain ⟨a, e', ran, result⟩ := yields e (start e holds)
  exact ⟨a, e', ran, stop a e' result⟩

theorem of_imp {edit : Edit α} (yields : Yields before edit after)
    (start : ∀ e, before' e → before e) : Yields before' edit after :=
  yields.weaken start fun _ _ h => h

theorem discard {edit : Edit α} {last : Editor → Prop} (yields : Yields before edit fun _ => last) :
    Yields before (Functor.discard edit) fun _ => last := by
  intro e start
  obtain ⟨a, e', ran, stop⟩ := yields e start
  refine ⟨.unit, e', ?_, stop⟩
  change EStateM.map _ edit e = _
  change edit e = _ at ran
  rw [EStateM.map, ran]

theorem get {next : Editor → Edit α}
    (yields : ∀ e, before e → Yields (· = e) (next e) after) :
    Yields before (MonadState.get >>= next) after := by
  intro e start
  obtain ⟨a, e', ran, stop⟩ := yields e start e rfl
  exact ⟨a, e', ran, stop⟩

/-- One edit for each item, where `holds` describes the editor by the items that are left. -/
theorem forM {edit : α → Edit PUnit} (holds : List α → Editor → Prop) (items : List α)
    (step : ∀ item rest, item :: rest <:+ items →
      Yields (holds (item :: rest)) (edit item) fun _ => holds rest) :
    Yields (holds items) (items.forM edit) fun _ => holds [] := by
  induction items with
  | nil => exact Yields.pure fun _ h => h
  | cons item items ih =>
    refine (step item items (List.suffix_refl _)).bind fun _ => ih fun other rest suffix => ?_
    exact step other rest (suffix.trans (List.suffix_cons _ _))

end Yields

section Nodes

variable {κ : Type} [ToString κ] {tree : Tree κ} {node : Node κ} {text : String} {eats : Bool}
  {before after : Editor → Prop}

theorem Edit.replaceNode_eq {number column width : Nat} (start : node.start = ⟨number, column⟩)
    (stop : node.stop = ⟨number, column + width⟩) :
    Edit.replaceNode node text eats = Edit.replace number column width text eats := by
  have line : node.startToken.line = number := congrArg Position.line start
  have first : node.startToken.column = column := congrArg Position.column start
  have last : node.stopToken.stop = ⟨number, column + width⟩ := stop
  have single : node.isSingleLine = true := by simp [Node.isSingleLine, start, stop]
  rw [Edit.replaceNode, if_pos single, Edit.replaceTokens, last, line, first, if_pos rfl,
    Nat.add_sub_cancel_left]

/-- Where a node is still as it was, replacing it with care is replacing it. -/
theorem yields_replaceUntouched (untouched : ∀ e, before e → e.isUntouched tree node = true)
    (replaced : Yields before (Edit.replaceNode node text eats) fun _ => after) :
    Yields before (discard (Edit.replaceUntouched tree node text eats)) fun _ => after := by
  refine Yields.discard (Yields.get fun e start => ?_)
  rw [if_pos (untouched e start)]
  refine Yields.bind (replaced.of_imp ?_) fun _ => Yields.pure fun _ h => h
  rintro _ rfl
  exact start

end Nodes

/-- Everything around one line, and what may have been noted. -/
structure Page where
  front : List Line
  back : List Line
  notes : List Diagnostic → Prop

namespace Page

def number (page : Page) : Nat := page.front.length + 1

/-- The line of the page shows the patches. -/
def Shows (page : Page) (ps : List Patch) (e : Editor) : Prop :=
  ∃ l, e.Holds (page.front ++ l :: page.back) ∧ Patchwork l ps ∧ page.notes e.diagnostics

variable {page : Page} {ps qs front covered back : List Patch} {e : Editor}

theorem row?_number {l : Line} (holds : e.Holds (page.front ++ l :: page.back)) :
    row? e.lines page.number = some l := by
  simp [holds.lines_eq, row?, number]

theorem holds_setLine {l : Line} (holds : e.Holds (page.front ++ l :: page.back)) (l' : Line) :
    (e.setLine page.number l').Holds (page.front ++ l' :: page.back) := by
  simpa [setRow, number] using holds.setLine page.number l'

theorem Shows.coarsen (shown : page.Shows ps e) (coarser : Coarsens qs ps) : page.Shows qs e := by
  obtain ⟨l, holds, patched, notes⟩ := shown
  exact ⟨l, holds, patched.coarsen coarser, notes⟩

theorem Shows.textSpan (shown : page.Shows (front ++ covered ++ back) e) :
    e.textSpan ⟨page.number, widthOf front⟩ ⟨page.number, widthOf front + widthOf covered⟩ =
      .ofList (textOf covered) := by
  obtain ⟨l, holds, patched, -⟩ := shown
  rw [Editor.textSpan, if_pos rfl, Editor.textAt_of_row? (row?_number holds)]
  simp only [Nat.add_sub_cancel_left]
  exact patched.textAt

theorem yields_skip {κ : Type} (free : ∀ notes, page.notes notes) (node : Node κ)
    (message : String) (ps : List Patch) :
    Yields (page.Shows ps) (Edit.skip node message) fun _ => page.Shows ps := by
  rintro e ⟨l, holds, patched, -⟩
  exact ⟨(), _, rfl, l, ⟨holds.aligned, holds.lines_eq⟩, patched, free _⟩

/-- Replacing what stands at a stretch between two edges makes one patch of it and of the patches
directly in front of it. -/
theorem yields_replace (page : Page) (front middle covered back : List Patch) (new : String)
    (visible : textOf (middle ++ covered) ≠ [])
    (fits : byteLength (textOf front) + byteLength (textOf middle) + Text.size new +
      byteLength (textOf back) ≤ columnLimit) :
    Yields (page.Shows (front ++ middle ++ covered ++ back))
      (Edit.replace page.number (widthOf (front ++ middle)) (widthOf covered) new)
      fun _ => page.Shows
        (front ++ made (widthOf (middle ++ covered)) (textOf middle ++ new.toList) :: back) := by
  rintro e ⟨l, holds, patched, notes⟩
  have ran := Edit.replace_run (row?_number holds) (widthOf (front ++ middle)) (widthOf covered) new false
  exact ⟨(), _, ran, _, holds_setLine holds _, patched.replace visible fits, notes⟩

theorem yields_remove (page : Page) (front covered back : List Patch) {run : List Char}
    (visible : textOf covered ≠ []) (blank : ∀ c ∈ run, Text.isIndent c = true)
    (loose : (textOf front).getLast?.any Text.isWordChar = false)
    (ends : ∀ c ∈ (textOf back).head?, Text.isIndent c = false) :
    Yields (page.Shows (front ++ covered ++ kept run :: back))
      (Edit.replace page.number (widthOf front) (widthOf covered) "" true)
      fun _ => page.Shows (front ++ made (widthOf covered + byteLength run) [] :: back) := by
  rintro e ⟨l, holds, patched, notes⟩
  have ran := Edit.replace_run (row?_number holds) (widthOf front) (widthOf covered) "" true
  exact ⟨(), _, ran, _, holds_setLine holds _, patched.remove visible blank loose ends, notes⟩

end Page

/-- The token stands on a line at a column. -/
structure Token.On {κ : Type} (number column : Nat) (text : List Char) (token : Token κ) : Prop where
  line : token.line = number
  column : token.column = column
  flat : '\n' ∉ text
  visible : text ≠ []
  text : token.text.toList = text

namespace Token.On

variable {κ : Type} {number column : Nat} {text : List Char} {token : Token κ}

theorem start (on : token.On number column text) : token.start = ⟨number, column⟩ := by
  rw [Token.start, on.line, on.column]

theorem size (on : token.On number column text) : token.size = byteLength text := by
  rw [Token.size, Text.size, on.text]

theorem stop (on : token.On number column text) :
    token.stop = ⟨number, column + byteLength text⟩ := by
  rw [Token.stop, on.text, Position.advance_of_no_line_end _ on.flat, on.start]

end Token.On

end SqlFerry
