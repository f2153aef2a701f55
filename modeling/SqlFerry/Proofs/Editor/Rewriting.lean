import SqlFerry.Proofs.Editor.Page

/-! Rewriting a line part by part. An edit is described by the patches that it changes, by what it needs
of the texts in front of them and behind them, and by the room that it needs on the line. Edits of
different parts of a line can then be put together in the order in which they are made. -/
namespace SqlFerry

open Patch
open Text (byteLength)

/-- The edit turns patches of the line from a column on into others, wherever the texts in front of
them and behind them pass. -/
def Rewrites (page : Page) (ahead behind : List Char → Prop) (room column : Nat) (old : List Patch)
    (edit : Edit Unit) (new : List Patch) : Prop :=
  ∀ front back, widthOf front = column → ahead (textOf front) → behind (textOf back) →
    byteLength (textOf front) + room + byteLength (textOf back) ≤ columnLimit →
    Yields (page.Shows (front ++ old ++ back)) edit fun _ => page.Shows (front ++ new ++ back)

def AnyText (_ : List Char) : Prop := True

/-- The text ends with no part of a word. -/
def EndsLoose (text : List Char) : Prop := text.getLast?.any Text.isWordChar = false

/-- The text starts with no blank. -/
def StartsTight (text : List Char) : Prop := ∀ c ∈ text.head?, Text.isIndent c = false

namespace Rewrites

variable {page : Page} {ahead ahead' behind behind' : List Char → Prop} {room room' column : Nat}
  {old old' middle new new' : List Patch} {edit next : Edit Unit}

theorem weaken (rewrites : Rewrites page ahead behind room column old edit new)
    (front : ∀ text, ahead' text → ahead text) (back : ∀ text, behind' text → behind text)
    (more : room ≤ room') : Rewrites page ahead' behind' room' column old edit new :=
  fun _ _ start before after fits => rewrites _ _ start (front _ before) (back _ after) (by omega)

theorem coarsen (rewrites : Rewrites page ahead behind room column old edit new)
    (before : Coarsens old old') (after : Coarsens new' new) :
    Rewrites page ahead behind room column old' edit new' := by
  intro front back start passes passes' fits
  refine (rewrites front back start passes passes' fits).weaken (fun e shown => ?_) fun _ e shown => ?_
  · exact shown.coarsen (((Coarsens.refl front).append before).append (.refl back))
  · exact shown.coarsen (((Coarsens.refl front).append after).append (.refl back))

theorem seq (first : Rewrites page ahead behind room column old edit middle)
    (second : Rewrites page ahead behind room column middle next new) :
    Rewrites page ahead behind room column old (edit >>= fun _ => next) new :=
  fun _ _ start before after fits =>
    (first _ _ start before after fits).bind fun _ => second _ _ start before after fits

theorem inside (left right : List Patch)
    (rewrites : Rewrites page ahead' behind' room (column + widthOf left) old edit new)
    (front : ∀ text, ahead text → ahead' (text ++ textOf left))
    (back : ∀ text, behind text → behind' (textOf right ++ text))
    (more : byteLength (textOf left) + room + byteLength (textOf right) ≤ room') :
    Rewrites page ahead behind room' column (left ++ old ++ right) edit (left ++ new ++ right) := by
  intro before after start passes passes' fits
  have there := rewrites (before ++ left) (right ++ after) (by rw [widthOf_append, start])
    (by rw [textOf_append]; exact front _ passes) (by rw [textOf_append]; exact back _ passes')
    (by simp only [textOf_append, Text.byteLength_append]; omega)
  simpa using there

theorem insert (visible : textOf old ≠ []) (text : String)
    (fits : byteLength (textOf old) + Text.size text ≤ room) :
    Rewrites page ahead behind room column old
      (Edit.insert page.number (column + widthOf old) text)
      [made (widthOf old) (textOf old ++ text.toList)] := by
  intro front back start _ _ total
  have yields := page.yields_replace front old [] back text (by simpa using visible) (by omega)
  rw [← start, Edit.insert]
  simpa using yields

theorem insertInside (left right : List Patch) {width : Nat} {shown : List Char} (visible : shown ≠ [])
    (text : String)
    (fits : byteLength (textOf left) + (byteLength shown + Text.size text) +
      byteLength (textOf right) ≤ room) :
    Rewrites page AnyText AnyText room column (left ++ [made width shown] ++ right)
      (Edit.insert page.number (column + widthOf left + width) text)
      (left ++ [made width (shown ++ text.toList)] ++ right) := by
  have here := @insert page AnyText AnyText (byteLength shown + Text.size text)
    (column + widthOf left) [made width shown] (by simpa using visible) text (by simp)
  simpa using here.inside left right (fun _ _ => trivial) (fun _ _ => trivial) fits

/-- Patches that go together with the blanks behind them. -/
theorem remove {run : List Char} (visible : textOf old ≠ [])
    (blank : ∀ c ∈ run, Text.isIndent c = true) :
    Rewrites page EndsLoose StartsTight room column (old ++ [kept run])
      (Edit.replace page.number column (widthOf old) "" true)
      [made (widthOf old + byteLength run) []] := by
  intro front back start loose ends _
  have yields := page.yields_remove front old back visible blank loose ends
  rw [← start]
  simpa using yields

end Rewrites

end SqlFerry
