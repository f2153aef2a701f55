import SqlFerry.Proofs.Editor.Page
import SqlFerry.Proofs.Span

/-! Editing a text from its start to its end. Behind the place that a sweep has reached the text is
still as it was, and in front of it stands what has been put there so far. The sweep goes on by leaving
characters as they are or by replacing a stretch of a line, which may itself bring line ends. -/
namespace SqlFerry

open Patch
open Text (byteLength lastLine gather pieces)

namespace Text

theorem gather_append_last (sep : List Char) (texts : List (List Char)) (last more : List Char) :
    gather sep (texts ++ [last]) ++ more = gather sep (texts ++ [last ++ more]) := by
  induction texts with
  | nil => rfl
  | cons text texts ih =>
    cases texts with
    | nil => simp [gather]
    | cons next texts =>
      rw [List.cons_append, List.cons_append, gather_cons_cons, List.cons_append, List.cons_append,
        gather_cons_cons, List.append_assoc, ← List.cons_append, ih, List.cons_append]

theorem gather_append_nil (sep : List Char) (texts : List (List Char)) (last : List Char) :
    gather sep (texts ++ [last] ++ [[]]) = gather sep (texts ++ [last]) ++ sep := by
  induction texts with
  | nil => simp [gather]
  | cons text texts ih =>
    cases texts with
    | nil => simp [gather]
    | cons next texts =>
      simp only [List.cons_append, gather_cons_cons, List.append_assoc] at ih ⊢
      rw [ih]

theorem byteLength_last_le (sep : List Char) (texts : List (List Char)) (last : List Char) :
    byteLength last ≤ byteLength (gather sep (texts ++ [last])) := by
  have split := gather_append_last sep texts [] last
  rw [List.nil_append] at split
  rw [← split, byteLength_append]
  omega

theorem lastLine_append_of_flat (xs : List Char) {ys : List Char} (flat : '\n' ∉ ys) :
    lastLine (xs ++ ys) = lastLine xs ++ ys := by
  have shape : pieces (· == '\n') ys = ys :: [] := by
    rw [pieces_eq_frontLines, frontLines_eq_nil.mpr flat, lastLine_of_not_mem flat]
    rfl
  have whole := pieces_append xs ys shape
  rw [pieces_eq_frontLines] at whole
  exact List.singleton_inj.mp (List.append_inj' whole rfl).2

theorem lastLine_append_line_end (cs : List Char) : lastLine (cs ++ ['\n']) = [] := by
  induction cs with
  | nil => rfl
  | cons c cs ih => rw [List.cons_append, lastLine_of_mem_tail c (by simp), ih]

theorem byteLength_first_le {cs first : List Char} {rest : List (List Char)}
    (shape : pieces (· == '\n') cs = first :: rest) : byteLength first ≤ byteLength cs := by
  have whole := gather_pieces '\n' cs
  rw [shape] at whole
  cases rest with
  | nil => rw [← whole]; exact Nat.le_refl _
  | cons next rest =>
    rw [← whole, gather_cons_cons, byteLength_append, byteLength_append]
    omega

end Text

theorem coarsens_step (width : Nat) (shown text rest : List Char) :
    Coarsens [made (width + byteLength text) (shown ++ text), kept rest]
      [made width shown, kept (text ++ rest)] := by
  have cut := (Coarsens.refl [made width shown]).append (coarsens_cut text rest)
  simpa using (coarsens_front [made width shown, kept text] [kept rest]).trans cut

/-- The editor has got past `before` and shows `done` in its place, and `after` is as it was. -/
def Swept (before after done : List Char) (e : Editor) : Prop :=
  ∃ (front : List Line) (shown first : List Char) (rest : List (List Char)),
    pieces (· == '\n') after = first :: rest ∧ front.length = before.count '\n' ∧
    gather ['\n'] (front.map (·.text.toList) ++ [shown]) = done ∧
    Page.Shows ⟨front, rest.map fun line => { text := .ofList line }, (· = [])⟩
      [made (byteLength (lastLine before)) shown, kept first] e

namespace Swept

variable {before after done text : List Char} {e : Editor} {new : String}

theorem patchwork_fresh {first : List Char} (fits : byteLength first ≤ columnLimit) :
    Patchwork { text := .ofList first } [made 0 [], kept first] := by
  have whole : Patchwork { text := .ofList first } [kept (String.ofList first).toList] :=
    .ofText (by simpa using fits)
  rw [String.toList_ofList] at whole
  exact whole.coarsen (coarsens_front [] [kept first])

theorem ofLines (source : String) (fits : Text.size source ≤ columnLimit) :
    Swept [] source.toList [] (.ofLines (Text.lines source)) := by
  obtain ⟨first, rest, shape⟩ :=
    List.exists_cons_of_ne_nil (Text.pieces_ne_nil (· == '\n') source.toList)
  have short := Nat.le_trans (Text.byteLength_first_le shape) fits
  refine ⟨[], [], first, rest, shape, rfl, rfl, { text := .ofList first }, ?_,
    patchwork_fresh short, rfl⟩
  simpa [Text.lines, Text.splitOn, shape, Function.comp_def] using Editor.holds_ofLines (Text.lines source)

theorem skip {c : Char} (swept : Swept before (c :: after) done e)
    (fits : byteLength after ≤ columnLimit) : Swept (before ++ [c]) after (done ++ [c]) e := by
  obtain ⟨front, shown, first, rest, shape, length, rfl, l, holds, patched, notes⟩ := swept
  obtain ⟨next, more, shape'⟩ := List.exists_cons_of_ne_nil (Text.pieces_ne_nil (· == '\n') after)
  simp only [pieces, shape', beq_iff_eq] at shape
  split at shape
  · next lineEnd =>
    subst lineEnd
    obtain ⟨rfl, rfl⟩ := List.cons.inj shape
    have text : l.text.toList = shown := by simpa using patched.text
    refine ⟨front ++ [l], [], next, more, shape', ?_, ?_, { text := .ofList next }, ?_, ?_, notes⟩
    · simp [length]
    · rw [List.map_append, List.map_singleton, text, Text.gather_append_nil]
    · simpa using holds
    · rw [Text.lastLine_append_line_end]
      exact patchwork_fresh (Nat.le_trans (Text.byteLength_first_le shape') fits)
  · next other =>
    obtain ⟨rfl, rfl⟩ := List.cons.inj shape
    refine ⟨front, shown ++ [c], next, more, shape', ?_, ?_, l, holds, ?_, notes⟩
    · simp [length, other]
    · rw [Text.gather_append_last]
    · rw [Text.lastLine_append_of_flat before (by simpa using Ne.symm other), Text.byteLength_append]
      exact patched.coarsen (coarsens_step _ shown [c] next)

theorem skipAll (swept : Swept before (text ++ after) done e)
    (fits : byteLength (text ++ after) ≤ columnLimit) :
    Swept (before ++ text) after (done ++ text) e := by
  induction text generalizing before done with
  | nil => simpa using swept
  | cons c text ih =>
    rw [List.cons_append] at swept fits
    rw [Text.byteLength] at fits
    have rest := ih (swept.skip (by omega)) (by omega)
    simpa using rest

section Stretch

variable (swept : Swept before (text ++ after) done e) (flat : '\n' ∉ text)

include swept flat

/-- The line at which the sweep stands, with the stretch that comes next. -/
theorem stretch : ∃ (page : Page) (shown first : List Char) (rest : List (List Char)),
    page = ⟨page.front, rest.map fun line => { text := .ofList line }, (· = [])⟩ ∧
    pieces (· == '\n') after = first :: rest ∧ page.front.length = before.count '\n' ∧
    Position.origin.advance before = ⟨page.number, byteLength (lastLine before)⟩ ∧
    gather ['\n'] (page.front.map (·.text.toList) ++ [shown]) = done ∧
    page.Shows ([made (byteLength (lastLine before)) shown] ++ [kept text] ++ [kept first]) e := by
  obtain ⟨front, shown, first, rest, shape, length, done, onPage⟩ := swept
  obtain ⟨next, more, shape'⟩ := List.exists_cons_of_ne_nil (Text.pieces_ne_nil (· == '\n') after)
  have whole := Text.pieces_append text after shape'
  rw [Text.frontLines_eq_nil.mpr flat, Text.lastLine_of_not_mem flat, shape] at whole
  obtain ⟨rfl, rfl⟩ := List.cons.inj whole
  refine ⟨⟨front, _, _⟩, shown, next, rest, rfl, shape', length, ?_, done, onPage.coarsen ?_⟩
  · rw [Position.advance_origin, Page.number, length, Nat.add_comm]
  · exact (Coarsens.refl [_]).append (coarsens_cut text next)

theorem textSpan : e.textSpan (Position.origin.advance before)
    ((Position.origin.advance before).advance text) = .ofList text := by
  obtain ⟨page, shown, first, rest, -, -, -, start, -, onPage⟩ := swept.stretch flat
  rw [Position.advance_of_no_line_end _ flat, start]
  simpa using onPage.textSpan

theorem replace (visible : text ≠ [])
    (fits : byteLength done + Text.size new + byteLength after ≤ columnLimit) :
    Yields (· = e) (Edit.replace (Position.origin.advance before).line
        (Position.origin.advance before).column (byteLength text) new)
      fun _ => Swept (before ++ text) after (done ++ new.toList) := by
  obtain ⟨page, shown, first, rest, isPage, shape, length, start, rfl, onPage⟩ :=
    swept.stretch flat
  have shownFits := Text.byteLength_last_le ['\n'] (page.front.map (·.text.toList)) shown
  have firstFits := Text.byteLength_first_le shape
  have yields := page.yields_replace [made (byteLength (lastLine before)) shown] [] [kept text]
    [kept first] new (by simpa using visible) (by simp; omega)
  rw [start]
  refine yields.weaken ?_ ?_
  · rintro _ rfl
    exact onPage
  · rintro - e' onPage'
    have count : (before ++ text).count '\n' = page.front.length := by
      rw [List.count_append, List.count_eq_zero.mpr flat, length, Nat.add_zero]
    have last : byteLength (lastLine (before ++ text)) =
        byteLength (lastLine before) + byteLength text := by
      rw [Text.lastLine_append_of_flat before flat, Text.byteLength_append]
    refine ⟨page.front, shown ++ new.toList, first, rest, shape, count.symm, ?_, ?_⟩
    · rw [Text.gather_append_last]
    · rw [← isPage, last]
      have merged := coarsens_front [made (byteLength (lastLine before)) shown,
        made (byteLength text) new.toList] [kept first]
      exact onPage'.coarsen (by simpa using merged)

end Stretch

/-- A sweep that is over. -/
theorem joined (swept : Swept before [] done e) : e.buffer.joined = .ofList done := by
  obtain ⟨front, shown, first, rest, shape, length, rfl, l, holds, patched, notes⟩ := swept
  obtain ⟨rfl, rfl⟩ := List.cons.inj shape
  have text : l.text.toList = shown := by simpa using patched.text
  have texts : e.buffer.lines = _ := holds.texts
  simp [Buffer.joined, texts, Text.unlines, Text.join, text, Function.comp_def]

end Swept

end SqlFerry
