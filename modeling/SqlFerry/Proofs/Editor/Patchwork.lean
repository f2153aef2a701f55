import Mathlib.Algebra.GroupWithZero.Nat
import SqlFerry.Proofs.Editor.Line

/-! A line under edit as a row of patches. Each patch covers a stretch of the unedited line: it shows
the stretch as it was, or another text in its place. The row tells the text of the line and, for the
columns at the edges of patches and inside kept stretches, where they are now. Text that is put at a
column goes in front of everything that has been resolved to the same place; a splice therefore makes
one patch out of what it replaces and the patches directly in front of it, as long as they show some
text that holds the place of their first column. -/
namespace SqlFerry

open Text (byteLength StandsAt)

/-- A stretch of the unedited line as it is now. -/
inductive Patch where
  | kept (text : List Char)
  /-- The text in the place of `width` bytes. -/
  | made (width : Nat) (text : List Char)

namespace Patch

def width : Patch → Nat
  | kept text => byteLength text
  | made width _ => width

def text : Patch → List Char
  | kept text => text
  | made _ text => text

def widthOf (ps : List Patch) : Nat := (ps.map width).sum

def textOf (ps : List Patch) : List Char := ps.flatMap text

@[simp] theorem width_kept (text : List Char) : (kept text).width = byteLength text := rfl
@[simp] theorem width_made (n : Nat) (text : List Char) : (made n text).width = n := rfl
@[simp] theorem text_kept (cs : List Char) : (kept cs).text = cs := rfl
@[simp] theorem text_made (n : Nat) (cs : List Char) : (made n cs).text = cs := rfl

@[simp] theorem widthOf_nil : widthOf [] = 0 := rfl
@[simp] theorem textOf_nil : textOf [] = [] := rfl

@[simp] theorem widthOf_cons (p : Patch) (ps : List Patch) :
    widthOf (p :: ps) = p.width + widthOf ps := by simp [widthOf]

@[simp] theorem textOf_cons (p : Patch) (ps : List Patch) :
    textOf (p :: ps) = p.text ++ textOf ps := rfl

@[simp] theorem widthOf_append (ps qs : List Patch) :
    widthOf (ps ++ qs) = widthOf ps + widthOf qs := by simp [widthOf]

@[simp] theorem textOf_append (ps qs : List Patch) :
    textOf (ps ++ qs) = textOf ps ++ textOf qs := by simp [textOf]

/-- A column of the unedited line is now at another one, as far as the patches tell. -/
inductive Meets : List Patch → Nat → Nat → Prop
  | start {ps : List Patch} : Meets ps 0 0
  | inside {text : List Char} {ps : List Patch} {n : Nat} :
      n ≤ byteLength text → Meets (kept text :: ps) n n
  | behind {p : Patch} {ps : List Patch} {column now : Nat} : Meets ps column now →
      Meets (p :: ps) (p.width + column) (byteLength p.text + now)

variable {ps qs : List Patch} {column now : Nat}

theorem Meets.le_size (meets : Meets ps column now) : now ≤ byteLength (textOf ps) := by
  induction meets with
  | start => exact Nat.zero_le _
  | inside short => rw [textOf_cons, Text.byteLength_append, text_kept]; omega
  | behind _ ih => rw [textOf_cons, Text.byteLength_append]; omega

theorem Meets.of_front (meets : Meets ps column now) (qs : List Patch) :
    Meets (ps ++ qs) column now := by
  induction meets with
  | start => exact .start
  | inside short => exact .inside short
  | behind _ ih => exact .behind ih

theorem Meets.of_back (meets : Meets qs column now) (ps : List Patch) :
    Meets (ps ++ qs) (widthOf ps + column) (byteLength (textOf ps) + now) := by
  induction ps with
  | nil => simpa [Text.byteLength] using meets
  | cons p ps ih =>
    rw [widthOf_cons, textOf_cons, Text.byteLength_append, Nat.add_assoc, Nat.add_assoc]
    exact .behind ih

theorem meets_edge (ps qs : List Patch) :
    Meets (ps ++ qs) (widthOf ps) (byteLength (textOf ps)) :=
  Meets.of_back (.start : Meets qs 0 0) ps

theorem Meets.cases_append (meets : Meets (ps ++ qs) column now) : Meets ps column now ∨
    ∃ column' now', Meets qs column' now' ∧ column = widthOf ps + column' ∧
      now = byteLength (textOf ps) + now' := by
  induction ps generalizing column now with
  | nil => exact .inr ⟨column, now, meets, by simp, by simp⟩
  | cons p ps ih =>
    generalize shape : p :: ps ++ qs = all at meets
    cases meets with
    | start => exact .inl .start
    | inside short =>
      obtain ⟨rfl, -⟩ := List.cons.inj shape
      exact .inl (.inside short)
    | behind later =>
      obtain ⟨rfl, rfl⟩ := List.cons.inj shape
      rcases ih later with front | ⟨column', now', back, rfl, rfl⟩
      · exact .inl (.behind front)
      · refine .inr ⟨column', now', back, ?_, ?_⟩
        · rw [widthOf_cons, Nat.add_assoc]
        · rw [textOf_cons, Text.byteLength_append, Nat.add_assoc]

/-- Patches that cover as much, show the same text and tell no more. -/
structure Coarsens (qs ps : List Patch) : Prop where
  width : widthOf qs = widthOf ps
  text : textOf qs = textOf ps
  meets : ∀ column now, Meets qs column now → Meets ps column now

theorem Coarsens.refl (ps : List Patch) : Coarsens ps ps := ⟨rfl, rfl, fun _ _ meets => meets⟩

theorem Coarsens.trans {rs : List Patch} (first : Coarsens rs qs) (second : Coarsens qs ps) :
    Coarsens rs ps :=
  ⟨first.width.trans second.width, first.text.trans second.text,
    fun _ _ meets => second.meets _ _ (first.meets _ _ meets)⟩

theorem Coarsens.append {ps' qs' : List Patch} (front : Coarsens qs ps) (back : Coarsens qs' ps') :
    Coarsens (qs ++ qs') (ps ++ ps') where
  width := by rw [widthOf_append, widthOf_append, front.width, back.width]
  text := by rw [textOf_append, textOf_append, front.text, back.text]
  meets column now meets := by
    rcases meets.cases_append with inFront | ⟨column', now', inBack, rfl, rfl⟩
    · exact (front.meets _ _ inFront).of_front _
    · rw [front.width, front.text]
      exact (back.meets _ _ inBack).of_back _

theorem coarsens_cut (xs ys : List Char) : Coarsens [kept xs, kept ys] [kept (xs ++ ys)] where
  width := by simp
  text := by simp
  meets column now meets := by
    cases meets with
    | start => exact .start
    | inside short => exact .inside (by rw [Text.byteLength_append]; omega)
    | behind later =>
      cases later with
      | start => exact .inside (by simp)
      | inside short => exact .inside (by simpa using short)
      | behind last =>
        cases last with
        | start => exact .inside (by simp)

theorem coarsens_cuts (texts : List (List Char)) :
    Coarsens (texts.map kept) [kept texts.flatten] := by
  induction texts with
  | nil =>
    refine ⟨rfl, rfl, fun column now meets => ?_⟩
    cases meets with
    | start => exact .start
  | cons text texts ih =>
    exact ((Coarsens.refl [kept text]).append ih).trans (coarsens_cut text texts.flatten)

/-- Any row can be seen as a single patch. -/
theorem coarsens_made (ps : List Patch) : Coarsens [made (widthOf ps) (textOf ps)] ps where
  width := by simp
  text := by simp
  meets column now meets := by
    cases meets with
    | start => exact .start
    | behind later =>
      cases later with
      | start => simpa using meets_edge ps []

theorem coarsens_front (ps qs : List Patch) :
    Coarsens (made (widthOf ps) (textOf ps) :: qs) (ps ++ qs) :=
  (coarsens_made ps).append (.refl qs)

end Patch

open Patch

/-- The line shows the patches, and its columns are where they tell. -/
structure Patchwork (l : Line) (ps : List Patch) : Prop where
  text : l.text.toList = textOf ps
  resolves : ∀ column now, Meets ps column now → l.shifts.resolve column = now
  width : widthOf ps ≤ columnLimit
  size : byteLength (textOf ps) ≤ columnLimit

namespace Patchwork

variable {l : Line} {ps qs front middle covered back : List Patch} {new : String}

theorem ofText {text : String} (fits : Text.size text ≤ columnLimit) :
    Patchwork { text } [kept text.toList] where
  text := by simp
  resolves column now meets := by
    cases meets with
    | start => rfl
    | inside short => rfl
    | behind later => cases later with
      | start => rfl
  width := by simpa [Text.size] using fits
  size := by simpa [Text.size] using fits

theorem coarsen (patched : Patchwork l ps) (coarser : Coarsens qs ps) : Patchwork l qs where
  text := by rw [patched.text, coarser.text]
  resolves column now meets := patched.resolves _ _ (coarser.meets _ _ meets)
  width := by rw [coarser.width]; exact patched.width
  size := by rw [coarser.text]; exact patched.size

theorem resolve_edge (patched : Patchwork l (front ++ back)) :
    l.shifts.resolve (widthOf front) = byteLength (textOf front) :=
  patched.resolves _ _ (meets_edge front back)

theorem place_edge (patched : Patchwork l (front ++ back)) :
    l.place (widthOf front) = byteLength (textOf front) := by
  rw [Line.place, patched.resolve_edge, Text.floorColumn, patched.text, textOf_append,
    Text.takeBytes_append]

theorem textAt (patched : Patchwork l (front ++ covered ++ back)) :
    l.textAt (widthOf front) (widthOf covered) = .ofList (textOf covered) := by
  have start : l.place (widthOf front) = byteLength (textOf front) := by
    rw [List.append_assoc] at patched
    exact patched.place_edge
  have stop : l.place (widthOf front + widthOf covered) =
      byteLength (textOf front) + byteLength (textOf covered) := by
    have edge := patched.place_edge
    rwa [widthOf_append, textOf_append, Text.byteLength_append] at edge
  have width := patched.width
  rw [widthOf_append, widthOf_append] at width
  rw [Line.textAt, Line.columnBehind_eq (by omega), start, stop]
  by_cases empty : textOf covered = []
  · simp [empty]
  · have some : byteLength (textOf covered) ≠ 0 := fun h => empty (Text.byteLength_eq_zero.mp h)
    have stands : StandsAt l.text (byteLength (textOf front)) (.ofList (textOf covered)) :=
      ⟨textOf front, textOf back, by simp [patched.text], rfl⟩
    have slice := stands.slice_eq
    rw [Text.size_ofList] at slice
    rw [if_pos (by omega), slice]

section Splice

variable (patched : Patchwork l (front ++ middle ++ covered ++ back))
  (visible : textOf (middle ++ covered) ≠ [])
  (fits : byteLength (textOf front) + byteLength (textOf middle) + Text.size new +
    byteLength (textOf back) ≤ columnLimit)

include patched visible fits

/-- Putting a text in the place of some patches. -/
theorem splice :
    Patchwork (l.splice (byteLength (textOf (front ++ middle)))
        (byteLength (textOf (front ++ middle)) + byteLength (textOf covered)) new)
      (front ++ made (widthOf (middle ++ covered)) (textOf middle ++ new.toList) :: back) where
  text := by
    have whole : l.text.toList = textOf (front ++ middle) ++ textOf covered ++ textOf back := by
      rw [patched.text, textOf_append, textOf_append (front ++ middle)]
    rw [Line.splice, Text.splice_toList whole]
    simp
  resolves column now meets := by
    have place : byteLength (textOf (front ++ middle)) =
        byteLength (textOf front) + byteLength (textOf middle) := by
      rw [textOf_append, Text.byteLength_append]
    have covers : 0 < byteLength (textOf middle) + byteLength (textOf covered) := by
      rw [← Text.byteLength_append, ← textOf_append]
      exact Nat.pos_of_ne_zero fun h => visible (Text.byteLength_eq_zero.mp h)
    have total := patched.size
    simp only [textOf_append, Text.byteLength_append] at total
    -- A column in front of the replaced stretch stays, one behind it moves.
    have stays (old : Meets (front ++ middle ++ covered ++ back) column now)
        (before : now ≤ byteLength (textOf front)) :
        (l.splice (byteLength (textOf (front ++ middle)))
          (byteLength (textOf (front ++ middle)) + byteLength (textOf covered))
          new).shifts.resolve column = now := by
      have resolved := patched.resolves _ _ old
      have moved : Line.moved (byteLength (textOf (front ++ middle)))
          (byteLength (textOf (front ++ middle)) + byteLength (textOf covered)) (Text.size new)
          (l.shifts.resolve column) = now := by
        rw [resolved, Line.moved_of_lt (by omega)]
      rw [Line.resolve_splice _ _ (by omega) (by omega), moved]
    rcases meets.cases_append with inFront | ⟨column', now', inBack, rfl, rfl⟩
    · apply stays _ inFront.le_size
      rw [List.append_assoc, List.append_assoc]
      exact inFront.of_front _
    cases inBack with
    | start =>
      apply stays _ (Nat.le_refl _)
      rw [List.append_assoc, List.append_assoc]
      exact Meets.of_back .start front
    | @behind _ _ column now later =>
      have old := later.of_back (front ++ middle ++ covered)
      have resolved := patched.resolves _ _ old
      have short := later.le_size
      simp only [textOf_append, widthOf_append, Text.byteLength_append] at resolved
      simp only [width_made, text_made, widthOf_append, textOf_append, Text.byteLength_append]
      have regroup : widthOf front + (widthOf middle + widthOf covered + column) =
          widthOf front + widthOf middle + widthOf covered + column := by omega
      have moved : Line.moved (byteLength (textOf front) + byteLength (textOf middle))
          (byteLength (textOf front) + byteLength (textOf middle) + byteLength (textOf covered))
          (Text.size new)
          (byteLength (textOf front) + byteLength (textOf middle) + byteLength (textOf covered) +
            now) =
          byteLength (textOf front) + (byteLength (textOf middle) + Text.size new + now) := by
        rw [Line.moved_of_le (by omega)]; omega
      rw [regroup, Line.resolve_splice _ _ (by omega) (by rw [resolved, moved]; omega), resolved,
        moved, Text.size]
  width := by
    have width := patched.width
    simp only [widthOf_append, widthOf_cons, width_made] at width ⊢
    omega
  size := by
    have size : byteLength new.toList = Text.size new := rfl
    simp only [textOf_append, textOf_cons, text_made, Text.byteLength_append, size]
    omega

theorem replace :
    Patchwork (l.replace (widthOf (front ++ middle)) (widthOf covered) new false)
      (front ++ made (widthOf (middle ++ covered)) (textOf middle ++ new.toList) :: back) := by
  have start : l.place (widthOf (front ++ middle)) = byteLength (textOf (front ++ middle)) := by
    have edge := patched
    rw [List.append_assoc (front ++ middle)] at edge
    exact edge.place_edge
  have stop : l.place (widthOf (front ++ middle) + widthOf covered) =
      byteLength (textOf (front ++ middle)) + byteLength (textOf covered) := by
    have edge := patched.place_edge
    rwa [widthOf_append (front ++ middle), textOf_append (front ++ middle),
      Text.byteLength_append] at edge
  have width := patched.width
  rw [widthOf_append, widthOf_append (front ++ middle)] at width
  rw [Line.replace, Line.columnBehind_eq (by omega), start, stop]
  simp only [Bool.false_eq_true, if_false, Nat.max_eq_right (Nat.le_add_right _ _)]
  exact patched.splice visible fits

end Splice

/-- Removing what stands between two edges together with the blanks behind it, where no word stands
directly in front. -/
theorem remove {run : List Char} (patched : Patchwork l (front ++ covered ++ kept run :: back))
    (visible : textOf covered ≠ []) (blank : ∀ c ∈ run, Text.isIndent c = true)
    (loose : (textOf front).getLast?.any Text.isWordChar = false)
    (ends : ∀ c ∈ (textOf back).head?, Text.isIndent c = false) :
    Patchwork (l.replace (widthOf front) (widthOf covered) "" true)
      (front ++ made (widthOf covered + byteLength run) [] :: back) := by
  have size := patched.size
  simp only [textOf_append, textOf_cons, text_kept, Text.byteLength_append] at size
  have none : Text.size "" = 0 := rfl
  have removed : Patchwork (l.replace (widthOf front) (widthOf covered) "" false)
      (front ++ made (widthOf covered) [] :: kept run :: back) := by
    simpa using @Patchwork.replace l front [] covered (kept run :: back) "" (by simpa using patched)
      (by simpa using visible) (by simp [none]; omega)
  have start : l.place (widthOf front) = byteLength (textOf front) := by
    rw [List.append_assoc] at patched
    exact patched.place_edge
  have eats : l.replace (widthOf front) (widthOf covered) "" true =
      ((l.replace (widthOf front) (widthOf covered) "" false).eat (byteLength (textOf front))).1 := by
    simp [Line.replace, start, none]
  have gap : Edit.gapBetween (textOf front).getLast? (textOf back).head? = [] := by
    simp [Edit.gapBetween, loose]
  have whole : (l.replace (widthOf front) (widthOf covered) "" false).text.toList =
      textOf front ++ run ++ textOf back := by
    rw [removed.text]
    simp
  rw [eats, Line.eat_eq _ whole blank ends, gap]
  cases run with
  | nil => exact removed.coarsen ((Coarsens.refl front).append
      (coarsens_front [made (widthOf covered) [], kept []] back))
  | cons c run =>
    have behind : front ++ made (widthOf covered) [] :: kept (c :: run) :: back =
        front ++ [made (widthOf covered) []] ++ [kept (c :: run)] ++ back := by simp
    rw [behind] at removed
    have spliced := @Patchwork.splice _ front [made (widthOf covered) []] [kept (c :: run)] back ""
      removed (by simp) (by simp [none]; omega)
    simpa using spliced

end Patchwork

end SqlFerry
