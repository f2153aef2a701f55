import SqlFerry.LineNumber
import SqlFerry.Proofs.Position
import SqlFerry.Span

/-! The text between two positions. A stretch of a text begins on the line and column where what
stands in front of it ends, and cutting the lines of the text at its two ends gives the stretch
back. -/
namespace SqlFerry

namespace Text

def frontLines : List Char → List (List Char)
  | [] => []
  | c :: cs =>
    if c = '\n' then [] :: frontLines cs
    else match frontLines cs with
      | [] => []
      | line :: rest => (c :: line) :: rest

theorem length_frontLines (cs : List Char) : (frontLines cs).length = cs.count '\n' := by
  induction cs with
  | nil => rfl
  | cons c cs ih =>
    rw [frontLines, List.count_cons]
    split
    · simp_all
    · next other =>
      cases front : frontLines cs <;> simp_all

theorem frontLines_eq_nil {cs : List Char} : frontLines cs = [] ↔ '\n' ∉ cs := by
  rw [← List.length_eq_zero_iff, length_frontLines, List.count_eq_zero]

theorem pieces_append (xs ys : List Char) {first : List Char} {rest : List (List Char)}
    (shape : pieces (· == '\n') ys = first :: rest) :
    pieces (· == '\n') (xs ++ ys) = frontLines xs ++ (lastLine xs ++ first) :: rest := by
  induction xs with
  | nil => simpa [frontLines, lastLine] using shape
  | cons c xs ih =>
    rw [List.cons_append, pieces, ih]
    by_cases ends : c = '\n'
    · subst ends
      rw [frontLines, if_pos rfl, lastLine_line_end]
      cases frontLines xs <;> simp
    · rw [frontLines, if_neg ends]
      cases front : frontLines xs with
      | nil =>
        have flat := frontLines_eq_nil.mp front
        have flat' : '\n' ∉ c :: xs := by simp [flat, Ne.symm ends]
        rw [lastLine_of_not_mem flat, lastLine_of_not_mem flat']
        simp [ends]
      | cons line lines =>
        have broken : '\n' ∈ xs := by
          apply Decidable.not_not.mp
          intro flat
          simp [frontLines_eq_nil.mpr flat] at front
        rw [lastLine_of_mem_tail c broken]
        simp [ends]

theorem pieces_eq_frontLines (cs : List Char) :
    pieces (· == '\n') cs = frontLines cs ++ [lastLine cs] := by
  simpa using pieces_append cs [] rfl

end Text

open Text

theorem numberedLines_append (front rest : List String) (count : Nat) :
    numberedLines (front ++ rest) (front.length + 1) (front.length + count) =
      (rest.zipIdx (front.length + 1)).take count := by
  have length : (front.zipIdx 1).length = front.length := List.length_zipIdx
  rw [numberedLines, if_neg (Nat.succ_ne_zero _), List.zipIdx_append, Nat.add_sub_cancel,
    List.drop_append_of_le_length (Nat.le_of_eq length.symm),
    List.drop_of_length_le (Nat.le_of_eq length)]
  simp only [List.nil_append]
  congr 1
  · omega
  · congr 1; omega

/-- The part of a numbered line that lies between two positions. -/
def linePart (start stop : Position) : String × Nat → String := fun (line, number) =>
  let left := if number = start.line then min start.column (size line) else 0
  let right := if number = stop.line then min stop.column (size line) else size line
  if left < right then
    if isBoundary line left && isBoundary line right then slice line left right else ""
  else ""

theorem textBetween_eq (lines : List String) (start stop : Position) :
    textBetween lines start stop =
      unlines ((numberedLines lines start.line stop.line).map (linePart start stop)) := rfl

theorem linePart_eq (start stop : Position) (number : Nat) (front middle back : List Char)
    (left : if number = start.line then start.column = byteLength front else front = [])
    (right : if number = stop.line then stop.column = byteLength (front ++ middle) else back = []) :
    linePart start stop (.ofList (front ++ middle ++ back), number) = .ofList middle := by
  have stands : StandsAt (.ofList (front ++ middle ++ back)) (byteLength front) (.ofList middle) :=
    ⟨front, back, by simp, rfl⟩
  have whole : size (.ofList (front ++ middle ++ back)) =
      byteLength front + byteLength middle + byteLength back := by
    rw [size_ofList, byteLength_append, byteLength_append]
  have leftColumn : (if number = start.line then
      min start.column (size (.ofList (front ++ middle ++ back))) else 0) = byteLength front := by
    split <;> simp_all
    omega
  have rightColumn : (if number = stop.line then
      min stop.column (size (.ofList (front ++ middle ++ back)))
      else size (.ofList (front ++ middle ++ back))) = byteLength front + byteLength middle := by
    split <;> simp_all
  rw [linePart]
  simp only [leftColumn, rightColumn]
  split
  · have left : isBoundary (.ofList (front ++ middle ++ back)) (byteLength front) = true :=
      beq_iff_eq.mpr stands.floorColumn_eq
    have right := stands.boundary_behind.floorColumn_eq
    have text := stands.slice_eq
    rw [size_ofList] at right text
    rw [left, isBoundary, right, beq_self_eq_true, text]
    rfl
  · have empty : middle = [] := byteLength_eq_zero.mp (by omega)
    rw [empty]

/-- A line whose number lies strictly between those of two positions is part of what stands between
them as a whole. -/
theorem linePart_inner {start stop : Position} {number : Nat} (behind : start.line < number)
    (before : number < stop.line) (line : String) : linePart start stop (line, number) = line := by
  have part := linePart_eq start stop number [] line.toList []
    (by simp [Nat.ne_of_gt behind]) (by simp [Nat.ne_of_lt before])
  simpa using part

theorem textBetween_one_line (front behind : List String) (left middle right : List Char) :
    textBetween (front ++ .ofList (left ++ middle ++ right) :: behind)
      ⟨front.length + 1, byteLength left⟩ ⟨front.length + 1, byteLength (left ++ middle)⟩ =
        .ofList middle := by
  have part := linePart_eq ⟨front.length + 1, byteLength left⟩
    ⟨front.length + 1, byteLength (left ++ middle)⟩ (front.length + 1) left middle right
    (by simp) (by simp)
  rw [textBetween_eq, numberedLines_append _ _ 1, List.zipIdx_cons, List.take_succ_cons,
    List.take_zero, List.map_singleton, part]
  simp [unlines, join, gather]

theorem textBetween_more_lines (front inner behind : List String)
    (left middle last right : List Char) :
    textBetween (front ++ .ofList (left ++ middle) :: (inner ++ .ofList (last ++ right) :: behind))
      ⟨front.length + 1, byteLength left⟩ ⟨front.length + (inner.length + 2), byteLength last⟩ =
        unlines (.ofList middle :: (inner ++ [.ofList last])) := by
  have head := linePart_eq ⟨front.length + 1, byteLength left⟩
    ⟨front.length + (inner.length + 2), byteLength last⟩ (front.length + 1) left middle []
    (by simp) (by rw [if_neg (by simp)])
  have foot := linePart_eq ⟨front.length + 1, byteLength left⟩
    ⟨front.length + (inner.length + 2), byteLength last⟩ (front.length + (inner.length + 2))
    [] last right (by rw [if_neg (by simp)]) (by simp)
  have body : (inner.zipIdx (front.length + 1 + 1)).map (linePart ⟨front.length + 1, byteLength left⟩
      ⟨front.length + (inner.length + 2), byteLength last⟩) = inner := by
    refine (List.map_congr_left ?_).trans (List.zipIdx_map_fst (front.length + 1 + 1) inner)
    rintro ⟨line, number⟩ member
    obtain ⟨behind, before, -⟩ := List.mem_zipIdx member
    exact linePart_inner (by simp; omega) (by simp; omega) line
  have taken : ((inner ++ .ofList (last ++ right) :: behind).zipIdx (front.length + 1 + 1)).take
      (inner.length + 1) = inner.zipIdx (front.length + 1 + 1) ++
        [(.ofList (last ++ right), front.length + (inner.length + 2))] := by
    have number : front.length + 1 + 1 + inner.length = front.length + (inner.length + 2) := by omega
    rw [List.zipIdx_append, List.take_append, List.length_zipIdx, Nat.add_sub_cancel_left,
      List.take_of_length_le (by simp), List.zipIdx_cons, number]
    rfl
  rw [List.append_nil] at head
  rw [List.nil_append] at foot
  rw [textBetween_eq, numberedLines_append, List.zipIdx_cons, List.take_succ_cons, taken,
    List.map_cons, List.map_append, body, List.map_singleton, head, foot]

/-- A stretch of a text is what stands between the position behind all that is in front of it and
the position behind itself. -/
theorem textBetween_advance (before text after : List Char) :
    textBetween (Text.lines (.ofList (before ++ text ++ after))) (Position.origin.advance before)
      ((Position.origin.advance before).advance text) = .ofList text := by
  obtain ⟨first, rest, shape⟩ : ∃ first rest, pieces (· == '\n') after = first :: rest :=
    List.exists_cons_of_ne_nil (pieces_ne_nil _ _)
  have stretch := pieces_append text after shape
  have start : Position.origin.advance before =
      ⟨((frontLines before).map String.ofList).length + 1, byteLength (lastLine before)⟩ := by
    rw [Position.advance_origin, List.length_map, length_frontLines, Nat.add_comm]
  rw [Text.lines, splitOn, String.toList_ofList, List.append_assoc]
  cases front : frontLines text with
  | nil =>
    have flat := frontLines_eq_nil.mp front
    rw [front, List.nil_append, lastLine_of_not_mem flat] at stretch
    rw [pieces_append before _ stretch, List.map_append, Position.advance_of_no_line_end _ flat,
      start, List.map_cons, ← List.append_assoc]
    simpa using textBetween_one_line ((frontLines before).map String.ofList)
      (rest.map String.ofList) (lastLine before) text first
  | cons line lines =>
    have broken : '\n' ∈ text := by
      apply Decidable.not_not.mp
      intro flat
      simp [frontLines_eq_nil.mpr flat] at front
    have stop : (Position.origin.advance before).advance text =
        ⟨((frontLines before).map String.ofList).length + ((lines.map String.ofList).length + 2),
          byteLength (lastLine text)⟩ := by
      have line : ((Position.origin.advance before).advance text).line =
          ((frontLines before).map String.ofList).length +
            ((lines.map String.ofList).length + 2) := by
        rw [Position.line_advance, start, ← length_frontLines, front]
        simp; omega
      rw [← line, ← Position.column_advance_of_line_end (Position.origin.advance before) broken]
    rw [front, List.cons_append] at stretch
    rw [pieces_append before _ stretch, List.map_append, stop, start, List.map_cons,
      List.map_append, List.map_cons, textBetween_more_lines]
    have whole := congrArg (List.map String.ofList) (pieces_eq_frontLines text)
    have same : unlines ((pieces (· == '\n') text).map String.ofList) = .ofList text := by
      have := unlines_lines (.ofList text)
      rwa [Text.lines, splitOn, String.toList_ofList] at this
    rw [whole, front] at same
    simpa using same

theorem row?_of_mem_numberedLines {lines : List String} {first last number : Nat} {line : String}
    (member : (line, number) ∈ numberedLines lines first last) : row? lines number = some line := by
  rw [numberedLines] at member
  split at member
  · cases member
  · have inside := List.mem_of_mem_drop (List.mem_of_mem_take member)
    obtain ⟨positive, bound, isLine⟩ := List.mem_zipIdx inside
    obtain ⟨index, rfl⟩ : ∃ index, number = index + 1 := ⟨number - 1, by omega⟩
    rw [row?, isLine]
    simp at bound ⊢

/-- Between boundaries it makes no difference how columns inside characters and past the end of a line
are read. -/
theorem spanText_eq_textBetween {lines : List String} {start stop : Position}
    (left : ∀ line, row? lines start.line = some line → StandsAt line start.column "")
    (right : ∀ line, row? lines stop.line = some line → StandsAt line stop.column "") :
    spanText lines start stop (floorColumn · start.column) (floorColumn · stop.column) =
      textBetween lines start stop := by
  rw [spanText, textBetween, spanText]
  congr 1
  refine List.map_congr_left ?_
  rintro ⟨line, number⟩ member
  have present := row?_of_mem_numberedLines member
  have boundary {column : Nat} (stands : StandsAt line column "") :
      floorColumn line column = column ∧ min column (size line) = column ∧ isBoundary line column = true :=
    ⟨stands.floorColumn_eq, Nat.min_eq_left (Nat.le_of_add_right_le stands.size_le),
      beq_iff_eq.mpr stands.floorColumn_eq⟩
  obtain ⟨first, cutsFirst, meetsFirst, atFirst⟩ : ∃ first,
      (if number = start.line then floorColumn line start.column else 0) = first ∧
      (if number = start.line then min start.column (size line) else 0) = first ∧
      isBoundary line first = true := by
    split
    · next same =>
      obtain ⟨floor, least, isBoundary⟩ := boundary (left line (same ▸ present))
      exact ⟨start.column, floor, least, isBoundary⟩
    · exact ⟨0, rfl, rfl, (boundary (standsAt_zero line)).2.2⟩
  obtain ⟨last, cutsLast, meetsLast, atLast⟩ : ∃ last,
      (if number = stop.line then floorColumn line stop.column else size line) = last ∧
      (if number = stop.line then min stop.column (size line) else size line) = last ∧
      isBoundary line last = true := by
    split
    · next same =>
      obtain ⟨floor, least, isBoundary⟩ := boundary (right line (same ▸ present))
      exact ⟨stop.column, floor, least, isBoundary⟩
    · exact ⟨size line, rfl, rfl, (boundary (standsAt_size line)).2.2⟩
  simp only [cutsFirst, meetsFirst, cutsLast, meetsLast, atFirst, atLast, Bool.and_self, if_true]

end SqlFerry
