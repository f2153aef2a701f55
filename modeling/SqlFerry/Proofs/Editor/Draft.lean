import SqlFerry.Proofs.Editor.Sweep

/-! A text under edit as one row of strips. Each strip is a stretch of the unedited text with what stands in
its place, which may be nothing; text that was put in has a strip of its own, in the place of nothing. The
row tells the lines of the editor, and for each place between two strips where it is now. A place is behind
everything that was put in there. -/
namespace SqlFerry

open Text (byteLength lastLine frontLines pieces)

/-- A stretch of the unedited text and what stands in its place. -/
structure Strip where
  old : List Char
  new : List Char

namespace Strip

def oldOf (strips : List Strip) : List Char := strips.flatMap old

def newOf (strips : List Strip) : List Char := strips.flatMap new

def kept (text : List Char) : List Strip := text.map fun c => ⟨[c], [c]⟩

def eaten (run : List Char) : List Strip := if run = [] then [] else [⟨run, []⟩]

@[simp] theorem oldOf_nil : oldOf [] = [] := rfl
@[simp] theorem newOf_nil : newOf [] = [] := rfl

@[simp] theorem oldOf_cons (strip : Strip) (strips : List Strip) :
    oldOf (strip :: strips) = strip.old ++ oldOf strips := rfl

@[simp] theorem newOf_cons (strip : Strip) (strips : List Strip) :
    newOf (strip :: strips) = strip.new ++ newOf strips := rfl

@[simp] theorem oldOf_append (xs ys : List Strip) : oldOf (xs ++ ys) = oldOf xs ++ oldOf ys :=
  List.flatMap_append

@[simp] theorem newOf_append (xs ys : List Strip) : newOf (xs ++ ys) = newOf xs ++ newOf ys :=
  List.flatMap_append

@[simp] theorem oldOf_kept (text : List Char) : oldOf (kept text) = text := by
  induction text with
  | nil => rfl
  | cons c text ih => exact congrArg (c :: ·) ih

@[simp] theorem newOf_kept (text : List Char) : newOf (kept text) = text := by
  induction text with
  | nil => rfl
  | cons c text ih => exact congrArg (c :: ·) ih

theorem kept_append (xs ys : List Char) : kept (xs ++ ys) = kept xs ++ kept ys := List.map_append

/-- What stands now in front of a place of the unedited text, as far as the strips tell. -/
inductive Edge : List Strip → List Char → List Char → Prop
  | stop : Edge [] [] []
  | here {strip : Strip} {strips : List Strip} : strip.old ≠ [] → Edge (strip :: strips) [] []
  | behind {strip : Strip} {strips : List Strip} {old new : List Char} : Edge strips old new →
      Edge (strip :: strips) (strip.old ++ old) (strip.new ++ new)

/-- Nothing is put in where the strips begin. -/
def Opens (strips : List Strip) : Prop := ∀ strip ∈ strips.head?, strip.old ≠ []

variable {front back : List Strip} {old new : List Char}

theorem Edge.of_opens (opens : Opens back) : Edge back [] [] := by
  cases back with
  | nil => exact .stop
  | cons strip back => exact .here (opens strip rfl)

theorem Edge.of_back (edge : Edge back old new) (front : List Strip) :
    Edge (front ++ back) (oldOf front ++ old) (newOf front ++ new) := by
  induction front with
  | nil => exact edge
  | cons strip front ih =>
    rw [oldOf_cons, newOf_cons, List.append_assoc, List.append_assoc]
    exact .behind ih

theorem Edge.begins (edge : Edge back old new) : new <+: newOf back := by
  induction edge with
  | stop | here => exact List.nil_prefix
  | behind _ ih => exact (List.prefix_append_right_inj _).mpr ih

theorem Edge.cases_append (edge : Edge (front ++ back) old new) :
    (∃ left right, front = left ++ right ∧ right ≠ [] ∧ Opens right ∧ old = oldOf left ∧ new = newOf left) ∨
      ∃ old' new', Edge back old' new' ∧ old = oldOf front ++ old' ∧ new = newOf front ++ new' := by
  induction front generalizing old new with
  | nil => exact .inr ⟨old, new, edge, rfl, rfl⟩
  | cons strip front ih =>
    generalize shape : strip :: front ++ back = all at edge
    cases edge with
    | stop => cases shape
    | here some =>
      obtain ⟨rfl, -⟩ := List.cons.inj shape
      exact .inl ⟨[], _, rfl, by simp, by simpa [Opens] using some, rfl, rfl⟩
    | behind later =>
      obtain ⟨rfl, rfl⟩ := List.cons.inj shape
      rcases ih later with ⟨left, right, rfl, some, opens, rfl, rfl⟩ | ⟨old', new', inBack, rfl, rfl⟩
      · exact .inl ⟨strip :: left, right, rfl, some, opens, rfl, rfl⟩
      · exact .inr ⟨old', new', inBack, by simp, by simp⟩

theorem Edge.of_front {left right : List Strip} (some : right ≠ []) (opens : Opens right) (back : List Strip) :
    Edge (left ++ right ++ back) (oldOf left) (newOf left) := by
  obtain ⟨strip, right, rfl⟩ := List.exists_cons_of_ne_nil some
  have here : Edge (strip :: right ++ back) [] [] := .here (opens strip rfl)
  simpa using here.of_back left

end Strip

open Strip

/-- The editor shows the strips, and nothing has been noted. -/
structure Draft (strips : List Strip) (e : Editor) : Prop where
  texts : e.texts = (pieces (· == '\n') (newOf strips)).map .ofList
  resolves : ∀ old new, Edge strips old new →
    e.resolve (Position.origin.advance old) = Position.origin.advance new
  quiet : e.diagnostics = []
  aligned : e.Aligned

/-! One line of a text is spliced. -/

section Splice

variable {e : Editor} {left covered right : List Char}

theorem exists_row (aligned : e.Aligned)
    (texts : e.texts = (pieces (· == '\n') (left ++ covered ++ right)).map .ofList) (flat : '\n' ∉ covered) :
    ∃ before l after first rest, e.lines = before ++ l :: after ∧ before.length = left.count '\n' ∧ pieces (· == '\n') right = first :: rest ∧
      before.map (·.text) = (frontLines left).map .ofList ∧ l.text.toList = lastLine left ++ covered ++ first ∧
      after.map (·.text) = rest.map .ofList := by
  obtain ⟨first, rest, shape⟩ := List.exists_cons_of_ne_nil (Text.pieces_ne_nil (· == '\n') right)
  have inside : pieces (· == '\n') (covered ++ right) = (covered ++ first) :: rest := by
    rw [Text.pieces_append covered right shape, Text.frontLines_eq_nil.mpr flat, Text.lastLine_of_not_mem flat]
    rfl
  rw [List.append_assoc, Text.pieces_append left _ inside, List.map_append, List.map_cons,
    ← aligned.map_text] at texts
  obtain ⟨before, _, isLines, isBefore, isRest⟩ := List.map_eq_append_iff.mp texts
  obtain ⟨l, after, rfl, isLine, isAfter⟩ := List.map_eq_cons_iff.mp isRest
  refine ⟨before, l, after, first, rest, isLines, ?_, shape, isBefore, ?_, isAfter⟩
  · rw [← Text.length_frontLines, ← List.length_map (f := String.ofList), ← isBefore, List.length_map]
  · rw [isLine, String.toList_ofList, List.append_assoc]

/-- A stretch of one line has been replaced. What is resolved in front of its end stays, and what is resolved
behind it moves. -/
structure Spliced (e e' : Editor) (left covered new right : List Char) : Prop where
  texts : e'.texts = (pieces (· == '\n') (left ++ new ++ right)).map .ofList
  before : ∀ p x y, e.resolve p = Position.origin.advance x → x ++ y = left ++ covered → y ≠ [] →
    e'.resolve p = Position.origin.advance x
  behind : ∀ p x, e.resolve p = Position.origin.advance (left ++ covered ++ x) → x <+: right →
    e'.resolve p = Position.origin.advance (left ++ new ++ x)
  quiet : e'.diagnostics = e.diagnostics
  aligned : e'.Aligned

theorem Position.advance_origin_append_flat (xs : List Char) {ys : List Char} (flat : '\n' ∉ ys) :
    origin.advance (xs ++ ys) = ⟨1 + xs.count '\n', byteLength (lastLine xs) + byteLength ys⟩ := by
  rw [advance_append, advance_origin]
  exact advance_of_no_line_end _ flat

theorem Position.advance_origin_append_broken (xs : List Char) {ys : List Char} (broken : '\n' ∈ ys) :
    origin.advance (xs ++ ys) = ⟨1 + xs.count '\n' + ys.count '\n', byteLength (lastLine ys)⟩ := by
  rw [advance_append, advance_origin, ← column_advance_of_line_end _ broken]
  exact congrArg (Position.mk · _) (line_advance _ ys)

theorem Text.byteLength_lastLine_le (cs : List Char) : byteLength (lastLine cs) ≤ byteLength cs := by
  induction cs with
  | nil => exact Nat.le_refl _
  | cons c cs ih =>
    rw [lastLine]
    split
    · rw [byteLength]
      omega
    · exact Nat.le_refl _

theorem Text.first_le {cs first : List Char} {rest : List (List Char)} (shape : pieces (· == '\n') cs = first :: rest) :
    first <+: cs := by
  have whole := Text.gather_pieces '\n' cs
  rw [shape] at whole
  cases rest with
  | nil => exact ⟨[], by rw [List.append_nil]; exact whole⟩
  | cons next rest =>
    rw [Text.gather_cons_cons, List.append_assoc] at whole
    exact ⟨_, whole⟩

theorem Editor.resolve_setLine_of_ne {e : Editor} {p : Position} {number : Nat} (other : p.line ≠ number) (l : Line) :
    (e.setLine number l).resolve p = e.resolve p := by
  simp only [Editor.resolve, Ledger.resolve, Ledger.entries, setLine, row?_setRow_of_ne other]

theorem exists_spliced (aligned : e.Aligned)
    (texts : e.texts = (pieces (· == '\n') (left ++ covered ++ right)).map .ofList)
    (flat : '\n' ∉ covered) {new : String} (flatNew : '\n' ∉ new.toList)
    (short : byteLength (left ++ covered ++ right) ≤ columnLimit)
    (fits : byteLength (left ++ new.toList ++ right) ≤ columnLimit) : ∃ l first,
    row? e.lines (Position.origin.advance left).line = some l ∧ l.text.toList = lastLine left ++ covered ++ first ∧
      first <+: right ∧
      Spliced e (e.setLine (Position.origin.advance left).line (l.splice
        (byteLength (lastLine left)) (byteLength (lastLine left) + byteLength covered) new))
        left covered new.toList right := by
  obtain ⟨before, l, after, first, rest, isLines, length, shape, isBefore, isLine, isAfter⟩ :=
    exists_row aligned texts flat
  have line : (Position.origin.advance left).line = before.length + 1 := by
    rw [Position.advance_origin, length, Nat.add_comm]
  have present : row? e.lines (before.length + 1) = some l := by simp [row?, isLines]
  generalize isNew : l.splice (byteLength (lastLine left)) (byteLength (lastLine left) + byteLength covered) new = l'
  have present' := Editor.row?_setLine present l'
  have here {column now : Nat} (resolved : l.shifts.resolve column = now) (inside : now ≤ columnLimit)
      (moves : Line.moved (byteLength (lastLine left)) (byteLength (lastLine left) + byteLength covered)
        (Text.size new) now ≤ columnLimit) :
      (e.setLine (before.length + 1) l').resolve ⟨before.length + 1, column⟩ =
        ⟨before.length + 1, Line.moved (byteLength (lastLine left))
          (byteLength (lastLine left) + byteLength covered) (Text.size new) now⟩ := by
    rw [Editor.resolve_of_row? present', ← isNew, ← resolved]
    rw [Line.resolve_splice _ _ (by rw [resolved]; exact inside) (by rw [resolved]; exact moves)]
  rw [line]
  refine ⟨l, first, present, isLine, Text.first_le shape, ?_⟩
  rw [isNew]
  simp only [Text.byteLength_append] at short fits
  have size : byteLength new.toList = Text.size new := rfl
  have room := Text.byteLength_lastLine_le left
  refine ⟨?_, ?_, ?_, rfl, aligned.setLine _ _⟩
  · have spliced : l'.text = .ofList (lastLine left ++ new.toList ++ first) := by
      apply String.toList_injective
      rw [← isNew, Line.splice, Text.splice_toList isLine, String.toList_ofList]
    have inside : pieces (· == '\n') (new.toList ++ right) = (new.toList ++ first) :: rest := by
      rw [Text.pieces_append _ right shape, Text.frontLines_eq_nil.mpr flatNew, Text.lastLine_of_not_mem flatNew]
      rfl
    rw [List.append_assoc, Text.pieces_append left _ inside, Editor.texts_setLine, ← aligned.map_text, isLines]
    simp [setRow, spliced, isBefore, isAfter, ← List.length_map (f := fun l : Line => l.text)]
  · rintro ⟨number, column⟩ x y resolved whole some
    by_cases onLine : number = before.length + 1
    · subst onLine
      have now : (Position.origin.advance x) = ⟨before.length + 1, l.shifts.resolve column⟩ := by
        rw [← resolved, Editor.resolve_of_row? present]
      have flatY : '\n' ∉ y := by
        have lines := congrArg (List.count '\n') whole
        rw [List.count_append, List.count_append, List.count_eq_zero.mpr flat, ← length] at lines
        have number := congrArg Position.line now
        rw [Position.line_advance] at number
        refine List.count_eq_zero.mp ?_
        simp only [Position.origin] at number
        omega
      have columns : l.shifts.resolve column + byteLength y = byteLength (lastLine left) + byteLength covered := by
        have same := congrArg Position.origin.advance whole
        rw [Position.advance_append, now, Position.advance_of_no_line_end _ flatY,
          Position.advance_origin_append_flat left flat] at same
        exact congrArg Position.column same
      have visible : byteLength y ≠ 0 := fun none => some (Text.byteLength_eq_zero.mp none)
      have stays : Line.moved (byteLength (lastLine left)) (byteLength (lastLine left) + byteLength covered)
          (Text.size new) (l.shifts.resolve column) = l.shifts.resolve column := Line.moved_of_lt (by omega)
      rw [here rfl (by omega) (by rw [stays]; omega), stays, now]
    · rw [Editor.resolve_setLine_of_ne onLine, resolved]
  · rintro ⟨number, column⟩ x resolved ⟨y, rfl⟩
    simp only [Text.byteLength_append] at short fits
    by_cases flatX : '\n' ∈ x
    · rw [Position.advance_origin_append_broken _ flatX] at resolved ⊢
      have elsewhere : number ≠ before.length + 1 := by
        have isNumber : number = 1 + (left ++ covered).count '\n' + x.count '\n' := congrArg Position.line resolved
        rw [List.count_append, ← length] at isNumber
        have some := List.count_pos_iff.mpr flatX
        omega
      rw [Editor.resolve_setLine_of_ne elsewhere, resolved]
      simp [List.count_eq_zero.mpr flat, List.count_eq_zero.mpr flatNew]
    · have flatBoth : '\n' ∉ covered ++ x := by simp [flat, flatX]
      rw [List.append_assoc, Position.advance_origin_append_flat _ flatBoth, Text.byteLength_append] at resolved
      obtain rfl : number = before.length + 1 := by
        rw [length, Nat.add_comm]
        exact congrArg Position.line resolved
      rw [Editor.resolve_of_row? present] at resolved
      have now : l.shifts.resolve column = byteLength (lastLine left) + (byteLength covered + byteLength x) :=
        congrArg Position.column resolved
      have moves : Line.moved (byteLength (lastLine left)) (byteLength (lastLine left) + byteLength covered)
          (Text.size new) (byteLength (lastLine left) + (byteLength covered + byteLength x)) =
          byteLength (lastLine left) + (Text.size new + byteLength x) := by
        rw [Line.moved_of_le (by omega)]
        omega
      have flatNext : '\n' ∉ new.toList ++ x := by simp [flatNew, flatX]
      rw [here now (by omega) (by rw [moves]; omega), moves, List.append_assoc,
        Position.advance_origin_append_flat _ flatNext, Text.byteLength_append, length, Nat.add_comm 1]
      rfl

end Splice

/-- The last of the strips shows some text. -/
def Strip.Shown (strips : List Strip) : Prop := ∃ front strip, strips = front ++ [strip] ∧ strip.new ≠ []

theorem Strip.Shown.suffix {strips left right : List Strip} (shown : Shown strips) (shape : strips = left ++ right)
    (some : right ≠ []) : newOf right ≠ [] := by
  obtain ⟨front, strip, rfl, visible⟩ := shown
  rcases List.eq_nil_or_concat right with none | ⟨right, last, rfl⟩
  · exact absurd none some
  · rw [List.concat_eq_append] at shape ⊢
    rw [← List.append_assoc] at shape
    obtain rfl : strip = last := by simpa using (List.append_inj' shape rfl).2
    simp [visible]

namespace Draft

variable {front middle back : List Strip} {e e' : Editor}

theorem of_spliced (draft : Draft (front ++ middle ++ back) e) {strip : Strip} (same : strip.old = oldOf middle)
    (spliced : Spliced e e' (newOf front) (newOf middle) strip.new (newOf back))
    (inside : strip.old ≠ [] → Opens middle ∧ middle ≠ []) (shown : newOf middle ≠ [] ∨ strip.old = [] ∧ Shown front) :
    Draft (front ++ strip :: back) e' := by
  have visible {right : List Strip} {left : List Strip} (shape : front = left ++ right) (some : right ≠ []) :
      newOf right ++ newOf middle ≠ [] := by
    rcases shown with visible | ⟨-, shown⟩
    · simp [visible]
    · simp [shown.suffix shape some]
  refine ⟨?_, fun old new edge => ?_, spliced.quiet.trans draft.quiet, spliced.aligned⟩
  · rw [spliced.texts, newOf_append, newOf_cons, List.append_assoc]
  · rcases edge.cases_append with ⟨left, right, rfl, some, opens, rfl, rfl⟩ | ⟨old, new, inBack, rfl, rfl⟩
    · have before : Edge (left ++ right ++ middle ++ back) (oldOf left) (newOf left) := by
        rw [List.append_assoc (left ++ right)]
        exact Edge.of_front some opens _
      exact spliced.before _ _ (newOf right ++ newOf middle) (draft.resolves _ _ before) (by simp) (visible rfl some)
    · cases inBack with
      | here some =>
        obtain ⟨opens, someMiddle⟩ := inside some
        have before : Edge (front ++ middle ++ back) (oldOf front) (newOf front) := Edge.of_front someMiddle opens _
        have visible : newOf middle ≠ [] := shown.resolve_right fun contrary => some contrary.1
        simpa using spliced.before _ _ (newOf middle) (draft.resolves _ _ before) rfl visible
      | behind later =>
        have before := draft.resolves _ _ (later.of_back (front ++ middle))
        rw [oldOf_append, newOf_append, ← same, List.append_assoc] at before
        have after := spliced.behind _ _ before later.begins
        rwa [List.append_assoc] at after

theorem ofLines (source : String) : Draft (kept source.toList) (.ofLines (Text.lines source)) := by
  have same (text : List Char) {old new : List Char} (edge : Edge (kept text) old new) : old = new := by
    induction text generalizing old new with
    | nil => cases edge with
      | stop => rfl
    | cons c text ih => cases edge with
      | here => rfl
      | behind later => rw [ih later]
  refine ⟨?_, fun old new edge => ?_, rfl, Editor.aligned_ofLines _⟩
  · rw [newOf_kept]
    rfl
  · rw [same _ edge, Editor.resolve_ofLines]

theorem joined {strips : List Strip} (draft : Draft strips e) : e.buffer.joined = .ofList (newOf strips) := by
  have texts : e.buffer.lines = _ := draft.texts
  rw [Buffer.joined, texts, Text.unlines, Text.join, List.map_map]
  simp [Function.comp_def, Text.gather_pieces]

/-- What is put in may be taken as put in part by part. -/
theorem split {text more : List Char} (draft : Draft (front ++ ⟨[], text ++ more⟩ :: back) e) :
    Draft (front ++ ⟨[], text⟩ :: ⟨[], more⟩ :: back) e := by
  refine ⟨by simpa using draft.texts, fun old new edge => draft.resolves old new ?_, draft.quiet,
    draft.aligned⟩
  rcases edge.cases_append with ⟨left, right, rfl, some, opens, rfl, rfl⟩ | ⟨old, new, inBack, rfl, rfl⟩
  · exact Edge.of_front some opens _
  · cases inBack with
    | here visible => exact absurd rfl visible
    | behind later => cases later with
      | here visible => exact absurd rfl visible
      | @behind _ _ old new later =>
        have both : Edge (⟨[], text ++ more⟩ :: back) ([] ++ old) (text ++ more ++ new) := .behind later
        simpa using both.of_back front

theorem place (draft : Draft (front ++ back) e) (opens : Opens back) {l : Line} {first : List Char}
    (present : row? e.lines (Position.origin.advance (newOf front)).line = some l)
    (isLine : l.text.toList = lastLine (newOf front) ++ first) :
    (Position.origin.advance (oldOf front)).line = (Position.origin.advance (newOf front)).line ∧
      l.place (Position.origin.advance (oldOf front)).column = byteLength (lastLine (newOf front)) := by
  have resolved := draft.resolves _ _ (Edge.of_back (.of_opens opens) front)
  rw [List.append_nil, List.append_nil] at resolved
  generalize Position.origin.advance (oldOf front) = p at resolved ⊢
  obtain ⟨number, column⟩ := p
  obtain rfl : number = (Position.origin.advance (newOf front)).line := congrArg Position.line resolved
  rw [Editor.resolve_of_row? present, Position.advance_origin] at resolved
  have now : l.shifts.resolve column = byteLength (lastLine (newOf front)) := congrArg Position.column resolved
  refine ⟨rfl, ?_⟩
  rw [Line.place, now, Text.floorColumn, isLine, Text.takeBytes_append]

theorem columnBehind_zero (text : List Char) (short : byteLength text ≤ columnLimit) :
    columnBehind (Position.origin.advance text).column 0 = (Position.origin.advance text).column := by
  have last := Text.byteLength_lastLine_le text
  refine Line.columnBehind_eq ?_
  rw [Position.advance_origin]
  exact Nat.le_trans last short

section Insert

variable {text : String} (opens : Opens back) (shown : Shown front) (flat : '\n' ∉ text.toList)
  (short : byteLength (oldOf front) ≤ columnLimit)
  (fits : byteLength (newOf front ++ text.toList ++ newOf back) ≤ columnLimit)

include opens shown flat short fits

theorem exists_inserted (draft : Draft (front ++ back) e) : ∃ l,
    row? e.lines (Position.origin.advance (oldOf front)).line = some l ∧
      l.place (Position.origin.advance (oldOf front)).column = byteLength (lastLine (newOf front)) ∧
      Draft (front ++ ⟨[], text.toList⟩ :: back) (e.setLine (Position.origin.advance (oldOf front)).line
        (l.replace (Position.origin.advance (oldOf front)).column 0 text false)) := by
  have texts : e.texts = (pieces (· == '\n') (newOf front ++ [] ++ newOf back)).map .ofList := by
    rw [draft.texts, newOf_append, List.append_nil]
  have shorter : byteLength (newOf front ++ [] ++ newOf back) ≤ columnLimit := by
    simp only [Text.byteLength_append] at fits ⊢
    simp only [Text.byteLength_nil]
    omega
  obtain ⟨l, first, present, isLine, -, spliced⟩ :=
    exists_spliced draft.aligned texts (by simp) flat shorter fits
  rw [List.append_nil] at isLine
  obtain ⟨line, place⟩ := draft.place opens present isLine
  rw [line]
  refine ⟨l, present, place, ?_⟩
  have replaced : l.replace (Position.origin.advance (oldOf front)).column 0 text false =
      l.splice (byteLength (lastLine (newOf front))) (byteLength (lastLine (newOf front)) + byteLength []) text := by
    rw [Line.replace, columnBehind_zero _ short, place]
    simp
  rw [replaced]
  have draft : Draft (front ++ [] ++ back) e := by rwa [List.append_nil]
  exact draft.of_spliced rfl spliced (fun contrary => absurd rfl contrary) (.inr ⟨rfl, shown⟩)

theorem yields_insert : Yields (Draft (front ++ back))
    (Edit.insert (Position.origin.advance (oldOf front)).line (Position.origin.advance (oldOf front)).column text)
    fun _ => Draft (front ++ ⟨[], text.toList⟩ :: back) := by
  intro e draft
  obtain ⟨l, present, -, inserted⟩ := draft.exists_inserted opens shown flat short fits
  exact ⟨(), _, Edit.replace_run present _ 0 text false, inserted⟩

end Insert

/-- Text that is put in at a place and eats the blanks behind it. -/
theorem yields_insert_eating {run : List Char} {text : String} (opens : Opens (kept run ++ back)) (shown : Shown front)
    (flat : '\n' ∉ text.toList) {c : Char} (last : text.toList.getLast? = some c) (loose : Text.isWordChar c = false)
    (blank : ∀ c ∈ run, Text.isIndent c = true) (ends : ∀ c ∈ (newOf back).head?, Text.isIndent c = false)
    (short : byteLength (oldOf front) ≤ columnLimit)
    (fits : byteLength (newOf front ++ text.toList ++ (run ++ newOf back)) ≤ columnLimit) :
    Yields (Draft (front ++ (kept run ++ back)))
      (Edit.insert (Position.origin.advance (oldOf front)).line (Position.origin.advance (oldOf front)).column text true)
      fun _ => Draft (front ++ ⟨[], text.toList⟩ :: (eaten run ++ back)) := by
  intro e draft
  have room : byteLength (newOf front ++ text.toList ++ newOf (kept run ++ back)) ≤ columnLimit := by
    rwa [newOf_append, newOf_kept]
  obtain ⟨l, present, place, inserted⟩ := draft.exists_inserted opens shown flat short room
  have ran := Edit.replace_run present (Position.origin.advance (oldOf front)).column 0 text true
  refine ⟨(), _, ran, ?_⟩
  have flatRun : '\n' ∉ run := fun broken => absurd (blank _ broken) (by decide)
  generalize isNumber : (Position.origin.advance (oldOf front)).line = number at present inserted
  generalize isNew : l.replace (Position.origin.advance (oldOf front)).column 0 text false = l' at inserted
  have lastLeft : lastLine (newOf front ++ text.toList) = lastLine (newOf front) ++ text.toList :=
    Text.lastLine_append_of_flat _ flat
  have texts : (e.setLine number l').texts =
      (pieces (· == '\n') (newOf front ++ text.toList ++ run ++ newOf back)).map .ofList := by
    rw [inserted.texts]
    simp
  obtain ⟨l'', first, present', isLine, isFirst, spliced⟩ := @exists_spliced _ _ _ _ inserted.aligned texts flatRun "" (by simp)
    (by simp only [Text.byteLength_append] at fits ⊢; omega)
    (by simp only [Text.byteLength_append] at fits ⊢; simp; omega)
  have sameLine : (Position.origin.advance (newOf front ++ text.toList)).line = number := by
    have resolved := draft.resolves _ _ (Edge.of_back (.of_opens opens) front)
    rw [List.append_nil, List.append_nil] at resolved
    rw [Position.advance_origin_append_flat _ flat, ← isNumber]
    rw [Position.advance_origin (newOf front)] at resolved
    exact (congrArg Position.line resolved).symm
  rw [sameLine] at present' spliced
  obtain rfl : l' = l'' := by
    rw [Editor.row?_setLine present] at present'
    exact Option.some.inj present'
  have gap : Edit.gapBetween (lastLine (newOf front ++ text.toList)).getLast? first.head? = [] := by
    simp [Edit.gapBetween, lastLeft, List.getLast?_append, last, loose]
  have eats : l.replace (Position.origin.advance (oldOf front)).column 0 text true =
      (l'.eat (byteLength (lastLine (newOf front ++ text.toList)))).1 := by
    rw [← isNew, lastLeft, Text.byteLength_append]
    simp [Line.replace, place, Text.size]
  have tight : ∀ c ∈ first.head?, Text.isIndent c = false := by
    intro c isFirstChar
    obtain ⟨more, isMore⟩ := isFirst
    refine ends c ?_
    rw [← isMore, List.head?_append, Option.mem_def.mp isFirstChar]
    rfl
  rw [eats, Line.eat_eq l' isLine blank tight, gap]
  by_cases none : run = []
  · subst none
    simpa [isNumber, eaten, kept] using inserted
  · have some : ¬run.length ≤ ([] : List Char).length := by simpa using none
    have draft : Draft (front ++ [⟨[], text.toList⟩] ++ kept run ++ back)
        (e.setLine number l') := by simpa using inserted
    have opensRun : Opens (kept run) ∧ kept run ≠ [] := by
      obtain ⟨c, more, rfl⟩ := List.exists_cons_of_ne_nil none
      exact ⟨by simp [Opens, kept], by simp [kept]⟩
    have gone := @of_spliced (front ++ [⟨[], text.toList⟩]) (kept run) back _ _ draft ⟨run, []⟩ (by simp)
      (by simpa using spliced) (fun _ => opensRun) (.inl (by simpa using none))
    rw [if_neg some, eaten, if_neg none]
    simpa [isNumber] using gone

end Draft

end SqlFerry
