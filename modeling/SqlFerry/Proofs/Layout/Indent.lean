import Mathlib.Data.List.Forall2
import SqlFerry.Layout.Indent
import SqlFerry.Proofs.Editor.Line
import SqlFerry.Proofs.Text.Bytes

/-! Taking away the indentation that lines share. What the visible lines share is the greatest of the spaces
and tabs that all of them start with, in the order by which one text starts another. The rest follows from
that: what is left of the lines shares nothing, so taking away again changes nothing, and every line can be
cut where the shared indentation ends. -/
namespace SqlFerry.Layout

open Text (isBlankLine isIndent isBlank indentation)

/-! ### What lines share -/

theorem prefix_commonStart_iff {cs as bs : List Char} : cs <+: commonStart as bs ↔ cs <+: as ∧ cs <+: bs := by
  induction as generalizing bs cs with
  | nil => simp +contextual [commonStart]
  | cons a as ih =>
    cases bs with
    | nil => simp +contextual [commonStart]
    | cons b bs =>
      cases cs with
      | nil => simp
      | cons c cs =>
        rw [commonStart, List.cons_prefix_cons, List.cons_prefix_cons]
        split
        · next same => rw [List.cons_prefix_cons, ih, same, and_and_left]
        · next apart =>
          refine iff_of_false (by simp) ?_
          rintro ⟨⟨rfl, -⟩, rfl, -⟩
          exact apart rfl

theorem commonStart_prefix_left (as bs : List Char) : commonStart as bs <+: as :=
  (prefix_commonStart_iff.mp List.prefix_rfl).1

theorem prefix_foldl_commonStart_iff {cs first : List Char} {rest : List (List Char)} :
    cs <+: rest.foldl commonStart first ↔ ∀ text ∈ first :: rest, cs <+: text := by
  induction rest generalizing first with
  | nil => simp
  | cons next rest ih =>
    rw [List.foldl_cons, ih, List.forall_mem_cons, List.forall_mem_cons, List.forall_mem_cons,
      prefix_commonStart_iff, and_assoc]

theorem prefix_takeWhile_iff {p : Char → Bool} {cs text : List Char} :
    cs <+: text.takeWhile p ↔ (∀ c ∈ cs, p c = true) ∧ cs <+: text := by
  induction text generalizing cs with
  | nil => cases cs <;> simp
  | cons d text ih =>
    cases cs with
    | nil => simp
    | cons c cs =>
      by_cases passes : p d = true
      · rw [List.takeWhile_cons_of_pos passes, List.cons_prefix_cons, List.cons_prefix_cons, ih,
          List.forall_mem_cons]
        constructor
        · rintro ⟨rfl, rest, starts⟩
          exact ⟨⟨passes, rest⟩, rfl, starts⟩
        · rintro ⟨⟨-, rest⟩, rfl, starts⟩
          exact ⟨rfl, rest, starts⟩
      · rw [List.takeWhile_cons_of_neg passes]
        refine iff_of_false (by simp) ?_
        rintro ⟨all, starts⟩
        rw [List.cons_prefix_cons] at starts
        exact passes (starts.1 ▸ all c List.mem_cons_self)

/-- Spaces and tabs that all lines start with that are not blank. -/
structure Indents (indent : List Char) (lines : List String) : Prop where
  blanks : ∀ c ∈ indent, isIndent c = true
  starts : ∀ line ∈ lines, isBlankLine line = false → indent <+: line.toList

theorem commonIndent_eq_nil {lines : List String} (hidden : ∀ line ∈ lines, isBlankLine line = true) :
    commonIndent lines = [] := by
  have none : lines.filter (!isBlankLine ·) = [] := List.filter_eq_nil_iff.mpr (by simpa using hidden)
  rw [commonIndent, none]
  rfl

/-- The starts of the common indentation are what all visible lines start with. -/
theorem prefix_commonIndent_iff {cs : List Char} {lines : List String}
    (visible : ∃ line ∈ lines, isBlankLine line = false) : cs <+: commonIndent lines ↔ Indents cs lines := by
  have among : cs <+: commonIndent lines ↔
      ∀ line ∈ lines, isBlankLine line = false → cs <+: (indentation line).toList := by
    rw [commonIndent]
    split
    · next none =>
      obtain ⟨line, member, visible⟩ := visible
      simp only [List.map_eq_nil_iff, List.filter_eq_nil_iff] at none
      exact absurd visible (by simpa using none line member)
    · next first rest shape =>
      rw [prefix_foldl_commonStart_iff, ← shape, List.forall_mem_map]
      simp
  simp only [among, indentation, String.toList_ofList, prefix_takeWhile_iff]
  constructor
  · intro starts
    obtain ⟨line, member, visible⟩ := visible
    exact ⟨(starts line member visible).1, fun line member visible => (starts line member visible).2⟩
  · intro indents line member visible
    exact ⟨indents.blanks, indents.starts line member visible⟩

theorem indents_commonIndent (lines : List String) : Indents (commonIndent lines) lines := by
  by_cases visible : ∃ line ∈ lines, isBlankLine line = false
  · exact (prefix_commonIndent_iff visible).mp List.prefix_rfl
  · rw [commonIndent_eq_nil (by simpa using visible)]
    exact ⟨by simp, fun _ _ _ => List.nil_prefix⟩

/-! ### What is left of them -/

/-- What is left of a line without its indentation; nothing is left of a blank line. -/
def Stripped (indent : List Char) (line stripped : String) : Prop :=
  if isBlankLine line then stripped = "" else line.toList = indent ++ stripped.toList

def strip (width : Nat) (line : String) : String :=
  if isBlankLine line then "" else .ofList (line.toList.drop width)

theorem dedent_eq_map (lines : List String) : dedent lines = lines.map (strip (commonIndent lines).length) := rfl

theorem stripped_of_mem {lines : List String} {line : String} (member : line ∈ lines) :
    Stripped (commonIndent lines) line (strip (commonIndent lines).length line) := by
  rw [Stripped, strip]
  split
  · rfl
  · next visible =>
    have starts := (indents_commonIndent lines).starts line member (Bool.eq_false_iff.mpr visible)
    rw [String.toList_ofList, List.prefix_iff_eq_append.mp starts]

theorem isIndent_cases {c : Char} (indent : isIndent c = true) : c = ' ' ∨ c = '\t' := by
  simpa [isIndent] using indent

theorem isBlank_of_isIndent {c : Char} (indent : isIndent c = true) : isBlank c = true := by
  rcases isIndent_cases indent with rfl | rfl <;> rfl

theorem Stripped.isBlankLine_eq {indent : List Char} {line stripped : String}
    (blanks : ∀ c ∈ indent, isIndent c = true) (isStripped : Stripped indent line stripped) :
    isBlankLine stripped = isBlankLine line := by
  rw [Stripped] at isStripped
  split at isStripped
  · next blank => rw [isStripped, blank]; rfl
  · have allBlank : indent.all isBlank = true :=
      List.all_eq_true.mpr fun c member => isBlank_of_isIndent (blanks c member)
    rw [isBlankLine, isBlankLine, isStripped, List.all_append, allBlank, Bool.true_and]

theorem commonIndent_dedent (lines : List String) : commonIndent (dedent lines) = [] := by
  by_cases hidden : ∀ line ∈ dedent lines, isBlankLine line = true
  · exact commonIndent_eq_nil hidden
  · have indents := indents_commonIndent lines
    have more := indents_commonIndent (dedent lines)
    have longer : Indents (commonIndent lines ++ commonIndent (dedent lines)) lines := by
      refine ⟨List.forall_mem_append.mpr ⟨indents.blanks, more.blanks⟩, fun line member visible => ?_⟩
      have isStripped := stripped_of_mem member
      have starts := more.starts _ (List.mem_map_of_mem member)
        ((isStripped.isBlankLine_eq indents.blanks).trans visible)
      rw [Stripped, if_neg (by simp [visible])] at isStripped
      rw [isStripped]
      exact (List.prefix_append_right_inj _).mpr starts
    have visible : ∃ line ∈ lines, isBlankLine line = false := by
      simp only [not_forall, Bool.not_eq_true] at hidden
      obtain ⟨stripped, member, visible⟩ := hidden
      rw [dedent_eq_map, List.mem_map] at member
      obtain ⟨line, isLine, rfl⟩ := member
      exact ⟨line, isLine, ((stripped_of_mem isLine).isBlankLine_eq indents.blanks).symm.trans visible⟩
    have noLonger := ((prefix_commonIndent_iff visible).mpr longer).length_le
    rw [List.length_append] at noLonger
    exact List.length_eq_zero_iff.mp (by omega)

theorem dedent_dedent (lines : List String) : dedent (dedent lines) = dedent lines := by
  rw [dedent_eq_map (dedent lines), commonIndent_dedent]
  refine (List.map_congr_left fun stripped member => ?_).trans (List.map_id _)
  rw [dedent_eq_map, List.mem_map] at member
  obtain ⟨line, isLine, rfl⟩ := member
  have isStripped := stripped_of_mem isLine
  generalize strip (commonIndent lines).length line = stripped at isStripped
  have sameBlank := isStripped.isBlankLine_eq (indents_commonIndent lines).blanks
  rw [strip, id]
  split
  · next blank =>
    rw [Stripped, if_pos (sameBlank.symm.trans blank)] at isStripped
    exact isStripped.symm
  · rw [List.length_nil, List.drop_zero, String.ofList_toList]

/-! ### Where they are cut -/

/-- How many bytes two texts share at their start. -/
def sharedBytes (s t : String) : Nat :=
  ((s.toByteArray.data.toList.zip t.toByteArray.data.toList).takeWhile fun pair => pair.1 == pair.2).length

/-- The indentation of a line, cut out of its bytes. -/
def indentation? (line : String) : Option String :=
  Text.slice? line 0 (Text.byteLength (line.toList.takeWhile isIndent))

/-- What is shared, with one line more. -/
def narrow? (shared : Option String) (line : String) : Option (Option String) := do
  let indent ← indentation? line
  match shared with
  | none => return some indent
  | some shared => return some (← Text.slice? shared 0 (sharedBytes shared indent))

/-- The lines without the indentation that they share, cut out of their bytes. -/
def dedent? (lines : List String) : Option (List String) := do
  let shared ← (lines.filter (!isBlankLine ·)).foldlM narrow? none
  let width := shared.elim 0 Text.size
  lines.mapM fun line => if isBlankLine line then some "" else Text.slice? line width (Text.size line)

theorem isIndent_of_mem_indentation (line : String) : ∀ c ∈ (indentation line).toList, isIndent c = true := by
  rw [indentation, String.toList_ofList]
  exact (prefix_takeWhile_iff.mp List.prefix_rfl).1

theorem indentation?_eq (line : String) : indentation? line = some (indentation line) :=
  Text.slice?_front List.takeWhile_append_dropWhile.symm

theorem bytes_of_all_isIndent {cs : List Char} (blanks : ∀ c ∈ cs, isIndent c = true) :
    (String.ofList cs).toByteArray.data.toList = cs.map (·.val.toUInt8) := by
  induction cs with
  | nil => rfl
  | cons c cs ih =>
    rw [List.forall_mem_cons] at blanks
    rw [String.toByteArray_ofList] at ih ⊢
    rw [List.utf8Encode_cons, ByteArray.data_append, Array.toList_append, ih blanks.2,
      List.utf8Encode_singleton, String.utf8EncodeChar_eq_singleton (Line.utf8Size_of_isIndent blanks.1)]
    rfl

/-- Spaces and tabs have one byte each, so bytes are shared where characters are. -/
theorem sharedBytes_eq {as bs : List Char} (left : ∀ c ∈ as, isIndent c = true)
    (right : ∀ c ∈ bs, isIndent c = true) :
    sharedBytes (.ofList as) (.ofList bs) = (commonStart as bs).length := by
  rw [sharedBytes, bytes_of_all_isIndent left, bytes_of_all_isIndent right]
  induction as generalizing bs with
  | nil => rfl
  | cons a as ih =>
    cases bs with
    | nil => rfl
    | cons b bs =>
      rw [List.forall_mem_cons] at left right
      have sameByte : (a.val.toUInt8 == b.val.toUInt8) = decide (a = b) := by
        rcases isIndent_cases left.1 with rfl | rfl <;> rcases isIndent_cases right.1 with rfl | rfl <;> rfl
      rw [List.map_cons, List.map_cons, List.zip_cons_cons, List.takeWhile_cons, commonStart, sameByte]
      by_cases same : a = b
      · rw [if_pos (decide_eq_true same), if_pos same, List.length_cons, List.length_cons,
          ih left.2 right.2]
      · rw [if_neg (by simp [same]), if_neg same]
        rfl

theorem narrow?_eq {shared : List Char} (blanks : ∀ c ∈ shared, isIndent c = true) (line : String) :
    narrow? (some (.ofList shared)) line =
      some (some (.ofList (commonStart shared (indentation line).toList))) := by
  have own := isIndent_of_mem_indentation line
  have starts := commonStart_prefix_left shared (indentation line).toList
  have size : sharedBytes (.ofList shared) (indentation line) =
      Text.byteLength (commonStart shared (indentation line).toList) := by
    rw [← @String.ofList_toList (indentation line), sharedBytes_eq blanks own, String.ofList_toList]
    exact (Line.byteLength_of_all_isIndent fun c member => blanks c (starts.subset member)).symm
  obtain ⟨rest, whole⟩ := starts
  have cut := @Text.slice?_front (.ofList shared) _ rest (by rw [String.toList_ofList, whole])
  simp only [narrow?, indentation?_eq, Option.bind_eq_bind, Option.bind_some, size, cut]
  rfl

/-- Cutting line by line narrows what is shared to the common start of all. -/
theorem foldlM_narrow? {shared : List Char} (blanks : ∀ c ∈ shared, isIndent c = true) (lines : List String) :
    lines.foldlM narrow? (some (.ofList shared)) =
      some (some (.ofList ((lines.map fun line => (indentation line).toList).foldl commonStart shared))) := by
  induction lines generalizing shared with
  | nil => rfl
  | cons line lines ih =>
    have starts := commonStart_prefix_left shared (indentation line).toList
    rw [List.foldlM_cons, narrow?_eq blanks, List.map_cons, List.foldl_cons]
    exact ih fun c member => blanks c (starts.subset member)

theorem exists_shared (lines : List String) : ∃ shared : Option String,
    (lines.filter (!isBlankLine ·)).foldlM narrow? none = some shared ∧
      shared.elim 0 Text.size = Text.byteLength (commonIndent lines) := by
  rw [commonIndent]
  cases lines.filter (!isBlankLine ·) with
  | nil => exact ⟨none, rfl, rfl⟩
  | cons first rest =>
    have begun : narrow? none first = some (some (indentation first)) := by
      rw [narrow?, indentation?_eq]
      rfl
    have narrowed := foldlM_narrow? (isIndent_of_mem_indentation first) rest
    rw [String.ofList_toList] at narrowed
    refine ⟨some (.ofList _), by rw [List.foldlM_cons, begun]; exact narrowed, ?_⟩
    rw [Option.elim_some, Text.size_ofList]
    rfl

theorem mapM_eq_some_map {α β : Type} {f : α → Option β} {g : α → β} {as : List α}
    (each : ∀ a ∈ as, f a = some (g a)) : as.mapM f = some (as.map g) := by
  induction as with
  | nil => rfl
  | cons a as ih =>
    rw [List.forall_mem_cons] at each
    rw [List.mapM_cons, each.1, ih each.2]
    rfl

theorem dedent?_eq (lines : List String) : dedent? lines = some (dedent lines) := by
  obtain ⟨shared, isShared, width⟩ := exists_shared lines
  rw [dedent?, isShared, Option.bind_eq_bind, Option.bind_some, width]
  refine mapM_eq_some_map fun line member => ?_
  split
  · rfl
  · next visible =>
    have starts := (indents_commonIndent lines).starts line member (Bool.eq_false_iff.mpr visible)
    exact Text.slice?_back (List.prefix_iff_eq_append.mp starts).symm

/-- Dedenting takes the longest indentation from the lines that all visible lines share, and leaves blank
lines empty. Dedenting again changes nothing, and on the bytes of the lines no cut lies out of range or inside
of a character. -/
theorem dedent_strips_longest_indent (lines : List String) :
    (∃ indent, (∀ c ∈ indent, isIndent c = true) ∧ List.Forall₂ (Stripped indent) lines (dedent lines) ∧
      ((∃ line ∈ lines, isBlankLine line = false) → ∀ longer, Indents longer lines → longer <+: indent)) ∧
      dedent (dedent lines) = dedent lines ∧ dedent? lines = some (dedent lines) := by
  refine ⟨⟨commonIndent lines, (indents_commonIndent lines).blanks, ?_, ?_⟩, dedent_dedent lines,
    dedent?_eq lines⟩
  · rw [dedent_eq_map, List.forall₂_map_right_iff, List.forall₂_same]
    exact fun line member => stripped_of_mem member
  · exact fun visible longer indents => (prefix_commonIndent_iff visible).mpr indents

end SqlFerry.Layout
