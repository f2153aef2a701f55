import SqlFerry.Proofs.Naming
import SqlFerry.Proofs.Plpgsql.Layout

/-! Reassembling a text loses and doubles nothing. What stands in front of a place is what stands in front
of an earlier one together with the cut between them, so cuts at places that follow one another make up the
whole text. Tidying a cut and indenting it anew keep its ink, which is what neither is blank nor ends a
statement, as long as no line of it is a batch separator. -/
namespace SqlFerry

namespace Position

/-- Places in the order in which a reader comes to them. -/
instance : Preorder Position where
  le p q := p.line < q.line ∨ p.line = q.line ∧ p.column ≤ q.column
  le_refl p := by simp
  le_trans p q r := by omega

instance (p q : Position) : Decidable (p ≤ q) :=
  inferInstanceAs (Decidable (p.line < q.line ∨ p.line = q.line ∧ p.column ≤ q.column))

theorem line_le {p q : Position} (ordered : p ≤ q) : p.line ≤ q.line := by
  rcases ordered with earlier | ⟨same, -⟩ <;> omega

end Position

namespace Text

theorem takeBytes_zero (cs : List Char) : takeBytes 0 cs = [] := by
  cases cs with
  | nil => rfl
  | cons c cs => rw [takeBytes, if_neg (Nat.not_le_of_lt c.utf8Size_pos)]

theorem takeBytes_size (line : String) : takeBytes (size line) line.toList = line.toList := by
  have whole := takeBytes_append line.toList []
  rwa [List.append_nil] at whole

theorem takeBytes_prefix {a b : Nat} (ordered : a ≤ b) (cs : List Char) : takeBytes a cs <+: takeBytes b cs := by
  induction cs generalizing a b with
  | nil => exact List.prefix_refl _
  | cons c cs ih =>
    by_cases fits : c.utf8Size ≤ a
    · rw [takeBytes, if_pos fits, takeBytes, if_pos (by omega), List.cons_prefix_cons]
      exact ⟨rfl, ih (by omega)⟩
    · rw [takeBytes, if_neg fits]
      exact List.nil_prefix

theorem toList_unlines_concat (front : List String) (last : String) :
    (unlines (front ++ [last])).toList = front.flatMap (fun line => line.toList ++ ['\n']) ++ last.toList := by
  induction front with
  | nil => simp [unlines_cons]
  | cons line front ih =>
    cases front with
    | nil => simp [unlines_cons]
    | cons next front =>
      rw [List.cons_append, unlines_cons, String.toList_ofList] at ih
      rw [List.cons_append, List.cons_append, unlines_cons, String.toList_ofList, List.flatMap_cons,
        List.cons_append, ih]
      simp

theorem flatten_pieces (sep : Char → Bool) (cs : List Char) :
    (pieces sep cs).flatten = cs.filter (!sep ·) := by
  induction cs with
  | nil => rfl
  | cons c cs ih =>
    cases isSep : sep c with
    | true =>
      rw [pieces_cons_sep isSep, List.flatten_cons, List.nil_append, ih, List.filter_cons_of_neg (by simp [isSep])]
    | false =>
      obtain ⟨piece, rest, shape⟩ := List.exists_cons_of_ne_nil (pieces_ne_nil sep cs)
      rw [shape, List.flatten_cons] at ih
      rw [pieces_cons_other isSep shape, List.flatten_cons, List.cons_append, ih,
        List.filter_cons_of_pos (by simp [isSep])]

end Text

namespace Plpgsql

open Text Layout Position

/-! ### Cuts -/

variable {lines : List String} {p q : Position}

/-- What stands in front of a place. -/
def upTo (lines : List String) (p : Position) : List Char :=
  (lines.take (p.line - 1)).flatMap (fun line => line.toList ++ ['\n']) ++
    takeBytes p.column ((row? lines p.line).getD "").toList

/-- The start of the character that a place lies in. -/
def settled (lines : List String) (p : Position) : Position :=
  ⟨p.line, floorColumn ((row? lines p.line).getD "") p.column⟩

theorem cut_eq_textBetween_settled (lines : List String) (p q : Position) :
    cut lines p q = textBetween lines (settled lines p) (settled lines q) := by
  have boundary (place : Position) : ∀ line, row? lines (settled lines place).line = some line →
      StandsAt line (settled lines place).column "" := by
    intro line present
    have here : row? lines place.line = some line := present
    rw [settled, here]
    exact standsAt_floorColumn line place.column
  rw [← cut_eq_textBetween (boundary p) (boundary q), cut, spanText, cut, spanText]
  refine congrArg unlines (List.map_congr_left ?_)
  rintro ⟨line, number⟩ member
  have same (place : Position) (other : Nat) :
      (if number = (settled lines place).line then floorColumn line (settled lines place).column else other) =
        if number = place.line then floorColumn line place.column else other := by
    refine ite_congr rfl (fun here => ?_) fun _ => rfl
    have present : row? lines place.line = some line := here ▸ row?_of_mem_numberedLines member
    rw [settled, present, Option.getD_some, (standsAt_floorColumn line _).floorColumn_eq]
  simp only [same]

section Places

variable {front behind : List String} {line : String} (place : p.line = front.length + 1)
include place

theorem row?_place : row? (front ++ line :: behind) p.line = some line := by
  rw [place]
  simp [row?]

theorem settled_place :
    settled (front ++ line :: behind) p = ⟨front.length + 1, byteLength (takeBytes p.column line.toList)⟩ := by
  rw [settled, row?_place place, place]
  rfl

theorem upTo_place : upTo (front ++ line :: behind) p =
    front.flatMap (fun line => line.toList ++ ['\n']) ++ takeBytes p.column line.toList := by
  rw [upTo, row?_place place, place, Nat.add_sub_cancel, List.take_left]
  rfl

end Places

theorem exists_place (lines : List String) {n : Nat} (exists_line : 1 ≤ n) (inside : n ≤ lines.length) :
    ∃ front line behind, lines = front ++ line :: behind ∧ n = front.length + 1 := by
  refine ⟨lines.take (n - 1), lines[n - 1], lines.drop (n - 1 + 1), ?_, ?_⟩
  · rw [List.getElem_cons_drop, List.take_append_drop]
  · rw [List.length_take_of_le (by omega)]
    omega

theorem upTo_append_cut_line {front behind : List String} {line : String} (ordered : p.column ≤ q.column)
    (start : p.line = front.length + 1) (stop : q.line = front.length + 1) :
    upTo (front ++ line :: behind) p ++ (cut (front ++ line :: behind) p q).toList =
      upTo (front ++ line :: behind) q := by
  obtain ⟨middle, whole⟩ := takeBytes_prefix ordered line.toList
  have shape : line = .ofList (takeBytes p.column line.toList ++ middle ++ dropBytes q.column line.toList) := by
    rw [whole, takeBytes_append_dropBytes, String.ofList_toList]
  have between := textBetween_one_line front behind (takeBytes p.column line.toList) middle
    (dropBytes q.column line.toList)
  rw [← shape, whole] at between
  rw [cut_eq_textBetween_settled, settled_place start, settled_place stop, upTo_place start, upTo_place stop,
    between, String.toList_ofList, List.append_assoc, whole]

theorem upTo_append_cut_lines {front inner behind : List String} {first last : String}
    (start : p.line = front.length + 1) (stop : q.line = (front ++ first :: inner).length + 1) :
    upTo (front ++ first :: inner ++ last :: behind) p ++
        (cut (front ++ first :: inner ++ last :: behind) p q).toList =
      upTo (front ++ first :: inner ++ last :: behind) q := by
  have between := textBetween_more_lines front inner behind (takeBytes p.column first.toList)
    (dropBytes p.column first.toList) (takeBytes q.column last.toList) (dropBytes q.column last.toList)
  have parted := takeBytes_append_dropBytes p.column first.toList
  rw [parted, takeBytes_append_dropBytes, String.ofList_toList, String.ofList_toList] at between
  have lines : front ++ first :: inner ++ last :: behind = front ++ first :: (inner ++ last :: behind) := by simp
  have count : (front ++ first :: inner).length + 1 = front.length + (inner.length + 2) := by simp; omega
  rw [cut_eq_textBetween_settled, settled_place stop, upTo_place stop, lines, settled_place start,
    upTo_place start, count, between, ← List.cons_append, toList_unlines_concat, String.toList_ofList,
    List.flatMap_cons, String.toList_ofList, List.flatMap_append, List.flatMap_cons]
  simp only [List.append_assoc]
  rw [← List.append_assoc (takeBytes p.column first.toList), parted]

/-- What stands in front of a place is what stands in front of an earlier one and the cut between them. -/
theorem upTo_append_cut (exists_line : 1 ≤ p.line) (ordered : p ≤ q) (inside : q.line ≤ max lines.length 1) :
    upTo lines p ++ (cut lines p q).toList = upTo lines q := by
  by_cases empty : lines = []
  · subst empty
    have nothing (place : Position) : upTo [] place = [] := by
      cases number : place.line <;> simp [upTo, row?, number, takeBytes]
    have none : numberedLines [] p.line q.line = [] := by
      rw [numberedLines]
      split <;> simp
    rw [nothing, nothing, cut, spanText, none]
    rfl
  · have visible := List.length_pos_of_ne_nil empty
    rw [max_eq_left visible] at inside
    rcases ordered with earlier | ⟨sameLine, ordered⟩
    · obtain ⟨start, last, behind, rfl, stop⟩ := exists_place lines (by omega) inside
      obtain ⟨front, first, inner, rfl, start⟩ := exists_place start exists_line (by omega)
      exact upTo_append_cut_lines start stop
    · obtain ⟨front, line, behind, rfl, stop⟩ := exists_place lines (by omega) inside
      exact upTo_append_cut_line ordered (sameLine.trans stop) stop

theorem upTo_origin (lines : List String) : upTo lines .origin = [] := by
  cases lines with
  | nil => rfl
  | cons line lines => exact takeBytes_zero line.toList

theorem upTo_endOf (lines : List String) : upTo lines (endOf lines) = (unlines lines).toList := by
  rcases List.eq_nil_or_concat lines with rfl | ⟨front, last, rfl⟩
  · rfl
  · rw [List.concat_eq_append]
    have place : (endOf (front ++ [last])).line = front.length + 1 := by simp [endOf]
    rw [upTo_place place, toList_unlines_concat, endOf, List.getLast?_concat, Option.map_some, Option.getD_some,
      takeBytes_size]

def slices (lines : List String) : List Position → List String
  | [] | [_] => []
  | p :: q :: rest => cut lines p q :: slices lines (q :: rest)

theorem upTo_append_slices (exists_line : 1 ≤ p.line) {rest : List Position}
    (ordered : (p :: rest).IsChain (· ≤ ·)) (stop : (p :: rest).getLast? = some (endOf lines)) :
    upTo lines p ++ (slices lines (p :: rest)).flatMap String.toList = (unlines lines).toList := by
  induction rest generalizing p with
  | nil =>
    obtain rfl : p = endOf lines := by simpa using stop
    rw [slices, List.flatMap_nil, List.append_nil, upTo_endOf]
  | cons q rest ih =>
    obtain ⟨next, later⟩ := List.isChain_cons_cons.mp ordered
    rw [List.getLast?_cons_cons] at stop
    have inside : q ≤ endOf lines := by
      rcases List.mem_cons.mp (List.mem_of_getLast? stop) with last | behind
      · exact le_of_eq last.symm
      · exact List.rel_of_pairwise_cons later.pairwise behind
    rw [slices, List.flatMap_cons, ← List.append_assoc, upTo_append_cut exists_line next (line_le inside),
      ih (exists_line.trans (line_le next)) later stop]

/-! ### Frames -/

/-- A function to be laid out, with the text of its header and the text of its body. -/
structure Section where
  layout : FunctionLayout
  header : String
  body : String

/-- Where a text is cut: at its start, at the end of each header and of each body, and at its end. -/
def places (editor : Editor) (cursor : Position) (layouts : List FunctionLayout) : List Position :=
  cursor :: layouts.flatMap (fun layout => [editor.resolve layout.headerEnd, editor.resolve layout.bodyEnd]) ++
    [endOf editor.texts]

def sections (editor : Editor) (cursor : Position) : List FunctionLayout → List Section
  | [] => []
  | layout :: rest =>
    let headerEnd := editor.resolve layout.headerEnd
    let bodyEnd := editor.resolve layout.bodyEnd
    ⟨layout, cut editor.texts cursor headerEnd, cut editor.texts headerEnd bodyEnd⟩ ::
      sections editor bodyEnd rest

def trailer (editor : Editor) (cursor : Position) : List FunctionLayout → String
  | [] => cut editor.texts cursor (endOf editor.texts)
  | layout :: rest => trailer editor (editor.resolve layout.bodyEnd) rest

theorem slices_places (editor : Editor) (cursor : Position) (layouts : List FunctionLayout) :
    slices editor.texts (places editor cursor layouts) =
      (sections editor cursor layouts).flatMap (fun part => [part.header, part.body]) ++
        [trailer editor cursor layouts] := by
  induction layouts generalizing cursor with
  | nil => rfl
  | cons layout rest ih =>
    have next := ih (editor.resolve layout.bodyEnd)
    simp only [places, List.flatMap_cons, List.cons_append, List.nil_append, slices, sections, trailer] at next ⊢
    rw [next]

theorem sections_layout (editor : Editor) (cursor : Position) (layouts : List FunctionLayout) :
    (sections editor cursor layouts).map (·.layout) = layouts := by
  induction layouts generalizing cursor with
  | nil => rfl
  | cons layout rest ih => rw [sections, List.map_cons, ih]

theorem join_slices (editor : Editor) {layouts : List FunctionLayout}
    (ordered : (places editor .origin layouts).IsChain (· ≤ ·)) :
    String.join (slices editor.texts (places editor .origin layouts)) = unlines editor.texts := by
  have stop : (places editor .origin layouts).getLast? = some (endOf editor.texts) := List.getLast?_concat
  have whole := upTo_append_slices (Nat.le_refl 1) ordered stop
  rw [upTo_origin, List.nil_append, ← String.toList_join] at whole
  exact String.toList_injective whole

/-- A function: its header, its variables and its body, each in its place of the frame. -/
def framed (indent : String) (locals : List (String × String)) (header body : List String) : List String :=
  header ++ ["$$"] ++
    (if locals = [] then [] else "DECLARE" :: locals.map fun (name, type) => indent ++ name ++ " " ++ type ++ ";") ++
    ["BEGIN"] ++ body ++ ["END;", "$$ LANGUAGE plpgsql;"]

def sectionLines (options : Options) (part : Section) : List String :=
  framed options.indent part.layout.locals (headerLines part.header) (bodyLines options.indent part.body)

theorem functionLines_eq (options : Options) (layout : FunctionLayout) (header body : String) :
    functionLines options layout header body = sectionLines options ⟨layout, header, body⟩ := by
  cases locals : layout.locals <;> simp [functionLines, sectionLines, framed, declarationLines, locals]

/-- The groups of lines that a text is put together from. -/
def blocks (editor : Editor) (options : Options) (cursor : Position) (layouts : List FunctionLayout) :
    List (List String) :=
  (sections editor cursor layouts).map (sectionLines options) ++
    [headerLines (trailer editor cursor layouts)].filter (· ≠ [])

theorem blocks_ne_nil (editor : Editor) (options : Options) (cursor : Position) (layouts : List FunctionLayout) :
    ∀ block ∈ blocks editor options cursor layouts, block ≠ [] := by
  intro block member
  rcases List.mem_append.mp member with function | behind
  · obtain ⟨part, -, rfl⟩ := List.mem_map.mp function
    simp [sectionLines, framed]
  · exact of_decide_eq_true (List.mem_filter.mp behind).2

theorem reassembleFrom_eq_foldl (editor : Editor) (options : Options) (done : List String) (cursor : Position)
    (layouts : List FunctionLayout) :
    reassembleFrom editor options done cursor layouts =
      (blocks editor options cursor layouts).foldl separated done := by
  induction layouts generalizing done cursor with
  | nil =>
    rw [reassembleFrom, blocks, sections, trailer]
    cases headerLines (cut editor.texts cursor (endOf editor.texts)) <;> rfl
  | cons layout rest ih =>
    rw [reassembleFrom, ih, functionLines_eq]
    rfl

theorem foldl_separated {first : List String} {rest : List (List String)} (visible : first ≠ []) :
    rest.foldl separated first = [""].intercalate (first :: rest) := by
  induction rest generalizing first with
  | nil => simp
  | cons next rest ih =>
    have start : separated first next = first ++ "" :: next := by simp [separated, visible]
    rw [List.foldl_cons, ih (by simp [start]), start, List.intercalate_cons_cons]
    cases rest <;> simp

theorem reassemble_eq (editor : Editor) (options : Options) (layouts : List FunctionLayout) :
    reassemble editor options layouts = [""].intercalate (blocks editor options .origin layouts) := by
  have visible := blocks_ne_nil editor options .origin layouts
  rw [reassemble, reassembleFrom_eq_foldl]
  cases shape : blocks editor options .origin layouts with
  | nil => rfl
  | cons first rest =>
    rw [shape, List.forall_mem_cons] at visible
    exact foldl_separated visible.1

/-! ### Ink -/

/-- What can be seen of some lines, apart from the semicolons. -/
def ink (lines : List String) : List Char := lines.flatMap fun line => line.toList.filter isInk

theorem filter_isInk_eq (line : String) :
    line.toList.filter isInk = (words line).flatMap fun word => word.toList.filter isInk := by
  have visible : (runs line.toList).flatten = line.toList.filter (!isBlank ·) := by
    rw [runs, ← flatten_pieces]
    exact List.flatten_filter_ne_nil
  calc line.toList.filter isInk
      = (line.toList.filter (!isBlank ·)).filter isInk := by
        rw [List.filter_filter]
        refine List.filter_congr fun c _ => ?_
        cases blank : isBlank c <;> simp [isInk, blank]
    _ = (runs line.toList).flatten.filter isInk := by rw [visible]
    _ = (words line).flatMap fun word => word.toList.filter isInk := by
        rw [List.filter_flatten, words_eq, List.flatMap_map, List.flatMap_def]
        simp only [String.toList_ofList]

theorem ink_congr {lines others : List String} (same : lines.flatMap words = others.flatMap words) :
    ink lines = ink others := by
  have wordwise (texts : List String) :
      ink texts = (texts.flatMap words).flatMap fun word => word.toList.filter isInk := by
    rw [ink, List.flatMap_assoc]
    exact congrArg texts.flatMap (funext filter_isInk_eq)
  rw [wordwise, wordwise, same]

theorem filter_isInk_collapseSemicolons (cs : List Char) :
    (collapseSemicolons cs).filter isInk = cs.filter isInk := by
  have inkless : ¬isInk ';' = true := by decide
  fun_induction collapseSemicolons cs with
  | case1 rest ih => rw [ih, List.filter_cons_of_neg inkless, List.filter_cons_of_neg inkless,
      List.filter_cons_of_neg inkless]
  | case2 c rest _ ih => rw [List.filter_cons, ih, List.filter_cons]
  | case3 => rfl

theorem filter_isInk_tidyLine (line : String) : (tidyLine line).toList.filter isInk = line.toList.filter isInk := by
  have kept : (String.ofList (collapseSemicolons (trimRight line).toList)).toList.filter isInk =
      line.toList.filter isInk := by
    rw [String.toList_ofList, filter_isInk_collapseSemicolons, filter_isInk_eq, words_trimRight, ← filter_isInk_eq]
  simp only [tidyLine]
  split
  · next alone =>
    have nothing : (String.ofList (collapseSemicolons (trimRight line).toList)).toList.filter isInk = [] := by
      rw [filter_isInk_eq, ← words_trim, alone]
      decide
    rw [← kept, nothing]
    rfl
  · exact kept

theorem ink_cleanup {lines : List String} (plain : ∀ line ∈ lines, isBatchSeparator line = false) :
    ink (cleanup lines) = ink lines := by
  have nothing : ∀ line, isBlankLine line = true → line.toList.filter isInk = [] := by
    intro line blank
    rw [filter_isInk_eq, words_of_isBlankLine blank]
    rfl
  have kept : (lines.map tidyLine).filter (!isBatchSeparator ·) = lines.map tidyLine := by
    refine List.filter_eq_self.mpr fun line member => ?_
    obtain ⟨source, isSource, rfl⟩ := List.mem_map.mp member
    rw [isBatchSeparator_tidyLine, plain source isSource]
    rfl
  rw [ink, cleanup, kept, flatMap_collapseBlankRuns nothing, flatMap_dropEdgeBlanks nothing, List.flatMap_map]
  simp only [filter_isInk_tidyLine, ink]

theorem ink_lines (text : String) : ink (Text.lines text) = ink [text] :=
  ink_congr (by rw [flatMap_words_lines, List.flatMap_singleton])

theorem ink_headerLines {text : String} (plain : ∀ line ∈ Text.lines text, isBatchSeparator line = false) :
    ink (headerLines text) = ink [text] := by
  rw [headerLines, ink_cleanup plain, ink_lines]

theorem ink_bodyLines {indent text : String} (blank : ∀ c ∈ indent.toList, isBlank c = true)
    (plain : ∀ line ∈ Text.lines text, isBatchSeparator line = false) :
    ink (bodyLines indent text) = ink [text] := by
  have opened := words_opened text
  have plainBody : ∀ line ∈ trim ((Text.lines text).headD "") :: dedent (Text.lines text).tail,
      isBatchSeparator line = false := by
    intro line member
    obtain ⟨source, isSource, same⟩ := List.mem_map.mp (opened ▸ List.mem_map_of_mem member)
    rw [isBatchSeparator, ← same, ← isBatchSeparator, plain source isSource]
  have indented (step : Nat) (lines : List String) : ink (lines.map (reindentLine step indent)) = ink lines :=
    ink_congr (by simp only [List.flatMap_map, words_reindentLine blank])
  rw [bodyLines, indented, ink_cleanup plainBody, ← ink_lines]
  refine ink_congr ?_
  rw [List.flatMap_def, opened, ← List.flatMap_def]

/-- Laying out functions loses no text and doubles none. The text is cut into the headers and the bodies of the
functions and what stands behind them; each function is set into its frame, in order and with an empty line
in front of the next group of lines; and where blanks indent and nothing is a batch separator, the lines
between the frames have the ink of what was cut. -/
theorem reassemble_keeps_text (editor : Editor) (options : Options) (layouts : List FunctionLayout)
    (ordered : (places editor .origin layouts).IsChain (· ≤ ·)) :
    let cuts := slices editor.texts (places editor .origin layouts)
    let parts := sections editor .origin layouts
    let rest := trailer editor .origin layouts
    cuts = parts.flatMap (fun part => [part.header, part.body]) ++ [rest] ∧
    parts.map (·.layout) = layouts ∧
    String.join cuts = unlines editor.texts ∧
    reassemble editor options layouts = [""].intercalate
      (parts.map (fun part => framed options.indent part.layout.locals (headerLines part.header)
        (bodyLines options.indent part.body)) ++ [headerLines rest].filter (· ≠ [])) ∧
    ((∀ c ∈ options.indent.toList, isBlank c = true) →
      (∀ text ∈ cuts, ∀ line ∈ Text.lines text, isBatchSeparator line = false) →
      (∀ part ∈ parts, ink (headerLines part.header) = ink [part.header] ∧
        ink (bodyLines options.indent part.body) = ink [part.body]) ∧
      ink (headerLines rest) = ink [rest]) := by
  have parted := slices_places editor .origin layouts
  refine ⟨parted, sections_layout editor .origin layouts, join_slices editor ordered,
    reassemble_eq editor options layouts, ?_⟩
  intro blank plain
  rw [parted, List.forall_mem_append, List.forall_mem_flatMap, List.forall_mem_singleton] at plain
  refine ⟨fun part member => ⟨?_, ?_⟩, ink_headerLines plain.2⟩
  · exact ink_headerLines (plain.1 part member _ (by simp))
  · exact ink_bodyLines blank (plain.1 part member _ (by simp))

/-- Two functions and a query, after an edit that put a line end into the first line. -/
def twoFunctions : Editor :=
  (Editor.ofLines ["PROC é AS X;;", "FUN b AS", "\tY ", "\t\tZ;", "W"]).setLine 1
    (Line.replace { text := "PROC é AS X;;" } 0 4 "NEW\nFUN" false)

def twoLayouts : List FunctionLayout := [⟨⟨1, 10⟩, ⟨1, 14⟩, [("_vA", "int")]⟩, ⟨⟨2, 8⟩, ⟨4, 4⟩, []⟩]

theorem reassemble_keeps_two_functions :
    (places twoFunctions .origin twoLayouts).IsChain (· ≤ ·) ∧
    String.join (slices twoFunctions.texts (places twoFunctions .origin twoLayouts)) =
      "NEW\nFUN é AS X;;\nFUN b AS\n\tY \n\t\tZ;\nW" ∧
    reassemble twoFunctions {} twoLayouts =
      ["NEW", "FUN é AS", "$$", "DECLARE", "\t_vA int;", "BEGIN", "\tX;", "END;", "$$ LANGUAGE plpgsql;", "",
        "FUN b AS", "$$", "BEGIN", "\tY", "\t\tZ;", "END;", "$$ LANGUAGE plpgsql;", "", "W"] ∧
    ∀ part ∈ sections twoFunctions .origin twoLayouts, ink (headerLines part.header) = ink [part.header] ∧
      ink (bodyLines ({} : Options).indent part.body) = ink [part.body] := by
  have ordered : (places twoFunctions .origin twoLayouts).IsChain (· ≤ ·) := by decide
  obtain ⟨-, -, whole, laid, kept⟩ := reassemble_keeps_text twoFunctions {} twoLayouts ordered
  refine ⟨ordered, whole.trans (by decide), laid.trans (by decide), ?_⟩
  exact (kept (List.all_eq_true.mp (by decide)) (by decide)).1

end Plpgsql

end SqlFerry
