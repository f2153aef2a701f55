import SqlFerry.Text.Pieces

/-! Words of a text. They are kept by everything that only changes the blanks between them. -/
namespace SqlFerry.Text

def runs (cs : List Char) : List (List Char) := (pieces isBlank cs).filter (· ≠ [])

theorem words_eq (s : String) : words s = (runs s.toList).map .ofList := rfl

section Pieces

variable {sep : Char → Bool} {c : Char}

theorem pieces_cons_sep (isSep : sep c = true) (cs : List Char) :
    pieces sep (c :: cs) = [] :: pieces sep cs := by
  rw [pieces]
  split
  · next empty => exact absurd empty (pieces_ne_nil sep cs)
  · next piece rest shape => rw [if_pos isSep, shape]

theorem pieces_cons_other {cs piece : List Char} {rest : List (List Char)} (other : sep c = false)
    (shape : pieces sep cs = piece :: rest) : pieces sep (c :: cs) = (c :: piece) :: rest := by
  rw [pieces, shape]
  simp [other]

theorem pieces_append_sep (isSep : sep c = true) (xs ys : List Char) :
    pieces sep (xs ++ c :: ys) = pieces sep xs ++ pieces sep ys := by
  induction xs with
  | nil => exact pieces_cons_sep isSep ys
  | cons x xs ih =>
    obtain ⟨piece, rest, shape⟩ := List.exists_cons_of_ne_nil (pieces_ne_nil sep xs)
    rw [shape, List.cons_append] at ih
    cases first : sep x with
    | true => rw [List.cons_append, pieces_cons_sep first, pieces_cons_sep first, ih, shape]; rfl
    | false => rw [List.cons_append, pieces_cons_other first ih, pieces_cons_other first shape]; rfl

theorem sep_of_mem_pieces {cs piece : List Char} (member : piece ∈ pieces sep cs) :
    ∀ c ∈ piece, sep c = false := by
  induction cs generalizing piece with
  | nil => simp_all [pieces]
  | cons c cs ih =>
    obtain ⟨first, rest, shape⟩ := List.exists_cons_of_ne_nil (pieces_ne_nil sep cs)
    cases isSep : sep c with
    | true =>
      rw [pieces_cons_sep isSep] at member
      rcases List.mem_cons.mp member with rfl | later
      · simp
      · exact ih later
    | false =>
      rw [shape, List.forall_mem_cons] at ih
      rw [pieces_cons_other isSep shape] at member
      rcases List.mem_cons.mp member with rfl | later
      · rw [List.forall_mem_cons]
        exact ⟨isSep, ih.1⟩
      · exact ih.2 piece later

theorem exists_piece_of_mem {cs : List Char} (other : sep c = false) (member : c ∈ cs) :
    ∃ piece ∈ pieces sep cs, c ∈ piece := by
  induction cs with
  | nil => cases member
  | cons d cs ih =>
    obtain ⟨first, rest, shape⟩ := List.exists_cons_of_ne_nil (pieces_ne_nil sep cs)
    cases isSep : sep d with
    | true =>
      have later : c ∈ cs := (List.mem_cons.mp member).resolve_left fun same => by
        rw [same, isSep] at other
        cases other
      obtain ⟨piece, isPiece, inside⟩ := ih later
      exact ⟨piece, by rw [pieces_cons_sep isSep]; exact List.mem_cons_of_mem _ isPiece, inside⟩
    | false =>
      rw [pieces_cons_other isSep shape]
      rcases List.mem_cons.mp member with rfl | later
      · exact ⟨c :: first, List.mem_cons_self, List.mem_cons_self⟩
      · obtain ⟨piece, isPiece, inside⟩ := ih later
        rw [shape] at isPiece
        rcases List.mem_cons.mp isPiece with rfl | behind
        · exact ⟨d :: piece, List.mem_cons_self, List.mem_cons_of_mem _ inside⟩
        · exact ⟨piece, List.mem_cons_of_mem _ behind, inside⟩

theorem pieces_of_none {cs : List Char} (none : ∀ c ∈ cs, sep c = false) : pieces sep cs = [cs] := by
  induction cs with
  | nil => rfl
  | cons c cs ih =>
    rw [List.forall_mem_cons] at none
    exact pieces_cons_other none.1 (ih none.2)

theorem pieces_append_of_none {xs ys first : List Char} {rest : List (List Char)}
    (none : ∀ c ∈ xs, sep c = false) (shape : pieces sep ys = first :: rest) :
    pieces sep (xs ++ ys) = (xs ++ first) :: rest := by
  induction xs with
  | nil => exact shape
  | cons x xs ih =>
    rw [List.forall_mem_cons] at none
    exact pieces_cons_other none.1 (ih none.2)

end Pieces

section Runs

variable {c : Char} {word blanks : List Char}

theorem runs_append_blank (blank : isBlank c = true) (xs ys : List Char) :
    runs (xs ++ c :: ys) = runs xs ++ runs ys := by
  rw [runs, pieces_append_sep blank, List.filter_append]
  rfl

@[simp] theorem runs_nil : runs [] = [] := rfl

theorem runs_word (solid : ∀ c ∈ word, isBlank c = false) (visible : word ≠ []) : runs word = [word] := by
  rw [runs, pieces_of_none solid]
  simp [visible]

theorem runs_blanks_append (blank : ∀ c ∈ blanks, isBlank c = true) (cs : List Char) :
    runs (blanks ++ cs) = runs cs := by
  induction blanks with
  | nil => rfl
  | cons b blanks ih =>
    rw [List.forall_mem_cons] at blank
    have apart := runs_append_blank blank.1 [] (blanks ++ cs)
    rw [List.nil_append, runs_nil, List.nil_append] at apart
    exact apart.trans (ih blank.2)

theorem runs_of_blanks (blank : ∀ c ∈ blanks, isBlank c = true) : runs blanks = [] := by
  have alone := runs_blanks_append blank []
  rwa [List.append_nil, runs_nil] at alone

theorem runs_append_blanks (blank : ∀ c ∈ blanks, isBlank c = true) (cs : List Char) :
    runs (cs ++ blanks) = runs cs := by
  cases blanks with
  | nil => rw [List.append_nil]
  | cons b blanks =>
    rw [List.forall_mem_cons] at blank
    rw [runs_append_blank blank.1, runs_of_blanks blank.2, List.append_nil]

theorem runs_dropLeft (cs : List Char) {p : Char → Bool} (only : ∀ c, p c = true → isBlank c = true) :
    runs (dropLeft p cs) = runs cs := by
  have parts : cs.takeWhile p ++ dropLeft p cs = cs := List.takeWhile_append_dropWhile
  conv => rhs; rw [← parts]
  exact (runs_blanks_append (fun c member => only c (List.all_eq_true.mp List.all_takeWhile c member)) _).symm

theorem runs_dropRight (cs : List Char) : runs (dropRight isBlank cs) = runs cs := by
  have parts : dropRight isBlank cs ++ (cs.reverse.takeWhile isBlank).reverse = cs := by
    rw [dropRight, ← List.reverse_append, List.takeWhile_append_dropWhile, List.reverse_reverse]
  conv => rhs; rw [← parts]
  refine (runs_append_blanks (fun c member => ?_) _).symm
  exact List.all_eq_true.mp List.all_takeWhile c (List.mem_reverse.mp member)

theorem runs_gather (texts : List (List Char)) : runs (gather ['\n'] texts) = texts.flatMap runs := by
  induction texts with
  | nil => rfl
  | cons text rest ih =>
    cases rest with
    | nil => simp [gather]
    | cons next rest =>
      have apart := runs_append_blank (by decide : isBlank '\n' = true) text (gather ['\n'] (next :: rest))
      rw [gather_cons_cons, List.append_assoc, List.singleton_append, apart, ih]
      rfl

end Runs

/-- The words of a text are those of its lines. -/
theorem flatMap_words_lines (s : String) : (lines s).flatMap words = words s := by
  have parts := runs_gather (pieces (· == '\n') s.toList)
  rw [gather_pieces] at parts
  rw [words_eq, parts, lines, splitOn, List.flatMap_map, List.map_flatMap]
  simp [words_eq]

@[simp] theorem words_trim (s : String) : words (trim s) = words s := by
  rw [words_eq, trim, String.toList_ofList, runs_dropRight, runs_dropLeft _ fun _ h => h, words_eq]

@[simp] theorem words_trimRight (s : String) : words (trimRight s) = words s := by
  rw [words_eq, trimRight, String.toList_ofList, runs_dropRight, words_eq]

theorem exists_word_of_mem {s : String} {c : Char} (visible : isBlank c = false) (member : c ∈ s.toList) :
    ∃ word ∈ words s, c ∈ word.toList := by
  obtain ⟨piece, isPiece, inside⟩ := exists_piece_of_mem visible member
  have isRun : piece ∈ runs s.toList :=
    List.mem_filter.mpr ⟨isPiece, by simpa using List.ne_nil_of_mem inside⟩
  exact ⟨.ofList piece, List.mem_map_of_mem isRun, by simpa using inside⟩

theorem exists_trimRight (s : String) :
    ∃ blanks, s.toList = (trimRight s).toList ++ blanks ∧ ∀ c ∈ blanks, isBlank c = true := by
  refine ⟨(s.toList.reverse.takeWhile isBlank).reverse, ?_, fun c member => ?_⟩
  · rw [trimRight, String.toList_ofList, dropRight, ← List.reverse_append, List.takeWhile_append_dropWhile,
      List.reverse_reverse]
  · exact List.all_eq_true.mp List.all_takeWhile c (List.mem_reverse.mp member)

theorem trimRight_subset (s : String) : (trimRight s).toList ⊆ s.toList := by
  rw [trimRight, String.toList_ofList, dropRight]
  intro c member
  exact List.mem_reverse.mp ((List.dropWhile_suffix _).subset (List.mem_reverse.mp member))

theorem trim_subset (s : String) : (trim s).toList ⊆ s.toList := by
  rw [trim, String.toList_ofList, dropRight]
  intro c member
  have inner := (List.dropWhile_suffix _).subset (List.mem_reverse.mp member)
  exact (List.dropWhile_suffix _).subset (List.mem_reverse.mp inner)

theorem words_of_isBlankLine {s : String} (blank : isBlankLine s = true) : words s = [] := by
  rw [words_eq, runs_of_blanks (List.all_eq_true.mp blank)]
  rfl

theorem flat_of_mem_lines {s line : String} (member : line ∈ lines s) : '\n' ∉ line.toList := by
  obtain ⟨piece, isPiece, rfl⟩ := List.mem_map.mp member
  rw [String.toList_ofList]
  intro inside
  simpa using sep_of_mem_pieces isPiece '\n' inside

theorem gather_cons (sep text : List Char) (texts : List (List Char)) :
    gather sep (text :: texts) = text ++ texts.flatMap (sep ++ ·) := by
  induction texts generalizing text with
  | nil => simp [gather]
  | cons next texts ih => rw [gather_cons_cons, ih, List.flatMap_cons, List.append_assoc, List.append_assoc]

theorem unlines_cons (line : String) (lines : List String) :
    unlines (line :: lines) = .ofList (line.toList ++ lines.flatMap fun text => '\n' :: text.toList) := by
  rw [unlines, join, List.map_cons, gather_cons, List.flatMap_map]
  rfl

theorem pieces_gather {sep : Char} {texts : List (List Char)} (flat : ∀ text ∈ texts, sep ∉ text)
    (visible : texts ≠ []) : pieces (· == sep) (gather [sep] texts) = texts := by
  have single {text : List Char} (flat : sep ∉ text) : pieces (· == sep) text = [text] :=
    pieces_of_none fun c member => beq_eq_false_iff_ne.mpr fun same => flat (same ▸ member)
  induction texts with
  | nil => exact absurd rfl visible
  | cons text rest ih =>
    rw [List.forall_mem_cons] at flat
    cases rest with
    | nil => exact single flat.1
    | cons next rest =>
      have cut := @pieces_append_sep (· == sep) sep (beq_self_eq_true sep) text
      rw [gather_cons_cons, List.append_assoc, List.singleton_append, cut, single flat.1,
        ih flat.2 (List.cons_ne_nil _ _)]
      rfl

/-- Texts without the character between them are found again. -/
theorem splitOn_join {sep : Char} {texts : List String} (flat : ∀ text ∈ texts, sep ∉ text.toList)
    (visible : texts ≠ []) : splitOn sep (join (.ofList [sep]) texts) = texts := by
  have found := @pieces_gather sep (texts.map String.toList) (by simpa using flat)
    (by simpa using visible)
  rw [splitOn, join, String.toList_ofList, String.toList_ofList]
  exact (congrArg (List.map String.ofList) found).trans (by simp)

theorem lines_unlines {texts : List String} (flat : ∀ text ∈ texts, '\n' ∉ text.toList) (visible : texts ≠ []) :
    lines (unlines texts) = texts :=
  splitOn_join flat visible

end SqlFerry.Text
