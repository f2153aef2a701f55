import Mathlib.Data.List.Infix
import SqlFerry.Plpgsql.Function
import SqlFerry.Proofs.Layout.Cleanup
import SqlFerry.Proofs.Layout.Indent
import SqlFerry.Proofs.Span

/-! Laying out a function. Blanks come and go where a body is tidied and indented anew, and its words
stay, as long as tidying finds nothing to drop among them. -/
namespace SqlFerry

namespace Layout

open Text

/-- A word that tidying keeps as it is. -/
structure Lasting (word : String) : Prop where
  single : ¬[';', ';'] <:+: word.toList
  notAlone : word ≠ ";"
  notGo : sameWord word "GO" = false

instance (word : String) : Decidable (Lasting word) :=
  decidable_of_iff (¬[';', ';'] <:+: word.toList ∧ word ≠ ";" ∧ sameWord word "GO" = false)
    ⟨fun ⟨single, notAlone, notGo⟩ => ⟨single, notAlone, notGo⟩,
      fun lasting => ⟨lasting.single, lasting.notAlone, lasting.notGo⟩⟩

theorem collapseSemicolons_eq {cs : List Char}
    (single : ∀ piece ∈ pieces isBlank cs, ¬[';', ';'] <:+: piece) : collapseSemicolons cs = cs := by
  fun_induction collapseSemicolons cs with
  | case1 rest ih =>
    obtain ⟨piece, others, shape⟩ := List.exists_cons_of_ne_nil (pieces_ne_nil isBlank rest)
    have double := pieces_cons_other (by decide : isBlank ';' = false)
      (pieces_cons_other (by decide : isBlank ';' = false) shape)
    exact absurd (List.prefix_append _ _).isInfix (single (';' :: ';' :: piece) (by simp [double]))
  | case2 c rest _ ih =>
    obtain ⟨piece, others, shape⟩ := List.exists_cons_of_ne_nil (pieces_ne_nil isBlank rest)
    congr 1
    refine ih fun other member => ?_
    cases blank : isBlank c with
    | true => exact single other (by rw [pieces_cons_sep blank]; exact List.mem_cons_of_mem _ member)
    | false =>
      rw [pieces_cons_other blank shape, List.forall_mem_cons] at single
      rw [shape] at member
      rcases List.mem_cons.mp member with rfl | later
      · exact fun inside => single.1 (inside.trans (List.suffix_cons c other).isInfix)
      · exact single.2 other later
  | case3 => rfl

theorem tidyLine_eq {line : String} (lasting : ∀ word ∈ words line, Lasting word) :
    tidyLine line = trimRight line := by
  have kept : collapseSemicolons (trimRight line).toList = (trimRight line).toList := by
    refine collapseSemicolons_eq fun piece member => ?_
    by_cases empty : piece = []
    · rw [empty]
      decide
    · have isWord : String.ofList piece ∈ words line := by
        rw [← words_trimRight, words_eq]
        exact List.mem_map_of_mem (List.mem_filter.mpr ⟨member, by simpa using empty⟩)
      simpa using (lasting _ isWord).single
  have notAlone : trim (trimRight line) ≠ ";" := by
    intro alone
    have isWord : ";" ∈ words line := by
      rw [← words_trimRight, ← words_trim, alone]
      decide
    exact (lasting _ isWord).notAlone rfl
  simp only [tidyLine, kept, String.ofList_toList, if_neg notAlone]

theorem isBatchSeparator_eq_false {line : String} (lasting : ∀ word ∈ words line, Lasting word) :
    isBatchSeparator line = false := by
  rw [isBatchSeparator]
  split
  · next go isGo => exact (lasting go (by simp [isGo])).notGo
  · next go count isGo =>
    rw [(lasting go (by simp [isGo])).notGo, Bool.false_and]
  · rfl

theorem words_cleanup {lines : List String} (lasting : ∀ line ∈ lines, ∀ word ∈ words line, Lasting word) :
    (cleanup lines).flatMap words = lines.flatMap words := by
  have tidied : lines.map tidyLine = lines.map trimRight :=
    List.map_congr_left fun line member => tidyLine_eq (lasting line member)
  have kept : (lines.map trimRight).filter (!isBatchSeparator ·) = lines.map trimRight := by
    refine List.filter_eq_self.mpr fun line member => ?_
    obtain ⟨source, isSource, rfl⟩ := List.mem_map.mp member
    rw [isBatchSeparator_eq_false (by simpa using lasting source isSource)]
    rfl
  rw [cleanup, tidied, kept, flatMap_collapseBlankRuns fun _ => words_of_isBlankLine,
    flatMap_dropEdgeBlanks fun _ => words_of_isBlankLine, List.flatMap_map]
  simp

/-- A line loses nothing but blanks at its start where the lines are dedented. -/
theorem exists_dedented {lines : List String} {line : String} (member : line ∈ lines) :
    ∃ blanks, (∀ c ∈ blanks, isBlank c = true) ∧
      line.toList = blanks ++ (strip (commonIndent lines).length line).toList := by
  have isStripped := stripped_of_mem member
  rw [Stripped] at isStripped
  split at isStripped
  · next blank => exact ⟨line.toList, List.all_eq_true.mp blank, by simp [isStripped]⟩
  · have blanks := (indents_commonIndent lines).blanks
    exact ⟨commonIndent lines, fun c inside => isBlank_of_isIndent (blanks c inside), isStripped⟩

theorem words_dedent (lines : List String) : (dedent lines).map words = lines.map words := by
  rw [dedent_eq_map, List.map_map]
  refine List.map_congr_left fun line member => ?_
  obtain ⟨blanks, blank, whole⟩ := exists_dedented member
  have same := (congrArg runs whole).trans (runs_blanks_append blank _)
  exact congrArg (List.map String.ofList) same.symm

/-! ### Line ends -/

theorem collapseSemicolons_subset (cs : List Char) : collapseSemicolons cs ⊆ cs := by
  fun_induction collapseSemicolons cs with
  | case1 rest ih => exact List.Subset.trans ih (List.subset_cons_self _ _)
  | case2 c rest _ ih => exact List.cons_subset_cons c ih
  | case3 => exact List.Subset.refl _

theorem tidyLine_subset (line : String) : (tidyLine line).toList ⊆ line.toList := by
  simp only [tidyLine]
  split
  · simp
  · rw [String.toList_ofList]
    exact List.Subset.trans (collapseSemicolons_subset _) (trimRight_subset line)

theorem flat_cleanup {lines : List String} (flat : ∀ line ∈ lines, '\n' ∉ line.toList) :
    ∀ line ∈ cleanup lines, '\n' ∉ line.toList := by
  intro line member
  rcases mem_cleanup member with rfl | ⟨source, isSource, tidied, -⟩
  · simp
  · rw [tidied]
    exact fun broken => flat source isSource (tidyLine_subset source broken)

theorem flat_dedent {lines : List String} (flat : ∀ line ∈ lines, '\n' ∉ line.toList) :
    ∀ line ∈ dedent lines, '\n' ∉ line.toList := by
  intro line member
  obtain ⟨source, isSource, rfl⟩ := List.mem_map.mp member
  split
  · simp
  · rw [String.toList_ofList]
    exact fun broken => flat source isSource (List.mem_of_mem_drop broken)

end Layout

namespace Plpgsql

open Text Layout

theorem words_reindentLine {indent : String} (blank : ∀ c ∈ indent.toList, isBlank c = true) (step : Nat)
    (line : String) : words (reindentLine step indent line) = words line := by
  rw [reindentLine]
  split
  · rfl
  · have blanks (levels : Nat) : ∀ c ∈ (List.replicate levels indent.toList).flatten, isBlank c = true := by
      intro c member
      obtain ⟨text, isText, inside⟩ := List.mem_flatten.mp member
      rw [List.eq_of_mem_replicate isText] at inside
      exact blank c inside
    rw [words_eq, words_eq, String.toList_ofList, runs_blanks_append (blanks _)]
    exact congrArg _ (runs_dropLeft _ fun _ => isBlank_of_isIndent)

theorem words_opened (text : String) :
    (trim ((Text.lines text).headD "") :: dedent (Text.lines text).tail).map words =
      (Text.lines text).map words := by
  obtain ⟨first, rest, shape⟩ : ∃ first rest, Text.lines text = first :: rest := by
    refine List.exists_cons_of_ne_nil fun none => ?_
    exact pieces_ne_nil _ _ (List.map_eq_nil_iff.mp none)
  rw [shape, List.headD_cons, List.tail_cons, List.map_cons, words_dedent, words_trim, List.map_cons]

/-- The words of a body stay in order. -/
theorem words_bodyLines {indent text : String} (blank : ∀ c ∈ indent.toList, isBlank c = true)
    (lasting : ∀ word ∈ words text, Lasting word) : (bodyLines indent text).flatMap words = words text := by
  have given : (trim ((Text.lines text).headD "") :: dedent (Text.lines text).tail).flatMap words = words text := by
    rw [List.flatMap_def, words_opened, ← List.flatMap_def, flatMap_words_lines]
  rw [bodyLines]
  simp only [List.flatMap_map, words_reindentLine blank]
  rw [words_cleanup, given]
  intro line member word inside
  exact lasting word (given ▸ List.mem_flatMap.mpr ⟨line, member, inside⟩)

theorem flat_bodyLines {indent : String} (flat : '\n' ∉ indent.toList) (text : String) :
    ∀ line ∈ bodyLines indent text, '\n' ∉ line.toList := by
  have given : ∀ line ∈ trim ((Text.lines text).headD "") :: dedent (Text.lines text).tail,
      '\n' ∉ line.toList := by
    have lines : ∀ line ∈ Text.lines text, '\n' ∉ line.toList := fun line => flat_of_mem_lines
    cases shape : Text.lines text with
    | nil => simp [trim, dropRight, dropLeft, dedent]
    | cons first rest =>
      rw [shape, List.forall_mem_cons] at lines
      rw [List.forall_mem_cons]
      exact ⟨fun broken => lines.1 (trim_subset first broken), flat_dedent lines.2⟩
  intro line member
  obtain ⟨source, isSource, rfl⟩ := List.mem_map.mp member
  have flatSource := flat_cleanup given source isSource
  rw [reindentLine]
  split
  · exact flatSource
  · rw [String.toList_ofList, List.mem_append]
    rintro (inIndent | inLine)
    · obtain ⟨text, isText, inside⟩ := List.mem_flatten.mp inIndent
      rw [List.eq_of_mem_replicate isText] at inside
      exact flat inside
    · exact flatSource ((List.dropWhile_suffix _).subset inLine)

/-! ### Cutting -/

theorem cut_eq_textBetween {lines : List String} {start stop : Position}
    (left : ∀ line, row? lines start.line = some line → StandsAt line start.column "")
    (right : ∀ line, row? lines stop.line = some line → StandsAt line stop.column "") :
    cut lines start stop = textBetween lines start stop := spanText_eq_textBetween left right

theorem cut_one_line (left middle right : List Char) :
    cut [.ofList (left ++ middle ++ right)] ⟨1, byteLength left⟩ ⟨1, byteLength (left ++ middle)⟩ =
      .ofList middle := by
  have only {line : String} (present : row? [String.ofList (left ++ middle ++ right)] 1 = some line) :
      line = .ofList (left ++ middle ++ right) := (Option.some.inj present).symm
  rw [cut_eq_textBetween]
  · exact textBetween_one_line [] [] left middle right
  · intro line present
    exact ⟨left, middle ++ right, by simp [only present], rfl⟩
  · intro line present
    exact ⟨left ++ middle, right, by simp [only present], rfl⟩

/-- A text that is one function on one line: what stands up to the end of the header and what stands
behind it. -/
theorem reassemble_one_line {editor : Editor} {layout : FunctionLayout} {header body : List Char}
    (options : Options) (texts : editor.texts = [.ofList (header ++ body)])
    (headerEnd : editor.resolve layout.headerEnd = ⟨1, byteLength header⟩)
    (bodyEnd : editor.resolve layout.bodyEnd = ⟨1, byteLength (header ++ body)⟩) :
    reassemble editor options [layout] =
      functionLines options layout (.ofList header) (.ofList body) := by
  have first : cut [.ofList (header ++ body)] .origin ⟨1, byteLength header⟩ = .ofList header := by
    simpa [Position.origin] using cut_one_line [] header body
  have second : cut [.ofList (header ++ body)] ⟨1, byteLength header⟩ ⟨1, byteLength (header ++ body)⟩ =
      .ofList body := by
    simpa using cut_one_line header body []
  have stop : endOf [.ofList (header ++ body)] = ⟨1, byteLength (header ++ body)⟩ := by
    rw [← size_ofList]
    rfl
  have third : cut [.ofList (header ++ body)] ⟨1, byteLength (header ++ body)⟩
      ⟨1, byteLength (header ++ body)⟩ = "" := by
    simpa using cut_one_line (header ++ body) [] []
  have nothing : headerLines "" = [] := by decide
  rw [reassemble, reassembleFrom, reassembleFrom, headerEnd, bodyEnd, texts, first, second, stop, third, nothing]
  rfl

end Plpgsql

end SqlFerry
