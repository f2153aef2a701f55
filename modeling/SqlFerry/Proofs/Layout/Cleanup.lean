import Mathlib.Data.List.Destutter
import SqlFerry.Layout.Cleanup
import SqlFerry.Proofs.Stage

/-! Tidying computes a normal form. A line is tidy if it has no blanks at its end and no semicolons that
say nothing, and lines are normal if all of them are tidy, none is a batch separator, and blank lines stand
alone between others and not at the edge of a block. Tidied lines are normal, normal lines stay as they are,
and of the visible lines nothing is lost but separators and lone semicolons. -/
namespace SqlFerry.Layout

open Text

/-! ### Single lines -/

def NotBothSemicolons (a b : Char) : Prop := a ≠ ';' ∨ b ≠ ';'

instance : DecidableRel NotBothSemicolons := fun a b => inferInstanceAs (Decidable (a ≠ ';' ∨ b ≠ ';'))

/-- The line without blanks at its end and with one semicolon for each run of them. -/
def squeezed (line : String) : String := .ofList ((trimRight line).toList.destutter NotBothSemicolons)

theorem collapseSemicolons_eq_destutter (cs : List Char) :
    collapseSemicolons cs = cs.destutter NotBothSemicolons := by
  fun_induction collapseSemicolons cs with
  | case1 rest ih =>
    rw [ih, List.destutter_cons', List.destutter_cons', List.destutter'_cons_neg]
    simp [NotBothSemicolons]
  | case2 c rest single ih =>
    rw [ih]
    cases rest with
    | nil => rfl
    | cons d rest =>
      have apart : NotBothSemicolons c d := by
        by_cases first : c = ';'
        · exact .inr fun second => single rest first (by rw [second])
        · exact .inl first
      rw [List.destutter_cons', List.destutter_cons', List.destutter'_cons_pos _ apart]
  | case3 => rfl

theorem tidyLine_eq_squeezed (line : String) :
    tidyLine line = if trim (squeezed line) = ";" then "" else squeezed line := by
  rw [tidyLine, squeezed, collapseSemicolons_eq_destutter]

theorem getLast?_collapseSemicolons (cs : List Char) : (collapseSemicolons cs).getLast? = cs.getLast? := by
  fun_induction collapseSemicolons cs with
  | case1 rest ih => rw [ih, List.getLast?_cons_cons]
  | case2 c rest _ ih => rw [List.getLast?_cons, List.getLast?_cons, ih]
  | case3 => rfl

theorem dropRight_eq_self_iff {p : Char → Bool} {cs : List Char} :
    dropRight p cs = cs ↔ ∀ c ∈ cs.getLast?, p c = false := by
  rw [dropRight, List.reverse_eq_iff, ← List.head?_reverse]
  cases cs.reverse with
  | nil => simp
  | cons c rest =>
    by_cases passes : p c = true
    · have shorter : (rest.dropWhile p).length ≤ rest.length := (List.dropWhile_suffix p).length_le
      refine iff_of_false (fun same => ?_) (by simp [passes])
      rw [List.dropWhile_cons_of_pos passes] at same
      rw [same, List.length_cons] at shorter
      omega
    · rw [List.dropWhile_cons_of_neg passes]
      simpa using passes

theorem trimRight_eq_self_iff {line : String} :
    trimRight line = line ↔ ∀ c ∈ line.toList.getLast?, isBlank c = false := by
  rw [← dropRight_eq_self_iff, trimRight, ← String.toList_inj, String.toList_ofList]

theorem getLast?_trimRight (line : String) : ∀ c ∈ (trimRight line).toList.getLast?, isBlank c = false := by
  intro c isLast
  rw [trimRight, String.toList_ofList, dropRight, List.getLast?_reverse] at isLast
  have stopped := List.head?_dropWhile_not isBlank line.toList.reverse
  rw [isLast] at stopped
  exact stopped

/-- A line that tidying leaves as it is. -/
structure Tidy (line : String) : Prop where
  trimmed : trimRight line = line
  single : ¬[';', ';'] <:+: line.toList
  notAlone : trim line ≠ ";"

theorem tidy_empty : Tidy "" := ⟨by decide, by decide, by decide⟩

theorem tidy_tidyLine (line : String) : Tidy (tidyLine line) := by
  rw [tidyLine_eq_squeezed]
  split
  · exact tidy_empty
  · next notAlone =>
    refine ⟨?_, fun double => ?_, notAlone⟩
    · rw [trimRight_eq_self_iff, squeezed, String.toList_ofList, ← collapseSemicolons_eq_destutter,
        getLast?_collapseSemicolons]
      exact getLast?_trimRight line
    · rw [squeezed, String.toList_ofList] at double
      obtain ⟨front, back, whole⟩ := double
      have chain := List.isChain_destutter NotBothSemicolons (trimRight line).toList
      rw [← whole] at chain
      simpa [NotBothSemicolons] using chain.left_of_append.right_of_append

theorem Tidy.tidyLine_eq {line : String} (tidy : Tidy line) : tidyLine line = line := by
  have chain : line.toList.IsChain NotBothSemicolons := by
    rw [List.isChain_iff_forall_rel_of_append_cons_cons]
    intro a b front back shape
    by_contra both
    obtain ⟨rfl, rfl⟩ : a = ';' ∧ b = ';' := by simpa [NotBothSemicolons] using both
    exact tidy.single ⟨front, back, by simp [shape]⟩
  have same : squeezed line = line := by
    rw [squeezed, tidy.trimmed, List.destutter_of_isChain _ _ chain, String.ofList_toList]
  rw [tidyLine_eq_squeezed, same, if_neg tidy.notAlone]

theorem tidyLine_trimRight (line : String) : tidyLine (trimRight line) = tidyLine line := by
  rw [tidyLine, trimRight_eq_self_iff.mpr (getLast?_trimRight line), tidyLine]

theorem Tidy.eq_empty {line : String} (tidy : Tidy line) (blank : isBlankLine line = true) : line = "" := by
  have last := trimRight_eq_self_iff.mp tidy.trimmed
  cases shape : line.toList.getLast? with
  | none => exact String.toList_inj.mp (List.getLast?_eq_none_iff.mp shape)
  | some c =>
    have inside := List.all_eq_true.mp blank c (List.mem_of_getLast? shape)
    rw [last c shape] at inside
    cases inside

theorem semicolon_not_mem_of_isBatchSeparator {line : String} (isSeparator : isBatchSeparator line = true) :
    ';' ∉ line.toList := by
  have notInGo {go : String} (isGo : sameWord go "GO" = true) : ';' ∉ go.toList := by
    intro inside
    have lower : ';' ∈ go.toList.map Char.toLower := List.mem_map.mpr ⟨';', inside, rfl⟩
    rw [beq_iff_eq.mp isGo] at lower
    revert lower
    decide
  intro member
  obtain ⟨word, isWord, inside⟩ := exists_word_of_mem (by decide) member
  rw [isBatchSeparator] at isSeparator
  split at isSeparator
  · next go isWords =>
    rw [isWords, List.mem_singleton] at isWord
    subst isWord
    exact notInGo isSeparator inside
  · next go count isWords =>
    obtain ⟨isGo, digits⟩ := Bool.and_eq_true_iff.mp isSeparator
    rw [isWords] at isWord
    simp only [List.mem_cons, List.not_mem_nil, or_false] at isWord
    rcases isWord with rfl | rfl
    · exact notInGo isGo inside
    · have digit := List.all_eq_true.mp digits ';' inside
      revert digit
      decide
  · cases isSeparator

theorem semicolon_mem_collapseSemicolons {cs : List Char} (member : ';' ∈ cs) : ';' ∈ collapseSemicolons cs := by
  fun_induction collapseSemicolons cs with
  | case1 rest ih => exact ih List.mem_cons_self
  | case2 c rest _ ih =>
    rcases List.mem_cons.mp member with rfl | later
    · exact List.mem_cons_self
    · exact List.mem_cons_of_mem _ (ih later)
  | case3 => exact member

/-- Tidying makes no separators. -/
theorem isBatchSeparator_tidyLine (line : String) : isBatchSeparator (tidyLine line) = isBatchSeparator line := by
  obtain ⟨blanks, whole, blank⟩ := exists_trimRight line
  by_cases present : ';' ∈ line.toList
  · have other {text : String} (inside : ';' ∈ text.toList) : isBatchSeparator text = false :=
      Bool.eq_false_iff.mpr fun isSeparator => semicolon_not_mem_of_isBatchSeparator isSeparator inside
    rw [other present, tidyLine_eq_squeezed]
    split
    · decide
    · apply other
      rw [squeezed, String.toList_ofList, ← collapseSemicolons_eq_destutter]
      apply semicolon_mem_collapseSemicolons
      rw [whole, List.mem_append] at present
      refine present.resolve_right fun inBlanks => ?_
      have := blank _ inBlanks
      revert this
      decide
  · have absent : ';' ∉ (trimRight line).toList := fun inside => present (trimRight_subset line inside)
    have tidy : Tidy (trimRight line) := by
      refine ⟨trimRight_eq_self_iff.mpr (getLast?_trimRight line), fun double => ?_, fun alone => ?_⟩
      · exact absent (double.subset List.mem_cons_self)
      · exact absent (trim_subset _ (by simp [alone]))
    rw [← tidyLine_trimRight, tidy.tidyLine_eq, isBatchSeparator, words_trimRight, isBatchSeparator]

/-! ### Blank lines -/

section FlatMap

variable {α : Type} {f : String → List α}

theorem flatMap_dropEdgeBlanks (nothing : ∀ line, isBlankLine line = true → f line = []) (previous : Option String)
    (lines : List String) : (dropEdgeBlanks previous lines).flatMap f = lines.flatMap f := by
  fun_induction dropEdgeBlanks previous lines with
  | case1 => rfl
  | case2 previous line rest blank _ ih => rw [ih, List.flatMap_cons, nothing line blank, List.nil_append]
  | case3 previous line rest _ _ ih => rw [List.flatMap_cons, ih, List.flatMap_cons]
  | case4 previous line rest _ ih => rw [List.flatMap_cons, ih, List.flatMap_cons]

theorem flatMap_collapseBlankRuns (nothing : ∀ line, isBlankLine line = true → f line = []) (lines : List String) :
    (collapseBlankRuns lines).flatMap f = lines.flatMap f := by
  have empty : f "" = [] := nothing "" (by decide)
  induction lines with
  | nil => rfl
  | cons line rest ih =>
    rw [collapseBlankRuns, List.flatMap_cons, ← ih]
    split
    · next blank => rw [nothing line blank, List.nil_append]
    · split
      · next none => rw [none]; rfl
      · split
        · rw [List.flatMap_cons, List.flatMap_cons, empty, List.nil_append]
        · rw [List.flatMap_cons]

end FlatMap

theorem visible_eq_flatMap (lines : List String) :
    lines.filter (!isBlankLine ·) = lines.flatMap fun line => if isBlankLine line then [] else [line] := by
  induction lines with
  | nil => rfl
  | cons line rest ih => by_cases blank : isBlankLine line = true <;> simp [blank, ih]

theorem visible_dropEdgeBlanks (previous : Option String) (lines : List String) :
    (dropEdgeBlanks previous lines).filter (!isBlankLine ·) = lines.filter (!isBlankLine ·) := by
  rw [visible_eq_flatMap, visible_eq_flatMap, flatMap_dropEdgeBlanks]
  intro line blank
  exact if_pos blank

theorem visible_collapseBlankRuns (lines : List String) :
    (collapseBlankRuns lines).filter (!isBlankLine ·) = lines.filter (!isBlankLine ·) := by
  rw [visible_eq_flatMap, visible_eq_flatMap, flatMap_collapseBlankRuns]
  intro line blank
  exact if_pos blank

/-- Of the visible lines exactly the separators are dropped. -/
theorem visible_cleanup (lines : List String) :
    (cleanup lines).filter (!isBlankLine ·) =
      ((lines.map tidyLine).filter (!isBatchSeparator ·)).filter (!isBlankLine ·) := by
  rw [cleanup, visible_collapseBlankRuns, visible_dropEdgeBlanks]

/-- Lines that may follow one another: blank lines stand alone, and neither behind the start of a block nor
in front of its end. -/
structure MayFollow (line next : String) : Prop where
  alone : isBlankLine line = true → isBlankLine next = false
  inside : isBlankLine next = true → opensBlock line = false
  before : isBlankLine line = true → closesBlock next = false

/-- The normal form of lines. -/
structure Normal (lines : List String) : Prop where
  tidy : ∀ line ∈ lines, Tidy line ∧ isBatchSeparator line = false
  first : ∀ line ∈ lines.head?, isBlankLine line = false
  last : ∀ line ∈ lines.getLast?, isBlankLine line = false
  chain : lines.IsChain MayFollow

theorem head?_collapseBlankRuns (lines : List String) :
    (collapseBlankRuns lines).head? = lines.find? (!isBlankLine ·) := by
  induction lines with
  | nil => rfl
  | cons line rest ih =>
    rw [collapseBlankRuns]
    split
    · next blank => rw [ih, List.find?_cons_of_neg (by simp [blank])]
    · next visible =>
      rw [List.find?_cons_of_pos (by simpa using visible)]
      split
      · rfl
      · split <;> rfl

theorem getLast?_collapseBlankRuns (lines : List String) :
    ∀ line ∈ (collapseBlankRuns lines).getLast?, isBlankLine line = false := by
  induction lines with
  | nil => nofun
  | cons first rest ih =>
    rw [collapseBlankRuns]
    split
    · exact ih
    · next visible =>
      split
      · simpa using visible
      · next more nonempty =>
        obtain ⟨next, others, shape⟩ := List.exists_cons_of_ne_nil nonempty
        rw [shape] at ih ⊢
        split <;> simpa [List.getLast?_cons_cons] using ih

/-- A blank line that is kept at the front stands behind no start of a block and before no end of one. -/
theorem kept_at_front {previous : Option String} {lines : List String} {line : String}
    (front : (dropEdgeBlanks previous lines).head? = some line) (blank : isBlankLine line = true) :
    previous.any opensBlock = false ∧ (lines.find? (!isBlankLine ·)).any closesBlock = false := by
  fun_induction dropEdgeBlanks previous lines with
  | case1 => cases front
  | case2 previous first rest isBlank _ ih =>
    rw [List.find?_cons_of_neg (by simp [isBlank])]
    exact ih front
  | case3 previous first rest isBlank kept _ =>
    rw [List.find?_cons_of_neg (by simp [isBlank])]
    simpa using kept
  | case4 previous first rest visible _ =>
    obtain rfl : first = line := Option.some.inj front
    exact absurd blank visible

theorem find?_dropEdgeBlanks (previous : Option String) (lines : List String) :
    (dropEdgeBlanks previous lines).find? (!isBlankLine ·) = lines.find? (!isBlankLine ·) := by
  rw [← List.head?_filter, visible_dropEdgeBlanks, List.head?_filter]

theorem isChain_collapseBlankRuns (previous : Option String) (lines : List String) :
    (collapseBlankRuns (dropEdgeBlanks previous lines)).IsChain MayFollow := by
  fun_induction dropEdgeBlanks previous lines with
  | case1 => exact .nil
  | case2 previous line rest _ _ ih => exact ih
  | case3 previous line rest blank _ ih => rwa [collapseBlankRuns, if_pos blank]
  | case4 previous line rest visible ih =>
    rw [collapseBlankRuns, if_neg visible]
    split
    · exact .singleton line
    · have next {other : String} (isNext : other ∈ (collapseBlankRuns (dropEdgeBlanks (some line) rest)).head?) :
          rest.find? (!isBlankLine ·) = some other ∧ isBlankLine other = false := by
        rw [head?_collapseBlankRuns, find?_dropEdgeBlanks] at isNext
        exact ⟨isNext, by simpa using List.find?_some isNext⟩
      split
      · next gap =>
        obtain ⟨first, isFirst, blank⟩ := (Option.any_eq_true _ _).mp gap
        obtain ⟨opens, closes⟩ := kept_at_front isFirst blank
        rw [Option.any_some] at opens
        refine .cons (.cons ih fun other isNext => ?_) ?_
        · obtain ⟨found, isVisible⟩ := next isNext
          rw [found, Option.any_some] at closes
          exact ⟨fun _ => isVisible, fun blank => absurd blank (by simp [isVisible]), fun _ => closes⟩
        · rintro _ ⟨⟩
          exact ⟨fun blank => absurd blank visible, fun _ => opens, fun blank => absurd blank visible⟩
      · refine .cons ih fun other isNext => ?_
        obtain ⟨-, isVisible⟩ := next isNext
        exact ⟨fun blank => absurd blank visible, fun blank => absurd blank (by simp [isVisible]),
          fun blank => absurd blank visible⟩

theorem mem_dropEdgeBlanks {previous : Option String} {lines : List String} {line : String}
    (member : line ∈ dropEdgeBlanks previous lines) : line ∈ lines := by
  fun_induction dropEdgeBlanks previous lines with
  | case1 => exact member
  | case2 previous first rest _ _ ih => exact List.mem_cons_of_mem _ (ih member)
  | case3 previous first rest _ _ ih | case4 previous first rest _ ih =>
    rcases List.mem_cons.mp member with rfl | later
    · exact List.mem_cons_self
    · exact List.mem_cons_of_mem _ (ih later)

theorem mem_collapseBlankRuns {lines : List String} {line : String}
    (member : line ∈ collapseBlankRuns lines) : line ∈ lines ∨ line = "" := by
  induction lines generalizing line with
  | nil => exact .inl member
  | cons first rest ih =>
    have later {other : String} (inside : other ∈ collapseBlankRuns rest) :
        other ∈ first :: rest ∨ other = "" := (ih inside).imp (List.mem_cons_of_mem _) id
    rw [collapseBlankRuns] at member
    split at member
    · exact later member
    · split at member
      · exact .inl (List.mem_singleton.mp member ▸ List.mem_cons_self)
      · next more _ =>
        split at member
        · rcases List.mem_cons.mp member with rfl | behind
          · exact .inl List.mem_cons_self
          · exact (List.mem_cons.mp behind).elim .inr later
        · rcases List.mem_cons.mp member with rfl | behind
          · exact .inl List.mem_cons_self
          · exact later behind

theorem mem_cleanup {lines : List String} {line : String} (member : line ∈ cleanup lines) :
    line = "" ∨ ∃ source ∈ lines, line = tidyLine source ∧ isBatchSeparator line = false := by
  rcases mem_collapseBlankRuns member with inside | empty
  · obtain ⟨tidied, other⟩ := List.mem_filter.mp (mem_dropEdgeBlanks inside)
    obtain ⟨source, isSource, rfl⟩ := List.mem_map.mp tidied
    exact .inr ⟨source, isSource, rfl, by simpa using other⟩
  · exact .inl empty

/-! ### The normal form -/

theorem normal_cleanup (lines : List String) : Normal (cleanup lines) := by
  constructor
  case tidy =>
    intro line member
    rcases mem_cleanup member with rfl | ⟨source, -, tidied, other⟩
    · exact ⟨tidy_empty, by decide⟩
    · rw [tidied] at other ⊢
      exact ⟨tidy_tidyLine source, other⟩
  case first =>
    intro line isFirst
    rw [cleanup, head?_collapseBlankRuns] at isFirst
    simpa using List.find?_some isFirst
  case last => exact getLast?_collapseBlankRuns _
  case chain => exact isChain_collapseBlankRuns none _

theorem visible_behind_blank {line : String} {rest : List String}
    (last : ∀ other ∈ (line :: rest).getLast?, isBlankLine other = false)
    (chain : (line :: rest).IsChain MayFollow) (blank : isBlankLine line = true) :
    ∃ next more, rest = next :: more ∧ isBlankLine next = false ∧ closesBlock next = false := by
  cases rest with
  | nil => exact absurd blank (by simp [last line rfl])
  | cons next more =>
    have follows := (List.isChain_cons_cons.mp chain).1
    exact ⟨next, more, rfl, follows.alone blank, follows.before blank⟩

theorem dropEdgeBlanks_eq_self {previous : Option String} {lines : List String}
    (front : ∀ line ∈ lines.head?, isBlankLine line = true → previous.any opensBlock = false)
    (last : ∀ line ∈ lines.getLast?, isBlankLine line = false) (chain : lines.IsChain MayFollow) :
    dropEdgeBlanks previous lines = lines := by
  induction lines generalizing previous with
  | nil => rfl
  | cons line rest ih =>
    have lastOfRest : ∀ other ∈ rest.getLast?, isBlankLine other = false := by
      intro other isLast
      cases rest with
      | nil => cases isLast
      | cons next more => exact last other (by rwa [List.getLast?_cons_cons])
    rw [dropEdgeBlanks]
    by_cases blank : isBlankLine line = true
    · obtain ⟨next, more, rfl, visible, closes⟩ := visible_behind_blank last chain blank
      have opens := front line rfl blank
      have kept : (previous.any opensBlock ||
          ((next :: more).find? (!isBlankLine ·)).any closesBlock) = false := by
        rw [List.find?_cons_of_pos (by simp [visible])]
        simp [opens, closes]
      rw [if_pos blank, kept, if_neg (by simp)]
      refine congrArg (line :: ·) (ih (fun other isFirst blank => ?_) lastOfRest chain.tail)
      obtain rfl : next = other := Option.some.inj isFirst
      simp [visible] at blank
    · rw [if_neg blank]
      refine congrArg (line :: ·) (ih (fun other isFirst blank => ?_) lastOfRest chain.tail)
      rw [Option.any_some]
      exact (chain.rel_head? isFirst).inside blank

/-- Where blank lines stand alone, collapsing them drops one at the front only. -/
theorem collapseBlankRuns_eq_dropWhile {lines : List String} (tidy : ∀ line ∈ lines, Tidy line)
    (last : ∀ line ∈ lines.getLast?, isBlankLine line = false) (chain : lines.IsChain MayFollow) :
    collapseBlankRuns lines = lines.dropWhile isBlankLine := by
  induction lines with
  | nil => rfl
  | cons line rest ih =>
    have lastOfRest : ∀ other ∈ rest.getLast?, isBlankLine other = false := by
      intro other isLast
      cases rest with
      | nil => cases isLast
      | cons next more => exact last other (by rwa [List.getLast?_cons_cons])
    have collapsed := ih (fun other inside => tidy other (List.mem_cons_of_mem _ inside)) lastOfRest chain.tail
    rw [collapseBlankRuns]
    by_cases blank : isBlankLine line = true
    · rw [if_pos blank, List.dropWhile_cons_of_pos blank, collapsed]
    · rw [if_neg blank, List.dropWhile_cons_of_neg blank]
      cases rest with
      | nil => rfl
      | cons next more =>
        by_cases gap : isBlankLine next = true
        · obtain ⟨behind, others, rfl, visible, -⟩ := visible_behind_blank lastOfRest chain.tail gap
          rw [List.dropWhile_cons_of_pos gap, List.dropWhile_cons_of_neg (by simp [visible])] at collapsed
          obtain rfl : next = "" := (tidy next (by simp)).eq_empty gap
          simp [collapsed, gap]
        · rw [List.dropWhile_cons_of_neg gap] at collapsed
          simp [collapsed, gap]

theorem Normal.cleanup_eq {lines : List String} (normal : Normal lines) : cleanup lines = lines := by
  have tidied : lines.map tidyLine = lines :=
    (List.map_congr_left fun line member => (normal.tidy line member).1.tidyLine_eq).trans (List.map_id lines)
  have kept : lines.filter (!isBatchSeparator ·) = lines :=
    List.filter_eq_self.mpr fun line member => by simp [(normal.tidy line member).2]
  have edges : dropEdgeBlanks none lines = lines :=
    dropEdgeBlanks_eq_self (fun _ _ _ => rfl) normal.last normal.chain
  rw [cleanup, tidied, kept, edges,
    collapseBlankRuns_eq_dropWhile (fun line member => (normal.tidy line member).1) normal.last normal.chain]
  cases lines with
  | nil => rfl
  | cons line rest => exact List.dropWhile_cons_of_neg (by simp [normal.first line rfl])

/-- The visible lines of the result are those of the given ones, trimmed and with single semicolons, but for
separators and lone semicolons. -/
theorem visible_cleanup_eq (lines : List String) :
    (cleanup lines).filter (!isBlankLine ·) = (lines.map squeezed).filter fun line =>
      !isBlankLine line && !isBatchSeparator line && trim line != ";" := by
  rw [visible_cleanup, List.filter_filter]
  induction lines with
  | nil => rfl
  | cons line rest ih =>
    rw [List.map_cons, List.map_cons, List.filter_cons, List.filter_cons, ih, tidyLine_eq_squeezed]
    by_cases alone : trim (squeezed line) = ";"
    · simp [alone, isBlankLine]
    · simp [alone]

/-- Tidying computes a normal form of the lines: what it gives is normal, tidying it again changes nothing,
and its visible lines are the given ones, trimmed and with single semicolons, without separators and lone
semicolons. -/
theorem cleanup_normalizes (lines : List String) :
    Normal (cleanup lines) ∧ cleanup (cleanup lines) = cleanup lines ∧
      (cleanup lines).filter (!isBlankLine ·) = (lines.map squeezed).filter fun line =>
        !isBlankLine line && !isBatchSeparator line && trim line != ";" := by
  have normal := normal_cleanup lines
  exact ⟨normal, normal.cleanup_eq, visible_cleanup_eq lines⟩

/-- A line inside of a string literal is taken for a batch separator and dropped, and a separator that shares
its line with a statement stays. -/
theorem separators_misjudged :
    (convert {} "PRINT 'a\nGO\nb'").toOption.map (·.lines) = some ["RAISE NOTICE '%', 'a", "b';"] ∧
    (convert {} "SELECT 1; GO").toOption.map (·.lines) = some ["SELECT 1; GO"] := by
  decide +kernel

end SqlFerry.Layout
