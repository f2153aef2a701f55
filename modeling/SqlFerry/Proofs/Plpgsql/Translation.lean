import SqlFerry.Proofs.Naming
import SqlFerry.Proofs.Plpgsql.Layout
import SqlFerry.Proofs.Plpgsql.Routine

/-! The words that control flow is translated to. A branch or a loop takes the statements of a block
without its `BEGIN` and `END`, and so does the body of a function. -/
namespace SqlFerry

open Text (byteLength isBlank isInk isWordChar)

namespace Tsql

variable (rename : String → String)

def Simple.translation : Simple → List String
  | print _ value => ["RAISE", "NOTICE", "'%',", value.1.text ++ ";"]
  | assign _ name value => [rename name.1.text, ":=", value.1.text ++ ";"]
  | jump .leave _ => ["EXIT;"]
  | jump _ word => [word.1.text ++ ";"]

/-- A condition in parentheses. -/
def Guard.translation (g : Guard) : List String :=
  ["(" ++ rename g.name.1.text, g.op.1.text, g.value.1.text ++ ")"]

mutual

/-- The words of a statement. -/
def Code.translation : Code → List String
  | .simple s => s.translation rename
  | .when word g yes => word.1.text :: g.translation rename ++ ["THEN"] ++ (match yes with
      | .block _ body _ => Code.translations body
      | other => other.translation) ++ ["END", "IF;"]
  | .choose word g yes otherwise no => word.1.text :: g.translation rename ++ ["THEN"] ++ (match yes with
      | .block _ body _ => Code.translations body
      | other => other.translation) ++ [otherwise.1.text] ++ (match no with
      | .block _ body _ => Code.translations body
      | other => other.translation) ++ ["END", "IF;"]
  | .loop word g body => word.1.text :: g.translation rename ++ ["LOOP"] ++ (match body with
      | .block _ body _ => Code.translations body
      | other => other.translation) ++ ["END", "LOOP;"]
  | .block first body last => first.1.text :: Code.translations body ++ [last.1.text ++ ";"]

def Code.translations : List Code → List String
  | [] => []
  | s :: ss => s.translation ++ Code.translations ss

end

/-- The words of a statement without a block around them. -/
def Code.unwrapped : Code → List String
  | .block _ body _ => Code.translations rename body
  | s => s.translation rename

/-- The words of the body of a function. -/
def Code.bodyTranslation : List Code → List String
  | [s] => s.unwrapped rename
  | ss => Code.translations rename ss

theorem Code.translation_when (word : Word "IF") (g : Guard) (yes : Code) :
    Code.translation rename (.when word g yes) =
      word.1.text :: g.translation rename ++ ["THEN"] ++ yes.unwrapped rename ++ ["END", "IF;"] := by
  cases yes <;> rfl

theorem Code.translation_choose (word : Word "IF") (g : Guard) (yes : Code) (other : Word "ELSE") (no : Code) :
    Code.translation rename (.choose word g yes other no) =
      word.1.text :: g.translation rename ++ ["THEN"] ++ yes.unwrapped rename ++ [other.1.text] ++
        no.unwrapped rename ++ ["END", "IF;"] := by
  cases yes <;> cases no <;> rfl

theorem Code.translation_loop (word : Word "WHILE") (g : Guard) (body : Code) :
    Code.translation rename (.loop word g body) =
      word.1.text :: g.translation rename ++ ["LOOP"] ++ body.unwrapped rename ++ ["END", "LOOP;"] := by
  cases body <;> rfl

end Tsql

open Tsql (Code Simple Guard Variable Integer Comparison Jump space)
open Layout (Lasting)

/-! ### Spelling -/

/-- The text has these words, and tidying keeps them. -/
structure Spells (text : List Char) (ws : List String) : Prop where
  words : Text.words (.ofList text) = ws
  lasting : ∀ word ∈ ws, Lasting word

namespace Spells

variable {xs ys : List Char} {vs ws : List String}

theorem nil : Spells [] [] := ⟨rfl, by simp⟩

theorem apart {c : Char} (blank : isBlank c = true) (first : Spells xs vs) (second : Spells ys ws) :
    Spells (xs ++ c :: ys) (vs ++ ws) where
  words := by
    rw [← first.words, ← second.words]
    simp [Text.words_eq, Text.runs_append_blank blank]
  lasting := List.forall_mem_append.mpr ⟨first.lasting, second.lasting⟩

theorem spaced (first : Spells xs vs) (second : Spells ys ws) :
    Spells (xs ++ space ++ ys) (vs ++ ws) := by
  simpa [space] using first.apart (by decide) second

theorem word {word : String} (solid : ∀ c ∈ word.toList, isBlank c = false) (visible : word ≠ "")
    (lasting : Lasting word) : Spells word.toList [word] where
  words := by
    have some : word.toList ≠ [] := fun none => visible (String.toList_eq_nil_iff.mp none)
    rw [Text.words_eq, String.toList_ofList, Text.runs_word solid some]
    simp
  lasting := by simpa using lasting

end Spells

theorem solid_of_ink {cs : List Char} (ink : ∀ c ∈ cs, isInk c = true) : ∀ c ∈ cs, isBlank c = false := by
  intro c member
  have isInkC := ink c member
  simp only [isInk, Bool.and_eq_true, Bool.not_eq_true'] at isInkC
  exact isInkC.1

theorem noSemicolon_of_ink {cs : List Char} (ink : ∀ c ∈ cs, isInk c = true) : ';' ∉ cs :=
  fun member => absurd (ink _ member) (by decide)

theorem notGo_of_first {word : String} {first : Char} {rest : List Char} (text : word.toList = first :: rest)
    (other : first.toLower ≠ 'g') : Text.sameWord word "GO" = false := by
  rw [Text.sameWord, text]
  simp [other]

theorem notGo_of_last {word : String} {last : Char} {front : List Char} (text : word.toList = front ++ [last])
    (other : last.toLower ≠ 'o') : Text.sameWord word "GO" = false := by
  refine beq_eq_false_iff_ne.mpr fun same => ?_
  have ends := congrArg List.getLast? same
  rw [text, List.map_append] at ends
  simp at ends
  exact other ends

theorem spells_ink {word : String} (visible : word ≠ "") (ink : ∀ c ∈ word.toList, isInk c = true)
    (notGo : Text.sameWord word "GO" = false) : Spells word.toList [word] := by
  have noSemicolon := noSemicolon_of_ink ink
  refine Spells.word (solid_of_ink ink) visible ⟨fun inside => ?_, ?_, notGo⟩
  · exact noSemicolon (inside.subset (by simp))
  · rintro rfl
    exact noSemicolon (by decide)

theorem spells_ended {word : String} (visible : word ≠ "") (ink : ∀ c ∈ word.toList, isInk c = true) :
    Spells (word.toList ++ [';']) [word ++ ";"] := by
  have noSemicolon := noSemicolon_of_ink ink
  have text : (word ++ ";").toList = word.toList ++ [';'] := by simp
  have solid : ∀ c ∈ (word ++ ";").toList, isBlank c = false := by
    rw [text, List.forall_mem_append]
    exact ⟨solid_of_ink ink, List.forall_mem_singleton.mpr (by decide)⟩
  rw [← text]
  refine Spells.word solid (by simp) ⟨fun inside => ?_, ?_, notGo_of_last text (by decide)⟩
  · have twice := inside.sublist.count_le ';'
    rw [text, List.count_append, List.count_eq_zero.mpr noSemicolon] at twice
    exact absurd twice (by decide)
  · intro same
    have none := congrArg String.toList same
    rw [text] at none
    exact visible (by simpa using none)

namespace Tsql

variable {rename : String → String}

/-- The new names are visible words that start with an underscore. -/
structure Names (rename : String → String) : Prop where
  starts : ∀ v : Variable, ∃ rest, (rename v.1.text).toList = '_' :: rest
  ink : ∀ v : Variable, ∀ c ∈ (rename v.1.text).toList, isInk c = true

theorem Lexeme.text_ne (l : Lexeme) : l.text ≠ "" := fun none => l.visible (by rw [none]; rfl)

theorem Integer.ink (n : Integer) : ∀ c ∈ n.1.text.toList, isInk c = true := by
  intro c member
  have digit := n.digits c member
  simp only [Char.isDigit, Bool.and_eq_true, decide_eq_true_eq, ge_iff_le, UInt32.le_iff_toNat_le] at digit
  have low : '0'.val.toNat = 48 := rfl
  have high : '9'.val.toNat = 57 := rfl
  have isPoint : c.toNat = c.val.toNat := rfl
  refine Text.isInk_of_not_mem fun inkless => ?_
  simp only [Text.inklessPoints, List.mem_cons, List.not_mem_nil, or_false] at inkless
  omega

theorem Comparison.ink (op : Comparison) : ∀ c ∈ op.1.text.toList, isInk c = true := by
  have each : ∀ c ∈ ['<', '>', '=', '!'], isInk c = true := List.all_eq_true.mp (by decide)
  exact fun c member => each c (op.text c member)

theorem Variable.spells (names : Names rename) (v : Variable) :
    Spells (v.target rename) [rename v.1.text] := by
  obtain ⟨rest, text⟩ := names.starts v
  refine spells_ink ?_ (names.ink v) (notGo_of_first text (by decide))
  intro none
  rw [none] at text
  cases text

theorem Comparison.spells (op : Comparison) : Spells op.1.text.toList [op.1.text] := by
  obtain ⟨c, cs, shape, -⟩ := op.1.standalone
  have each : ∀ c ∈ ['<', '>', '=', '!'], c.toLower ≠ 'g' := by
    simp only [List.forall_mem_cons]
    exact ⟨by decide, by decide, by decide, by decide, by simp⟩
  exact spells_ink op.1.text_ne op.ink (notGo_of_first shape (each c (op.text c (by simp [shape]))))

/-- The word is written with visible characters and does not read as a separator. -/
def isPlainWord (w : String) : Bool := w.toList.all isInk && !Text.sameWord w "GO"

theorem Word.ink {w : String} (word : Word w) (plain : isPlainWord w = true) :
    ∀ c ∈ word.1.text.toList, isInk c = true :=
  Text.all_of_sameWord (by decide) word.sameWord (Bool.and_eq_true_iff.mp plain).1

theorem Word.spells {w : String} (word : Word w) (plain : isPlainWord w = true) :
    Spells word.1.text.toList [word.1.text] := by
  have notGo : Text.sameWord w "GO" = false := by simpa using (Bool.and_eq_true_iff.mp plain).2
  exact spells_ink word.1.text_ne (word.ink plain) ((Text.sameWord_congr word.sameWord "GO").trans notGo)

theorem Word.spells_ended {w : String} (word : Word w) (plain : isPlainWord w = true) :
    Spells (word.1.text.toList ++ [';']) [word.1.text ++ ";"] :=
  SqlFerry.spells_ended word.1.text_ne (word.ink plain)

theorem Simple.spells (names : Names rename) (s : Simple) :
    Spells (s.target rename ++ [';']) (s.translation rename) := by
  cases s with
  | print word value =>
    have notice : Spells "RAISE NOTICE '%',".toList ["RAISE", "NOTICE", "'%',"] :=
      ⟨by decide, by decide⟩
    rw [Simple.target_print, List.append_assoc]
    exact notice.spaced (spells_ended value.1.text_ne value.ink)
  | assign word name value =>
    have becomes : Spells ":=".toList [":="] := ⟨by decide, by decide⟩
    rw [Simple.target_assign, List.append_assoc]
    exact ((name.spells names).spaced becomes).spaced (spells_ended value.1.text_ne value.ink)
  | jump j word =>
    cases j with
    | leave =>
      have exits : Spells ("EXIT".toList ++ [';']) ["EXIT;"] := ⟨by decide, by decide⟩
      exact exits
    | finish | again => exact word.spells_ended (by decide)

theorem Guard.spells (names : Names rename) (g : Guard) :
    Spells (g.target rename) (g.translation rename) := by
  have opening : Spells ('(' :: g.name.target rename) ["(" ++ rename g.name.1.text] := by
    have text : ("(" ++ rename g.name.1.text).toList = '(' :: g.name.target rename := by
      simp [Variable.target]
    rw [← text]
    refine spells_ink (by simp) ?_ (notGo_of_first text (by decide))
    rw [text, List.forall_mem_cons]
    exact ⟨by decide, names.ink g.name⟩
  have closing : Spells (g.value.1.text.toList ++ [')']) [g.value.1.text ++ ")"] := by
    have text : (g.value.1.text ++ ")").toList = g.value.1.text.toList ++ [')'] := by simp
    rw [← text]
    refine spells_ink (by simp) ?_ (notGo_of_last text (by decide))
    rw [text, List.forall_mem_append]
    exact ⟨g.value.ink, List.forall_mem_singleton.mpr (by decide)⟩
  have whole := (opening.spaced g.op.spells).spaced closing
  simpa [Guard.target, Guard.translation] using whole

/-! ### The words of the converted text -/

/-- The converted texts of a statement have its words, wherever it stands. -/
structure Code.Spelled (rename : String → String) (s : Code) : Prop where
  whole : Spells (s.target rename) (s.translation rename)
  middle : ∀ {more : List Char} {ws : List String}, Spells more ws →
    Spells (s.middle rename ++ more) (s.unwrapped rename ++ ws)
  closed : ∀ {closer : String} {ws : List String}, Spells closer.toList ws →
    Spells (s.closed rename closer) (s.unwrapped rename ++ ws)

theorem Code.Spelled.of_whole {s : Code} (other : s.isBlock = false)
    (whole : Spells (s.target rename) (s.translation rename)) : s.Spelled rename := by
  have unwrapped : s.unwrapped rename = s.translation rename := by
    cases s with
    | block => cases other
    | _ => rfl
  refine ⟨whole, fun more => ?_, fun more => ?_⟩
  · rw [unwrapped, Code.middle_other _ other]
    exact whole.spaced more
  · rw [unwrapped, Code.closed_other _ other]
    simpa using whole.apart (by decide : isBlank '\n' = true) more

theorem spells_endIf : Spells "END IF;".toList ["END", "IF;"] := ⟨by decide, by decide⟩

theorem spells_endLoop : Spells "END LOOP;".toList ["END", "LOOP;"] := ⟨by decide, by decide⟩

theorem spells_then : Spells "THEN".toList ["THEN"] := ⟨by decide, by decide⟩

theorem spells_loop : Spells "LOOP".toList ["LOOP"] := ⟨by decide, by decide⟩

theorem Guard.spells_front {opener follower : String} (names : Names rename) (g : Guard)
    (atOpener : Spells opener.toList [opener]) (atFollower : Spells follower.toList [follower])
    {more : List Char} {ws : List String} (later : Spells more ws) :
    Spells (opener.toList ++ space ++ g.target rename ++ (" " ++ follower).toList ++ space ++ more)
      (opener :: g.translation rename ++ [follower] ++ ws) := by
  have whole := ((atOpener.spaced (g.spells names)).spaced atFollower).spaced later
  simpa [space] using whole

mutual

theorem Code.spelled (names : Names rename) : ∀ s : Code, s.Spelled rename
  | .simple s => .of_whole rfl (s.spells names)
  | .when word g yes => by
    have later := (Code.spelled names yes).closed spells_endIf
    have whole := g.spells_front names (word.spells (by decide)) spells_then later
    refine .of_whole rfl ?_
    rw [Code.target_when, Code.translation_when, List.append_assoc _ _ ["END", "IF;"]]
    exact whole
  | .choose word g yes other no => by
    have second := (other.spells (by decide)).spaced ((Code.spelled names no).closed spells_endIf)
    have later := (Code.spelled names yes).middle second
    have whole := g.spells_front names (word.spells (by decide)) spells_then later
    have opener : (" " ++ "THEN").toList = " THEN".toList := by decide
    rw [opener] at whole
    refine .of_whole rfl ?_
    rw [Code.target_choose, Code.translation_choose]
    simpa only [List.append_assoc, List.cons_append, List.nil_append] using whole
  | .loop word g body => by
    have later := (Code.spelled names body).closed spells_endLoop
    have whole := g.spells_front names (word.spells (by decide)) spells_loop later
    refine .of_whole rfl ?_
    rw [Code.target_loop, Code.translation_loop, List.append_assoc _ _ ["END", "LOOP;"]]
    exact whole
  | .block first body last => by
    have whole := (first.spells (by decide)).spaced
      (Code.spelled_all names (last.spells_ended (by decide)) body)
    refine ⟨?_, fun later => Code.spelled_all names later body, fun later => Code.spelled_all names later body⟩
    rw [Code.target_block, List.append_assoc]
    exact whole

theorem Code.spelled_all (names : Names rename) {more : List Char} {ws : List String} (later : Spells more ws) :
    ∀ ss : List Code, Spells (Code.targets rename ss ++ more) (Code.translations rename ss ++ ws)
  | [] => later
  | s :: ss => by
    rw [Code.targets_cons, Code.translations, List.append_assoc, List.append_assoc (s.translation rename)]
    exact (Code.spelled names s).whole.spaced (Code.spelled_all names later ss)

end

theorem Code.spells_row (names : Names rename) {front : List Char} {ws : List String}
    (start : Spells front ws) (ss : List Code) :
    Spells (front ++ Code.row rename ss) (ws ++ Code.translations rename ss) := by
  induction ss generalizing front ws with
  | nil => simpa [Code.row, Code.translations] using start
  | cons s ss ih =>
    have later := ih (start.spaced (Code.spelled names s).whole)
    simpa [Code.row, Code.translations] using later

theorem Code.spells_body (names : Names rename) (body : List Code) :
    Spells (Code.bodyTarget rename body) (Code.bodyTranslation rename body) := by
  by_cases sole : ∃ first inner last, body = [.block first inner last]
  · obtain ⟨first, inner, last, rfl⟩ := sole
    have whole := Spells.nil.spaced (Code.spelled_all names Spells.nil inner)
    simpa [Code.bodyTarget, Code.bodyTranslation, Code.unwrapped] using whole
  · have other : Code.bodyTranslation rename body = Code.translations rename body := by
      unfold Code.bodyTranslation
      split
      · next s =>
        cases s with
        | block first inner last => exact absurd ⟨first, inner, last, rfl⟩ sole
        | _ => simp [Code.unwrapped, Code.translations]
      · rfl
    rw [Code.bodyTarget_other _ fun first inner last same => sole ⟨first, inner, last, same⟩, other]
    exact Code.spells_row names Spells.nil body

end Tsql

end SqlFerry
