import SqlFerry.Naming
import SqlFerry.Proofs.Text.Ascii
import SqlFerry.Proofs.Tsql.Spacing

/-! Names in delimiters. Inside of a delimited name its closing delimiter is written twice, so every name
without a line end can be written in brackets and in quotes and is read again from both. Taking the brackets
off a name writes it in quotes or as a plain word, and a plain word is read as a name unless it is a reserved
word. -/
namespace SqlFerry.Tsql

open Text

/-- A name as it is written inside of delimiters. -/
def doubled (close : Char) (name : List Char) : List Char :=
  name.flatMap fun c => if c == close then [c, c] else [c]

/-- The name that is written inside of delimiters. -/
def undoubled (close : Char) : List Char → List Char
  | c :: d :: rest =>
    if c == close && d == close then c :: undoubled close rest else c :: undoubled close (d :: rest)
  | rest => rest

/-- The name that the text of a token stands for. -/
def nameOf (text : String) : String :=
  match text.toList with
  | '[' :: rest => .ofList (undoubled ']' rest.dropLast)
  | '"' :: rest => .ofList (undoubled '"' rest.dropLast)
  | _ => text

@[simp] theorem doubled_nil (close : Char) : doubled close [] = [] := rfl

theorem doubled_cons_close (close : Char) (name : List Char) :
    doubled close (close :: name) = close :: close :: doubled close name := by
  simp [doubled]

theorem doubled_cons_of_ne {close c : Char} (other : c ≠ close) (name : List Char) :
    doubled close (c :: name) = c :: doubled close name := by
  simp [doubled, other]

theorem undoubled_cons_of_ne {close c : Char} (other : c ≠ close) (cs : List Char) :
    undoubled close (c :: cs) = c :: undoubled close cs := by
  cases cs with
  | nil => simp [undoubled]
  | cons d cs => simp [undoubled, other]

theorem undoubled_doubled (close : Char) (name : List Char) : undoubled close (doubled close name) = name := by
  induction name with
  | nil => rfl
  | cons c name ih =>
    by_cases other : c = close
    · subst other
      simp [doubled_cons_close, undoubled, ih]
    · rw [doubled_cons_of_ne other, undoubled_cons_of_ne other, ih]

/-- The end of a delimited name is found behind the name, in which the delimiter is written twice. -/
theorem doubled_of_delimitedTail {close : Char} {cs : List Char} {n : Nat} (flat : close ≠ '\n')
    (found : delimitedTail close cs = some n) :
    ∃ name, cs.take n = doubled close name ++ [close] ∧ '\n' ∉ name := by
  induction cs using delimitedTail.induct close generalizing n with
  | case1 => cases found
  | case2 c isClose =>
    obtain rfl : c = close := by simpa using isClose
    obtain rfl : 1 = n := by simpa [delimitedTail] using found
    exact ⟨[], rfl, List.not_mem_nil⟩
  | case3 c other => simp [delimitedTail, other] at found
  | case4 c d cs isClose isDoubled ih =>
    rw [delimitedTail, if_pos isClose, if_pos isDoubled] at found
    obtain rfl : c = close := by simpa using isClose
    obtain rfl : d = c := by simpa using isDoubled
    obtain ⟨m, inner, rfl⟩ := Option.map_eq_some_iff.mp found
    obtain ⟨name, shape, onLine⟩ := ih inner
    refine ⟨d :: name, ?_, by simp [flat.symm, onLine]⟩
    rw [doubled_cons_close, List.cons_append, List.cons_append, ← shape]
    rfl
  | case5 c d cs isClose single =>
    rw [delimitedTail, if_pos isClose, if_neg single] at found
    obtain rfl : c = close := by simpa using isClose
    obtain rfl : 1 = n := Option.some.inj found
    exact ⟨[], rfl, List.not_mem_nil⟩
  | case6 c d cs other lineEnd =>
    rw [delimitedTail, if_neg other, if_pos lineEnd] at found
    cases found
  | case7 c d cs other sameLine ih =>
    rw [delimitedTail, if_neg other, if_neg sameLine] at found
    obtain ⟨m, inner, rfl⟩ := Option.map_eq_some_iff.mp found
    obtain ⟨name, shape, onLine⟩ := ih inner
    have isOther : c ≠ close := by simpa using other
    have inLine : c ≠ '\n' := by simpa using sameLine
    refine ⟨c :: name, ?_, by simp [inLine.symm, onLine]⟩
    rw [doubled_cons_of_ne isOther, List.cons_append, ← shape]
    rfl

theorem delimitedTail_doubled {close : Char} {name : List Char} (onLine : '\n' ∉ name) :
    delimitedTail close (doubled close name ++ [close]) = some ((doubled close name).length + 1) := by
  induction name with
  | nil => simp [delimitedTail]
  | cons c name ih =>
    have inLine : c ≠ '\n' := fun same => onLine (by simp [same])
    have inner := ih fun member => onLine (List.mem_cons_of_mem c member)
    by_cases other : c = close
    · subst other
      simp [doubled_cons_close, delimitedTail, inner]
    · rw [doubled_cons_of_ne other, List.cons_append]
      obtain ⟨d, rest, shape⟩ : ∃ d rest, doubled close name ++ [close] = d :: rest := by
        cases doubled close name with
        | nil => exact ⟨_, _, rfl⟩
        | cons d rest => exact ⟨_, _, rfl⟩
      rw [shape] at inner ⊢
      simp [delimitedTail, other, inLine, inner]

def delimited (first close : Char) (name : List Char) : String := .ofList (first :: (doubled close name ++ [close]))

theorem nameOf_bracketed (name : List Char) : nameOf (delimited '[' ']' name) = .ofList name := by
  simp [nameOf, delimited, undoubled_doubled]

theorem nameOf_quoted (name : List Char) : nameOf (delimited '"' '"' name) = .ofList name := by
  simp [nameOf, delimited, undoubled_doubled]

theorem bracketed_of_lex {source : String} {tokens : List (Token Kind)} (lexed : lex source = .ok tokens)
    {t : Token Kind} (member : t ∈ tokens) (bracket : t.text.toList.head? = some '[') :
    ∃ name, t.text = delimited '[' ']' name ∧ '\n' ∉ name := by
  obtain ⟨c, cs, shape, found⟩ := standalone_of_lexFrom lexed t member
  obtain rfl : c = '[' := by simpa [shape] using bracket
  have whole := found [] apart_nil
  have ended : delimitedTail ']' cs = some cs.length := by
    cases tail : delimitedTail ']' cs with
    | none => simp [piece, isGapChar, tokenPiece, tail, endedBy] at whole
    | some n =>
      have counted : Kind.quotedIdentifier = t.kind ∧ n = cs.length := by
        simpa [piece, isGapChar, tokenPiece, tail, endedBy] using whole
      rw [counted.2]
  obtain ⟨name, inside, onLine⟩ := doubled_of_delimitedTail (by decide) ended
  refine ⟨name, ?_, onLine⟩
  rw [List.take_length] at inside
  rw [delimited, ← inside, ← shape, String.ofList_toList]

theorem undoubleBrackets_eq (cs : List Char) : undoubleBrackets cs = undoubled ']' cs := by
  induction cs using undoubleBrackets.induct with
  | case1 rest ih => simp [undoubleBrackets, undoubled, ih]
  | case2 c rest other ih =>
    rw [undoubleBrackets, ih]
    · cases rest with
      | nil => simp [undoubled]
      | cons d rest =>
        have single : ¬ (c == ']' && d == ']') = true := by
          simp only [Bool.and_eq_true, beq_iff_eq]
          rintro ⟨rfl, rfl⟩
          exact other rest rfl rfl
        rw [undoubled, if_neg single]
    · exact other
  | case3 => rfl

theorem unbracket_bracketed (name : List Char) :
    unbracket (delimited '[' ']' name) =
      if isPlainName name then .ofList name else delimited '"' '"' name := by
  have inside : bracketed? (delimited '[' ']' name).toList = some (doubled ']' name) := by
    simp [delimited, bracketed?]
  simp only [unbracket, inside, undoubleBrackets_eq, undoubled_doubled]
  split
  · rfl
  · rfl

theorem isAscii_of_plain {c : Char} (plain : (c.isAlphanum || c == '_') = true) : c.toNat < 128 := by
  have ranges : c.isAlphanum = (decide (65 ≤ c.val ∧ c.val ≤ 90) || (decide (97 ≤ c.val) && decide (c.val ≤ 122)) ||
      (decide (48 ≤ c.val) && decide (c.val ≤ 57))) := rfl
  simp only [ranges, Bool.or_eq_true, Bool.and_eq_true, decide_eq_true_eq, beq_iff_eq,
    UInt32.le_iff_toNat_le] at plain
  rcases plain with range | rfl
  · simp at range
    omega
  · decide

/-- What starts a plain name starts nothing but a word. -/
theorem isWordStart_of_plain {c : Char} (plain : (c.isAlpha || c == '_') = true) :
    isWordStart c = true ∧ isGapChar c = false ∧ c.isDigit = false ∧
      c ∉ ['-', '/', '\'', '[', '"', '@', '#', '0', '.'] := by
  have each : ∀ n < 128, ((Char.ofNat n).isAlpha || Char.ofNat n == '_') = true →
      isWordStart (Char.ofNat n) = true ∧ isGapChar (Char.ofNat n) = false ∧ (Char.ofNat n).isDigit = false ∧
        Char.ofNat n ∉ ['-', '/', '\'', '[', '"', '@', '#', '0', '.'] := by
    decide
  have wider : (c.isAlphanum || c == '_') = true := by
    simp only [Char.isAlphanum, Bool.or_eq_true] at plain ⊢
    exact plain.imp_left .inl
  have found := each c.toNat (isAscii_of_plain wider)
  rw [Char.ofNat_toNat] at found
  exact found plain

theorem isWordChar_of_plain {c : Char} (plain : (c.isAlphanum || c == '_') = true) : isWordChar c = true := by
  have each : ∀ n < 128, ((Char.ofNat n).isAlphanum || Char.ofNat n == '_') = true →
      isWordChar (Char.ofNat n) = true := by
    decide
  have found := each c.toNat (isAscii_of_plain plain)
  rw [Char.ofNat_toNat] at found
  exact found plain

theorem runLength_append {p : Char → Bool} {cs rest : List Char} (all : ∀ c ∈ cs, p c = true)
    (stops : ∀ c ∈ rest.head?, p c = false) : runLength p (cs ++ rest) = cs.length := by
  have none : runLength p rest = 0 := runLength_eq_zero (by cases shape : rest.head? <;> simp_all)
  have behind : rest.takeWhile p = [] := List.length_eq_zero_iff.mp none
  rw [runLength, List.takeWhile_append_of_pos all, behind, List.append_nil]

theorem piece_plain {c : Char} {cs rest : List Char} (plain : isPlainName (c :: cs) = true)
    (stops : ∀ d ∈ rest.head?, isWordChar d = false ∧ d ≠ '\'') :
    piece c (cs ++ rest) =
      .ok (some (if isReserved (.ofList (c :: cs)) then .keyword else .identifier), cs.length) := by
  obtain ⟨first, others⟩ := Bool.and_eq_true_iff.mp plain
  rw [List.all_eq_true] at others
  obtain ⟨start, noGap, noDigit, other⟩ := isWordStart_of_plain first
  have words : runLength isWordChar (cs ++ rest) = cs.length :=
    runLength_append (fun d member => isWordChar_of_plain (others d member)) fun d isNext => (stops d isNext).1
  have noQuote : (cs ++ rest).head? ≠ some '\'' := by
    intro quote
    cases cs with
    | nil => exact (stops _ quote).2 rfl
    | cons d cs =>
      have plain := others _ (List.mem_of_mem_head? quote)
      revert plain
      decide
  simp only [List.mem_cons, List.not_mem_nil, or_false, not_or] at other
  simp [piece, tokenPiece, noGap, noDigit, start, other, noQuote, word, words, -List.head?_append]

theorem nameOf_plain {name : List Char} (plain : isPlainName name = true) :
    nameOf (.ofList name) = .ofList name := by
  cases name with
  | nil => cases plain
  | cons c cs =>
    obtain ⟨-, -, -, other⟩ := isWordStart_of_plain (Bool.and_eq_true_iff.mp plain).1
    simp only [List.mem_cons, List.not_mem_nil, or_false, not_or] at other
    simp [nameOf, other]

theorem lex_of_piece {c : Char} {cs : List Char} {kind : Kind} (found : piece c cs = .ok (some kind, cs.length)) :
    lex (.ofList (c :: cs)) = .ok [⟨kind, .ofList (c :: cs), 1, 0⟩] := by
  simp [lex, lexFrom, found, Position.origin]

theorem lex_quoted {name : List Char} (onLine : '\n' ∉ name) :
    lex (delimited '"' '"' name) = .ok [⟨.quotedIdentifier, delimited '"' '"' name, 1, 0⟩] := by
  refine lex_of_piece ?_
  simp [piece, isGapChar, tokenPiece, delimitedTail_doubled onLine, endedBy]

theorem isPlainName_map_toLower (name : List Char) : isPlainName (name.map Char.toLower) = isPlainName name := by
  have isAlpha (c : Char) : c.toLower.isAlpha = c.isAlpha := of_toLower (by decide) c
  have isAlphanum (c : Char) : c.toLower.isAlphanum = c.isAlphanum := of_toLower (by decide) c
  have isLine (c : Char) : (c.toLower == '_') = (c == '_') := @of_toLower _ (· == '_') (by decide) c
  cases name with
  | nil => rfl
  | cons c cs => simp only [List.map_cons, isPlainName, List.all_map, Function.comp_def, isAlpha, isAlphanum, isLine]

theorem isPlainName_of_sameWord {name word : String} (same : sameWord name word = true)
    (plain : isPlainName word.toList = true) : isPlainName name.toList = true := by
  rw [← isPlainName_map_toLower, beq_iff_eq.mp same, isPlainName_map_toLower, plain]

theorem isPlainName_of_isReserved {name : String} (isReserved : isReserved name = true) :
    isPlainName name.toList = true := by
  obtain ⟨word, member, same⟩ := List.any_eq_true.mp isReserved
  have plain : ∀ word ∈ reserved, isPlainName word.toList = true := by decide
  exact isPlainName_of_sameWord same (plain word member)

/-- Taking the brackets off a token leaves one token with the same name. It is a name again unless the
name is a reserved word. -/
theorem unbracket_keeps_name {source : String} {tokens : List (Token Kind)} (lexed : lex source = .ok tokens)
    {t : Token Kind} (member : t ∈ tokens) (bracket : t.text.toList.head? = some '[') :
    ∃ kind, lex (unbracket t.text) = .ok [⟨kind, unbracket t.text, 1, 0⟩] ∧
      nameOf (unbracket t.text) = nameOf t.text ∧
      kind = if isReserved (nameOf t.text) then .keyword
        else if isPlainName (nameOf t.text).toList then .identifier else .quotedIdentifier := by
  obtain ⟨name, shape, onLine⟩ := bracketed_of_lex lexed member bracket
  rw [shape, nameOf_bracketed, unbracket_bracketed, String.toList_ofList]
  by_cases plain : isPlainName name = true
  · rw [if_pos plain, if_pos plain]
    cases name with
    | nil => cases plain
    | cons c cs =>
      have found := @piece_plain c cs [] plain nofun
      rw [List.append_nil] at found
      exact ⟨_, lex_of_piece found, nameOf_plain plain, rfl⟩
  · have free : ¬ isReserved (.ofList name) = true := fun reserved =>
      plain (by simpa using isPlainName_of_isReserved reserved)
    rw [if_neg plain, if_neg plain, if_neg free]
    exact ⟨_, lex_quoted onLine, nameOf_quoted name, rfl⟩

theorem doubled_bracket_keeps_name :
    ∃ kind, lex (unbracket "[a]]b\"c]") = .ok [⟨kind, "\"a]b\"\"c\"", 1, 0⟩] ∧
      nameOf "\"a]b\"\"c\"" = "a]b\"c" ∧ kind = .quotedIdentifier := by
  have lexed : lex "SELECT [a]]b\"c]" =
      .ok [⟨.keyword, "SELECT", 1, 0⟩, ⟨.quotedIdentifier, "[a]]b\"c]", 1, 7⟩] := by with_unfolding_all rfl
  obtain ⟨kind, read, named, isKind⟩ := unbracket_keeps_name lexed (t := ⟨.quotedIdentifier, "[a]]b\"c]", 1, 7⟩)
    (by simp) (by decide)
  exact ⟨kind, read, named, isKind⟩

/-- A reserved word in brackets is read as a name, and as a keyword once the brackets are off. -/
theorem unbracketed_keyword :
    lex "[select]" = .ok [⟨.quotedIdentifier, "[select]", 1, 0⟩] ∧
      lex (unbracket "[select]") = .ok [⟨.keyword, "select", 1, 0⟩] := by
  constructor
  · with_unfolding_all rfl
  · with_unfolding_all rfl

end SqlFerry.Tsql
