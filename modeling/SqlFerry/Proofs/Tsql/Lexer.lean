import SqlFerry.Proofs.Span
import SqlFerry.Tsql.Lexer

/-! Lexing loses nothing. A text that can be lexed is made up of its tokens and of gaps around them,
where a gap is a sequence of blanks, line comments and block comments, and every token carries the
position at which it stands. Block comments are described by a grammar of their own: inside a comment
stand complete comments and characters that are not part of a delimiter, where delimiters are read
from left to right and the closing delimiter counts as what follows. -/
namespace SqlFerry.Tsql

open Text

def opening : List Char := ['/', '*']
def closing : List Char := ['*', '/']

/-- What may stand between the delimiters of a block comment. -/
inductive CommentInside : List Char → Prop
  | nil : CommentInside []
  | plain {c : Char} {inside : List Char} : CommentInside inside →
      ¬ opening <+: c :: (inside ++ closing) → ¬ closing <+: c :: (inside ++ closing) →
      CommentInside (c :: inside)
  | nested {inner inside : List Char} : CommentInside inner → CommentInside inside →
      CommentInside (opening ++ inner ++ closing ++ inside)

/-- A complete block comment, in which comments are nested in pairs of delimiters. -/
def BlockComment (text : List Char) : Prop :=
  ∃ inside, CommentInside inside ∧ text = opening ++ inside ++ closing

/-- A part of a gap, and what follows it up to the end of the text. -/
inductive GapPiece : List Char → List Char → Prop
  | blank {c : Char} {rest : List Char} : c ∈ [' ', '\t', '\r', '\n', '\ufeff'] → GapPiece [c] rest
  | lineComment {body rest : List Char} : '\n' ∉ body → rest = [] ∨ rest.head? = some '\n' →
      GapPiece ('-' :: '-' :: body) rest
  | blockComment {text rest : List Char} : BlockComment text → GapPiece text rest

/-- A gap, and what follows it up to the end of the text. -/
inductive IsGap : List Char → List Char → Prop
  | nil {rest : List Char} : IsGap [] rest
  | cons {piece gap rest : List Char} : GapPiece piece (gap ++ rest) → IsGap gap rest →
      IsGap (piece ++ gap) rest

/-- A text that follows `before` is made up of gaps and tokens. The tokens have some text, and their
positions count the line ends in front of them and the bytes behind the last of these. -/
inductive Laid : List Char → List Char → List (Token Kind) → Prop
  | last {before gap : List Char} : IsGap gap [] → Laid before gap []
  | token {before gap text rest : List Char} {kind : Kind} {tokens : List (Token Kind)} :
      IsGap gap (text ++ rest) → text ≠ [] → Laid (before ++ gap ++ text) rest tokens →
      Laid before (gap ++ text ++ rest)
        (⟨kind, .ofList text, 1 + (before ++ gap).count '\n', byteLength (lastLine (before ++ gap))⟩
          :: tokens)

/-- What closes some block comments that are open one inside the other. -/
def Closes : Nat → List Char → Prop
  | 0, text => text = []
  | depth + 1, text =>
    ∃ inside rest, CommentInside inside ∧ Closes depth rest ∧ text = inside ++ closing ++ rest

theorem closes_commentTail {depth : Nat} {cs : List Char} {n : Nat}
    (found : commentTail depth cs = some n) : Closes depth (cs.take n) := by
  induction depth, cs using commentTail.induct generalizing n with
  | case1 cs =>
    obtain rfl : 0 = n := by simpa [commentTail] using found
    simp [Closes]
  | case2 depth => simp [commentTail] at found
  | case3 depth cs ih =>
    rw [commentTail] at found
    obtain ⟨m, inner, rfl⟩ := Option.map_eq_some_iff.mp found
    obtain ⟨first, behind, insideFirst, ⟨second, rest, insideSecond, closes, rfl⟩, shape⟩ := ih inner
    refine ⟨opening ++ first ++ closing ++ second, rest, .nested insideFirst insideSecond, closes, ?_⟩
    simp [shape, opening]
  | case4 depth cs ih =>
    rw [commentTail] at found
    obtain ⟨m, inner, rfl⟩ := Option.map_eq_some_iff.mp found
    exact ⟨[], cs.take m, .nil, ih inner, by simp [closing]⟩
  | case5 depth c cs noOpening noClosing ih =>
    rw [commentTail] at found
    · obtain ⟨m, inner, rfl⟩ := Option.map_eq_some_iff.mp found
      obtain ⟨inside, rest, plain, closes, shape⟩ := ih inner
      have next {a b : Char} (delimiter : [a, b] <+: c :: (inside ++ closing)) :
          c = a ∧ ∃ more, cs = b :: more := by
        obtain ⟨more, same⟩ := delimiter
        simp only [List.cons_append, List.nil_append, List.cons.injEq] at same
        refine ⟨same.1.symm, more ++ rest ++ cs.drop m, ?_⟩
        rw [← List.cons_append, ← List.cons_append, same.2, ← shape, List.take_append_drop]
      refine ⟨c :: inside, rest, .plain plain ?_ ?_, closes, by simp [shape]⟩
      · intro delimiter
        obtain ⟨first, more, second⟩ := next delimiter
        exact noOpening more first second
      · intro delimiter
        obtain ⟨first, more, second⟩ := next delimiter
        exact noClosing more first second
    · exact noOpening
    · exact noClosing

theorem blockComment_of_commentTail {cs : List Char} {n : Nat} (found : commentTail 1 cs = some n) :
    BlockComment ('/' :: '*' :: cs.take n) := by
  obtain ⟨inside, rest, plain, rfl, shape⟩ := closes_commentTail found
  exact ⟨inside, plain, by simp [shape, opening]⟩

theorem take_runLength (p : Char → Bool) (cs : List Char) :
    cs.take (runLength p cs) = cs.takeWhile p :=
  (List.prefix_iff_eq_take.mp (List.takeWhile_prefix p)).symm

theorem drop_runLength (p : Char → Bool) (cs : List Char) :
    cs.drop (runLength p cs) = cs.dropWhile p := by
  have whole := List.takeWhile_append_dropWhile (p := p) (l := cs)
  rw [← take_runLength] at whole
  exact List.append_cancel_left ((List.take_append_drop _ _).trans whole.symm)

theorem lineComment_of_runLength (cs : List Char) :
    GapPiece ('-' :: ('-' :: cs).take (runLength (· != '\n') ('-' :: cs)))
      (('-' :: cs).drop (runLength (· != '\n') ('-' :: cs))) := by
  rw [take_runLength, drop_runLength, List.takeWhile_cons_of_pos (by decide),
    List.dropWhile_cons_of_pos (by decide)]
  apply GapPiece.lineComment
  · intro broken
    have kept := List.all_eq_true.mp (List.all_takeWhile (p := (· != '\n')) (l := cs)) _ broken
    simp at kept
  · cases rest : cs.dropWhile (· != '\n') with
    | nil => exact .inl rfl
    | cons c more =>
      have stopped := List.head?_dropWhile_not (· != '\n') cs
      simp only [rest, List.head?_cons] at stopped
      right
      simpa using stopped

theorem gapPiece_of_piece {c : Char} {cs : List Char} {n : Nat}
    (found : piece c cs = .ok (none, n)) : GapPiece (c :: cs.take n) (cs.drop n) := by
  unfold piece at found
  split at found
  · next blank =>
    obtain rfl : 0 = n := by simpa using found
    have member : c ∈ [' ', '\t', '\r', '\n', '\ufeff'] := by
      simpa [isGapChar, or_assoc] using blank
    simpa using GapPiece.blank member
  split at found
  · next dashes =>
    simp only [Bool.and_eq_true, beq_iff_eq] at dashes
    obtain ⟨rfl, head⟩ := dashes
    obtain ⟨rest, rfl⟩ := List.head?_eq_some_iff.mp head
    obtain rfl : runLength (· != '\n') ('-' :: rest) = n := by simpa using found
    exact lineComment_of_runLength rest
  split at found
  · next delimiter =>
    simp only [Bool.and_eq_true, beq_iff_eq] at delimiter
    obtain ⟨rfl, head⟩ := delimiter
    obtain ⟨rest, rfl⟩ := List.head?_eq_some_iff.mp head
    split at found
    · next m comment =>
      obtain rfl : m + 1 = n := by simpa using found
      exact .blockComment (blockComment_of_commentTail comment)
    · cases found
  · split at found <;> simp at found

theorem Laid.extend {before piece rest : List Char} {tokens : List (Token Kind)}
    (laid : Laid (before ++ piece) rest tokens) (first : GapPiece piece rest) :
    Laid before (piece ++ rest) tokens := by
  generalize shape : before ++ piece = front at laid
  cases laid with
  | last gap => exact .last (.cons (by simpa using first) gap)
  | @token _ gap text rest kind tokens isGap visible laid =>
    subst shape
    have longer : IsGap (piece ++ gap) (text ++ rest) := .cons (by simpa using first) isGap
    have whole := @Laid.token before (piece ++ gap) text rest kind tokens longer visible
      (by simpa [List.append_assoc] using laid)
    simpa [List.append_assoc] using whole

/-- The tokens that a piece contributes. -/
def pieceTokens (p : Position) (text : List Char) : Option Kind → List (Token Kind)
  | none => []
  | some kind => [⟨kind, .ofList text, p.line, p.column⟩]

/-- Lexing reads a piece and then lexes the rest from the position behind it. -/
theorem lexFrom_cons {p : Position} {c : Char} {cs : List Char} {tokens : List (Token Kind)}
    (lexed : lexFrom p (c :: cs) = .ok tokens) : ∃ kind? n rest,
      piece c cs = .ok (kind?, n) ∧ lexFrom (p.advance (c :: cs.take n)) (cs.drop n) = .ok rest ∧
      tokens = pieceTokens p (c :: cs.take n) kind? ++ rest := by
  rw [lexFrom] at lexed
  cases found : piece c cs with
  | error fault => simp [found] at lexed
  | ok result =>
    obtain ⟨kind?, n⟩ := result
    simp only [found] at lexed
    cases lexedRest : lexFrom (p.advance (c :: cs.take n)) (cs.drop n) with
    | error error => rw [lexedRest] at lexed; cases lexed
    | ok rest =>
      rw [lexedRest] at lexed
      refine ⟨kind?, n, rest, rfl, lexedRest, ?_⟩
      cases kind? <;> exact (Except.ok.inj lexed).symm

/-- Lexing a text from the position behind `before` on lays it out as what follows `before`. -/
theorem laid_lexFrom {before cs : List Char} {tokens : List (Token Kind)}
    (lexed : lexFrom (Position.origin.advance before) cs = .ok tokens) : Laid before cs tokens := by
  induction size : cs.length using Nat.strongRecOn generalizing before cs tokens with
  | ind length ih =>
  cases cs with
  | nil =>
    obtain rfl : [] = tokens := by simpa [lexFrom] using lexed
    exact .last .nil
  | cons c cs =>
    obtain ⟨kind?, n, rest, found, lexedRest, rfl⟩ := lexFrom_cons lexed
    rw [← Position.advance_append] at lexedRest
    have shorter : (cs.drop n).length < length := by
      rw [← size, List.length_drop, List.length_cons]; omega
    have laid := ih _ shorter lexedRest rfl
    have whole : c :: cs = c :: cs.take n ++ cs.drop n := by simp
    rw [whole]
    cases kind? with
    | none => exact laid.extend (gapPiece_of_piece found)
    | some kind =>
      have token := @Laid.token before [] (c :: cs.take n) (cs.drop n) kind rest .nil (by simp)
        (by simpa using laid)
      rw [Position.advance_origin]
      simpa only [pieceTokens, List.append_nil, List.nil_append, List.singleton_append] using token

theorem Laid.position {before cs : List Char} {tokens : List (Token Kind)}
    (laid : Laid before cs tokens) : ∀ t ∈ tokens, ∃ front back,
      before ++ cs = front ++ t.text.toList ++ back ∧ t.start = Position.origin.advance front := by
  induction laid with
  | last => simp
  | @token before gap text rest kind tokens _ _ _ ih =>
    intro t member
    rcases List.mem_cons.mp member with rfl | later
    · exact ⟨before ++ gap, rest, by simp, by rw [Position.advance_origin]; rfl⟩
    · obtain ⟨front, back, shape, start⟩ := ih t later
      exact ⟨front, back, by rw [← shape]; simp, start⟩

theorem Laid.textBetween {source : String} {tokens : List (Token Kind)}
    (laid : Laid [] source.toList tokens) :
    ∀ t ∈ tokens, textBetween (lines source) t.start t.stop = t.text := by
  intro t member
  obtain ⟨front, back, shape, start⟩ := laid.position t member
  have between := textBetween_advance front t.text.toList back
  rw [← shape, List.nil_append, String.ofList_toList, String.ofList_toList, ← start] at between
  exact between

/-- Lexing loses nothing: the text is made up of its tokens and the gaps around them, and the text of
every token is what the lines of the source hold between its two ends. -/
theorem lex_lossless (source : String) (tokens : List (Token Kind))
    (lexed : lex source = .ok tokens) :
    Laid [] source.toList tokens ∧
      ∀ t ∈ tokens, textBetween (lines source) t.start t.stop = t.text := by
  have laid : Laid [] source.toList tokens := laid_lexFrom lexed
  exact ⟨laid, laid.textBetween⟩

theorem lex_lossless_over_lines :
    Laid [] "/* a /* b */ c */ N'é\n''x' + -- end".toList
      [⟨.stringLiteral, "N'é\n''x'", 1, 18⟩, ⟨.plus, "+", 2, 5⟩] ∧
    textBetween (lines "/* a /* b */ c */ N'é\n''x' + -- end") ⟨1, 18⟩ ⟨2, 4⟩ = "N'é\n''x'" := by
  obtain ⟨laid, between⟩ := lex_lossless "/* a /* b */ c */ N'é\n''x' + -- end"
    [⟨.stringLiteral, "N'é\n''x'", 1, 18⟩, ⟨.plus, "+", 2, 5⟩] (by with_unfolding_all rfl)
  exact ⟨laid, between ⟨.stringLiteral, "N'é\n''x'", 1, 18⟩ List.mem_cons_self⟩

end SqlFerry.Tsql
