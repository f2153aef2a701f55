import SqlFerry.Proofs.Editor.Stretch
import SqlFerry.Proofs.Editor.Sweep
import SqlFerry.Proofs.Tsql.Derivation
import SqlFerry.Proofs.Tsql.Lexer

/-! Where the nodes of a parsed text stand. The tokens of a node follow one another among the tokens of
the text, so a node that begins and ends on one line covers a stretch of that line. -/
namespace SqlFerry

open Text (byteLength lastLine gather pieces)

namespace Text

theorem byteLength_le_gather (sep : List Char) {text : List Char} {texts : List (List Char)}
    (member : text ∈ texts) : byteLength text ≤ byteLength (gather sep texts) := by
  induction texts with
  | nil => cases member
  | cons first rest ih =>
    cases rest with
    | nil =>
      obtain rfl := List.mem_singleton.mp member
      exact Nat.le_refl _
    | cons next rest =>
      rw [gather_cons_cons, byteLength_append, byteLength_append]
      rcases List.mem_cons.mp member with rfl | later
      · omega
      · have := ih later
        omega

theorem size_line_le {source line : String} (member : line ∈ lines source) :
    size line ≤ size source := by
  obtain ⟨piece, inPieces, rfl⟩ := List.mem_map.mp member
  have short := byteLength_le_gather ['\n'] inPieces
  rwa [gather_pieces, ← size_ofList piece] at short

theorem lines_around (before after : List Char) {text : List Char} (flat : '\n' ∉ text) :
    ∃ (right : List Char) (back : List String),
      lines (.ofList (before ++ text ++ after)) =
        (frontLines before).map .ofList ++ .ofList (lastLine before ++ text ++ right) :: back := by
  obtain ⟨first, rest, shape⟩ := List.exists_cons_of_ne_nil (pieces_ne_nil (· == '\n') after)
  have stretch := pieces_append text after shape
  rw [frontLines_eq_nil.mpr flat, lastLine_of_not_mem flat, List.nil_append] at stretch
  refine ⟨first, rest.map .ofList, ?_⟩
  rw [lines, splitOn, String.toList_ofList, List.append_assoc, pieces_append before _ stretch]
  simp

end Text

namespace Tsql

section Layout

variable {before cs : List Char} {token : Token Kind} {tokens rest : List (Token Kind)}

theorem Laid.behind (laid : Laid before cs (tokens ++ rest)) : ∃ done more,
    cs = done ++ more ∧ Laid (before ++ done) more rest := by
  induction tokens generalizing before cs with
  | nil => exact ⟨[], cs, rfl, by simpa using laid⟩
  | cons token tokens ih =>
    cases laid with
    | @token _ gap text _ _ _ _ _ later =>
      obtain ⟨done, more, rfl, laid⟩ := ih later
      exact ⟨gap ++ text ++ done, more, by simp, by simpa using laid⟩

theorem Laid.skipGap (laid : Laid before cs (token :: tokens)) : ∃ gap more, cs = gap ++ more ∧
    token.start = Position.origin.advance (before ++ gap) ∧
    Laid (before ++ gap) more (token :: tokens) := by
  cases laid with
  | @token _ gap text rest kind _ isGap visible later =>
    refine ⟨gap, text ++ rest, by simp, (Position.advance_origin _).symm, ?_⟩
    have again := @Laid.token (before ++ gap) [] text rest kind tokens .nil visible (by simpa using later)
    simpa using again

/-- The stretch from a place on to the last of some tokens. If it has no line end, its tokens follow
one another on the line. -/
theorem Laid.trail (laid : Laid before cs (tokens ++ rest)) : ∃ text after, cs = text ++ after ∧
    (tokens.getLast?.map Token.stop).getD (Position.origin.advance before) =
      Position.origin.advance (before ++ text) ∧
    ('\n' ∉ text → Trail (1 + before.count '\n') (byteLength (lastLine before)) text tokens) := by
  induction tokens generalizing before cs with
  | nil => exact ⟨[], cs, rfl, by simp, fun _ => .nil⟩
  | cons token tokens ih =>
    cases laid with
    | @token _ gap text _ kind _ isGap visible later =>
      obtain ⟨more, after, rfl, stops, trail⟩ := ih later
      have start : Position.mk (1 + (before ++ gap).count '\n') (byteLength (lastLine (before ++ gap))) =
          Position.origin.advance (before ++ gap) := (Position.advance_origin _).symm
      refine ⟨gap ++ text ++ more, after, by simp, ?_, ?_⟩
      · rw [← List.append_assoc, ← List.append_assoc, ← stops]
        cases tokens with
        | nil =>
          rw [List.getLast?_singleton, Option.map_some, Option.getD_some, Token.stop, Token.start,
            start, String.toList_ofList, ← Position.advance_append]
          rfl
        | cons next tokens => rw [List.getLast?_cons_cons]; rfl
      · intro flat
        simp only [List.mem_append, not_or] at flat
        obtain ⟨⟨flatGap, flatText⟩, flatMore⟩ := flat
        have flatBoth : '\n' ∉ gap ++ text := by simp [flatGap, flatText]
        have on : Token.On (1 + before.count '\n') (byteLength (lastLine before) + byteLength gap) text
            (⟨kind, .ofList text, 1 + (before ++ gap).count '\n',
              byteLength (lastLine (before ++ gap))⟩ : Token Kind) :=
          ⟨by simp [List.count_eq_zero.mpr flatGap],
            by simp [Text.lastLine_append_of_flat before flatGap], flatText, visible,
            String.toList_ofList⟩
        refine .cons on ?_
        have rest := trail flatMore
        rw [List.append_assoc, List.count_append, List.count_eq_zero.mpr flatBoth, Nat.add_zero,
          Text.lastLine_append_of_flat before flatBoth, Text.byteLength_append] at rest
        exact rest

end Layout

theorem parse_laid {source : String} {tree : Tree Kind} (parsed : parse source = .ok tree) :
    Laid [] source.toList tree.tokens := laid_lexFrom (parse_tree parsed).1

theorem tokens_of_parse {source : String} {tree : Tree Kind} (parsed : parse source = .ok tree)
    {node : Node Kind} (member : node ∈ tree.descendants) : node.tokens <:+: tree.tokens := by
  obtain ⟨-, -, root⟩ := parse_tree parsed
  cases isRoot : tree.root with
  | none => simp [Tree.descendants, isRoot] at member
  | some top =>
    rw [Tree.descendants, isRoot] at member
    rw [isRoot] at root
    rw [← root]
    exact Node.tokens_among top member

/-- A node covers a stretch of the text. If it has no line end, its tokens follow one another on the
line. -/
theorem parse_stretch {source : String} {tree : Tree Kind} (parsed : parse source = .ok tree)
    {node : Node Kind} (member : node ∈ tree.descendants) : ∃ before text after,
      source.toList = before ++ text ++ after ∧ node.start = Position.origin.advance before ∧
      node.stop = (Position.origin.advance before).advance text ∧
      ('\n' ∉ text →
        Trail (1 + before.count '\n') (byteLength (lastLine before)) text node.tokens) := by
  obtain ⟨earlier, later, whole⟩ := tokens_of_parse parsed member
  have laid := parse_laid parsed
  rw [← whole, List.append_assoc] at laid
  obtain ⟨done, more, whole, laid⟩ := laid.behind
  have head := node.head?_tokens
  cases shape : node.tokens with
  | nil => rw [shape] at head; cases head
  | cons first others =>
    rw [shape, List.cons_append] at laid
    obtain rfl : first = node.startToken := by rw [shape] at head; simpa using head
    obtain ⟨gap, rest, rfl, start, laid⟩ := laid.skipGap
    rw [← List.cons_append, ← shape] at laid
    obtain ⟨text, after, rfl, stops, trail⟩ := laid.trail
    rw [node.getLast?_tokens] at stops
    refine ⟨done ++ gap, text, after, by rw [whole]; simp, start, ?_, shape ▸ trail⟩
    rw [← Position.advance_append]
    exact stops

/-- A node on one line covers a stretch of the line. -/
theorem parse_spans {source : String} {tree : Tree Kind} (parsed : parse source = .ok tree)
    {node : Node Kind} (member : node ∈ tree.descendants) (single : node.isSingleLine = true) :
    ∃ (front : List String) (left text right : List Char) (back : List String),
      tree.lines = front ++ .ofList (left ++ text ++ right) :: back ∧
      node.Spans (front.length + 1) (byteLength left) text := by
  obtain ⟨-, isLines, -⟩ := parse_tree parsed
  obtain ⟨before, text, after, whole, first, last, trail⟩ := parse_stretch parsed member
  have flat : '\n' ∉ text := by
    apply Position.no_line_end_of_line_advance
    rw [← last, ← first]
    exact (beq_iff_eq.mp single).symm
  obtain ⟨right, back, lines⟩ := Text.lines_around before after flat
  have number : ((Text.frontLines before).map String.ofList).length + 1 = 1 + before.count '\n' := by
    rw [List.length_map, Text.length_frontLines, Nat.add_comm]
  refine ⟨(Text.frontLines before).map .ofList, lastLine before, text, right, back, ?_, ?_, ?_⟩
  · rw [isLines, ← lines, ← source.ofList_toList, whole]
  · rw [number]
    exact trail flat
  · rw [number, ← Position.advance_origin, first]

end Tsql

end SqlFerry
