import SqlFerry.Proofs.Tsql.Columns
import SqlFerry.Proofs.Tsql.Spacing

/-! Lexing a text in which marks have been put in. The text is a row of pieces: gaps and tokens that stood
there before, and marks, which may have taken the place of some blanks. A mark ends the token in front of it
and is read in front of any text, and a gap in front of a token is one in front of any text, so that the text
with its marks has the tokens it had and the marks. -/
namespace SqlFerry.Tsql

open Text

/-! Gaps are read as such. -/

theorem commentTail_append {inside : List Char} (plain : CommentInside inside) (depth : Nat) (rest : List Char) :
    commentTail (depth + 1) (inside ++ closing ++ rest) =
      (commentTail depth rest).map (· + (inside.length + 2)) := by
  induction plain generalizing depth rest with
  | nil => rfl
  | @plain c inside _ noOpening noClosing ih =>
    have next : ∃ d more, inside ++ closing ++ rest = d :: more ∧ [d] <+: inside ++ closing := by
      cases inside with
      | nil => exact ⟨'*', '/' :: rest, rfl, by simp [closing]⟩
      | cons d inside => exact ⟨d, inside ++ closing ++ rest, rfl, by simp⟩
    obtain ⟨d, more, shape, follows⟩ := next
    have delimits {a b : Char} (isFirst : c = a) (isSecond : d = b) : [a, b] <+: c :: (inside ++ closing) := by
      subst isFirst isSecond
      exact List.cons_prefix_cons.mpr ⟨rfl, follows⟩
    have step : commentTail (depth + 1) (c :: (inside ++ closing ++ rest)) =
        (commentTail (depth + 1) (inside ++ closing ++ rest)).map (· + 1) := by
      rw [shape, commentTail]
      · rintro _ isFirst isMore
        exact noOpening (delimits isFirst (List.cons.inj isMore).1)
      · rintro _ isFirst isMore
        exact noClosing (delimits isFirst (List.cons.inj isMore).1)
    rw [List.cons_append, List.cons_append, step, ih, Option.map_map]
    rfl
  | @nested inner inside _ _ ihInner ihInside =>
    have step : commentTail (depth + 1) (opening ++ inner ++ closing ++ inside ++ closing ++ rest) =
        (commentTail (depth + 2) (inner ++ closing ++ (inside ++ closing ++ rest))).map (· + 2) := by
      simp [opening, commentTail]
    rw [step, ihInner, ihInside, Option.map_map, Option.map_map]
    congr 1
    funext n
    simp [opening, closing]
    omega

theorem piece_of_gapPiece {c : Char} {cs rest : List Char} (gap : GapPiece (c :: cs) rest) :
    piece c (cs ++ rest) = .ok (none, cs.length) := by
  generalize whole : c :: cs = text at gap
  cases gap with
  | blank member =>
    obtain ⟨rfl, rfl⟩ := List.cons.inj whole
    have isGap : isGapChar c = true := by simpa [isGapChar, or_assoc] using member
    rw [piece, if_pos isGap]
    rfl
  | @lineComment body _ flat ends =>
    obtain ⟨rfl, rfl⟩ := List.cons.inj whole
    have run : ('-' :: body ++ rest).takeWhile (· != '\n') = '-' :: body := by
      rw [List.takeWhile_append_of_pos]
      · rcases ends with rfl | next
        · simp
        · obtain ⟨more, rfl⟩ := List.head?_eq_some_iff.mp next
          simp
      · intro d inside
        rcases List.mem_cons.mp inside with rfl | inBody
        · decide
        · have other : d ≠ '\n' := by rintro rfl; exact flat inBody
          simpa using other
    rw [piece, if_neg (by decide), if_pos (by simp), runLength, run]
  | blockComment comment =>
    obtain ⟨inside, plain, rfl⟩ := comment
    obtain ⟨rfl, isRest⟩ := List.cons.inj whole
    have isTail : cs ++ rest = '*' :: (inside ++ closing ++ rest) := congrArg (· ++ rest) isRest
    have tail : commentTail 1 (inside ++ closing ++ rest) = some (inside.length + 2) := by
      simpa [commentTail] using commentTail_append plain 0 rest
    have length : cs.length = inside.length + 2 + 1 := by
      rw [isRest]
      simp [closing]
    rw [isTail, piece, if_neg (by decide), if_neg (by simp), if_pos (by simp), List.tail_cons, tail, length]

theorem GapPiece.ne_nil {text rest : List Char} (gap : GapPiece text rest) : text ≠ [] := by
  cases gap with
  | blank | lineComment => simp
  | blockComment comment =>
    obtain ⟨inside, -, rfl⟩ := comment
    simp [opening]

theorem lexFrom_isGap {gap rest : List Char} (isGap : IsGap gap rest) (p : Position) :
    lexFrom p (gap ++ rest) = lexFrom (p.advance gap) rest := by
  induction isGap generalizing p with
  | nil => rfl
  | @cons text gap rest first _ ih =>
    obtain ⟨c, cs, rfl⟩ := List.exists_cons_of_ne_nil first.ne_nil
    have found := piece_of_gapPiece first
    rw [Position.advance_append, ← ih, List.append_assoc, List.cons_append, lexFrom, found]
    simp only [List.take_left', List.drop_left']
    cases lexFrom (p.advance (c :: cs)) (gap ++ rest) <;> rfl

/-- A gap in front of any text. -/
def Solid (gap : List Char) : Prop := ∀ rest, IsGap gap rest

/-- Where a token follows a gap, any text may follow it. -/
theorem IsGap.solid {gap rest : List Char} (isGap : IsGap gap rest) (visible : rest ≠ [])
    (sameLine : rest.head? ≠ some '\n') : Solid gap := by
  induction isGap with
  | nil => exact fun _ => .nil
  | @cons text gap rest first _ ih =>
    refine fun other => .cons ?_ (ih visible sameLine other)
    cases first with
    | blank member => exact .blank member
    | blockComment comment => exact .blockComment comment
    | lineComment flat ends =>
      refine .lineComment flat (.inr ?_)
      cases gap with
      | nil => exact (ends.elim visible sameLine).elim
      | cons c gap => exact ends.resolve_left (by simp)

theorem Solid.of_append {run gap : List Char} (solid : Solid (run ++ gap))
    (blank : ∀ c ∈ run, isIndent c = true) : Solid gap := by
  induction run with
  | nil => exact solid
  | cons c run ih =>
    obtain ⟨first, blank⟩ := List.forall_mem_cons.mp blank
    refine ih (fun rest => ?_) blank
    have isGap := solid rest
    generalize whole : c :: run ++ gap = text at isGap
    cases isGap with
    | nil => cases whole
    | cons first isGap =>
      cases first with
      | blank =>
        have same : run ++ gap = _ := (List.cons.inj whole).2
        rwa [same]
      | lineComment =>
        obtain ⟨rfl, -⟩ := List.cons.inj whole
        cases first
      | blockComment comment =>
        obtain ⟨inside, -, rfl⟩ := comment
        obtain ⟨rfl, -⟩ := List.cons.inj whole
        cases first

/-! Rows of pieces. -/

/-- A part of a text under edit: a gap or a token that stood there before, or a token that is put in and takes
the place of some blanks. -/
inductive Piece
  | gap (text : List Char)
  | word (token : Token Kind)
  | made (token : Token Kind) (run : List Char)

namespace Piece

@[simp] def old : Piece → List Char
  | gap text => text
  | word token => token.text.toList
  | made _ run => run

@[simp] def new : Piece → List Char
  | gap text => text
  | word token | made token _ => token.text.toList

def token? : Piece → Option (Token Kind)
  | gap _ => none
  | word token | made token _ => some token

def oldOf (ps : List Piece) : List Char := ps.flatMap old

def newOf (ps : List Piece) : List Char := ps.flatMap new

def tokensOf (ps : List Piece) : List (Token Kind) := ps.filterMap token?

variable (p : Piece) (xs ys ps : List Piece)

@[simp] theorem oldOf_nil : oldOf [] = [] := rfl
@[simp] theorem newOf_nil : newOf [] = [] := rfl
@[simp] theorem tokensOf_nil : tokensOf [] = [] := rfl

@[simp] theorem oldOf_cons : oldOf (p :: ps) = p.old ++ oldOf ps := rfl
@[simp] theorem newOf_cons : newOf (p :: ps) = p.new ++ newOf ps := rfl

@[simp] theorem tokensOf_gap (text : List Char) : tokensOf (gap text :: ps) = tokensOf ps := rfl
@[simp] theorem tokensOf_word (t : Token Kind) : tokensOf (word t :: ps) = t :: tokensOf ps := rfl

@[simp] theorem tokensOf_made (t : Token Kind) (run : List Char) :
    tokensOf (made t run :: ps) = t :: tokensOf ps := rfl

@[simp] theorem oldOf_append : oldOf (xs ++ ys) = oldOf xs ++ oldOf ys := List.flatMap_append
@[simp] theorem newOf_append : newOf (xs ++ ys) = newOf xs ++ newOf ys := List.flatMap_append
@[simp] theorem tokensOf_append : tokensOf (xs ++ ys) = tokensOf xs ++ tokensOf ys := List.filterMap_append

end Piece

open Piece

/-- The token is read where its text stands in front of the rest. -/
def Stands (t : Token Kind) (rest : List Char) : Prop :=
  ∃ c cs, t.text.toList = c :: cs ∧ piece c (cs ++ rest) = .ok (some t.kind, cs.length)

/-- A token of one character that ends the token in front of it and is read in front of any text. -/
structure IsMark (t : Token Kind) (c : Char) : Prop where
  text : t.text.toList = [c]
  ends : endsToken c = true
  read : ∀ rest, piece c rest = .ok (some t.kind, 0)

theorem IsMark.flat {t : Token Kind} {c : Char} (mark : IsMark t c) : c ≠ '\n' := by
  rintro rfl
  cases mark.read []

/-- The pieces stand behind some text and in front of another one: tokens are at their places and are read
there before anything is put in, and what is put in are marks on the lines where they stand. -/
def Sound : List Char → List Piece → List Char → Prop
  | _, [], _ => True
  | before, .gap text :: ps, rest => Solid text ∧ Sound (before ++ text) ps rest
  | before, .word t :: ps, rest => t.start = Position.origin.advance before ∧ Stands t (oldOf ps ++ rest) ∧
      Sound (before ++ t.text.toList) ps rest
  | before, .made t run :: ps, rest => (∃ c, IsMark t c) ∧ t.line = (Position.origin.advance before).line ∧
      (∀ c ∈ run, isIndent c = true) ∧ Sound (before ++ run) ps rest

theorem sound_append {before rest : List Char} {xs ys : List Piece} : Sound before (xs ++ ys) rest ↔
    Sound before xs (oldOf ys ++ rest) ∧ Sound (before ++ oldOf xs) ys rest := by
  induction xs generalizing before with
  | nil => simp [Sound]
  | cons x xs ih =>
    cases x <;> simp [Sound, ih, Piece.old, and_assoc]

theorem Sound.agree {before rest : List Char} {ps : List Piece} (sound : Sound before ps rest) :
    Agree 0 (oldOf ps ++ rest) (newOf ps ++ rest) := by
  have behind (text : List Char) {cs cs' : List Char} (agree : Agree 0 cs cs') : Agree 0 (text ++ cs) (text ++ cs') := by
    obtain ⟨common, rest, rest', rfl, rfl, -, apart⟩ := agree
    exact ⟨text ++ common, rest, rest', by simp, by simp, Nat.zero_le _, apart⟩
  induction ps generalizing before with
  | nil => exact ⟨rest, [], [], by simp, by simp, Nat.zero_le _, apart_nil⟩
  | cons x ps ih =>
    cases x with
    | gap text => simpa [Piece.old, Piece.new] using behind text (ih sound.2)
    | word t => simpa [Piece.old, Piece.new] using behind t.text.toList (ih sound.2.2)
    | made t run =>
      obtain ⟨⟨c, mark⟩, -⟩ := sound
      refine ⟨[], _, _, rfl, rfl, Nat.zero_le _, ?_⟩
      rw [newOf_cons, Piece.new, mark.text]
      exact apart_cons mark.ends

theorem Stands.of_agree {t : Token Kind} {rest rest' : List Char} (stands : Stands t rest)
    (agree : Agree 0 rest rest') : Stands t rest' := by
  obtain ⟨c, cs, text, found⟩ := stands
  obtain ⟨common, left, right, rfl, rfl, -, apart⟩ := agree
  refine ⟨c, cs, text, (piece_keeps found).2 _ ⟨cs ++ common, left, right, ?_, ?_, ?_, apart⟩⟩
  · rw [List.append_assoc]
  · rw [List.append_assoc]
  · simp

theorem lexFrom_stands {t : Token Kind} {rest : List Char} (stands : Stands t rest) {p : Position}
    {tokens : List (Token Kind)} (lexed : lexFrom (p.advance t.text.toList) rest = .ok tokens) :
    lexFrom p (t.text.toList ++ rest) = .ok (⟨t.kind, t.text, p.line, p.column⟩ :: tokens) := by
  obtain ⟨c, cs, text, found⟩ := stands
  have same : String.ofList (c :: cs) = t.text := by rw [← text, String.ofList_toList]
  rw [text] at lexed ⊢
  rw [List.cons_append, lexFrom, found]
  simp only [List.take_left', List.drop_left', lexed, same]

/-- A text with its marks has the tokens that it had and the marks, on the same lines. -/
theorem lexFrom_sound {before rest : List Char} {ps : List Piece} {p : Position} (sound : Sound before ps rest)
    (sameLine : p.line = (Position.origin.advance before).line) (ends : IsGap rest []) :
    ∃ tokens, lexFrom p (newOf ps ++ rest) = .ok tokens ∧
      tokens.map Token.atMargin = (tokensOf ps).map Token.atMargin := by
  have goesOn {p : Position} {before : List Char} (sameLine : p.line = (Position.origin.advance before).line)
      (text : List Char) : (p.advance text).line = (Position.origin.advance (before ++ text)).line := by
    rw [Position.advance_append, Position.line_advance, Position.line_advance, sameLine]
  induction ps generalizing before p with
  | nil =>
    have none := lexFrom_isGap ends p
    rw [List.append_nil] at none
    exact ⟨[], by rw [newOf_nil, List.nil_append, none, lexFrom], rfl⟩
  | cons x ps ih =>
    cases x with
    | gap text =>
      obtain ⟨solid, sound⟩ := sound
      obtain ⟨tokens, lexed, same⟩ := ih sound (goesOn sameLine text)
      refine ⟨tokens, ?_, same⟩
      rw [newOf_cons, List.append_assoc, Piece.new, lexFrom_isGap (solid _), lexed]
    | word t =>
      obtain ⟨start, stands, sound⟩ := sound
      obtain ⟨tokens, lexed, same⟩ := ih sound (goesOn sameLine t.text.toList)
      refine ⟨⟨t.kind, t.text, p.line, p.column⟩ :: tokens, ?_, ?_⟩
      · rw [newOf_cons, List.append_assoc, Piece.new]
        exact lexFrom_stands (stands.of_agree sound.agree) lexed
      · have line : p.line = t.line := sameLine.trans (congrArg Position.line start).symm
        simp [same, Token.atMargin, line]
    | made t run =>
      obtain ⟨⟨c, mark⟩, line, blank, sound⟩ := sound
      have flat : '\n' ∉ run := fun broken => absurd (blank _ broken) (by decide)
      have onLine : (p.advance t.text.toList).line = (Position.origin.advance (before ++ run)).line := by
        rw [Position.advance_append, Position.line_advance, Position.line_advance, mark.text,
          List.count_eq_zero.mpr flat, sameLine]
        simp [mark.flat]
      obtain ⟨tokens, lexed, same⟩ := ih sound onLine
      refine ⟨⟨t.kind, t.text, p.line, p.column⟩ :: tokens, ?_, ?_⟩
      · rw [newOf_cons, List.append_assoc, Piece.new]
        exact lexFrom_stands ⟨c, [], mark.text, by simpa using mark.read _⟩ lexed
      · simp [same, Token.atMargin, line, sameLine]

/-! The pieces of a text as it is. -/

/-- Tokens with the gaps in front of them. -/
def spread (gaps : Token Kind → List Char) (tokens : List (Token Kind)) : List Piece :=
  tokens.flatMap fun t => [.gap (gaps t), .word t]

section Spread

variable (gaps : Token Kind → List Char)

@[simp] theorem spread_nil : spread gaps [] = [] := rfl

@[simp] theorem spread_cons (t : Token Kind) (tokens : List (Token Kind)) :
    spread gaps (t :: tokens) = .gap (gaps t) :: .word t :: spread gaps tokens := rfl

@[simp] theorem spread_append (xs ys : List (Token Kind)) :
    spread gaps (xs ++ ys) = spread gaps xs ++ spread gaps ys := List.flatMap_append

@[simp] theorem tokensOf_spread (tokens : List (Token Kind)) : tokensOf (spread gaps tokens) = tokens := by
  induction tokens with
  | nil => rfl
  | cons t tokens ih => simp [ih]

end Spread

theorem sound_spread_cons {before rest : List Char} {gaps : Token Kind → List Char} {t : Token Kind}
    {tokens : List (Token Kind)} : Sound before (spread gaps (t :: tokens)) rest ↔
      Solid (gaps t) ∧ t.start = Position.origin.advance (before ++ gaps t) ∧
        Stands t (oldOf (spread gaps tokens) ++ rest) ∧
        Sound (before ++ gaps t ++ t.text.toList) (spread gaps tokens) rest := Iff.rfl

theorem Sound.start {before rest : List Char} {gaps : Token Kind → List Char} {tokens : List (Token Kind)}
    (sound : Sound before (spread gaps tokens) rest) {t : Token Kind} (member : t ∈ tokens) :
    ∃ more, t.start = Position.origin.advance (before ++ more) := by
  induction tokens generalizing before with
  | nil => cases member
  | cons first tokens ih =>
    obtain ⟨-, start, -, sound⟩ := sound
    rcases List.mem_cons.mp member with rfl | later
    · exact ⟨gaps t, start⟩
    · obtain ⟨more, start⟩ := ih sound later
      exact ⟨gaps first ++ (first.text.toList ++ more), by simpa using start⟩

theorem spread_congr {gaps gaps' : Token Kind → List Char} {tokens : List (Token Kind)}
    (same : ∀ t ∈ tokens, gaps t = gaps' t) : spread gaps tokens = spread gaps' tokens := by
  induction tokens with
  | nil => rfl
  | cons t tokens ih =>
    obtain ⟨first, same⟩ := List.forall_mem_cons.mp same
    rw [spread_cons, spread_cons, first, ih same]

theorem exists_spread_cons {front rest : List Char} {gaps : Token Kind → List Char} {t : Token Kind}
    {tokens : List (Token Kind)} (sound : Sound (front ++ t.text.toList) (spread gaps tokens) rest)
    (start : t.start = Position.origin.advance front) (visible : t.text.toList ≠ []) (gap : List Char) :
    ∃ gaps', spread gaps' (t :: tokens) = .gap gap :: .word t :: spread gaps tokens := by
  refine ⟨fun s => if s = t then gap else gaps s, ?_⟩
  rw [spread_cons, if_pos rfl]
  congr 2
  refine spread_congr fun s later => if_neg ?_
  rintro rfl
  obtain ⟨more, again⟩ := sound.start later
  rw [start, List.append_assoc, Position.advance_append] at again
  have none := Position.advance_eq_self again.symm
  exact visible (List.append_eq_nil_iff.mp none).1

theorem Stands.sameLine {t : Token Kind} {rest : List Char} (stands : Stands t rest) :
    t.text.toList ≠ [] ∧ (t.text.toList ++ rest).head? ≠ some '\n' := by
  obtain ⟨c, cs, text, found⟩ := stands
  rw [text]
  refine ⟨by simp, ?_⟩
  rintro lineEnd
  obtain rfl : c = '\n' := by simpa using lineEnd
  cases found

/-- The text between two positions is made up of tokens, the gaps in front of them and a gap behind them. -/
theorem exists_gaps {before cs : List Char} {tokens : List (Token Kind)}
    (lexed : lexFrom (Position.origin.advance before) cs = .ok tokens) : ∃ gaps last,
      cs = oldOf (spread gaps tokens) ++ last ∧ Sound before (spread gaps tokens) last ∧ IsGap last [] := by
  induction size : cs.length using Nat.strongRecOn generalizing before cs tokens with
  | ind length ih =>
  cases cs with
  | nil =>
    obtain rfl : [] = tokens := by simpa [lexFrom] using lexed
    exact ⟨fun _ => [], [], rfl, trivial, .nil⟩
  | cons c cs =>
    obtain ⟨kind?, n, others, found, lexedRest, rfl⟩ := lexFrom_cons lexed
    rw [← Position.advance_append] at lexedRest
    have shorter : (cs.drop n).length < length := by
      rw [← size, List.length_drop, List.length_cons]; omega
    obtain ⟨gaps, last, isRest, sound, ends⟩ := ih _ shorter lexedRest rfl
    have whole : c :: cs = c :: cs.take n ++ cs.drop n := by simp
    generalize isText : c :: cs.take n = text at lexedRest sound whole
    cases kind? with
    | none =>
      have first : GapPiece text (cs.drop n) := isText ▸ gapPiece_of_piece found
      rw [whole, isRest]
      rw [isRest] at first
      cases others with
      | nil => exact ⟨gaps, text ++ last, rfl, trivial, .cons (by simpa using first) ends⟩
      | cons t others =>
        obtain ⟨solid, start, stands, sound⟩ := sound
        obtain ⟨visible, sameLine⟩ := stands.sameLine
        have isGap : IsGap (text ++ gaps t) (t.text.toList ++ (oldOf (spread gaps others) ++ last)) :=
          .cons (by simpa [Piece.old] using first) (solid _)
        have longer : Solid (text ++ gaps t) := isGap.solid (by simp [visible]) sameLine
        obtain ⟨gaps', same⟩ := exists_spread_cons sound start visible (text ++ gaps t)
        refine ⟨gaps', last, ?_, ?_, ends⟩
        · rw [pieceTokens, List.nil_append, same]
          simp [Piece.old]
        · rw [pieceTokens, List.nil_append, same]
          rw [List.append_assoc before] at start sound
          exact ⟨longer, start, stands, sound⟩
    | some kind =>
      let t : Token Kind := ⟨kind, .ofList text, (Position.origin.advance before).line,
        (Position.origin.advance before).column⟩
      have isToken : t.text.toList = text := String.toList_ofList
      have stands : Stands t (oldOf (spread gaps others) ++ last) := by
        refine ⟨c, cs.take n, isToken.trans isText.symm, ?_⟩
        have length : n ≤ cs.length := (piece_keeps found).1
        rw [← isRest, List.take_append_drop, found, List.length_take, Nat.min_eq_left length]
      rw [← isToken] at sound
      obtain ⟨gaps', same⟩ := exists_spread_cons sound rfl stands.sameLine.1 []
      have tokens : pieceTokens (Position.origin.advance before) text (some kind) ++ others = t :: others := rfl
      rw [whole, isRest, tokens]
      refine ⟨gaps', last, ?_, ?_, ends⟩
      · rw [same]
        simp [Piece.old, isToken]
      · rw [same]
        exact ⟨fun _ => .nil, by rw [List.append_nil]; rfl, stands, by rwa [List.append_nil]⟩

end SqlFerry.Tsql
