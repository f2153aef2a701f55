import SqlFerry.Proofs.Pass.Marks
import SqlFerry.Proofs.Tsql.Wrapping

/-! Parentheses are put into a text, around a node and around the parameters of a procedure, where the first one
stands right behind the name and eats the blanks there. -/
namespace SqlFerry

open Strip
open Text (byteLength)
open Tsql (Kind Piece Sound IsMark spread openParen closeParen)
open Tsql.Piece (stripsOf)

theorem isMark_openParen (line : Nat) : IsMark (openParen line) '(' :=
  ⟨by simp [openParen], by decide, fun rest => by cases rest <;> rfl⟩

theorem isMark_closeParen (line : Nat) : IsMark (closeParen line) ')' :=
  ⟨by simp [closeParen], by decide, fun rest => by cases rest <;> rfl⟩

theorem size_openParen (line : Nat) : byteLength (openParen line).text.toList = 1 := by
  rw [(isMark_openParen line).text]
  rfl

theorem size_closeParen (line : Nat) : byteLength (closeParen line).text.toList = 1 := by
  rw [(isMark_closeParen line).text]
  rfl

/-! A node in parentheses. -/

/-- The pieces of a node with parentheses around it. The first one stands behind the gap. -/
def enclosing (gaps : Token Kind → List Char) (node : Node Kind) : List Piece :=
  .gap (gaps node.startToken) :: .made (openParen node.start.line) [] :: .word node.startToken ::
    (spread gaps node.tokens.tail ++ [.made (closeParen node.stop.line) []])

section Enclosing

variable (gaps : Token Kind → List Char) (node : Node Kind)

theorem tokensOf_enclosing : Tsql.Piece.tokensOf (enclosing gaps node) =
    openParen node.start.line :: (node.tokens ++ [closeParen node.stop.line]) := by
  rw [node.tokens_eq_cons]
  simp [enclosing]

theorem oldOf_enclosing : Tsql.Piece.oldOf (enclosing gaps node) = Tsql.Piece.oldOf (spread gaps node.tokens) := by
  rw [spread_node]
  simp [enclosing, Tsql.Piece.old]

theorem size_enclosing : byteLength (Tsql.Piece.newOf (enclosing gaps node)) =
    byteLength (Tsql.Piece.oldOf (spread gaps node.tokens)) + 2 := by
  rw [spread_node]
  simp only [enclosing, Tsql.Piece.newOf_cons, Tsql.Piece.newOf_append, Tsql.Piece.newOf_nil, Tsql.Piece.oldOf_cons,
    newOf_spread, Tsql.Piece.new, Tsql.Piece.old, Text.byteLength_append, Text.byteLength_nil, size_openParen, size_closeParen]
  omega

variable {gaps node} {before rest : List Char} (sound : Sound before (spread gaps node.tokens) rest)

include sound

theorem sound_enclosing : Sound before (enclosing gaps node) rest := by
  have first := sound.start_node
  have last := sound.stop_node
  rw [spread_node] at sound last
  have opened := @Tsql.Sound.put [.gap (gaps node.startToken)] _ _ before rest _ sound
    (isMark_openParen node.start.line) (by simp [first, openParen])
  have closed := @Tsql.Sound.put _ [] _ before rest _ (by simpa using opened) (isMark_closeParen node.stop.line)
    (by simp [last, Tsql.Piece.old, closeParen])
  simpa [enclosing] using closed

theorem yields_enclosing {front back : List Strip} (isFront : before = oldOf front) (shown : Shown front)
    (opens : Opens back)
    (short : byteLength before + byteLength (Tsql.Piece.oldOf (spread gaps node.tokens)) ≤ columnLimit)
    (room : byteLength (newOf front) + (byteLength (Tsql.Piece.oldOf (spread gaps node.tokens)) + 2) +
      byteLength (newOf back) ≤ columnLimit) :
    Yields (Draft (front ++ (stripsOf (spread gaps node.tokens) ++ back)))
      (Edit.insertBefore node "(" >>= fun _ => Edit.insertAfter node ")")
      fun _ => Draft (front ++ (stripsOf (enclosing gaps node) ++ back)) := by
  have first := sound.start_node
  have last := sound.stop_node
  have size := size_enclosing gaps node
  subst isFront
  rw [spread_node] at last short
  simp only [Tsql.Piece.oldOf_cons, Tsql.Piece.old, Text.byteLength_append] at short
  rw [← size] at room
  simp only [enclosing, Tsql.Piece.newOf_cons, Tsql.Piece.newOf_append, Tsql.Piece.newOf_nil, Tsql.Piece.new,
    Text.byteLength_append, Text.byteLength_nil, size_openParen, size_closeParen] at room
  obtain ⟨-, -, stands, -⟩ := spread_node gaps node ▸ sound
  have opened := @yields_put front back [.gap (gaps node.startToken)]
    (.word node.startToken :: spread gaps node.tokens.tail) (openParen node.start.line) node.start '('
    (by simpa [Tsql.Piece.strips] using opens_kept stands.sameLine.1 _)
    (by simpa [Tsql.Piece.strips] using shown.behind (gaps node.startToken)) (isMark_openParen _)
    (by simpa [Tsql.Piece.old] using first)
    (by simp; omega) (by simp [size_openParen]; omega)
  have shown' : Shown (front ++ stripsOf (.gap (gaps node.startToken) :: .made (openParen node.start.line) [] ::
      .word node.startToken :: spread gaps node.tokens.tail)) := by
    have visible : node.startToken.text.toList ++ Tsql.Piece.oldOf (spread gaps node.tokens.tail) ≠ [] := by
      simp [stands.sameLine.1]
    have behind := shown_kept (front ++ kept (gaps node.startToken) ++ [⟨[], (openParen node.start.line).text.toList⟩]) visible
    simpa [Tsql.Piece.strips, eaten, stripsOf_spread, kept_append] using behind
  have closed := @yields_put front back (.gap (gaps node.startToken) :: .made (openParen node.start.line) [] ::
      .word node.startToken :: spread gaps node.tokens.tail) [] (closeParen node.stop.line) node.stop ')' opens
    shown' (isMark_closeParen _) (by simpa using last)
    (by simp; omega) (by simp [size_openParen, size_closeParen]; omega)
  rw [List.append_nil] at closed
  rw [spread_node]
  exact opened.bind fun _ => closed

end Enclosing

/-- The pieces of a node with parentheses around it, where the first one stands in front of the gap and has
eaten its blanks. -/
def listing (gaps : Token Kind → List Char) (line : Nat) (node : Node Kind) : List Piece :=
  .made (openParen line) ((gaps node.startToken).takeWhile Text.isIndent) ::
    .gap ((gaps node.startToken).dropWhile Text.isIndent) :: .word node.startToken ::
    (spread gaps node.tokens.tail ++ [.made (closeParen node.stop.line) []])

section Listing

variable (gaps : Token Kind → List Char) (line : Nat) (node : Node Kind)

theorem tokensOf_listing : Tsql.Piece.tokensOf (listing gaps line node) =
    openParen line :: (node.tokens ++ [closeParen node.stop.line]) := by
  rw [node.tokens_eq_cons]
  simp [listing]

theorem oldOf_listing : Tsql.Piece.oldOf (listing gaps line node) = Tsql.Piece.oldOf (spread gaps node.tokens) := by
  rw [spread_node]
  simp only [listing, Tsql.Piece.oldOf_cons, Tsql.Piece.oldOf_append, Tsql.Piece.oldOf_nil, Tsql.Piece.old,
    List.append_nil]
  rw [← List.append_assoc, List.takeWhile_append_dropWhile]

theorem size_listing : byteLength (Tsql.Piece.newOf (listing gaps line node)) +
    byteLength ((gaps node.startToken).takeWhile Text.isIndent) =
      byteLength (Tsql.Piece.oldOf (spread gaps node.tokens)) + 2 := by
  rw [← oldOf_listing gaps line]
  simp only [listing, Tsql.Piece.newOf_cons, Tsql.Piece.newOf_append, Tsql.Piece.newOf_nil, Tsql.Piece.oldOf_cons,
    Tsql.Piece.oldOf_append, Tsql.Piece.oldOf_nil, newOf_spread, Tsql.Piece.new, Tsql.Piece.old,
    Text.byteLength_append, Text.byteLength_nil, size_openParen, size_closeParen]
  omega

theorem blank_takeWhile (text : List Char) : ∀ c ∈ text.takeWhile Text.isIndent, Text.isIndent c = true :=
  List.all_eq_true.mp List.all_takeWhile

variable {gaps line node} {before rest : List Char} (sound : Sound before (spread gaps node.tokens) rest)

include sound

theorem sound_listing (sameLine : line = (Position.origin.advance before).line) :
    Sound before (listing gaps line node) rest := by
  have last := sound.stop_node
  rw [spread_node] at sound last
  rw [listing]
  have blank := blank_takeWhile (gaps node.startToken)
  generalize isRun : (gaps node.startToken).takeWhile Text.isIndent = run at blank
  generalize isGap : (gaps node.startToken).dropWhile Text.isIndent = gap
  have whole : gaps node.startToken = run ++ gap := by rw [← isRun, ← isGap, List.takeWhile_append_dropWhile]
  rw [whole] at sound last
  have opened := @Tsql.Sound.eat [] _ _ before rest _ _ _ sound (isMark_openParen line)
    (by simpa [openParen] using sameLine) blank
  have closed := @Tsql.Sound.put _ [] _ before rest _ (by simpa using opened) (isMark_closeParen node.stop.line)
    (by simpa [closeParen] using congrArg Position.line last)
  simpa using closed

theorem yields_listing {front back : List Strip} {name : Node Kind} (isFront : before = oldOf front) (shown : Shown front)
    (opens : Opens back) (place : name.stop = Position.origin.advance before) (isLine : line = name.stop.line)
    (short : byteLength before + byteLength (Tsql.Piece.oldOf (spread gaps node.tokens)) ≤ columnLimit)
    (room : byteLength (newOf front) + (byteLength (Tsql.Piece.oldOf (spread gaps node.tokens)) + 2) +
      byteLength (newOf back) ≤ columnLimit) :
    Yields (Draft (front ++ (stripsOf (spread gaps node.tokens) ++ back)))
      (Edit.insertAfter name "(" true >>= fun _ => Edit.insertAfter node ")")
      fun _ => Draft (front ++ (stripsOf (listing gaps line node) ++ back)) := by
  have last := sound.stop_node
  subst isFront isLine
  rw [spread_node] at last short room sound ⊢
  obtain ⟨-, -, stands, -⟩ := sound
  rw [listing]
  have blank := blank_takeWhile (gaps node.startToken)
  have ends := Text.head?_dropWhile_isIndent (gaps node.startToken)
  generalize isRun : (gaps node.startToken).takeWhile Text.isIndent = run at blank
  generalize isGap : (gaps node.startToken).dropWhile Text.isIndent = gap at ends
  have whole : gaps node.startToken = run ++ gap := by rw [← isRun, ← isGap, List.takeWhile_append_dropWhile]
  simp only [Tsql.Piece.oldOf_cons, Tsql.Piece.old, Text.byteLength_append, whole] at short room last
  have mark := isMark_openParen name.stop.line
  have opened := @Draft.yields_insert_eating front
    (stripsOf (.gap gap :: .word node.startToken :: spread gaps node.tokens.tail) ++ back) run
    (openParen name.stop.line).text (Strip.Opens.behind (opens_of_word stands gap _ back) run) shown
    (by rw [mark.text]; simp) '(' (by rw [mark.text]; rfl) (by decide) blank
    (by
      have next := stands.head?_isIndent ends (Tsql.Piece.newOf (spread gaps node.tokens.tail) ++ newOf back)
      simpa only [newOf_append, Tsql.Piece.newOf_stripsOf, Tsql.Piece.newOf_cons, Tsql.Piece.new,
        List.append_assoc] using next)
    (by omega)
    (by simp [newOf_spread, size_openParen]; omega)
  rw [← place] at opened
  have shown' : Shown (front ++ stripsOf (.made (openParen name.stop.line) run :: .gap gap ::
      .word node.startToken :: spread gaps node.tokens.tail)) := by
    have visible : node.startToken.text.toList ++ Tsql.Piece.oldOf (spread gaps node.tokens.tail) ≠ [] := by
      simp [stands.sameLine.1]
    have behind := shown_kept (front ++ [⟨[], (openParen name.stop.line).text.toList⟩] ++ eaten run ++ kept gap) visible
    simpa [Tsql.Piece.strips, stripsOf_spread, kept_append] using behind
  have closed := @yields_put front back (.made (openParen name.stop.line) run :: .gap gap ::
      .word node.startToken :: spread gaps node.tokens.tail) [] (closeParen node.stop.line) node.stop ')' opens
    shown' (isMark_closeParen _) (by simpa using last)
    (by simp; omega) (by simp [size_openParen, size_closeParen, newOf_spread]; omega)
  rw [List.append_nil] at closed
  refine Yields.bind (opened.weaken ?_ ?_) fun _ => closed
  · intro e draft
    simpa [Tsql.Piece.strips, whole, kept_append] using draft
  · intro _ e draft
    simpa [Tsql.Piece.strips] using draft

end Listing

def emptyListing (line : Nat) : List Piece := [.made (openParen line) [], .made (closeParen line) []]

theorem yields_emptyListing {front back : List Strip} {name : Node Kind}
    (place : name.stop = Position.origin.advance (oldOf front)) (shown : Shown front) (opens : Opens back)
    (short : byteLength (oldOf front) ≤ columnLimit)
    (room : byteLength (newOf front) + 2 + byteLength (newOf back) ≤ columnLimit) :
    Yields (Draft (front ++ back)) (Edit.insertAfter name "()")
      fun _ => Draft (front ++ (stripsOf (emptyListing name.stop.line) ++ back)) := by
  have size : byteLength "()".toList = 2 := by decide
  have inserted := @Draft.yields_insert front back "()" opens shown (by simp) short
    (by simp only [Text.byteLength_append, size]; omega)
  rw [← place] at inserted
  refine inserted.weaken (fun _ draft => draft) fun _ e draft => ?_
  have split := @Draft.split front back e ['('] [')'] draft
  simpa [emptyListing, Tsql.Piece.strips, openParen, closeParen, eaten] using split

/-- The second row of tokens is the first one with parentheses put in. -/
inductive Parenthesized : List (Kind × String) → List (Kind × String) → Prop
  | nil : Parenthesized [] []
  | keep {xs ys : List (Kind × String)} (face : Kind × String) : Parenthesized xs ys → Parenthesized (face :: xs) (face :: ys)
  | left {xs ys : List (Kind × String)} : Parenthesized xs ys → Parenthesized xs ((.leftParen, "(") :: ys)
  | right {xs ys : List (Kind × String)} : Parenthesized xs ys → Parenthesized xs ((.rightParen, ")") :: ys)

theorem Parenthesized.refl (xs : List (Kind × String)) : Parenthesized xs xs := by
  induction xs with
  | nil => exact .nil
  | cons face xs ih => exact .keep face ih

theorem Parenthesized.append {xs ys xs' ys' : List (Kind × String)} (first : Parenthesized xs ys)
    (second : Parenthesized xs' ys') : Parenthesized (xs ++ xs') (ys ++ ys') := by
  induction first with
  | nil => exact second
  | keep face _ ih => exact .keep face ih
  | left _ ih => exact .left ih
  | right _ ih => exact .right ih

theorem inserting_parenthesized : Inserting Parenthesized := ⟨.refl, .append⟩

section Dressed

variable {gaps : Token Kind → List Char} {before rest : List Char}

theorem Dressed.enclosing {word : Token Kind} {node : Node Kind}
    (sound : Sound before (spread gaps (word :: node.tokens)) rest) :
    Dressed Parenthesized gaps before rest (word :: node.tokens)
      (word :: openParen node.start.line :: (node.tokens ++ [closeParen node.stop.line]))
      (spread gaps [word] ++ enclosing gaps node) := by
  have long := sound.length_le
  obtain ⟨solid, start, stands, inside⟩ := Tsql.sound_spread_cons.mp sound
  refine ⟨by simp [tokensOf_enclosing], ?_, by simp [oldOf_enclosing], ?_, ?_, fun back _ => ?_⟩
  · have enclosed := Parenthesized.left (((Parenthesized.refl (node.tokens.map Tsql.face)).append (.right .nil)))
    rw [List.append_nil] at enclosed
    simpa [Tsql.face, openParen, closeParen] using Parenthesized.keep (Tsql.face word) enclosed
  · refine Tsql.sound_append.mpr ⟨⟨solid, start, ?_, trivial⟩, ?_⟩
    · simpa [oldOf_enclosing] using stands
    · simpa using sound_enclosing inside
  · rw [node.tokens_eq_cons, List.length_cons, List.length_cons, ← node.tokens_eq_cons] at long
    simp only [Tsql.spread_cons, Tsql.Piece.oldOf_cons, Tsql.Piece.old, Text.byteLength_append] at long
    simp only [Tsql.spread_cons, Tsql.spread_nil, Tsql.Piece.newOf_append, Tsql.Piece.oldOf_append, Tsql.Piece.newOf_cons,
      Tsql.Piece.oldOf_cons, Tsql.Piece.newOf_nil, Tsql.Piece.oldOf_nil, Tsql.Piece.new, Tsql.Piece.old,
      Text.byteLength_append, Text.byteLength_nil, size_enclosing, oldOf_enclosing]
    omega
  · exact opens_of_word stands _ _ _

section Header

variable {xs : List (Token Kind)} {line : Nat} {node : Node Kind} (two : 2 ≤ xs.length)
  (isLine : line = (Position.origin.advance (before ++ Tsql.Piece.oldOf (spread gaps xs))).line)

include two isLine

/-- Behind some tokens a node gets its parentheses, the first one in front of the gap. -/
theorem Dressed.listing (sound : Sound before (spread gaps (xs ++ node.tokens)) rest) :
    Dressed Parenthesized gaps before rest (xs ++ node.tokens)
      (xs ++ openParen line :: (node.tokens ++ [closeParen node.stop.line])) (spread gaps xs ++ listing gaps line node) := by
  have size := size_listing gaps line node
  rw [Tsql.spread_append] at sound
  obtain ⟨left, right⟩ := Tsql.sound_append.mp sound
  have long := left.length_le
  refine ⟨by simp [tokensOf_listing], ?_, by simp [oldOf_listing], ?_, ?_, fun back _ => ?_⟩
  · have enclosed := Parenthesized.left (((Parenthesized.refl (node.tokens.map Tsql.face)).append (.right .nil)))
    rw [List.append_nil] at enclosed
    simpa [Tsql.face, openParen, closeParen] using (Parenthesized.refl (xs.map Tsql.face)).append enclosed
  · refine Tsql.sound_append.mpr ⟨?_, sound_listing right isLine⟩
    rwa [oldOf_listing]
  · simp only [Tsql.Piece.newOf_append, Tsql.Piece.oldOf_append, Text.byteLength_append, newOf_spread, oldOf_listing]
    omega
  · cases xs with
    | nil => cases two
    | cons t xs => exact opens_of_word (Tsql.sound_spread_cons.mp left).2.2.1 _ _ _

theorem Dressed.emptyListing (sound : Sound before (spread gaps xs) rest) :
    Dressed Parenthesized gaps before rest xs (xs ++ [openParen line, closeParen line]) (spread gaps xs ++ emptyListing line) := by
  have long := sound.length_le
  refine ⟨by simp [SqlFerry.emptyListing], ?_, by simp [SqlFerry.emptyListing], ?_, ?_, fun back _ => ?_⟩
  · simpa [Tsql.face, openParen, closeParen] using (Parenthesized.refl (xs.map Tsql.face)).append (.left (.right .nil))
  · refine Tsql.sound_append.mpr ⟨by simpa [SqlFerry.emptyListing] using sound, ⟨_, isMark_openParen line⟩, isLine, by simp,
      ⟨_, isMark_closeParen line⟩, ?_, by simp, trivial⟩
    rw [List.append_nil]
    exact isLine
  · simp only [SqlFerry.emptyListing, Tsql.Piece.newOf_append, Tsql.Piece.oldOf_append, Tsql.Piece.newOf_cons,
      Tsql.Piece.oldOf_cons, Tsql.Piece.newOf_nil, Tsql.Piece.oldOf_nil, Tsql.Piece.new, Tsql.Piece.old,
      Text.byteLength_append, Text.byteLength_nil, newOf_spread, size_openParen, size_closeParen]
    omega
  · cases xs with
    | nil => cases two
    | cons t xs => exact opens_of_word (Tsql.sound_spread_cons.mp sound).2.2.1 _ _ _

end Header

end Dressed

end SqlFerry
