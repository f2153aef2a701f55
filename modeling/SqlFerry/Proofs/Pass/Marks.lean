import SqlFerry.Proofs.Editor.Draft
import SqlFerry.Proofs.Pass.Names
import SqlFerry.Proofs.Tsql.Pieces

/-! Marks are put into a text. The text under edit is a row of pieces: the tokens that stood there, with their
gaps, and the marks, which may have eaten blanks. Each edit puts in one piece more. A walk over a tree remakes
a node where it leaves the tokens of what the node is to become; what the walk leaves of a whole text is then
lexed as these tokens. -/
namespace SqlFerry

open Strip
open Text (byteLength)
open Tsql (Kind Piece Sound IsMark spread)

namespace Tsql.Piece

/-- How a piece is shown in the text under edit. -/
def strips : Piece → List Strip
  | gap text => kept text
  | word token => kept token.text.toList
  | made token run => ⟨[], token.text.toList⟩ :: eaten run

def stripsOf (ps : List Piece) : List Strip := ps.flatMap strips

@[simp] theorem stripsOf_nil : stripsOf [] = [] := rfl

@[simp] theorem stripsOf_cons (p : Piece) (ps : List Piece) : stripsOf (p :: ps) = p.strips ++ stripsOf ps := rfl

@[simp] theorem stripsOf_append (xs ys : List Piece) : stripsOf (xs ++ ys) = stripsOf xs ++ stripsOf ys :=
  List.flatMap_append

@[simp] theorem oldOf_strips (p : Piece) : Strip.oldOf p.strips = p.old := by
  cases p with
  | gap | word => simp [strips, old]
  | made token run =>
    rw [strips, eaten]
    split <;> simp_all [old]

@[simp] theorem newOf_strips (p : Piece) : Strip.newOf p.strips = p.new := by
  cases p with
  | gap | word => simp [strips, new]
  | made token run =>
    rw [strips, eaten]
    split <;> simp [new]

@[simp] theorem oldOf_stripsOf (ps : List Piece) : Strip.oldOf (stripsOf ps) = oldOf ps := by
  induction ps with
  | nil => rfl
  | cons p ps ih => simp [ih]

@[simp] theorem newOf_stripsOf (ps : List Piece) : Strip.newOf (stripsOf ps) = newOf ps := by
  induction ps with
  | nil => rfl
  | cons p ps ih => simp [ih]

end Tsql.Piece

open Tsql.Piece (stripsOf)

/-! Places between pieces. -/

section Places

variable {front back : List Strip} {text : List Char}

theorem Strip.Opens.behind (opens : Opens back) (text : List Char) : Opens (kept text ++ back) := by
  cases text with
  | nil => exact opens
  | cons c text => simp [Opens, kept]

theorem Strip.opens_kept (visible : text ≠ []) (back : List Strip) : Opens (kept text ++ back) := by
  obtain ⟨c, text, rfl⟩ := List.exists_cons_of_ne_nil visible
  simp [Opens, kept]

theorem Strip.shown_kept (front : List Strip) (visible : text ≠ []) : Shown (front ++ kept text) := by
  obtain ⟨text, c, rfl⟩ := List.eq_nil_or_concat text |>.resolve_left visible
  exact ⟨front ++ kept text, ⟨[c], [c]⟩, by simp [kept], by simp⟩

theorem Strip.Shown.behind (shown : Shown front) (text : List Char) : Shown (front ++ kept text) := by
  by_cases visible : text = []
  · simpa [visible, kept] using shown
  · exact shown_kept front visible

theorem stripsOf_spread (gaps : Token Kind → List Char) (tokens : List (Token Kind)) :
    stripsOf (spread gaps tokens) = kept (Tsql.Piece.oldOf (spread gaps tokens)) := by
  induction tokens with
  | nil => rfl
  | cons t tokens ih => simp [ih, Tsql.Piece.strips, kept_append]

theorem opens_spread (gaps : Token Kind → List Char) (tokens : List (Token Kind)) (opens : Opens back) :
    Opens (stripsOf (spread gaps tokens) ++ back) := by
  rw [stripsOf_spread]
  exact opens.behind _

theorem opens_of_word {t : Token Kind} {rest : List Char} (stands : Tsql.Stands t rest) (gap : List Char)
    (ps : List Piece) (back : List Strip) : Opens (stripsOf (.gap gap :: .word t :: ps) ++ back) := by
  simp only [Tsql.Piece.stripsOf_cons, Tsql.Piece.strips, List.append_assoc]
  exact (opens_kept stands.sameLine.1 _).behind gap

theorem Text.head?_dropWhile_isIndent (text : List Char) :
    ∀ c ∈ (text.dropWhile isIndent).head?, isIndent c = false := by
  intro c isFirst
  have fails := List.head?_dropWhile_not isIndent text
  rw [Option.mem_def.mp isFirst] at fails
  simpa using fails

theorem Tsql.Stands.head?_isIndent {t : Token Kind} {rest gap : List Char} (stands : Stands t rest)
    (ends : ∀ c ∈ gap.head?, Text.isIndent c = false) (more : List Char) :
    ∀ c ∈ (gap ++ (t.text.toList ++ more)).head?, Text.isIndent c = false := by
  cases gap with
  | cons d gap => exact ends
  | nil =>
    obtain ⟨d, cs, text, found⟩ := stands
    intro c isFirst
    obtain rfl : d = c := by simpa [text] using isFirst
    refine Bool.eq_false_iff.mpr fun blank => ?_
    have gap : isGapChar d = true := by
      simp only [Text.isIndent, Bool.or_eq_true] at blank
      rcases blank with blank | blank <;> simp [isGapChar, beq_iff_eq.mp blank]
    rw [piece, if_pos gap] at found
    cases found

theorem Tsql.Sound.stop {before rest : List Char} {gaps : Token Kind → List Char} {tokens : List (Token Kind)}
    {last : Token Kind} (sound : Sound before (spread gaps tokens) rest) (isLast : tokens.getLast? = some last) :
    last.stop = Position.origin.advance (before ++ Piece.oldOf (spread gaps tokens)) := by
  obtain ⟨tokens, rfl⟩ := List.getLast?_eq_some_iff.mp isLast
  rw [spread_append] at sound ⊢
  obtain ⟨-, -, start, -⟩ := sound_append.mp sound
  rw [Token.stop, start, ← Position.advance_append]
  simp [Piece.old]

end Places

/-! Marks are put in. -/

section Put

variable {front back : List Strip} {xs ys : List Piece} {t : Token Kind} {p : Position} {before rest : List Char}
  {c : Char}

theorem Tsql.Sound.put (sound : Sound before (xs ++ ys) rest) (mark : IsMark t c)
    (line : t.line = (Position.origin.advance (before ++ Piece.oldOf xs)).line) :
    Sound before (xs ++ .made t [] :: ys) rest := by
  obtain ⟨left, right⟩ := sound_append.mp sound
  exact sound_append.mpr ⟨left, ⟨c, mark⟩, line, by simp, by rwa [List.append_nil]⟩

theorem Tsql.Sound.eat {run gap : List Char} (sound : Sound before (xs ++ .gap (run ++ gap) :: ys) rest)
    (mark : IsMark t c) (line : t.line = (Position.origin.advance (before ++ Piece.oldOf xs)).line)
    (blank : ∀ c ∈ run, Text.isIndent c = true) : Sound before (xs ++ .made t run :: .gap gap :: ys) rest := by
  obtain ⟨left, solid, right⟩ := sound_append.mp sound
  refine sound_append.mpr ⟨by simpa [Piece.old] using left, ⟨c, mark⟩, line, blank, solid.of_append blank, ?_⟩
  rwa [List.append_assoc]

theorem yields_put (opens : Opens (stripsOf ys ++ back)) (shown : Shown (front ++ stripsOf xs)) (mark : IsMark t c)
    (place : p = Position.origin.advance (oldOf front ++ Tsql.Piece.oldOf xs))
    (short : byteLength (oldOf front ++ Tsql.Piece.oldOf xs) ≤ columnLimit)
    (fits : byteLength (newOf front ++ (Tsql.Piece.newOf (xs ++ .made t [] :: ys) ++ newOf back)) ≤ columnLimit) :
    Yields (Draft (front ++ (stripsOf (xs ++ ys) ++ back))) (Edit.insert p.line p.column t.text)
      fun _ => Draft (front ++ (stripsOf (xs ++ .made t [] :: ys) ++ back)) := by
  have flat : '\n' ∉ t.text.toList := by
    rw [mark.text]
    simpa using mark.flat.symm
  have inserted := @Draft.yields_insert (front ++ stripsOf xs) (stripsOf ys ++ back) t.text opens shown flat
    (by simpa using short) (by simpa [Tsql.Piece.new] using fits)
  have same : Position.origin.advance (oldOf (front ++ stripsOf xs)) = p := by simp [place]
  rw [same] at inserted
  simpa [Tsql.Piece.strips, eaten] using inserted

end Put

theorem newOf_spread (gaps : Token Kind → List Char) (tokens : List (Token Kind)) :
    Tsql.Piece.newOf (spread gaps tokens) = Tsql.Piece.oldOf (spread gaps tokens) := by
  induction tokens with
  | nil => rfl
  | cons t tokens ih => simp [ih, Tsql.Piece.old, Tsql.Piece.new]

theorem Node.tokens_eq_cons (node : Node Kind) : node.tokens = node.startToken :: node.tokens.tail := by
  obtain ⟨rest, isTokens⟩ := List.head?_eq_some_iff.mp node.head?_tokens
  rw [isTokens, List.tail_cons]

section Node

variable (gaps : Token Kind → List Char) (node : Node Kind)

theorem spread_node : spread gaps node.tokens =
    .gap (gaps node.startToken) :: .word node.startToken :: spread gaps node.tokens.tail := by
  rw [← Tsql.spread_cons, ← node.tokens_eq_cons]

variable {gaps node} {before rest : List Char} (sound : Sound before (spread gaps node.tokens) rest)

include sound

theorem Tsql.Sound.start_node : node.start = Position.origin.advance (before ++ gaps node.startToken) := by
  rw [spread_node] at sound
  exact sound.2.1

theorem Tsql.Sound.stop_node :
    node.stop = Position.origin.advance (before ++ Tsql.Piece.oldOf (spread gaps node.tokens)) :=
  sound.stop node.getLast?_tokens

end Node

theorem Tsql.Stands.size_pos {t : Token Kind} {rest : List Char} (stands : Stands t rest) :
    0 < byteLength t.text.toList := by
  refine Nat.pos_of_ne_zero fun none => ?_
  exact stands.sameLine.1 (Text.byteLength_eq_zero.mp none)

theorem Tsql.Sound.length_le {before rest : List Char} {gaps : Token Kind → List Char} {tokens : List (Token Kind)}
    (sound : Sound before (spread gaps tokens) rest) : tokens.length ≤ byteLength (Piece.oldOf (spread gaps tokens)) := by
  induction tokens generalizing before with
  | nil => exact Nat.zero_le _
  | cons t tokens ih =>
    obtain ⟨-, -, stands, behind⟩ := sound_spread_cons.mp sound
    have first := stands.size_pos
    have others := ih behind
    simp only [spread_cons, Piece.oldOf_cons, Piece.old, Text.byteLength_append, List.length_cons]
    omega

/-- Rows of tokens of which the second one has more than the first. -/
structure Inserting (inserts : List (Kind × String) → List (Kind × String) → Prop) : Prop where
  refl : ∀ xs, inserts xs xs
  append : ∀ {xs ys xs' ys'}, inserts xs ys → inserts xs' ys' → inserts (xs ++ xs') (ys ++ ys')

/-- The pieces are some tokens with their gaps, in which others have been put. -/
structure Dressed (inserts : List (Kind × String) → List (Kind × String) → Prop) (gaps : Token Kind → List Char)
    (before rest : List Char) (old new : List (Token Kind)) (ps : List Piece) : Prop where
  tokens : Tsql.Piece.tokensOf ps = new
  inserted : inserts (old.map Tsql.face) (new.map Tsql.face)
  same : Tsql.Piece.oldOf ps = Tsql.Piece.oldOf (spread gaps old)
  sound : Sound before ps rest
  size : byteLength (Tsql.Piece.newOf ps) ≤ 2 * byteLength (Tsql.Piece.oldOf ps)
  opens : ∀ back, Opens back → Opens (stripsOf ps ++ back)

/-- The edit leaves of the nodes the tokens of what they are to become, wherever they stand. -/
def Remakes (inserts : List (Kind × String) → List (Kind × String) → Prop) (remake : Node Kind → Node Kind)
    (edit : Edit Unit) (nodes : List (Node Kind)) : Prop :=
  ∀ gaps front back rest, Sound (oldOf front) (spread gaps (Node.tokensOf nodes)) rest → Opens back →
    byteLength (oldOf front) + byteLength (Tsql.Piece.oldOf (spread gaps (Node.tokensOf nodes))) ≤ columnLimit →
    byteLength (newOf front) + 2 * byteLength (Tsql.Piece.oldOf (spread gaps (Node.tokensOf nodes))) +
      byteLength (newOf back) ≤ columnLimit →
    Yields (Draft (front ++ (stripsOf (spread gaps (Node.tokensOf nodes)) ++ back))) edit
      fun _ e => ∃ ps, Dressed inserts gaps (oldOf front) rest (Node.tokensOf nodes) (Node.tokensOf (nodes.map remake)) ps ∧
        Draft (front ++ (stripsOf ps ++ back)) e

section Remakes

variable {inserts : List (Kind × String) → List (Kind × String) → Prop} {remake : Node Kind → Node Kind}
  {gaps : Token Kind → List Char} {before rest : List Char} {old new old' new' : List (Token Kind)}
  {ps qs : List Piece} {edit next : Edit Unit} {nodes nodes' : List (Node Kind)}

theorem Inserting.dressed (inserting : Inserting inserts) (sound : Sound before (spread gaps old) rest) :
    Dressed inserts gaps before rest old old (spread gaps old) where
  tokens := Tsql.tokensOf_spread gaps old
  inserted := inserting.refl _
  same := rfl
  sound := sound
  size := by rw [newOf_spread]; omega
  opens _ := opens_spread gaps _

theorem Dressed.append (inserting : Inserting inserts)
    (first : Dressed inserts gaps before (Tsql.Piece.oldOf qs ++ rest) old new ps)
    (second : Dressed inserts gaps (before ++ Tsql.Piece.oldOf ps) rest old' new' qs) :
    Dressed inserts gaps before rest (old ++ old') (new ++ new') (ps ++ qs) where
  tokens := by rw [Tsql.Piece.tokensOf_append, first.tokens, second.tokens]
  inserted := by simpa using inserting.append first.inserted second.inserted
  same := by simp [first.same, second.same]
  sound := Tsql.sound_append.mpr ⟨first.sound, second.sound⟩
  size := by
    have := first.size
    have := second.size
    simp only [Tsql.Piece.newOf_append, Tsql.Piece.oldOf_append, Text.byteLength_append]
    omega
  opens back opens := by
    rw [Tsql.Piece.stripsOf_append, List.append_assoc]
    exact first.opens _ (second.opens back opens)

theorem Inserting.remakes (inserting : Inserting inserts) (same : nodes.map remake = nodes) :
    Remakes inserts remake (pure ()) nodes := by
  intro gaps front back rest sound opens short room
  rw [same]
  exact Yields.pure fun e draft => ⟨_, inserting.dressed sound, draft⟩

theorem Remakes.append (inserting : Inserting inserts) (first : Remakes inserts remake edit nodes)
    (second : Remakes inserts remake next nodes') : Remakes inserts remake (edit >>= fun _ => next) (nodes ++ nodes') := by
  intro gaps front back rest sound opens short room
  simp only [Node.tokensOf_append, Tsql.spread_append, Tsql.Piece.oldOf_append, Text.byteLength_append,
    Tsql.Piece.stripsOf_append, List.map_append] at sound short room ⊢
  obtain ⟨left, right⟩ := Tsql.sound_append.mp sound
  have opened := opens_spread gaps (Node.tokensOf nodes') opens
  have start := first gaps front (stripsOf (spread gaps (Node.tokensOf nodes')) ++ back) _ left opened (by omega) (by
    simp only [newOf_append, Tsql.Piece.newOf_stripsOf, newOf_spread, Text.byteLength_append]
    omega)
  rw [List.append_assoc (stripsOf _)]
  refine start.bind fun _ e dressed => ?_
  obtain ⟨ps, dressed, draft⟩ := dressed
  have size := dressed.size
  rw [dressed.same] at size
  have goesOn := second gaps (front ++ stripsOf ps) back rest (by simpa [dressed.same] using right) opens
    (by simp [dressed.same]; omega) (by simp; omega)
  obtain ⟨_, e', ran, qs, dressed', draft'⟩ := goesOn e (by simpa using draft)
  refine ⟨_, e', ran, ps ++ qs, ?_, by simpa using draft'⟩
  rw [← dressed'.same] at dressed
  exact dressed.append inserting (by simpa using dressed')

theorem Remakes.forM (inserting : Inserting inserts) {recur : Site Kind → Edit Unit} {sites : List (Site Kind)}
    (each : ∀ site ∈ sites, Remakes inserts remake (recur site) [site.node]) :
    Remakes inserts remake (sites.forM recur) (sites.map (·.node)) := by
  induction sites with
  | nil => exact inserting.remakes rfl
  | cons site sites ih =>
    obtain ⟨first, others⟩ := List.forall_mem_cons.mp each
    exact first.append inserting (ih others)

theorem Remakes.rule {id : Nat} {kind : Kind} {first : Node Kind} {others : List (Node Kind)}
    (below : Remakes inserts remake edit (first :: others))
    (same : (remake (.rule id kind first others)).tokens = Node.tokensOf ((first :: others).map remake)) :
    Remakes inserts remake edit [.rule id kind first others] := by
  have old : Node.tokensOf [.rule id kind first others] = Node.tokensOf (first :: others) := by
    simp [Node.tokensOf, Node.tokens]
  have new : Node.tokensOf ([.rule id kind first others].map remake) = Node.tokensOf ((first :: others).map remake) := by
    rw [← same]
    simp [Node.tokensOf]
  unfold Remakes
  rw [old, new]
  exact below

end Remakes

/-! Walks. -/

section Walks

variable {site child : Site Kind}

theorem descendants_of_site (isChild : child ∈ site.children) : child.node.descendants ⊆ site.node.descendants :=
  (Node.descendants_among _ (Node.descendants_of_child (Site.node_of_child isChild))).subset

theorem height_of_site (isChild : child ∈ site.children) : child.node.height < site.node.height := by
  have member := Site.node_of_child isChild
  cases node : site.node with
  | leaf => rw [node] at member; cases member
  | rule id kind first rest =>
    rw [node] at member
    have inside := Node.height_le_heightOf member
    simp only [Node.height, Node.heightOf, Node.children] at inside ⊢
    omega

theorem forM_eq_pure {α : Type} {edit : α → Edit Unit} {items : List α} (each : ∀ item ∈ items, edit item = pure ()) :
    items.forM edit = pure () := by
  induction items with
  | nil => rfl
  | cons item items ih =>
    obtain ⟨first, others⟩ := List.forall_mem_cons.mp each
    change edit item >>= (fun _ => items.forM edit) = _
    rw [first, ih others]
    rfl

end Walks

section Text

variable {inserts : List (Kind × String) → List (Kind × String) → Prop} {remake : Node Kind → Node Kind}
  {source : String} {tree : Tree Kind} {visit : Visit} {name : String}

/-- A walk that remakes the root of a tree leaves a text with the tokens of the tree that is made of it. -/
theorem Remakes.exists_tokens {root : Node Kind} (parsed : Tsql.parse source = .ok tree) (isRoot : tree.root = some root)
    (held : Text.size source ≤ textLimit) (remakes : Remakes inserts remake (visit.run root.height (.ofNode root)) [root]) :
    ∃ e tokens, (visit.runTree tree).run (.ofLines (Text.lines source)) = .ok () e ∧
      e.diagnostics = [] ∧ Tsql.lex e.buffer.joined = .ok tokens ∧
      tokens.map Token.atMargin = (remake root).tokens.map Token.atMargin ∧
      inserts (root.tokens.map Tsql.face) ((remake root).tokens.map Tsql.face) := by
  obtain ⟨lexed, -, same⟩ := Tsql.parse_tree parsed
  rw [isRoot] at same
  rw [← same] at lexed
  obtain ⟨gaps, last, shape, sound, ends⟩ := @Tsql.exists_gaps [] _ _ lexed
  have size : byteLength (Tsql.Piece.oldOf (spread gaps root.tokens)) + byteLength last ≤ textLimit := by
    rwa [Text.size, shape, Text.byteLength_append] at held
  have limits : textLimit + textLimit ≤ columnLimit := by decide
  have only : Node.tokensOf [root] = root.tokens := by simp [Node.tokensOf]
  have onlyRemade : Node.tokensOf ([root].map remake) = (remake root).tokens := by simp [Node.tokensOf]
  have walk := remakes gaps [] (kept last) last
  rw [only, onlyRemade] at walk
  have opens : Opens (kept last) := by
    cases last <;> simp [Opens, kept]
  have start := Draft.ofLines source
  rw [shape, kept_append, ← stripsOf_spread] at start
  obtain ⟨_, e, ran, ps, dressed, draft⟩ := walk sound opens (by simp; omega) (by simp; omega) _ start
  obtain ⟨tokens, lexed', margins⟩ := Tsql.lexFrom_sound dressed.sound rfl ends
  refine ⟨e, tokens, ?_, draft.quiet, ?_, by rw [margins, dressed.tokens], dressed.inserted⟩
  · rw [Visit.runTree, isRoot]
    exact ran
  · rw [draft.joined, Tsql.lex, String.toList_ofList]
    simpa using lexed'

theorem Text.lines_ne_nil (source : String) : Text.lines source ≠ [] := by
  simp [Text.lines, Text.splitOn, Text.pieces_ne_nil]

theorem Pass.run_ofVisit {e e' : Editor} (walked : (visit.runTree tree).run e = .ok () e') :
    ((Pass.ofVisit name fun _ => visit).run tree).run e = .ok .rebuild e' := by
  rw [Pass.ofVisit, EStateM.run_bind, walked]
  rfl

theorem Pass.leads_idle (parsed : Tsql.parse source = .ok tree) (idle : visit.runTree tree = pure ()) :
    (Pass.ofVisit name fun _ => visit).Leads (Text.lines source) (Text.lines source) := by
  have contents : (Editor.ofLines (Text.lines source)).contents = Text.lines source := by
    simp [Editor.contents, Editor.ofLines, Buffer.resplit, Buffer.joined, Text.unlines_lines]
  have leads := @Pass.leads_of_rebuild (.ofVisit name fun _ => visit) (Text.lines source) tree
    (.ofLines (Text.lines source)) (by rw [Text.unlines_lines, parsed]) (Pass.run_ofVisit (by rw [idle]; rfl)) rfl
  rwa [contents] at leads

/-- A pass that leads to a text that it leaves as it is has done its work after one run. -/
theorem exists_settled_conversion {pass : PassName} {options : Options} {text new : String}
    (leads : (pass.pass options).Leads (Text.lines (Buffer.ofText text).joined) (Text.lines new))
    (idle : (pass.pass options).Leads (Text.lines new) (Text.lines new)) :
    ∃ conversion again, convertWith [pass] options text = .ok conversion ∧ conversion.diagnostics = [] ∧
      conversion.text = new ∧ convertWith [pass, pass] options text = .ok again ∧ again.diagnostics = [] ∧
      again.lines = conversion.lines := by
  rw [Buffer.lines_joined_ofText] at leads
  obtain ⟨first, atFirst, ran⟩ := (Session.at_ofText rfl).step leads
  obtain ⟨second, atSecond, ran'⟩ := atFirst.step idle
  have contents {session : Session} (done : session.At (Text.lines new)) : session.contents = Text.lines new :=
    done.contents (fun _ => Text.flat_of_mem_lines) (Text.lines_ne_nil new)
  refine ⟨_, _, convertWith_of_run (ran []), atFirst.quiet, ?_, convertWith_of_run ((ran _).trans (ran' [])),
    atSecond.quiet, (contents atSecond).trans (contents atFirst).symm⟩
  rw [Conversion.text, contents atFirst, Text.unlines_lines]

end Text

end SqlFerry
