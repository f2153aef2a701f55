import SqlFerry.Proofs.Editor.Rewriting
import SqlFerry.Proofs.Span
import SqlFerry.Proofs.Tree.Nodes

/-! Stretches of a line. The tokens of a node on one line are a trail of tokens with gaps between them,
and the trails of its children follow one another. An edit turns a stretch into another text if it does
so whatever stands around the stretch, so edits of neighbouring stretches can be put together. -/
namespace SqlFerry

open Patch
open Text (byteLength)

/-- From a column of a line on, the text is made up of the tokens and of gaps in front of them. -/
inductive Trail {κ : Type} (number : Nat) : Nat → List Char → List (Token κ) → Prop
  | nil {column : Nat} : Trail number column [] []
  | cons {column : Nat} {gap text rest : List Char} {token : Token κ} {tokens : List (Token κ)} :
      token.On number (column + byteLength gap) text →
      Trail number (column + byteLength (gap ++ text)) rest tokens →
      Trail number column (gap ++ text ++ rest) (token :: tokens)

section Trails

variable {κ : Type} {number column : Nat} {text : List Char} {tokens xs ys : List (Token κ)}
  {node first : Node κ} {rest : List (Node κ)}

theorem Trail.of_append (trail : Trail number column text (xs ++ ys)) : ∃ front back,
    text = front ++ back ∧ Trail number column front xs ∧
      Trail number (column + byteLength front) back ys := by
  induction xs generalizing column text with
  | nil => exact ⟨[], text, rfl, .nil, trail⟩
  | cons x xs ih =>
    cases trail with
    | cons on later =>
      obtain ⟨front, back, rfl, inFront, inBack⟩ := ih later
      refine ⟨_, back, (List.append_assoc _ _ _).symm, .cons on inFront, ?_⟩
      rwa [Text.byteLength_append, ← Nat.add_assoc]

theorem Trail.append {front back : List Char} (first : Trail number column front xs)
    (second : Trail number (column + byteLength front) back ys) :
    Trail number column (front ++ back) (xs ++ ys) := by
  induction first with
  | nil => simpa using second
  | @cons column gap text rest token tokens on later ih =>
    rw [List.append_assoc]
    refine .cons on (ih ?_)
    simpa [Nat.add_assoc] using second

theorem Trail.behindGap {token : Token κ} (gap : List Char)
    (trail : Trail number (column + byteLength gap) text (token :: tokens)) :
    Trail number column (gap ++ text) (token :: tokens) := by
  cases trail with
  | @cons _ gap' text rest _ _ on later =>
    have whole : Trail number column (gap ++ gap' ++ text ++ rest) (token :: tokens) :=
      .cons (by simpa [Nat.add_assoc] using on) (by simpa [Nat.add_assoc] using later)
    simpa using whole

theorem Trail.stop (trail : Trail number column text tokens) {last : Token κ}
    (isLast : tokens.getLast? = some last) : last.stop = ⟨number, column + byteLength text⟩ := by
  induction trail with
  | nil => cases isLast
  | @cons column gap text rest token tokens on later ih =>
    cases tokens with
    | nil =>
      obtain rfl : token = last := by simpa using isLast
      cases later with
      | nil => rw [on.stop]; simp [Nat.add_assoc]
    | cons next tokens =>
      rw [List.getLast?_cons_cons] at isLast
      rw [ih isLast, Text.byteLength_append _ rest, Nat.add_assoc]

/-- The node stands on a line at a column, with this text from its first token to its last. -/
structure Node.Spans (number column : Nat) (text : List Char) (node : Node κ) : Prop where
  trail : Trail number column text node.tokens
  start : node.start = ⟨number, column⟩

theorem Node.Spans.stop (spans : node.Spans number column text) :
    node.stop = ⟨number, column + byteLength text⟩ :=
  spans.trail.stop node.getLast?_tokens

theorem Node.Spans.insertAfter (spans : node.Spans number column text) (more : String) :
    Edit.insertAfter node more = Edit.insert number (column + byteLength text) more := by
  have stop : node.stopToken.stop = _ := spans.stop
  rw [Edit.insertAfter, Edit.insertAfterToken, stop]

theorem Node.Spans.insertBefore (spans : node.Spans number column text) (more : String) :
    Edit.insertBefore node more = Edit.insert number column more := by
  have line : node.startToken.line = number := congrArg Position.line spans.start
  have first : node.startToken.column = column := congrArg Position.column spans.start
  rw [Edit.insertBefore, Edit.insertBeforeToken, line, first]

theorem Node.Spans.leaf {id index : Nat} {token : Token κ}
    (spans : (Node.leaf id index token).Spans number column text) : token.On number column text := by
  have start := congrArg Position.column spans.start
  have trail := spans.trail
  rw [Node.tokens] at trail
  cases trail with
  | @cons _ gap text rest _ _ on later =>
    cases later with
    | nil =>
      have same : token.column = column := start
      have none : gap = [] := by
        have := on.column
        exact Text.byteLength_eq_zero.mp (by omega)
      subst none
      simpa using on

theorem Node.Spans.on_of_isLeaf (spans : node.Spans number column text)
    (isLeaf : node.isLeaf = true) :
    node.startToken.On number column text ∧ node.stopToken = node.startToken := by
  cases node with
  | leaf id index token => exact ⟨spans.leaf, rfl⟩
  | rule id kind first rest => cases isLeaf

theorem Trail.firstNode (trail : Trail number column text (node.tokens ++ tokens)) :
    ∃ gap inside back, text = gap ++ inside ++ back ∧
      node.Spans number (column + byteLength gap) inside ∧
      Trail number (column + byteLength gap + byteLength inside) back tokens := by
  obtain ⟨front, back, rfl, inFront, inBack⟩ := trail.of_append
  have head := node.head?_tokens
  generalize shape : node.tokens = all at *
  cases inFront with
  | nil => cases head
  | @cons _ gap text rest token _ on later =>
    obtain rfl : token = node.startToken := by simpa using head
    have start : node.start = ⟨number, column + byteLength gap⟩ := on.start
    refine ⟨gap, text ++ rest, back, by simp, ⟨?_, start⟩, ?_⟩
    · rw [shape]
      have whole : Trail number (column + byteLength gap) ([] ++ text ++ rest) _ :=
        .cons (by simpa using on) (by simpa [Nat.add_assoc] using later)
      exact whole
    · simpa [Nat.add_assoc] using inBack

theorem Node.Spans.children {id : Nat} {kind : κ}
    (spans : (Node.rule id kind first rest).Spans number column text) : ∃ front back,
      text = front ++ back ∧ first.Spans number column front ∧
      Trail number (column + byteLength front) back (tokensOf rest) := by
  obtain ⟨gap, front, back, rfl, inFront, inBack⟩ := spans.trail.firstNode
  have start : first.start = ⟨number, column⟩ := spans.start
  have none : gap = [] := by
    have same := congrArg Position.column (start.symm.trans inFront.start)
    exact Text.byteLength_eq_zero.mp (by simpa using same)
  subst none
  exact ⟨front, back, rfl, by simpa using inFront, by simpa using inBack⟩

theorem Node.Spans.visible (spans : node.Spans number column text) : text ≠ [] := by
  have trail := spans.trail
  have head := node.head?_tokens
  generalize node.tokens = all at *
  cases trail with
  | nil => cases head
  | cons on later => simp [on.visible]

end Trails

/-- The lines have a text on a line at a column. -/
def Prints (lines : List String) (number column : Nat) (text : List Char) : Prop :=
  ∃ (front : List String) (before after : List Char) (back : List String),
    lines = front ++ .ofList (before ++ text ++ after) :: back ∧ number = front.length + 1 ∧
    column = byteLength before

namespace Prints

variable {lines : List String} {number column : Nat} {left text right : List Char}

theorem front (prints : Prints lines number column (left ++ right)) :
    Prints lines number column left := by
  obtain ⟨front, before, after, back, rfl, rfl, rfl⟩ := prints
  exact ⟨front, before, right ++ after, back, by simp, rfl, rfl⟩

theorem back (prints : Prints lines number column (left ++ right)) :
    Prints lines number (column + byteLength left) right := by
  obtain ⟨front, before, after, back, rfl, rfl, rfl⟩ := prints
  exact ⟨front, before ++ left, after, back, by simp, rfl, by simp⟩

theorem textBetween (prints : Prints lines number column text) :
    textBetween lines ⟨number, column⟩ ⟨number, column + byteLength text⟩ = .ofList text := by
  obtain ⟨front, before, after, back, rfl, rfl, rfl⟩ := prints
  rw [← Text.byteLength_append]
  exact textBetween_one_line front back before text after

theorem treeText {κ : Type} {tree : Tree κ} {node : Node κ} {text : List Char}
    (prints : Prints tree.lines number column text) (spans : node.Spans number column text) :
    tree.text node = .ofList text := by
  rw [Tree.text, spans.start, spans.stop, prints.textBetween]

end Prints

/-- The edit turns the text at a column of the line into another one, wherever the texts in front of it
and behind it pass. -/
def TurnsIn (page : Page) (ahead behind : List Char → Prop) (column : Nat) (text : List Char)
    (edit : Edit Unit) (new : List Char) : Prop :=
  Rewrites page ahead behind (byteLength text + byteLength new) column [kept text] edit
    [made (byteLength text) new]

namespace TurnsIn

variable {page : Page} {ahead ahead' behind behind' : List Char → Prop} {column : Nat}
  {text left right new new' : List Char} {edit next : Edit Unit}

theorem weaken (turns : TurnsIn page ahead behind column text edit new)
    (front : ∀ text, ahead' text → ahead text) (back : ∀ text, behind' text → behind text) :
    TurnsIn page ahead' behind' column text edit new :=
  Rewrites.weaken turns front back (Nat.le_refl _)

theorem append (first : TurnsIn page ahead behind' column left edit new)
    (second : TurnsIn page ahead' behind (column + byteLength left) right next new')
    (front : ∀ text, ahead text → ahead' (text ++ new))
    (back : ∀ text, behind text → behind' (right ++ text)) :
    TurnsIn page ahead behind column (left ++ right) (edit >>= fun _ => next) (new ++ new') := by
  have atLeft := Rewrites.inside [] [kept right] first (fun _ passes => by simpa using passes)
    (fun text passes => by simpa using back text passes)
    (show _ ≤ byteLength (left ++ right) + byteLength (new ++ new') by simp; omega)
  have atRight := @Rewrites.inside _ _ _ _ _ _ _ column _ _ _ [made (byteLength left) new] []
    (by simpa [TurnsIn] using second) (fun text passes => by simpa using front text passes)
    (fun _ passes => by simpa using passes)
    (show _ ≤ byteLength (left ++ right) + byteLength (new ++ new') by simp; omega)
  refine (Rewrites.seq atLeft atRight).coarsen (coarsens_cut left right) ?_
  simpa using coarsens_made [made (byteLength left) new, made (byteLength right) new']

theorem append_back (second : TurnsIn page ahead' behind (column + byteLength left) right edit new')
    (first : TurnsIn page ahead behind' column left next new)
    (front : ∀ text, ahead text → ahead' (text ++ left))
    (back : ∀ text, behind text → behind' (new' ++ text)) :
    TurnsIn page ahead behind column (left ++ right) (edit >>= fun _ => next) (new ++ new') := by
  have atRight := @Rewrites.inside _ _ _ _ _ _ _ column _ _ _ [kept left] []
    (by simpa [TurnsIn] using second) (fun text passes => by simpa using front text passes)
    (fun _ passes => by simpa using passes)
    (show _ ≤ byteLength (left ++ right) + byteLength (new ++ new') by simp; omega)
  have atLeft := Rewrites.inside [] [made (byteLength right) new'] first
    (fun _ passes => by simpa using passes) (fun text passes => by simpa using back text passes)
    (show _ ≤ byteLength (left ++ right) + byteLength (new ++ new') by simp; omega)
  refine (Rewrites.seq atRight atLeft).coarsen (coarsens_cut left right) ?_
  simpa using coarsens_made [made (byteLength left) new, made (byteLength right) new']

theorem insert (turns : TurnsIn page ahead behind column text edit new) (visible : new ≠ [])
    (more : String) :
    TurnsIn page ahead behind column text
      (edit >>= fun _ => Edit.insert page.number (column + byteLength text) more)
      (new ++ more.toList) := by
  have size : byteLength more.toList = Text.size more := rfl
  have shown : textOf [made (byteLength text) new] ≠ [] := by simpa using visible
  refine Rewrites.seq (Rewrites.weaken turns (fun _ h => h) (fun _ h => h) (by simp)) ?_
  simpa using Rewrites.insert shown more (by simp; omega)

end TurnsIn

/-- The edit turns the text at a column of the line into another one, whatever stands around it. -/
def Turns (page : Page) (column : Nat) (text : List Char) (edit : Edit Unit) (new : List Char) :
    Prop :=
  ∀ front back, widthOf front = column →
    byteLength (textOf front) + byteLength text + byteLength new + byteLength (textOf back) ≤
      columnLimit →
    Yields (page.Shows (front ++ kept text :: back)) edit
      fun _ => page.Shows (front ++ made (byteLength text) new :: back)

theorem turns_iff {page : Page} {column : Nat} {text new : List Char} {edit : Edit Unit} :
    Turns page column text edit new ↔ TurnsIn page AnyText AnyText column text edit new := by
  constructor
  · intro turns front back start _ _ fits
    simpa using turns front back start (by omega)
  · intro turns front back start fits
    simpa using turns front back start trivial trivial (by omega)

namespace Turns

variable {page : Page} {column : Nat} {text left right new new' : List Char} {edit next : Edit Unit}

theorem turnsIn (turns : Turns page column text edit new) {ahead behind : List Char → Prop} :
    TurnsIn page ahead behind column text edit new :=
  (turns_iff.mp turns).weaken (fun _ _ => trivial) fun _ _ => trivial

theorem keep (page : Page) (column : Nat) (text : List Char) :
    Turns page column text (pure ()) text := by
  intro front back _ _
  refine Yields.pure fun e shown => shown.coarsen ((Coarsens.refl front).append ?_)
  simpa using coarsens_front [kept text] back

theorem skip {κ : Type} (free : ∀ notes, page.notes notes) (node : Node κ) (message : String)
    (same : Turns page column text (pure ()) new) :
    Turns page column text (Edit.skip node message) new := by
  intro front back start fits
  have noted := page.yields_skip free node message (front ++ kept text :: back)
  have still := noted.bind fun _ => same front back start fits
  rwa [bind_pure_unit] at still

theorem append (first : Turns page column left edit new)
    (second : Turns page (column + byteLength left) right next new') :
    Turns page column (left ++ right) (edit >>= fun _ => next) (new ++ new') :=
  turns_iff.mpr ((turns_iff.mp first).append (turns_iff.mp second) (fun _ _ => trivial)
    fun _ _ => trivial)

theorem append_back (second : Turns page (column + byteLength left) right edit new')
    (first : Turns page column left next new) :
    Turns page column (left ++ right) (edit >>= fun _ => next) (new ++ new') :=
  turns_iff.mpr ((turns_iff.mp second).append_back (turns_iff.mp first) (fun _ _ => trivial)
    fun _ _ => trivial)

theorem insert (turns : Turns page column text edit new) (visible : new ≠ []) (more : String) :
    Turns page column text
      (edit >>= fun _ => Edit.insert page.number (column + byteLength text) more)
      (new ++ more.toList) :=
  turns_iff.mpr ((turns_iff.mp turns).insert visible more)

theorem inside (left right : List Patch) {room : Nat}
    (turns : Turns page (column + widthOf left) text edit new)
    (fits : byteLength (textOf left) + (byteLength text + byteLength new) +
      byteLength (textOf right) ≤ room) :
    Rewrites page AnyText AnyText room column (left ++ [kept text] ++ right) edit
      (left ++ [made (byteLength text) new] ++ right) :=
  Rewrites.inside left right (turns_iff.mp turns) (fun _ _ => trivial) (fun _ _ => trivial) fits

/-- Stretches that are turned each on its own are turned together. -/
theorem of_rewrites {parts : List (List Char)} {after : List Patch}
    (rewrites : Rewrites page AnyText AnyText (byteLength parts.flatten + byteLength (textOf after))
      column (parts.map kept) edit after)
    (width : widthOf after = byteLength parts.flatten) :
    Turns page column parts.flatten edit (textOf after) :=
  turns_iff.mpr (Rewrites.coarsen rewrites (coarsens_cuts parts) (width ▸ coarsens_made after))

/-- Three neighbouring stretches, of which the middle one is wrapped once all are turned. -/
theorem wrap {left' right' : List Char} {last : Edit Unit}
    (first : Turns page column left edit left')
    (second : Turns page (column + byteLength left) text next new)
    (third : Turns page (column + byteLength left + byteLength text) right last right')
    (shown : left' ≠ []) (visible : new ≠ []) (opener closer : String) :
    Turns page column (left ++ text ++ right)
      ((edit >>= fun _ => next >>= fun _ => last) >>= fun _ =>
        Edit.insert page.number (column + byteLength left) opener >>= fun _ =>
          Edit.insert page.number (column + byteLength left + byteLength text) closer)
      (left' ++ opener.toList ++ (new ++ closer.toList) ++ right') := by
  have sizes : byteLength opener.toList = Text.size opener ∧ byteLength closer.toList = Text.size closer :=
    ⟨rfl, rfl⟩
  let after : List Patch := [made (byteLength left) (left' ++ opener.toList),
    made (byteLength text) (new ++ closer.toList), made (byteLength right) right']
  let room := byteLength [left, text, right].flatten + byteLength (textOf after)
  have fits : byteLength left + byteLength text + byteLength right + byteLength left' +
      Text.size opener + byteLength new + Text.size closer + byteLength right' ≤ room := by
    simp [room, after, sizes]; omega
  have atLeft := @inside page column left left' edit [] [kept text, kept right] room
    (by simpa using first) (by simp; omega)
  have atText := @inside page column text new next [made (byteLength left) left'] [kept right] room
    (by simpa using second) (by simp; omega)
  have atRight := @inside page column right right' last
    [made (byteLength left) left', made (byteLength text) new] [] room
    (by simpa [Nat.add_assoc] using third) (by simp; omega)
  have opened : Rewrites page AnyText AnyText room column
      [made (byteLength left) left', made (byteLength text) new, made (byteLength right) right']
      (Edit.insert page.number (column + byteLength left) opener)
      [made (byteLength left) (left' ++ opener.toList), made (byteLength text) new,
        made (byteLength right) right'] :=
    Rewrites.insertInside [] _ shown opener (by simp; omega)
  have closed : Rewrites page AnyText AnyText room column
      [made (byteLength left) (left' ++ opener.toList), made (byteLength text) new,
        made (byteLength right) right']
      (Edit.insert page.number (column + byteLength left + byteLength text) closer) after :=
    Rewrites.insertInside [made (byteLength left) (left' ++ opener.toList)] _ visible closer
      (by simp; omega)
  have all := @of_rewrites page column _ [left, text, right] after
    ((atLeft.seq (atText.seq atRight)).seq (opened.seq closed)) (by simp [after])
  simpa [after] using all

theorem replace (visible : text ≠ []) (new : String) :
    Turns page column text (Edit.replace page.number column (byteLength text) new) new.toList := by
  intro front back start fits
  have size : byteLength new.toList = Text.size new := rfl
  have yields := page.yields_replace front [] [kept text] back new (by simpa using visible)
    (by simp; omega)
  rw [← start]
  simpa using yields

theorem replaceNode {κ : Type} [ToString κ] {node : Node κ} (spans : node.Spans page.number column text)
    (new : String) : Turns page column text (Edit.replaceNode node new) new.toList := by
  rw [Edit.replaceNode_eq spans.start spans.stop]
  exact replace spans.visible new

/-- A node that is replaced as long as it is as it was read. -/
theorem replaceUntouched {κ : Type} [ToString κ] {tree : Tree κ} {node : Node κ}
    (prints : Prints tree.lines page.number column text)
    (spans : node.Spans page.number column text) (new : String) :
    Turns page column text (discard (Edit.replaceUntouched tree node new)) new.toList := by
  intro front back start fits
  refine yields_replaceUntouched ?_ (replaceNode spans new front back start fits)
  intro e shown
  have onPage : page.Shows (front ++ [kept text] ++ back) e := by simpa using shown
  have current : e.textOf node = .ofList text := by
    rw [Editor.textOf, spans.start, spans.stop, ← start]
    simpa using onPage.textSpan
  rw [Editor.isUntouched, prints.treeText spans, current, beq_self_eq_true]

section Tokens

variable {κ : Type} [ToString κ] {token previous : Token κ} {tokens : List (Token κ)}

theorem replaceToken (on : token.On page.number column text) (new : String) :
    Turns page column text (Edit.replaceToken token new) new.toList := by
  rw [Edit.replaceToken, on.stop, on.line, on.column, on.size, if_pos rfl]
  exact replace on.visible new

theorem removeToken {run : List Char} (on : token.On page.number column text)
    (blank : ∀ c ∈ run, Text.isIndent c = true) :
    TurnsIn page EndsLoose StartsTight column (text ++ run) (Edit.removeToken token) [] := by
  have shown : textOf [kept text] ≠ [] := by simpa using on.visible
  rw [Edit.removeToken, Edit.replaceToken, on.stop, on.line, on.column, on.size, if_pos rfl]
  have removed := @Rewrites.remove page (byteLength (text ++ run) + 0) column [kept text] run shown blank
  refine Rewrites.coarsen (by simpa using removed) (coarsens_cut text run) ?_
  simpa using Coarsens.refl [made (byteLength text + byteLength run) []]

/-- Tokens that are removed one by one, each with the gap in front of it. -/
theorem removeFollowing (trail : Trail page.number column text tokens)
    (stop : previous.stop = ⟨page.number, column⟩) :
    Turns page column text (Edit.removeFollowing (some previous) tokens) [] := by
  induction trail generalizing previous with
  | nil => exact keep page _ []
  | @cons column gap text rest token tokens on later ih =>
    have width : column + byteLength gap + byteLength text - column = byteLength (gap ++ text) := by
      rw [Text.byteLength_append]
      omega
    have here : Turns page column (gap ++ text)
        (Edit.replace page.number column (byteLength (gap ++ text)) "") [] :=
      replace (by simp [on.visible]) ""
    have others := ih (by rw [on.stop, Text.byteLength_append, Nat.add_assoc])
    rw [Edit.removeFollowing]
    simp only [stop, on.stop, on.line, and_self, if_true, width]
    exact here.append others

/-- A node whose first token is replaced and whose other tokens go. -/
theorem replaceTokenwise {node : Node κ} (spans : node.Spans page.number column text)
    (new : String) : Turns page column text (Edit.replaceTokenwise node new) new.toList := by
  have trail := spans.trail
  have head := node.head?_tokens
  rw [Edit.replaceTokenwise]
  generalize node.tokens = tokens at trail head
  cases trail with
  | nil => cases head
  | @cons _ gap text rest token tokens on later =>
    obtain rfl : token = node.startToken := by simpa using head
    have none : gap = [] := by
      have same := congrArg Position.column (on.start.symm.trans spans.start)
      exact Text.byteLength_eq_zero.mp (by simpa using same)
    subst none
    have here := replaceToken (by simpa using on) new
    have others := removeFollowing later (by simpa using on.stop)
    simpa using here.append others

end Tokens

end Turns

end SqlFerry
