import SqlFerry.Proofs.Pass.Enclosing
import SqlFerry.Proofs.Pass.Parentheses
import SqlFerry.Proofs.Tsql.Regular

/-! The walk that puts parentheses around conditions and parameters. It leaves of a part of the text the tokens
that stood there and the parentheses of the tree, wherever the part stands; below the statements with
conditions and the procedures this follows from what it leaves of their parts. -/
namespace SqlFerry

open Strip
open Text (byteLength)
open Tsql (Kind Piece Sound Plain plain_leaf Regular Header spread wrapped openParen closeParen)
open Tsql.Piece (stripsOf)

/-- The edit leaves of the nodes what the walk is to leave, wherever they stand. -/
abbrev Repairs : Edit Unit → List (Node Kind) → Prop := Remakes Parenthesized wrapped

section Repairs

variable {edit : Edit Unit} {nodes : List (Node Kind)}

theorem map_wrapped_plain (plain : Plain nodes) : nodes.map wrapped = nodes := by
  rw [← Tsql.wrapping_all]
  exact Tsql.wrapping.all_plain plain

theorem Repairs.plain (plain : Plain nodes) : Repairs (pure ()) nodes :=
  inserting_parenthesized.remakes (map_wrapped_plain plain)

theorem Repairs.conditional {id : Nat} {kind : Kind} {first condition : Node Kind} {others : List (Node Kind)}
    (isKind : kind = .ifStatement ∨ kind = .whileStatement) (isLeaf : first.isLeaf = true) (plain : Plain [condition])
    (below : Repairs edit others) :
    Repairs (edit >>= fun _ => if condition.kind ≠ .parenExpression then
        Edit.insertBefore condition "(" >>= fun _ => Edit.insertAfter condition ")" else pure ())
      [.rule id kind first (condition :: others)] := by
  cases first with
  | rule => cases isLeaf
  | leaf leaf index word =>
  intro gaps front back rest sound opens short room
  have sameCondition : wrapped condition = condition := List.head_eq_of_cons_eq (map_wrapped_plain plain)
  have old : Node.tokensOf [.rule id kind (.leaf leaf index word) (condition :: others)] =
      (word :: condition.tokens) ++ Node.tokensOf others := by simp [Node.tokensOf, Node.tokens]
  have new : Node.tokensOf ([.rule id kind (.leaf leaf index word) (condition :: others)].map wrapped) =
      (word :: (Tsql.wrappedCondition condition).tokens) ++ Node.tokensOf (others.map wrapped) := by
    have rewrapped : Tsql.rewrapped kind (condition :: others.map wrapped) =
        Tsql.wrappedCondition condition :: others.map wrapped := by rcases isKind with rfl | rfl <;> rfl
    simp [wrapped, Tsql.wrappedOf_eq_map, sameCondition, rewrapped, Node.tokensOf, Node.tokens]
  rw [new]
  rw [old, Tsql.spread_append] at sound short room ⊢
  simp only [Tsql.Piece.oldOf_append, Text.byteLength_append] at short room
  obtain ⟨left, right⟩ := Tsql.sound_append.mp sound
  have start := below gaps (front ++ stripsOf (spread gaps (word :: condition.tokens))) back rest (by simpa using right)
    opens (by simp only [oldOf_append, Tsql.Piece.oldOf_stripsOf, Text.byteLength_append]; omega)
    (by simp only [newOf_append, Tsql.Piece.newOf_stripsOf, newOf_spread, Text.byteLength_append]; omega)
  rw [Tsql.Piece.stripsOf_append, List.append_assoc (stripsOf _), ← List.append_assoc front]
  refine start.bind fun _ e dressed => ?_
  obtain ⟨ps, dressed, draft⟩ := dressed
  simp only [oldOf_append, Tsql.Piece.oldOf_stripsOf] at dressed
  rw [← dressed.same] at left
  split
  · next bare =>
    obtain ⟨-, -, stands, inCondition⟩ := Tsql.sound_spread_cons.mp left
    have shown : Shown (front ++ stripsOf (spread gaps [word])) := by
      have behind := shown_kept (front ++ kept (gaps word)) stands.sameLine.1
      simpa [Tsql.Piece.strips] using behind
    have size := dressed.size
    have long := left.length_le
    rw [dressed.same] at size
    rw [condition.tokens_eq_cons, List.length_cons, List.length_cons, ← condition.tokens_eq_cons] at long
    simp only [Tsql.spread_cons, Tsql.Piece.oldOf_cons, Tsql.Piece.old, Text.byteLength_append] at short room long
    have edits := @yields_enclosing gaps condition _ _ inCondition (front ++ stripsOf (spread gaps [word]))
      (stripsOf ps ++ back) (by simp) shown (dressed.opens back opens) (by simp only [Text.byteLength_append]; omega)
      (by simp; omega)
    obtain ⟨_, e', ran, draft'⟩ := edits e (by simpa using draft)
    refine ⟨_, e', ran, (spread gaps [word] ++ enclosing gaps condition) ++ ps, ?_, by simpa using draft'⟩
    have both := (Dressed.enclosing left).append inserting_parenthesized (by simpa [oldOf_enclosing] using dressed)
    simpa [Tsql.wrappedCondition, bare, Tsql.enclosed, Node.tokens, Node.tokensOf] using both
  · next isParen =>
    have isParen : condition.kind = .parenExpression := by simpa using isParen
    refine ⟨_, e, rfl, spread gaps (word :: condition.tokens) ++ ps, ?_, by simpa using draft⟩
    rw [Tsql.wrappedCondition, if_pos isParen]
    exact (inserting_parenthesized.dressed left).append inserting_parenthesized dressed

section Procedure

variable {id : Nat} {first : Node Kind} {children words parameters others body : List (Node Kind)} {name : Node Kind}
  (header : Header (first :: children) words name parameters others body)

include header

theorem yields_wrapParameters {gaps : Token Kind → List Char} {front back : List Strip} {rest : List Char}
    (sound : Sound (oldOf front)
      (spread gaps (Node.tokensOf words ++ name.tokens ++ Node.tokensOf parameters)) rest) (opens : Opens back)
    (short : byteLength (oldOf front) + byteLength (Tsql.Piece.oldOf
      (spread gaps (Node.tokensOf words ++ name.tokens ++ Node.tokensOf parameters))) ≤ columnLimit)
    (room : byteLength (newOf front) + 2 * byteLength (Tsql.Piece.oldOf
      (spread gaps (Node.tokensOf words ++ name.tokens ++ Node.tokensOf parameters))) + byteLength (newOf back) ≤
        columnLimit) :
    Yields (Draft (front ++
        (stripsOf (spread gaps (Node.tokensOf words ++ name.tokens ++ Node.tokensOf parameters)) ++ back)))
      (Pass.wrapParameters (.rule id .createProcedure first children))
      fun _ e => ∃ ps, Dressed Parenthesized gaps (oldOf front) rest
          (Node.tokensOf words ++ name.tokens ++ Node.tokensOf parameters)
          (Node.tokensOf words ++ name.tokens ++ Node.tokensOf (Tsql.wrappedBehind name parameters)) ps ∧
        Draft (front ++ (stripsOf ps ++ back)) e := by
  have two : 2 ≤ (Node.tokensOf words ++ name.tokens).length := by
    obtain ⟨word, more, rfl⟩ := List.exists_cons_of_ne_nil header.opened
    rw [Node.tokensOf, word.tokens_eq_cons, name.tokens_eq_cons]
    simp
    omega
  have isLast : (Node.tokensOf words ++ name.tokens).getLast? = some name.stopToken := by
    rw [List.getLast?_append, name.getLast?_tokens]
    rfl
  have isName : (Node.rule id .createProcedure first children).firstChild? .qualifiedName = some name := header.find?_name
  have isListed : (Node.rule id .createProcedure first children).firstChild? .procedureParameters = parameters.head? :=
    header.find?_parameters
  generalize Node.tokensOf words ++ name.tokens = xs at *
  rw [Pass.wrapParameters, isName]
  simp only [isListed]
  rw [Tsql.spread_append] at sound
  obtain ⟨left, right⟩ := Tsql.sound_append.mp sound
  have place : name.stop = Position.origin.advance (oldOf front ++ Tsql.Piece.oldOf (spread gaps xs)) := left.stop isLast
  have isLine := congrArg Position.line place
  have long := left.length_le
  have shown : Shown (front ++ stripsOf (spread gaps xs)) := by
    rw [stripsOf_spread]
    refine shown_kept front fun none => ?_
    rw [none, Text.byteLength_nil] at long
    omega
  simp only [Tsql.spread_append, Tsql.Piece.oldOf_append, Text.byteLength_append] at short room
  rcases header.listed with rfl | ⟨id', node, more, rfl⟩
  · simp only [List.head?_nil, Node.tokensOf, List.append_nil] at left short room ⊢
    have edits := @yields_emptyListing (front ++ stripsOf (spread gaps xs)) back name (by simpa using place) shown opens
      (by simp only [oldOf_append, Tsql.Piece.oldOf_stripsOf, Text.byteLength_append]; omega)
      (by simp only [newOf_append, Tsql.Piece.newOf_stripsOf, newOf_spread, Text.byteLength_append]; omega)
    rw [List.append_assoc] at edits
    refine edits.weaken (fun _ draft => draft) fun _ e draft => ?_
    exact ⟨_, .emptyListing two isLine left, by simpa using draft⟩
  · have isTokens : Node.tokensOf [.rule id' .procedureParameters node more] =
        (Node.rule id' .procedureParameters node more).tokens := by simp [Node.tokensOf]
    have isWrapped : Tsql.wrappedBehind name [.rule id' .procedureParameters node more] =
        [Tsql.wrappedParameters name (.rule id' .procedureParameters node more)] := rfl
    rw [isWrapped]
    rw [isTokens] at sound right short room ⊢
    generalize isNode : Node.rule id' .procedureParameters node more = parameters at *
    simp only [List.head?_cons]
    split
    · next bare =>
      have newTokens : Node.tokensOf [Tsql.wrappedParameters name parameters] =
          openParen name.stop.line :: (parameters.tokens ++ [closeParen parameters.stop.line]) := by
        rw [Tsql.wrappedParameters, if_neg bare, ← isNode]
        simp [Node.tokensOf, Node.tokens, Node.children, Node.tokensOf_append]
      have edits := @yields_listing gaps name.stop.line parameters _ rest right (front ++ stripsOf (spread gaps xs)) back
        name (by simp) shown opens place rfl (by simp only [Text.byteLength_append]; omega)
        (by simp only [newOf_append, Tsql.Piece.newOf_stripsOf, newOf_spread, Text.byteLength_append]; omega)
      rw [newTokens, Tsql.spread_append, Tsql.Piece.stripsOf_append, List.append_assoc (stripsOf _), ← List.append_assoc front]
      refine edits.weaken (fun _ draft => draft) fun _ e draft => ?_
      exact ⟨_, .listing two isLine (by rwa [Tsql.spread_append]), by simpa using draft⟩
    · next isParen =>
      have isParen : parameters.startToken.kind = .leftParen := by simpa using isParen
      rw [Tsql.wrappedParameters, if_pos isParen, Node.tokensOf, Node.tokensOf, List.append_nil]
      exact Yields.pure fun e draft => ⟨_, inserting_parenthesized.dressed (by rwa [Tsql.spread_append]), draft⟩

/-- The parameters of a procedure get their parentheses once its statements have been visited. -/
theorem Repairs.procedure (below : Repairs edit body) :
    Repairs (edit >>= fun _ => Pass.wrapParameters (.rule id .createProcedure first children))
      [.rule id .createProcedure first children] := by
  intro gaps front back rest sound opens short room
  have old : Node.tokensOf [.rule id .createProcedure first children] =
      Node.tokensOf words ++ name.tokens ++ Node.tokensOf parameters ++ (Node.tokensOf others ++ Node.tokensOf body) := by
    have whole := congrArg Node.tokensOf header.whole
    simpa [Node.tokensOf, Node.tokens, Node.tokensOf_append] using whole
  have new : Node.tokensOf ([.rule id .createProcedure first children].map wrapped) =
      Node.tokensOf words ++ name.tokens ++ Node.tokensOf (Tsql.wrappedBehind name parameters) ++
        (Node.tokensOf others ++ Node.tokensOf (body.map wrapped)) := by
    have whole := congrArg Node.tokensOf (header.wrapped id)
    rw [Tsql.tokensOf_closed] at whole
    simpa [Tsql.wrapping_all, Tsql.closed, Node.tokensOf, Node.tokensOf_append] using whole
  rw [new]
  rw [old, Tsql.spread_append] at sound short room ⊢
  have yields (front back) := @yields_wrapParameters id first children words parameters others body name header gaps front back
  generalize Node.tokensOf words ++ name.tokens = xs at *
  generalize xs ++ Node.tokensOf parameters = ys at *
  rw [Tsql.spread_append gaps (Node.tokensOf others)] at sound short room ⊢
  obtain ⟨inHead, inRest⟩ := Tsql.sound_append.mp sound
  obtain ⟨inOthers, inBody⟩ := Tsql.sound_append.mp inRest
  simp only [Tsql.Piece.oldOf_append, Text.byteLength_append, Tsql.Piece.stripsOf_append] at short room inBody ⊢
  have start := below gaps (front ++ stripsOf (spread gaps ys) ++ stripsOf (spread gaps (Node.tokensOf others))) back rest
    (by simpa using inBody) opens
    (by simp only [oldOf_append, Tsql.Piece.oldOf_stripsOf, Text.byteLength_append]; omega)
    (by simp only [newOf_append, Tsql.Piece.newOf_stripsOf, newOf_spread, Text.byteLength_append]; omega)
  simp only [List.append_assoc, oldOf_append, Tsql.Piece.oldOf_stripsOf] at start ⊢
  refine start.bind fun _ e dressed => ?_
  obtain ⟨ps, dressed, draft⟩ := dressed
  have size := dressed.size
  rw [dressed.same] at size
  have behind := opens_spread gaps (Node.tokensOf others) (dressed.opens back opens)
  have edits := yields front (stripsOf (spread gaps (Node.tokensOf others)) ++ (stripsOf ps ++ back)) inHead behind (by omega)
    (by simp only [newOf_append, Tsql.Piece.newOf_stripsOf, newOf_spread, Text.byteLength_append]; omega)
  obtain ⟨_, e', ran, qs, dressed', draft'⟩ := edits e draft
  refine ⟨_, e', ran, qs ++ (spread gaps (Node.tokensOf others) ++ ps), ?_, by simpa using draft'⟩
  rw [← dressed.same] at inOthers
  rw [Tsql.Piece.oldOf_append, ← dressed.same, ← Tsql.Piece.oldOf_append] at dressed'
  have tail := (inserting_parenthesized.dressed inOthers).append inserting_parenthesized (by simpa using dressed)
  rw [← List.append_assoc xs]
  exact dressed'.append inserting_parenthesized (by rw [dressed'.same]; exact tail)

end Procedure

end Repairs

section Visit

variable {recur : Site Kind → Edit Unit} {site : Site Kind}

theorem repairParentheses_conditional (isKind : site.kind = .ifStatement ∨ site.kind = .whileStatement) :
    Pass.repairParentheses recur site = Pass.wrapCondition recur site := by
  rcases isKind with isKind | isKind <;> rw [Pass.repairParentheses, isKind]

theorem repairParentheses_procedure (isKind : site.kind = .createProcedure) :
    Pass.repairParentheses recur site = ((site.firstChild? .procedureBody).elim (pure ()) recur >>= fun _ =>
      Pass.wrapParameters site.node) := by
  rw [Pass.repairParentheses, isKind]
  cases site.firstChild? .procedureBody <;> rfl

theorem repairParentheses_ordinary (ordinary : site.kind.isOrdinary = true) :
    Pass.repairParentheses recur site = Visit.children recur site := by
  refine Pass.repairParentheses_passes (fun member => ?_) recur site rfl
  simp only [List.mem_cons, List.not_mem_nil, or_false] at member
  rcases member with isKind | isKind | isKind <;> rw [isKind] at ordinary <;> cases ordinary

end Visit

/-! Where no parentheses are missing. -/

/-- No parentheses are missing at the node itself. -/
structure Settled (node : Node Kind) : Prop where
  condition : node.kind = .ifStatement ∨ node.kind = .whileStatement →
    ∀ condition ∈ node.child? 1, condition.kind = .parenExpression
  parameters : node.kind = .createProcedure → node.firstChild? .qualifiedName = none ∨
    ∃ parameters, node.firstChild? .procedureParameters = some parameters ∧ parameters.startToken.kind = .leftParen

theorem Settled.wrapParameters {node : Node Kind} (settled : Settled node) (isKind : node.kind = .createProcedure) :
    Pass.wrapParameters node = pure () := by
  unfold Pass.wrapParameters
  rcases settled.parameters isKind with none | ⟨parameters, isParameters, isParen⟩
  · rw [none]
  · rw [isParameters]
    split
    · rfl
    · simp [isParen]

/-- Where no parentheses are missing the walk does nothing. -/
theorem run_settled {site : Site Kind} (settled : ∀ node ∈ site.node.descendants, Settled node) (depth : Nat) :
    Pass.repairParentheses.run depth site = pure () := by
  induction depth generalizing site with
  | zero => rfl
  | succ depth ih =>
    have below (child : Site Kind) (isChild : child ∈ site.children) : Pass.repairParentheses.run depth child = pure () :=
      ih fun node member => settled node (descendants_of_site isChild member)
    have here := settled site.node (Node.mem_descendants _)
    have children : Visit.children (Pass.repairParentheses.run depth) site = pure () := forM_eq_pure below
    rw [Visit.run]
    by_cases isKind : site.kind = .ifStatement ∨ site.kind = .whileStatement
    · rw [repairParentheses_conditional isKind, Pass.wrapCondition]
      split
      · rfl
      · next condition isCondition =>
        rw [children]
        simp [here.condition isKind condition isCondition]
    by_cases isProcedure : site.kind = .createProcedure
    · rw [repairParentheses_procedure isProcedure, here.wrapParameters isProcedure]
      cases isBody : site.firstChild? .procedureBody with
      | none => rfl
      | some body =>
        rw [Option.elim_some, below body (List.mem_of_find?_eq_some isBody)]
        rfl
    · rw [repairParentheses_ordinary (Tsql.Kind.isOrdinary_of_ne isKind isProcedure), children]

theorem settled_of_plain {node : Node Kind} (plain : Plain [node]) : ∀ below ∈ node.descendants, Settled below := by
  intro below member
  cases below with
  | leaf id index token => exact ⟨nofun, fun _ => .inl rfl⟩
  | rule id kind first rest =>
    have other : kind.isRemade = false := by
      have either := plain (.rule id kind first rest) (by simpa [Node.descendantsOf] using member)
      exact either.resolve_left nofun
    constructor
    · rintro (rfl | rfl) <;> cases other
    · rintro rfl
      cases other

theorem rewrapped_ordinary {kind : Kind} (ordinary : kind.isOrdinary = true) (nodes : List (Node Kind)) :
    Tsql.rewrapped kind nodes = nodes := by
  unfold Tsql.rewrapped
  split
  · cases ordinary
  · cases ordinary
  · cases ordinary
  · rfl

theorem repairs_run {site : Site Kind} {depth : Nat} (regular : ∀ node ∈ site.node.descendants, Regular node)
    (enough : site.node.height ≤ depth) : Repairs (Pass.repairParentheses.run depth site) [site.node] := by
  induction depth generalizing site with
  | zero => cases node : site.node <;> simp [node, Node.height] at enough
  | succ depth ih =>
    cases node : site.node with
    | leaf id index token =>
      have plain := plain_leaf id index token
      rw [run_settled (by rw [node]; exact settled_of_plain plain)]
      exact Repairs.plain plain
    | rule id kind first rest =>
      have nodes : site.children.map (·.node) = first :: rest := by
        rw [Site.children, Site.map_node_row, node]
        rfl
      have below (child : Site Kind) (isChild : child ∈ site.children) :
          Repairs (Pass.repairParentheses.run depth child) [child.node] := by
        refine ih (fun node member => regular node (descendants_of_site isChild member)) ?_
        exact Nat.le_of_lt_succ (Nat.lt_of_lt_of_le (height_of_site isChild) enough)
      have isKind : site.kind = kind := by rw [Site.kind, node]; rfl
      have here := regular site.node (Node.mem_descendants _)
      rw [node] at here
      rw [Visit.run]
      by_cases conditional : kind = .ifStatement ∨ kind = .whileStatement
      · obtain ⟨isLeaf, condition, others, rfl, plain⟩ := here.1 conditional
        obtain ⟨s₁, more, isChildren, rfl, others'⟩ := List.map_eq_cons_iff.mp nodes
        obtain ⟨s₂, more', rfl, rfl, rfl⟩ := List.map_eq_cons_iff.mp others'
        have second : site.node.child? 1 = some s₂.node := by rw [node]; rfl
        have word : Plain [s₁.node] := by
          cases isWord : s₁.node with
          | leaf id index token => exact plain_leaf id index token
          | rule => rw [isWord] at isLeaf; cases isLeaf
        have walk : Visit.children (Pass.repairParentheses.run depth) site =
            more'.forM (Pass.repairParentheses.run depth) := by
          rw [Visit.children, isChildren]
          change Pass.repairParentheses.run depth s₁ >>= (fun _ => Pass.repairParentheses.run depth s₂ >>= fun _ =>
            more'.forM (Pass.repairParentheses.run depth)) = _
          rw [run_settled (settled_of_plain word), run_settled (settled_of_plain plain)]
          rfl
        rw [repairParentheses_conditional (isKind ▸ conditional), Pass.wrapCondition, second, walk]
        refine Repairs.conditional conditional isLeaf plain (Remakes.forM inserting_parenthesized fun child member => below child ?_)
        rw [isChildren]
        exact List.mem_cons_of_mem _ (List.mem_cons_of_mem _ member)
      by_cases procedure : kind = .createProcedure
      · subst procedure
        obtain ⟨words, name, parameters, others, body, header⟩ := here.2 rfl
        have found := header.find?_body
        rw [← nodes, List.find?_map] at found
        rw [repairParentheses_procedure isKind, node]
        refine Repairs.procedure header ?_
        change Repairs ((site.children.find? fun child => child.node.kind == .procedureBody).elim _ _) _
        cases isBody : site.children.find? fun child => child.node.kind == .procedureBody with
        | none =>
          obtain rfl : body = [] := List.head?_eq_none_iff.mp (by simpa [Function.comp_def, isBody] using found.symm)
          exact Repairs.plain Tsql.plain_nil
        | some child =>
          have isHead : body.head? = some child.node := by simpa [Function.comp_def, isBody] using found.symm
          obtain rfl : body = [child.node] := by
            rcases header.ended with rfl | ⟨last, rfl, -⟩
            · cases isHead
            · simpa using isHead
          exact below child (List.mem_of_find?_eq_some isBody)
      · have ordinary := Tsql.Kind.isOrdinary_of_ne conditional procedure
        rw [repairParentheses_ordinary (isKind ▸ ordinary)]
        have children := Remakes.forM inserting_parenthesized below
        rw [nodes] at children
        refine children.rule ?_
        simp [wrapped, Tsql.wrappedOf_eq_map, rewrapped_ordinary ordinary, Node.tokens, Node.tokensOf]

end SqlFerry
