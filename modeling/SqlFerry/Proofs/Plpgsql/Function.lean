import SqlFerry.Proofs.Plpgsql.Layout
import SqlFerry.Proofs.Plpgsql.Routine
import SqlFerry.Proofs.Tree.WellFormed

/-! From the tree of one procedure to the lines of its function. -/
namespace SqlFerry

open Text (byteLength)
open Patch

theorem Node.filter_postOrder {κ : Type} {test : Node κ → Bool} {node : Node κ} (passes : test node = true)
    (others : ∀ child ∈ node.children, ∀ below ∈ child.descendants, test below = false) :
    node.postOrder.filter test = [node] := by
  have none : (node.children.flatMap postOrder).filter test = [] := by
    refine List.filter_eq_nil_iff.mpr fun below member => ?_
    obtain ⟨child, isChild, inside⟩ := List.mem_flatMap.mp member
    rw [others child isChild below (child.postOrder_perm.mem_iff.mp inside)]
    exact Bool.false_ne_true
  rw [node.postOrder_eq, List.filter_append, none, List.nil_append, List.filter_singleton, passes]
  rfl

namespace Plpgsql

open Tsql (Kind Form Forms Code space)

variable {ctx : Context} {body : List Code} {number : Nat}

/-- Where the header of the procedure ends and where its body does. -/
def layoutAt (number : Nat) (body : List Code) : FunctionLayout where
  headerEnd := ⟨number, byteLength (headerFront ++ "AS".toList)⟩
  bodyEnd := ⟨number, byteLength (headerFront ++ "AS".toList ++ (Code.body .ended body).text)⟩
  locals := []

theorem layoutOf?_procedure {node : Node Kind} (fills : (Tsql.procedure .ended body).Fills number 0 node)
    (undeclared : ctx.declarations = {}) : layoutOf? ctx node = some (layoutAt number body) := by
  obtain ⟨create, proc, as, name, parameters, rest, header, -, -, -, asOn, atBody⟩ :=
    headerAt_of_fills fills
  have asStop : as.stop = ⟨number, byteLength (headerFront ++ "AS".toList)⟩ := by
    rw [asOn.stop, Text.byteLength_append, Nat.zero_add]
  obtain ⟨i, j, k, l, m, n, nodes⟩ := header.nodes
  have found : node.firstChild? .procedureBody = rest.find? (·.kind == .procedureBody) := by
    have leaf (i j : Nat) (token : Token Kind) : (Node.leaf i j token).kind = token.kind := rfl
    simp only [Node.firstChild?, nodes, List.find?_cons, leaf, header.isCreate.2, header.isProc.2,
      header.isAs.2, header.isName.1, header.isList.1]
    rfl
  have bodyStop : ((rest.find? (·.kind == .procedureBody)).map (·.stop)).getD as.stop =
      ⟨number, byteLength (headerFront ++ "AS".toList ++ (Code.body .ended body).text)⟩ := by
    cases body with
    | nil =>
      obtain rfl : rest = [] := atBody
      rw [Code.body, Forms.text, List.append_nil]
      exact asStop
    | cons s ss =>
      obtain ⟨node, _, rfl, atNode, rfl⟩ := atBody
      have isBody : node.kind = .procedureBody := atNode.kind
      have stop := atNode.spans.stop
      simp only [List.find?_cons, isBody, beq_self_eq_true, Option.map_some, Option.getD_some, stop, Code.body,
        Forms.text, List.append_nil, Text.byteLength_append, Nat.zero_add, Nat.add_assoc]
  have noLocals : ctx.declarations.variablesOf node = [] := by rw [undeclared]; rfl
  rw [layoutOf?, header.wordToken?_as, found]
  rw [Option.bind_eq_bind, Option.bind_some, bodyStop, asStop, noLocals]
  rfl

theorem layouts_program {root : Node Kind} (isRoot : ctx.tree.root = some root)
    (fills : (Tsql.program .ended body).Fills number 0 root) (undeclared : ctx.declarations = {}) :
    layouts ctx = [layoutAt number body] := by
  obtain ⟨id, _, _, rfl, ⟨id', node, _, rfl, atNode, rfl⟩, rfl⟩ := fills
  have isProcedure : (node.kind == .createProcedure) = true := beq_iff_eq.mpr atNode.kind
  have other : ∀ kind ∈ Tsql.partKinds, (kind == .createProcedure) = false := by decide
  have alone : node.postOrder.filter (·.kind == .createProcedure) = [node] :=
    Node.filter_postOrder isProcedure fun child isChild below isBelow =>
      other _ (Tsql.kinds_procedure .ended body _ (Tsql.kinds_below atNode.shape isChild isBelow))
  have order : (Node.rule id Kind.compileUnit (.rule id' .statement node []) []).postOrder =
      node.postOrder ++ [.rule id' .statement node [], .rule id .compileUnit (.rule id' .statement node []) []] := by
    simp [Node.postOrder, Node.postOrderOf]
  have outer : [Node.rule id' Kind.statement node [], .rule id .compileUnit (.rule id' .statement node []) []].filter
      (·.kind == .createProcedure) = [] := rfl
  rw [layouts, isRoot]
  simp only [order, List.filter_append, alone, outer, List.append_nil, List.filterMap_cons,
    layoutOf?_procedure atNode undeclared, List.filterMap_nil]

theorem variableName_eq (undeclared : ctx.declarations = {}) :
    ctx.variableName = variableName ctx.options false := by
  funext name
  rw [Context.variableName, undeclared]
  rfl

theorem returnType_eq {node : Node Kind} (fills : (Tsql.procedure .ended body).Fills number 0 node)
    (undeclared : ctx.declarations = {}) :
    Tsql.returnType ctx.options ctx.tree ctx.declarations node = ctx.options.defaultReturnType := by
  have noOutputs : ctx.declarations.outputsOf node = [] := by rw [undeclared]; rfl
  have nothing : Tsql.lastReturned? node = none := by
    rw [Tsql.lastReturned?, List.getLast?_eq_none_iff, List.filterMap_eq_nil_iff]
    intro below member
    split
    · next isReturn => exact child?_of_noValue (noValue_procedure body) fills below member (beq_iff_eq.mp isReturn)
    · rfl
  rw [Tsql.returnType, noOutputs, nothing]

theorem undeclared_program {tree : Tree Kind} {root : Node Kind} (isRoot : tree.root = some root)
    (fills : (Tsql.program .ended body).Fills number 0 root) : Tsql.Declarations.ofTree tree = {} := by
  have none : ∀ kind ∈ Tsql.programKinds, kind ∉ declaringKinds := by decide
  refine declarations_eq_nil fun node member => ?_
  rw [Tree.descendants, isRoot] at member
  exact none _ (Tsql.kinds_program .ended body _ (fills.kinds node member))

/-- The walk over a program is the conversion of its procedure. -/
theorem runTree_program {root : Node Kind} {page : Page} (isRoot : ctx.tree.root = some root)
    (fills : (Tsql.program .ended body).Fills page.number 0 root) : ∃ recur site,
      (convert ctx).runTree ctx.tree = convertProcedure ctx recur site ∧
      (Tsql.procedure .ended body).Fills page.number 0 site.node ∧
      ∀ child ∈ site.node.children, (convert ctx).Reaches child recur := by
  have reaches : (convert ctx).Reaches (Site.ofNode root).node ((convert ctx).run root.height) :=
    ⟨root.height, Nat.le_refl _, rfl⟩
  obtain ⟨below, top, first, atTop, reachesTop, -⟩ := recur_single (by decide) reaches fills
  obtain ⟨recur, site, second, atSite, inside, -⟩ := recur_statement reachesTop atTop
  have isProcedure : site.kind = .createProcedure := atSite.kind
  refine ⟨recur, site, ?_, atSite, inside⟩
  rw [Visit.runTree, isRoot]
  simp only [first, second, convert, isProcedure]

def targetHeader (options : Options) : List Char :=
  targetFront ++ ("RETURNS " ++ options.defaultReturnType ++ " AS").toList

def functionOf (options : Options) (body : List Code) : List String :=
  headerLines (.ofList (targetHeader options)) ++ ["$$", "BEGIN"] ++
    bodyLines options.indent (.ofList (Code.bodyTarget (variableName options false) body)) ++
    ["END;", "$$ LANGUAGE plpgsql;"]

theorem text_program (body : List Code) :
    (Tsql.program .ended body).text = headerFront ++ "AS".toList ++ (Code.body .ended body).text := by
  have front : headerFront = "CREATE".toList ++ space ++ "PROC".toList ++ space ++ "p".toList ++ "(".toList ++
      ")".toList ++ space := by decide
  rw [front]
  simp [Tsql.program, Tsql.statement, Tsql.procedure, Tsql.Style.parameters, Tsql.parens, Form.text, Forms.text]

/-- A program is laid out as a function. -/
theorem convertTree_program (options : Options) {tree : Tree Kind} {root : Node Kind}
    (isRoot : tree.root = some root) (fills : (Tsql.program .ended body).Fills 1 0 root)
    (lines : tree.lines = [.ofList (Tsql.program .ended body).text])
    (fits : byteLength (Tsql.program .ended body).text + byteLength (targetHeader options) +
      byteLength (Code.bodyTarget (variableName options false) body) ≤ columnLimit) :
    ∃ editor, (convertTree options tree).run (.ofLines [.ofList (Tsql.program .ended body).text]) =
      .ok (.replace (functionOf options body)) editor ∧ editor.diagnostics = [] := by
  let page : Page := ⟨[], [], (· = [])⟩
  let ctx := Context.ofTree options tree
  have undeclared : ctx.declarations = {} := undeclared_program isRoot fills
  have names : ctx.variableName = variableName options false := variableName_eq undeclared
  obtain ⟨recur, site, walk, atSite, reaches⟩ := @runTree_program ctx body root page isRoot fills
  have type : Tsql.returnType options tree ctx.declarations site.node = options.defaultReturnType :=
    @returnType_eq ctx body 1 site.node atSite undeclared
  rw [text_program, targetHeader] at fits
  simp only [Text.byteLength_append] at fits
  have prints : Prints tree.lines 1 (byteLength headerFront + byteLength "AS".toList) (Code.body .ended body).text :=
    ⟨[], headerFront ++ "AS".toList, [], [], by rw [lines, text_program]; simp, rfl, by simp⟩
  have rewrites := @rewrites_procedure ctx page recur site body columnLimit reaches atSite prints _ type
    (by rw [names]; omega)
  have start : page.Shows [kept headerFront, kept "AS".toList, kept (Code.body .ended body).text]
      (.ofLines [.ofList (Tsql.program .ended body).text]) := by
    refine ⟨_, Editor.holds_ofLines _, ?_, rfl⟩
    have whole : Patchwork { text := .ofList (Tsql.program .ended body).text }
        [kept (Tsql.program .ended body).text] := by
      simpa using @Patchwork.ofText (.ofList (Tsql.program .ended body).text) (by
        rw [Text.size_ofList, text_program]
        simp only [Text.byteLength_append]
        omega)
    refine whole.coarsen ?_
    rw [text_program]
    simpa using coarsens_cuts [headerFront, "AS".toList, (Code.body .ended body).text]
  obtain ⟨_, editor, ran, l, holds, patched, notes⟩ := rewrites [] [] rfl rfl rfl (by simp) _ start
  rw [names] at patched
  have texts : editor.texts =
      [.ofList (targetHeader options ++ Code.bodyTarget (variableName options false) body)] := by
    have shown := patched.text
    simp only [List.nil_append, List.append_nil, textOf_cons, text_made, textOf_nil] at shown
    rw [holds.texts, targetHeader, List.append_assoc, ← shown]
    simp [page]
  have present : row? editor.lines 1 = some l := by rw [holds.lines_eq]; rfl
  have headerEnd : editor.resolve (layoutAt 1 body).headerEnd = ⟨1, byteLength (targetHeader options)⟩ := by
    have edge := @Patchwork.resolve_edge l [.made _ targetFront, .made _ _] [.made _ _] patched
    rw [layoutAt, Editor.resolve_of_row? present, targetHeader]
    simpa using edge
  have bodyEnd : editor.resolve (layoutAt 1 body).bodyEnd =
      ⟨1, byteLength (targetHeader options ++ Code.bodyTarget (variableName options false) body)⟩ := by
    have edge := patched.resolve_edge
    rw [layoutAt, Editor.resolve_of_row? present, targetHeader]
    simp only [List.nil_append, widthOf_cons, width_made, widthOf_nil, textOf_cons, text_made, textOf_nil,
      Text.byteLength_append, Text.byteLength_nil, Nat.add_zero, Nat.add_assoc] at edge ⊢
    rw [edge]
  have laid : reassemble editor options (layouts ctx) = functionOf options body := by
    rw [layouts_program isRoot fills undeclared, reassemble_one_line options texts headerEnd bodyEnd]
    simp [functionLines, functionOf, layoutAt, declarationLines]
  refine ⟨editor, ?_, notes⟩
  change (((convert ctx).runTree ctx.tree) >>= fun _ => get >>= fun e => pure (Ending.replace (reassemble e options (layouts ctx)))).run _ = _
  rw [walk, EStateM.run_bind, ran]
  change EStateM.Result.ok (Ending.replace (reassemble editor options (layouts ctx))) editor = _
  rw [laid]

end Plpgsql

end SqlFerry
