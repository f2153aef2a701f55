import SqlFerry.Layout.Cleanup
import SqlFerry.Layout.Indent
import SqlFerry.Pass.Context

/-! Laying out functions. The converted text is cut at the end of each procedure's header and at the
end of its body; the pieces are tidied, the body is indented anew, and both are set into the frame
of a function. -/
namespace SqlFerry.Plpgsql

open Tsql (Kind)
open Layout (cleanup dedent indentStyle)

/-- Where a procedure stands in the unedited text, and the variables of its function with their
types. -/
structure FunctionLayout where
  headerEnd : Position
  bodyEnd : Position
  locals : List (String × String)
deriving DecidableEq, Repr

def layoutOf? (ctx : Context) (procedure : Node Kind) : Option FunctionLayout := do
  let token ← procedure.wordToken? "AS"
  return {
    headerEnd := token.stop
    bodyEnd := ((procedure.firstChild? .procedureBody).map (·.stop)).getD token.stop
    locals := (ctx.declarations.variablesOf procedure).map fun d =>
      (variableName ctx.options false d.name, ctx.targetType d.type) }

/-- The layouts of all procedures; one inside another comes first. -/
def layouts (ctx : Context) : List FunctionLayout :=
  match ctx.tree.root with
  | some root =>
    (root.postOrder.filter (·.kind == .createProcedure)).filterMap (layoutOf? ctx)
  | none => []

/-- The text between two places of some lines. -/
def cut (lines : List String) (start stop : Position) : String :=
  spanText lines start stop (Text.floorColumn · start.column) (Text.floorColumn · stop.column)

/-- The place behind the last line. -/
def endOf (lines : List String) : Position :=
  ⟨max lines.length 1, (lines.getLast?.map Text.size).getD 0⟩

/-- How wide an indentation is, with a tab as wide as a step. -/
def indentWidth (step : Nat) (indent : List Char) : Nat :=
  indent.foldl (fun width c => width + if c == '\t' then step else 1) 0

/-- A line one level further in, with its own indentation in units of `indent`. -/
def reindentLine (step : Nat) (indent line : String) : String :=
  if line.isEmpty then
    line
  else
    let own := line.toList.takeWhile Text.isIndent
    let levels := indentWidth step own / step + 1
    .ofList ((List.replicate levels indent.toList).flatten ++ line.toList.dropWhile Text.isIndent)

/-- The number of columns of a level. -/
def indentStep (lines : List String) : Nat :=
  match indentStyle lines with
  | .spaces n => max n 1
  | .tabs => 4

/-- The lines of a body, whose first line stands behind the header. -/
def bodyLines (indent text : String) : List String :=
  let pieces := Text.lines text
  let lines := cleanup (Text.trim (pieces.headD "") :: dedent pieces.tail)
  lines.map (reindentLine (indentStep lines) indent)

def headerLines (text : String) : List String := cleanup (Text.lines text)

def declarationLines (indent : String) (locals : List (String × String)) : List String :=
  match locals with
  | [] => []
  | _ => "DECLARE" :: locals.map fun (name, type) => indent ++ name ++ " " ++ type ++ ";"

/-- The frame of a function around its header, variables and body. -/
def functionLines (options : Options) (layout : FunctionLayout) (header body : String) :
    List String :=
  headerLines header ++ ["$$"] ++ declarationLines options.indent layout.locals ++ ["BEGIN"] ++
    bodyLines options.indent body ++ ["END;", "$$ LANGUAGE plpgsql;"]

/-- Two groups of lines with an empty line between them. -/
def separated (first second : List String) : List String :=
  if first.isEmpty then second else first ++ "" :: second

/-- Lays out what comes behind `cursor`, behind the lines that are done. -/
def reassembleFrom (editor : Editor) (options : Options) (done : List String)
    (cursor : Position) : List FunctionLayout → List String
  | [] =>
    match headerLines (cut editor.texts cursor (endOf editor.texts)) with
    | [] => done
    | trailer => separated done trailer
  | layout :: rest =>
    let headerEnd := editor.resolve layout.headerEnd
    let bodyEnd := editor.resolve layout.bodyEnd
    let function := functionLines options layout (cut editor.texts cursor headerEnd)
      (cut editor.texts headerEnd bodyEnd)
    reassembleFrom editor options (separated done function) bodyEnd rest

/-- The whole text with its procedures laid out as functions. -/
def reassemble (editor : Editor) (options : Options) (layouts : List FunctionLayout) :
    List String :=
  reassembleFrom editor options [] .origin layouts

end SqlFerry.Plpgsql
