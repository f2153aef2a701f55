import SqlFerry.Plpgsql.Assignments
import SqlFerry.Plpgsql.Calls
import SqlFerry.Plpgsql.Control
import SqlFerry.Plpgsql.Expressions
import SqlFerry.Plpgsql.Function
import SqlFerry.Plpgsql.Messages
import SqlFerry.Plpgsql.Procedures
import SqlFerry.Plpgsql.Queries

/-! The pass that turns procedures into functions. It edits the text in place and lays out the
functions at the end. Text that is put behind a construct counts as part of the construct's place,
so it is put there after everything below has been converted. -/
namespace SqlFerry.Plpgsql

open Tsql (Kind)

def convertOther : Visit := fun recur site => do
  Edit.skip site.node s!"statement left untranslated: {site.node.startToken.text}"
  Visit.children recur site

/-- What is done at a site, by its kind. -/
def convert (ctx : Context) : Visit := fun recur site =>
  match site.kind with
  | .userVariable => ctx.renameVariable site.node
  | .tempTable => ctx.renameTempTable site.node
  | .quotedIdentifier => ctx.unbracketName site.node
  | .systemVariable => convertSystemVariable ctx site.node
  | .dataType => convertDataType ctx site.node
  | .additiveExpression => convertSum ctx recur site
  | .functionCall => convertCall ctx recur site
  | .convertExpression => convertConversion ctx recur site
  | .createProcedure => convertProcedure ctx recur site
  | .declare => convertDeclare recur site
  | .setVariable => convertSetVariable ctx recur site
  | .setOption => convertSetOption ctx site
  | .select => convertSelect ctx recur site
  | .batchSeparator | .intoClause | .topClause => return
  | .tableHint => Edit.removeWithGap site
  | .joinClause => convertJoin recur site
  | .insert => convertInsert ctx recur site
  | .columnDefinition => convertColumn ctx recur site
  | .createTable => convertCreateTable recur site
  | .createIndex => convertCreateIndex recur site
  | .ifStatement => convertIf recur site
  | .whileStatement => convertWhile recur site
  | .block => convertBlock recur site
  | .tryCatch => convertTryCatch recur site
  | .transaction => convertTransaction site
  | .returnStatement => convertReturn ctx recur site
  | .print => convertPrint recur site
  | .raiseError => convertRaiseError recur site
  | .execute => convertExecute recur site
  | .breakStatement => Edit.replaceToken site.node.startToken "EXIT"
  | .otherStatement => convertOther recur site
  | _ => Visit.children recur site

/-- Converts the text and lays it out anew. -/
def convertTree (options : Options) (tree : Tree Kind) : Edit Ending := do
  let ctx := Context.ofTree options tree
  (convert ctx).runTree tree
  return .replace (reassemble (← get) options (layouts ctx))

end SqlFerry.Plpgsql

/-- The pass that turns procedures into functions of PL/pgSQL. -/
def SqlFerry.Pass.plpgsql (options : Options) : Pass where
  name := "pgsql"
  run := Plpgsql.convertTree options
