import SqlFerry.Pass.Context

/-! Queries and changes of data. -/
namespace SqlFerry.Plpgsql

open Tsql (Kind)

/-- The names of a converted column list: an element `@v = x` leaves `x` and gives the name of
`@v` as a target of the query; an element `name = x` becomes `x AS name`. -/
def convertSelectElement (ctx : Context) (element : Site Kind) (recur : Site Kind → Edit Unit) :
    Edit (Option String) := do
  match element.children with
  | target :: equals :: value :: _ =>
    if equals.kind = .equals then
      Edit.removeTokens target.node
      Edit.removeTokens equals.node
      recur value
      if target.kind = .userVariable then
        return some (ctx.variableName (ctx.text target.node))
      else
        Edit.insertAfter value.node (" AS " ++ unbracket (ctx.text target.node))
        return none
    else
      Visit.children recur element
      return none
  | _ =>
    Visit.children recur element
    return none

/-- A query into a table becomes the creation of that table. -/
def convertSelectInto (ctx : Context) (select into : Node Kind) : Edit Unit := do
  match into.child? 1 with
  | none => return
  | some target =>
    match target.kind with
    | .tempTable => create ("TEMPORARY TABLE " ++ ctx.tempTableName (ctx.text target) ++
        " ON COMMIT DROP")
    | .qualifiedName =>
      create ("TABLE " ++ Text.join "" (target.children.map fun part => unbracket (ctx.text part)))
    | _ => Edit.skip into "SELECT INTO a table variable left in place"
where
  create (what : String) : Edit Unit := do
    Edit.insertBefore select ("CREATE " ++ what ++ " AS ")
    Edit.removeTokens into

/-- `TOP n` becomes a `LIMIT n` behind the query. -/
def convertTop (select : Node Kind) (top : Site Kind) (recur : Site Kind → Edit Unit) :
    Edit Unit := do
  match top.child? 1 with
  | none => return
  | some count =>
    if top.node.hasWord "PERCENT" || top.node.hasWord "TIES" then
      Edit.skip top.node "TOP clause has no LIMIT equivalent"
    else
      recur count
      let limit := (← get).textOf count.node
      Edit.removeTokens top.node
      Edit.insertAfter select (" LIMIT " ++ limit)

/-- Converts the parts of a query in order and gives the targets of its column list. -/
def convertSelectParts (ctx : Context) (recur : Site Kind → Edit Unit) :
    List (Site Kind) → Edit (List String)
  | [] => return []
  | part :: rest => do
    let target ← match part.kind with
      | .selectElement => convertSelectElement ctx part recur
      | .topClause | .intoClause => pure none
      | _ => recur part; pure none
    return target.toList ++ (← convertSelectParts ctx recur rest)

def convertSelect (ctx : Context) : Visit := fun recur site => do
  let targets ← convertSelectParts ctx recur site.children
  if targets ≠ [] then
    if let some last := (site.node.childrenOf .selectElement).getLast? then
      Edit.insertAfter last (" INTO " ++ Text.join ", " targets)
  if let some into := site.node.firstChild? .intoClause then
    convertSelectInto ctx site.node into
  if let some top := site.firstChild? .topClause then
    convertTop site.node top recur

/-- `CROSS APPLY` and `OUTER APPLY` are lateral joins. -/
def convertJoin : Visit := fun recur site => do
  Visit.children recur site
  match site.node.wordToken? "APPLY" with
  | none => return
  | some apply =>
    let first := site.node.startToken
    if first.isWord "CROSS" then
      Edit.replaceTokens first apply "CROSS JOIN LATERAL"
    else
      Edit.replaceTokens first apply "LEFT JOIN LATERAL"
      Edit.insertAfter site.node " ON TRUE"

/-- `inserted.id` and `deleted.id` lose the name in front. -/
def stripPseudoTable (column : Node Kind) : Edit Unit := do
  match column.tokens with
  | table :: dot :: _ :: _ =>
    if dot.kind = .dot ∧ (table.isWord "inserted" ∨ table.isWord "deleted") then
      Edit.removeToken table false
      Edit.removeToken dot false
  | _ => return

/-- Converts sites one after the other and gives the text of each as it is right after that. -/
def convertedTexts (recur : Site Kind → Edit Unit) : List (Site Kind) → Edit (List String)
  | [] => return []
  | site :: rest => do
    recur site
    let text := (← get).textOf site.node
    return text :: (← convertedTexts recur rest)

/-- Moves an insertion into a common table expression whose rows go into `target`. -/
def wrapInsertion (ctx : Context) (insertion : Node Kind) (returning target : String) :
    Edit Unit := do
  let indent := (← get).indentationOf insertion
  let unit := ctx.options.indent
  let first := insertion.start.line
  let last := insertion.stop.line
  Edit.insertBefore insertion ("WITH _tempContext AS (\n" ++ indent ++ unit)
  if first < last then
    Edit.indentRegion (first + 1) last unit
  Edit.insertAfter insertion ("\n" ++ indent ++ unit ++ "RETURNING " ++ returning ++ "\n" ++
    indent ++ ") INSERT INTO " ++ target ++ " SELECT * FROM _tempContext")

/-- `OUTPUT` becomes `RETURNING` behind the insertion; with `INTO`, the returned rows are inserted
into the target. -/
def convertOutput (ctx : Context) (insertion : Node Kind) (clause : Site Kind)
    (recur : Site Kind → Edit Unit) : Edit Unit := do
  (clause.childrenOf .selectElement).forM fun element => do
    (element.node.descendants.filter (·.kind == .columnRef)).forM stripPseudoTable
    recur element
  let into := clause.node.wordToken? "INTO"
  match into.or (clause.after.map (·.startToken)) with
  | none => return
  | some stop =>
    let returning := Text.trim ((← get).textBetweenTokens clause.node.startToken stop)
    if into.isSome then
      let parts ← convertedTexts recur
        ((clause.children.dropWhile (!·.node.isWord "INTO")).drop 1)
      Edit.removeWithGap clause
      wrapInsertion ctx insertion returning (Text.join " " parts)
    else
      Edit.removeWithGap clause
      Edit.insertAfter insertion (" RETURNING " ++ returning)

def convertInsert (ctx : Context) : Visit := fun recur site => do
  if !(site.node.child? 1).any (·.isWord "INTO") then
    Edit.insertAfterToken site.node.startToken " INTO"
  (site.children.filter (·.kind != .outputClause)).forM recur
  match (site.childrenOf .outputClause).getLast? with
  | some clause => convertOutput ctx site.node clause recur
  | none => return

/-- The identity of a column is a matter of its type. -/
def convertColumn (ctx : Context) : Visit := fun recur site => do
  match site.firstChild? .identitySpec with
  | none => Visit.children recur site
  | some identity =>
    site.children.forM fun child =>
      match child.kind with
      | .dataType =>
        Edit.replaceTokenwise child.node
          (if Text.sameWord (ctx.text child.node) "bigint" then "BIGSERIAL" else "SERIAL")
      | .identitySpec => return
      | _ => recur child
    Edit.removeWithGap identity

def convertCreateTable : Visit := fun recur site => do
  if (site.node.firstChild? .tempTable).isSome then
    Edit.insertAfterToken site.node.startToken " TEMPORARY"
  Visit.children recur site

/-- PostgreSQL has no clustered indexes. -/
def convertCreateIndex : Visit := fun recur site =>
  site.children.forM fun child =>
    if child.node.isWord "CLUSTERED" || child.node.isWord "NONCLUSTERED" then
      Edit.removeWithGap child
    else
      recur child

end SqlFerry.Plpgsql
