import SqlFerry.Tsql.Declarations
import SqlFerry.Tsql.TypeName

/-! Families of expressions, taken from literals, from declared types and from the operators, and
the result types of procedures. -/
namespace SqlFerry.Tsql

def textFunctions : List String := [
  "upper", "lower", "ltrim", "rtrim", "trim", "substring", "left", "right", "replace",
  "concat", "char", "nchar", "str", "stuff", "replicate", "reverse", "format", "quotename",
  "space", "error_message", "object_name", "db_name"]

def integerFunctions : List String := [
  "len", "datalength", "charindex", "patindex", "count", "datediff", "datepart", "year",
  "month", "day", "error_number", "error_line", "error_severity", "error_state", "row_number",
  "rank", "dense_rank", "scope_identity", "object_id"]

def timestampFunctions : List String := [
  "getdate", "getutcdate", "sysdatetime", "sysutcdatetime", "dateadd", "eomonth"]

/-- Functions whose result has the family of their first argument. -/
def argumentFunctions : List String := [
  "isnull", "coalesce", "sum", "min", "max", "abs", "round"]

/-- The family of a call, given the one of its first argument. -/
def functionFamily (name : String) (argument : Family) : Family :=
  if textFunctions.contains name then .text
  else if integerFunctions.contains name then .integer
  else if timestampFunctions.contains name then .timestamp
  else if name == "avg" then .numeric
  else if argumentFunctions.contains name then argument
  else .unknown

def numberFamily (text : String) : Family :=
  if text.toList.any fun c => c == '.' || c == 'e' || c == 'E' then .numeric else .integer

/-- The name of a called function in lower case, without its qualifiers. -/
def calledName (call : Node Kind) : String :=
  ((call.firstChild? .qualifiedName).map (Text.toLower ·.stopToken.text)).getD ""

def firstArgument? (call : Node Kind) : Option (Node Kind) :=
  (call.children.drop 2).find? fun child => !(child.kind == .comma || child.kind == .rightParen)

/-- What stands behind the first `THEN`. -/
def firstResult? (case : Node Kind) : Option (Node Kind) :=
  ((case.children.dropWhile (!·.isWord "THEN")).drop 1).head?

/-- The expression of the first column of a subquery. -/
def firstColumn? (subquery : Node Kind) : Option (Node Kind) := do
  let select ← subquery.firstChild? .select
  let element ← select.firstChild? .selectElement
  element.child? 0

/-- The family of a node, looking at most `depth` levels down. -/
def familyWithin (tree : Tree Kind) (declarations : Declarations) : Nat → Node Kind → Family
  | 0, _ => .unknown
  | depth + 1, node =>
    let familyOf (operand : Option (Node Kind)) : Family :=
      (operand.map (familyWithin tree declarations depth)).getD .unknown
    let operands (_ : Unit) := (familyOf (node.child? 0)).widen (familyOf (node.child? 2))
    match node.kind with
    | .stringLiteral => .text
    | .numberLiteral => numberFamily (tree.text node)
    | .userVariable =>
      ((declarations.find? (tree.text node)).map (Family.ofTypeName ·.type)).getD .unknown
    | .systemVariable => .integer
    | .orExpression | .andExpression | .notExpression | .comparisonExpression
    | .existsExpression => .boolean
    | .additiveExpression => operands ()
    | .multiplicativeExpression => if operands () = .numeric then .numeric else .integer
    | .unaryExpression | .parenExpression => familyOf (node.child? 1)
    | .castExpression | .convertExpression =>
      ((node.firstChild? .dataType).map fun t => Family.ofTypeName (tree.text t)).getD .unknown
    | .caseExpression => familyOf (firstResult? node)
    | .functionCall => functionFamily (calledName node) (familyOf (firstArgument? node))
    | .subquery => familyOf (firstColumn? node)
    | _ => .unknown

def familyOf (tree : Tree Kind) (declarations : Declarations) (node : Node Kind) : Family :=
  familyWithin tree declarations node.height node

/-- The expression of the last `RETURN` that has one. -/
def lastReturned? (procedure : Node Kind) : Option (Node Kind) :=
  (procedure.descendants.filterMap fun node =>
    if node.kind == .returnStatement then node.child? 1 else none).getLast?

/-- The result type of the function for a procedure. It is that of the only output parameter, or a
record of several. Without them the last returned expression decides, where a number is taken for
what is not known, and a procedure that returns nothing has the default. -/
def returnType (options : Options) (tree : Tree Kind) (declarations : Declarations)
    (procedure : Node Kind) : String :=
  match declarations.outputsOf procedure with
  | [only] => targetType options only.type
  | _ :: _ :: _ => "record"
  | [] =>
    match lastReturned? procedure with
    | some value => ((familyOf tree declarations value).resultType?).getD "int"
    | none => options.defaultReturnType

end SqlFerry.Tsql
