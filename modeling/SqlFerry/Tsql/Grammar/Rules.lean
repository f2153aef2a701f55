import SqlFerry.Tsql.Grammar.Production

/-! The grammar of the part of T-SQL that stored procedures are written in. Expressions bind, from
loose to tight: `OR`, `AND`, `NOT`, comparisons, the additive operators, the multiplicative ones and
the unary signs; a node for an operator is made only where the operator stands. A statement that no
rule knows is read up to the next statement, with brackets paired. -/
namespace SqlFerry.Tsql

/-- The rules of the grammar. -/
inductive Rule where
  | compileUnit | statement | statementBody | qualifiedName | tableName | dataType | leaves
  | createProcedure | procedureParameter | procedureOption
  | declare | declaration | setVariable | setOption
  | createTable | createIndex | tableElements | tableElement | columnDefinition | tableConstraint
  | dropTable | truncate
  | select | selectCore | topClause | selectElement | alias | fromClause | tableSource | tableHint
  | joinClause | whereClause | orderByClause | orderByItem
  | insert | outputClause | valuesRow | update | updateAssignment | delete
  | ifStatement | whileStatement | block | tryCatch | transaction | returnStatement | print
  | raiseError | execute | executeArgument | otherStatement | otherPart | caseTail
  | expression | expressionList | conjunction | negation | comparison | comparisonTail
  | additive | multiplicative | unary | primary | nameOrCall | functionArguments | subquery
  | caseExpression | castExpression | convertExpression
deriving DecidableEq, Repr

namespace Grammar

open Production

/-- Keywords that begin a statement. A statement that is not understood ends in front of them. -/
def statementStarts : List String := [
  "SELECT", "INSERT", "UPDATE", "DELETE", "DECLARE", "SET", "IF", "WHILE", "BEGIN", "RETURN",
  "PRINT", "RAISERROR", "EXEC", "EXECUTE", "CREATE", "DROP", "TRUNCATE", "BREAK", "CONTINUE",
  "COMMIT", "ROLLBACK", "SAVE", "ELSE", "END"]

def joinStarts : List String := ["JOIN", "INNER", "LEFT", "RIGHT", "FULL", "CROSS", "OUTER"]

def atName : Look := .sees .identifier ||| .sees .quotedIdentifier

/-- A name or a keyword, which may stand behind a dot. -/
def atNamePart : Look := atName ||| .sees .keyword

/-- `GO` at the start of a statement ends a batch. -/
def atBatchSeparator : Look := .sees .identifier &&& .on "GO"

def atStatementStart : Look := .sees .keyword &&& .onAny statementStarts

def atJoin : Look := .sees .keyword &&& .onAny joinStarts

/-- `LEFT` and `RIGHT` are functions when an argument list follows. -/
def atSideFunction : Look := .onAny ["LEFT", "RIGHT"] &&& .kind 1 .leftParen

def atExpressionStart : Look :=
  .any (([.userVariable, .systemVariable, .tempTable, .stringLiteral, .numberLiteral,
      .binaryLiteral, .leftParen, .minus, .plus, .tilde, .identifier,
      .quotedIdentifier] : List Kind).map .sees) |||
    (.sees .keyword &&& (.onAny ["NULL", "CASE", "CONVERT", "EXISTS", "NOT"] ||| atSideFunction))

def atProcedureHeader : Look :=
  let procedureAt n := Look.word n "PROC" ||| .word n "PROCEDURE"
  .branch (.word 1 "OR") (procedureAt 3) (procedureAt 1)

/-- `CREATE [UNIQUE] [CLUSTERED | NONCLUSTERED] INDEX` -/
def atIndexHeader : Look :=
  let indexAt n :=
    Look.branch (.word n "CLUSTERED" ||| .word n "NONCLUSTERED") (.word (n + 1) "INDEX")
      (.word n "INDEX")
  .branch (.word 1 "UNIQUE") (indexAt 2) (indexAt 1)

def atTransactionBegin : Look :=
  let transactionAt n := Look.word n "TRAN" ||| .word n "TRANSACTION"
  .branch (.word 1 "DISTRIBUTED") (transactionAt 2) (transactionAt 1)

def atTableHint : Look := .on "WITH" &&& .kind 1 .leftParen

def atExecuteArgument : Look :=
  ~~~(atBatchSeparator ||| atStatementStart) &&& (atExpressionStart ||| .on "DEFAULT")

/-- Values of a session option, which belong to it even on the next line, since no statement
starts with them. -/
def atOptionValue : Look :=
  .onAny ["ON", "OFF"] ||| .sees .numberLiteral ||| .sees .userVariable

def atElementEnd : Look := .atEnd ||| .sees .comma ||| .sees .rightParen

/-- What ends a statement that is not understood. -/
def atOtherEnd : Look :=
  .atEnd ||| .sees .semicolon ||| atBatchSeparator ||| atStatementStart

def call (name : Rule) : Production Rule := .rule name

/-- A statement that is a single keyword. -/
def keywordNode (kind : Kind) : Production Rule := node kind take

def statementsUntil (stop : Look) : Production Rule :=
  loop (~~~(.atEnd ||| stop)) (call .statement)

def columnList : Production Rule := node .columnList (call .leaves)

/-- An operator with what has been read so far on its left. -/
def binary (kind : Kind) (right : Rule) : Production Rule := adopt kind (seq take (call right))

/-- Operands of one level with operators between them, nested to the left. -/
def leftNested (operand : Rule) (operator : Look) (kind : Kind) : Production Rule :=
  group (seq (call operand) (loop operator (binary kind operand)))

/-- `GO`, with a count on the same line. -/
def batchSeparator : Production Rule :=
  node .batchSeparator (steps [take, whenever (.sees .numberLiteral &&& .sameLine) take])

def procedureParameters : Production Rule :=
  let parameters := list (call .procedureParameter)
  node .procedureParameters <|
    branch (.sees .leftParen)
      (steps [take, ifNot (.sees .rightParen) parameters,
        expect .rightParen "')' after the parameters"])
      parameters

def variableDeclaration : Production Rule :=
  node .variableDeclaration <| steps [
    expect .userVariable "a variable", skim "AS", call .dataType,
    whenever (.sees .equals) (steps [take, call .expression])]

def tableVariable : Production Rule :=
  node .tableVariable <| steps [
    expect .userVariable "a variable", skim "AS", expectWord "TABLE", call .tableElements]

def identitySpec : Production Rule :=
  node .identitySpec (steps [take, whenever (.sees .leftParen) (call .leaves)])

/-- How each rule reads. -/
def production : Rule → Production Rule
  | .compileUnit =>
    node .compileUnit (loop (~~~Look.atEnd)
      (branch atBatchSeparator batchSeparator (call .statement)))
  | .statement =>
    node .statement <| steps [
      ifNot (.sees .semicolon) (call .statementBody),
      whenever (.sees .semicolon) take]
  | .statementBody =>
    branch .atEnd (fail "expected a statement") <|
    branch (~~~Look.sees .keyword) (call .otherStatement) <|
    choose [
      ((.on "CREATE" ||| .on "ALTER") &&& atProcedureHeader, call .createProcedure),
      (.on "CREATE" &&& .word 1 "TABLE", call .createTable),
      (.on "CREATE" &&& atIndexHeader, call .createIndex),
      (.on "DROP" &&& .word 1 "TABLE", call .dropTable),
      (.on "TRUNCATE", call .truncate),
      (.on "SELECT", call .select),
      (.on "INSERT", call .insert),
      (.on "UPDATE", call .update),
      (.on "DELETE", call .delete),
      (.on "DECLARE" &&& .kind 1 .userVariable, call .declare),
      (.on "SET" &&& .kind 1 .userVariable, call .setVariable),
      (.on "SET", call .setOption),
      (.on "IF", call .ifStatement),
      (.on "WHILE", call .whileStatement),
      (.on "BEGIN" &&& .word 1 "TRY", call .tryCatch),
      (.on "BEGIN" &&& atTransactionBegin, call .transaction),
      (.on "BEGIN", call .block),
      (.onAny ["COMMIT", "ROLLBACK", "SAVE"], call .transaction),
      (.on "RETURN", call .returnStatement),
      (.on "PRINT", call .print),
      (.on "RAISERROR", call .raiseError),
      (.onAny ["EXEC", "EXECUTE"], call .execute),
      (.on "BREAK", keywordNode .breakStatement),
      (.on "CONTINUE", keywordNode .continueStatement),
      (.onAny ["END", "ELSE"], fail "unbalanced block")]
      (call .otherStatement)
  -- Names and types. A name may have empty parts, as in `db..table`.
  | .qualifiedName =>
    branch atName
      (node .qualifiedName <| steps [
        take,
        loop (.sees .dot) <| steps [
          take,
          ifNot (.sees .dot) (branch atNamePart take (fail "expected a name after '.'"))]])
      (fail "expected a name")
  | .tableName =>
    branch (.sees .tempTable ||| .sees .userVariable) take (call .qualifiedName)
  | .dataType =>
    branch atNamePart
      (node .dataType <| steps [
        take,
        loop (.sees .dot) (steps [take, take]),
        whenever (.sees .leftParen) <| steps [
          take,
          branch (.on "MAX") take <| steps [
            expect .numberLiteral "a length",
            whenever (.sees .comma) (steps [take, expect .numberLiteral "a scale"])],
          expect .rightParen "')'"]])
      (fail "expected a data type")
  -- A bracketed group whose tokens are not looked into.
  | .leaves =>
    steps [
      expect .leftParen "'('",
      loop (~~~(.atEnd ||| .sees .rightParen)) (branch (.sees .leftParen) (call .leaves) take),
      branch (.sees .rightParen) take (fail "unbalanced parenthesis")]
  -- Procedures. The body runs to the end of the batch.
  | .createProcedure =>
    node .createProcedure <| steps [
      branch (.on "CREATE")
        (steps [take, whenever (.on "OR") (steps [take, expectWord "ALTER"])])
        (expectWord "ALTER"),
      branch (.on "PROCEDURE") take (expectWord "PROC"),
      call .qualifiedName,
      whenever (.sees .userVariable |||
          (.sees .leftParen &&& (.kind 1 .userVariable ||| .kind 1 .rightParen)))
        procedureParameters,
      whenever (.on "WITH")
        (node .procedureOptions (steps [take, list (call .procedureOption)])),
      whenever (.on "FOR") (steps [take, expectWord "REPLICATION"]),
      expectWord "AS",
      node .procedureBody (statementsUntil atBatchSeparator)]
  | .procedureParameter =>
    node .procedureParameter <| steps [
      expect .userVariable "a parameter name", skim "AS", call .dataType, skim "VARYING",
      whenever (.sees .equals) (node .parameterDefault (steps [take, call .expression])),
      skimAny ["OUTPUT", "OUT"], skim "READONLY"]
  | .procedureOption =>
    steps [
      whenever (.onAny ["EXECUTE", "EXEC"]) (steps [take, expectWord "AS"]),
      branch .atEnd (fail "expected a procedure option") take]
  | .declare =>
    node .declare (steps [take, list (call .declaration)])
  | .declaration =>
    branch (.branch (.word 1 "AS") (.word 2 "TABLE") (.word 1 "TABLE"))
      tableVariable variableDeclaration
  | .setVariable =>
    node .setVariable (steps [take, take, expect .equals "'='", call .expression])
  -- The names of session options, their value, and the rest of the line up to a statement.
  | .setOption =>
    let option : Production Rule := branch .atEnd (fail "expected a session option") take
    node .setOption <| steps [
      take, list option, whenever atOptionValue take,
      loop (.sameLine &&& ~~~Look.sees .semicolon &&& ~~~atStatementStart) take]
  | .createTable =>
    node .createTable (steps [take, take, call .tableName, call .tableElements])
  | .createIndex =>
    node .createIndex <| steps [
      take, skim "UNIQUE", skimAny ["CLUSTERED", "NONCLUSTERED"], expectWord "INDEX",
      call .qualifiedName, expectWord "ON", call .tableName, columnList,
      loop (~~~atOtherEnd) <|
        choose [
          (.sees .leftParen, call .leaves),
          (.sees .rightParen, fail "unbalanced parenthesis")]
          take]
  | .tableElements =>
    steps [
      expect .leftParen "'('",
      call .tableElement,
      loop (.sees .comma) (steps [take, ifNot (.sees .rightParen) (call .tableElement)]),
      expect .rightParen "')' after the table definition"]
  | .tableElement =>
    branch (.onAny ["CONSTRAINT", "PRIMARY", "UNIQUE", "FOREIGN", "CHECK", "INDEX"])
      (call .tableConstraint) (call .columnDefinition)
  | .columnDefinition =>
    node .columnDefinition <| steps [
      branch atNamePart take (fail "expected a column name"),
      call .dataType,
      loop (~~~atElementEnd) <|
        choose [
          (.sees .leftParen, call .leaves),
          (.on "IDENTITY", identitySpec),
          (.onAny ["DEFAULT", "CHECK"], steps [take, call .expression])]
          take]
  | .tableConstraint =>
    node .tableConstraint
      (loop (~~~atElementEnd) (branch (.sees .leftParen) (call .leaves) take))
  | .dropTable =>
    node .dropTable <| steps [
      take, take,
      whenever (.on "IF" &&& .word 1 "EXISTS") (steps [take, take]),
      list (call .tableName)]
  | .truncate =>
    node .truncate (steps [take, expectWord "TABLE", call .tableName])
  | .select =>
    node .select <| steps [
      call .selectCore,
      loop (.onAny ["UNION", "EXCEPT", "INTERSECT"])
        (steps [take, skim "ALL", call .selectCore]),
      whenever (.on "ORDER") (call .orderByClause),
      whenever (.on "OPTION") (steps [take, call .leaves])]
  | .selectCore =>
    steps [
      expectWord "SELECT",
      skimAny ["DISTINCT", "ALL"],
      whenever (.on "TOP") (call .topClause),
      list (call .selectElement),
      whenever (.on "INTO") (node .intoClause (steps [take, call .tableName])),
      whenever (.on "FROM") (call .fromClause),
      whenever (.on "WHERE") (call .whereClause),
      whenever (.on "GROUP")
        (node .groupByClause (steps [take, expectWord "BY", call .expressionList])),
      whenever (.on "HAVING") (node .havingClause (steps [take, call .expression]))]
  | .topClause =>
    node .topClause <| steps [
      take,
      choose [
        (.sees .leftParen, call .expression),
        (.sees .numberLiteral ||| .sees .userVariable, take)]
        (fail "expected a row count after TOP"),
      skim "PERCENT",
      whenever (.on "WITH" &&& .word 1 "TIES") (steps [take, take])]
  | .selectElement =>
    node .selectElement <|
      choose [
        (.sees .star, take),
        ((.sees .userVariable ||| atName) &&& .kind 1 .equals,
          steps [take, take, call .expression])]
        (steps [call .expression, call .alias])
  | .alias =>
    branch (.on "AS")
      (steps [take, branch (atName ||| .sees .stringLiteral) take (fail "expected an alias")])
      (whenever (atName &&& ~~~atBatchSeparator) take)
  | .fromClause =>
    node .fromClause <| steps [
      take,
      call .tableSource,
      loop (.sees .comma ||| atJoin)
        (branch (.sees .comma) (steps [take, call .tableSource]) (call .joinClause))]
  | .tableSource =>
    node .tableSource <| steps [
      choose [
        (.sees .leftParen, call .subquery),
        (atName, group <| steps [
          call .qualifiedName,
          whenever (.sees .leftParen) (adopt .functionCall (call .functionArguments))])]
        (call .tableName),
      call .alias,
      whenever atTableHint (call .tableHint)]
  | .tableHint => node .tableHint (steps [take, call .leaves])
  | .joinClause =>
    node .joinClause <| steps [
      branch (.onAny ["CROSS", "OUTER"])
        (steps [take, branch (.on "APPLY") take (expectWord "JOIN")])
        (steps [
          branch (.onAny ["LEFT", "RIGHT", "FULL"]) (steps [take, skim "OUTER"]) (skim "INNER"),
          expectWord "JOIN"]),
      call .tableSource,
      whenever (.on "ON") (steps [take, call .expression])]
  | .whereClause => node .whereClause (steps [take, call .expression])
  | .orderByClause =>
    node .orderByClause (steps [take, expectWord "BY", list (call .orderByItem)])
  | .orderByItem => steps [call .expression, skimAny ["ASC", "DESC"]]
  | .insert =>
    node .insert <| steps [
      take, skim "INTO", call .tableName,
      whenever atTableHint (call .tableHint),
      whenever (.sees .leftParen &&& ~~~Look.word 1 "SELECT") columnList,
      whenever (.on "OUTPUT") (call .outputClause),
      choose [
        (.on "VALUES", steps [take, list (call .valuesRow)]),
        (.on "SELECT", call .select),
        (.onAny ["EXEC", "EXECUTE"], call .execute),
        (.on "DEFAULT", steps [take, expectWord "VALUES"])]
        (fail "expected VALUES, SELECT or EXEC")]
  | .outputClause =>
    node .outputClause <| steps [
      take,
      list (call .selectElement),
      whenever (.on "INTO") (steps [take, call .tableName, whenever (.sees .leftParen) columnList])]
  | .valuesRow =>
    node .valuesRow <| steps [
      expect .leftParen "'('", call .expressionList, expect .rightParen "')'"]
  | .update =>
    node .update <| steps [
      take,
      whenever (.on "TOP") (call .topClause),
      call .tableName,
      whenever atTableHint (call .tableHint),
      expectWord "SET",
      list (call .updateAssignment),
      whenever (.on "FROM") (call .fromClause),
      whenever (.on "WHERE") (call .whereClause)]
  | .updateAssignment =>
    node .updateAssignment <| steps [
      choose [
        (.sees .userVariable, take),
        (atName, node .columnRef (steps [take, loop (.sees .dot) (steps [take, take])]))]
        (fail "expected a column"),
      expect .equals "'='",
      call .expression]
  | .delete =>
    node .delete <| steps [
      take,
      whenever (.on "TOP") (call .topClause),
      skim "FROM",
      call .tableName,
      whenever (.on "FROM") (call .fromClause),
      whenever (.on "WHERE") (call .whereClause)]
  | .ifStatement =>
    node .ifStatement <| steps [
      take, call .expression, call .statement,
      whenever (.on "ELSE") (steps [take, call .statement])]
  | .whileStatement =>
    node .whileStatement (steps [take, call .expression, call .statement])
  | .block =>
    node .block (steps [take, statementsUntil (.on "END"), expectWord "END"])
  | .tryCatch =>
    node .tryCatch <| steps [
      take, take, statementsUntil (.on "END"), expectWord "END", expectWord "TRY",
      expectWord "BEGIN", expectWord "CATCH", statementsUntil (.on "END"), expectWord "END",
      expectWord "CATCH"]
  | .transaction =>
    node .transaction <| steps [
      take, skim "DISTRIBUTED", skimAny ["TRANSACTION", "TRAN", "WORK"],
      whenever (.sameLine &&& (.sees .identifier ||| .sees .userVariable) &&& ~~~atBatchSeparator)
        take]
  | .returnStatement =>
    node .returnStatement <| steps [
      take, whenever (atExpressionStart &&& ~~~atBatchSeparator) (call .expression)]
  | .print => node .print (steps [take, call .expression])
  | .raiseError =>
    node .raiseError <| steps [
      take, expect .leftParen "'(' after RAISERROR", call .expressionList,
      expect .rightParen "')'",
      whenever (.on "WITH") (steps [take, list take])]
  | .execute =>
    node .execute <| steps [
      take,
      branch (.sees .leftParen) (call .expression) <| steps [
        whenever (.sees .userVariable &&& .kind 1 .equals) (steps [take, take]),
        branch (.sees .userVariable) take (call .qualifiedName),
        whenever atExecuteArgument (list (call .executeArgument))]]
  | .executeArgument =>
    node .executeArgument <| steps [
      whenever (.sees .userVariable &&& .kind 1 .equals) (steps [take, take]),
      branch (.on "DEFAULT") take (call .expression),
      skimAny ["OUTPUT", "OUT"]]
  -- Anything else, up to the next statement. An `END` that closes a `CASE` does not end it.
  | .otherStatement =>
    node .otherStatement (steps [take, loop (~~~atOtherEnd) (call .otherPart)])
  | .otherPart =>
    choose [
      (.sees .leftParen, call .leaves),
      (.sees .rightParen, fail "unbalanced parenthesis"),
      (.on "CASE", steps [take, call .caseTail])]
      take
  | .caseTail =>
    steps [loop (~~~atOtherEnd) (call .otherPart), skim "END"]
  | .expression => leftNested .conjunction (.on "OR") .orExpression
  | .expressionList => list (call .expression)
  | .conjunction => leftNested .negation (.on "AND") .andExpression
  | .negation =>
    branch (.on "NOT") (node .notExpression (steps [take, call .negation])) (call .comparison)
  | .comparison =>
    let comparisonOperator := Look.any
      (([.equals, .notEquals, .less, .greater, .lessEquals, .greaterEquals] : List Kind).map .sees)
    group <| steps [
      call .additive,
      choose [
        (comparisonOperator, binary .comparisonExpression .additive),
        ((.on "NOT" &&& .any (["LIKE", "IN", "BETWEEN"].map (.word 1))) |||
            .onAny ["LIKE", "IN", "BETWEEN", "IS"],
          adopt .comparisonExpression (steps [skim "NOT", call .comparisonTail]))]
        done]
  | .comparisonTail =>
    choose [
      (.on "LIKE", steps [
        take, call .additive, whenever (.on "ESCAPE") (steps [take, call .additive])]),
      (.on "IN", steps [
        take,
        branch (.sees .leftParen &&& .word 1 "SELECT") (call .subquery) <| steps [
          expect .leftParen "'(' after IN", call .expressionList, expect .rightParen "')'"]]),
      (.on "BETWEEN", steps [take, call .additive, expectWord "AND", call .additive])]
      (steps [expectWord "IS", skim "NOT", expectWord "NULL"])
  | .additive =>
    leftNested .multiplicative
      (.any (([.plus, .minus, .ampersand, .pipe, .caret] : List Kind).map .sees))
      .additiveExpression
  | .multiplicative =>
    leftNested .unary (.any (([.star, .slash, .percent] : List Kind).map .sees))
      .multiplicativeExpression
  | .unary =>
    branch (.any (([.minus, .plus, .tilde] : List Kind).map .sees))
      (node .unaryExpression (steps [take, call .unary]))
      (call .primary)
  | .primary =>
    choose [
      (.any (([.stringLiteral, .numberLiteral, .binaryLiteral, .userVariable, .systemVariable,
          .tempTable] : List Kind).map .sees), take),
      (.sees .leftParen &&& .word 1 "SELECT", call .subquery),
      (.sees .leftParen,
        node .parenExpression (steps [take, call .expression, expect .rightParen "')'"])),
      (.sees .keyword &&& .onAny ["NULL", "DEFAULT"], take),
      (.sees .keyword &&& .on "CASE", call .caseExpression),
      (.sees .keyword &&& .on "CONVERT", call .convertExpression),
      (.sees .keyword &&& .on "EXISTS", node .existsExpression (steps [take, call .subquery])),
      (.sees .keyword &&& atSideFunction, group <| steps [
        node .qualifiedName take, adopt .functionCall (call .functionArguments)]),
      (.sees .identifier &&& .on "CAST" &&& .kind 1 .leftParen, call .castExpression),
      (atName, call .nameOrCall)]
      (fail "expected an expression")
  -- A dotted name is a call if arguments follow, else a column, which may end in a star.
  | .nameOrCall =>
    let dottedPart := Look.sees .dot &&&
      .any (([.identifier, .quotedIdentifier, .keyword] : List Kind).map (.kind 1))
    group <| steps [
      take,
      loop dottedPart (steps [take, take]),
      whenever (.sees .dot)
        (steps [take, branch (.sees .star) take (fail "expected a name after '.'")]),
      branch (.sees .leftParen)
        (steps [adopt .qualifiedName done, adopt .functionCall (call .functionArguments)])
        (adopt .columnRef done)]
  | .functionArguments =>
    steps [
      expect .leftParen "'('",
      choose [(.sees .rightParen, done), (.sees .star, take)]
        (steps [skimAny ["DISTINCT", "ALL"], call .expressionList]),
      expect .rightParen "')' after the arguments",
      whenever (.on "OVER" &&& .kind 1 .leftParen) (steps [take, call .leaves])]
  | .subquery =>
    node .subquery <| steps [
      expect .leftParen "'('", call .select, expect .rightParen "')' after the subquery"]
  | .caseExpression =>
    node .caseExpression <| steps [
      take,
      ifNot (.on "WHEN") (call .expression),
      ifNot (.on "WHEN") (fail "expected WHEN"),
      loop (.on "WHEN")
        (steps [take, call .expression, expectWord "THEN", call .expression]),
      whenever (.on "ELSE") (steps [take, call .expression]),
      expectWord "END"]
  | .castExpression =>
    node .castExpression <| steps [
      take, expect .leftParen "'('", call .expression, expectWord "AS", call .dataType,
      expect .rightParen "')'"]
  | .convertExpression =>
    node .convertExpression <| steps [
      take, expect .leftParen "'('", call .dataType, expect .comma "','", call .expression,
      whenever (.sees .comma) (steps [take, call .expression]),
      expect .rightParen "')'"]

end Grammar

end SqlFerry.Tsql
