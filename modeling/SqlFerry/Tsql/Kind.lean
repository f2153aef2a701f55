/-! Kinds of tokens and of rules in a tree of T-SQL. -/
namespace SqlFerry.Tsql

inductive Kind where
  | keyword | identifier | quotedIdentifier | userVariable | systemVariable | tempTable
  | stringLiteral | numberLiteral | binaryLiteral | leftParen | rightParen | comma | semicolon
  | dot | equals | notEquals | less | greater | lessEquals | greaterEquals | plus | minus | star
  | slash | percent | ampersand | pipe | caret | tilde
  | compileUnit | batchSeparator | statement | createProcedure | qualifiedName
  | procedureParameters | procedureParameter | parameterDefault | procedureOptions
  | procedureBody | dataType
  | declare | variableDeclaration | tableVariable | columnDefinition | identitySpec
  | tableConstraint | setVariable | setOption | select | topClause | selectElement | intoClause
  | fromClause | tableSource | tableHint | joinClause | whereClause | groupByClause
  | havingClause | orderByClause | insert | columnList | outputClause | valuesRow | update
  | updateAssignment | delete | ifStatement | whileStatement | block | tryCatch | transaction
  | returnStatement | print | raiseError | execute | executeArgument | createTable | createIndex
  | dropTable | truncate | breakStatement | continueStatement | otherStatement
  | orExpression | andExpression | notExpression | comparisonExpression | additiveExpression
  | multiplicativeExpression | unaryExpression | parenExpression | functionCall
  | convertExpression | castExpression | caseExpression | subquery | existsExpression | columnRef
deriving DecidableEq, Repr

namespace Kind

/-- The kind as messages and token listings show it. -/
def name : Kind → String
  | keyword => "Keyword"
  | identifier => "Identifier"
  | quotedIdentifier => "QuotedIdentifier"
  | userVariable => "Variable"
  | systemVariable => "SystemVariable"
  | tempTable => "TempTable"
  | stringLiteral => "StringLiteral"
  | numberLiteral => "NumberLiteral"
  | binaryLiteral => "BinaryLiteral"
  | leftParen => "LParen"
  | rightParen => "RParen"
  | comma => "Comma"
  | semicolon => "Semicolon"
  | dot => "Dot"
  | equals => "Equals"
  | notEquals => "NotEquals"
  | less => "Less"
  | greater => "Greater"
  | lessEquals => "LessEquals"
  | greaterEquals => "GreaterEquals"
  | plus => "Plus"
  | minus => "Minus"
  | star => "Star"
  | slash => "Slash"
  | percent => "Percent"
  | ampersand => "Ampersand"
  | pipe => "Pipe"
  | caret => "Caret"
  | tilde => "Tilde"
  | compileUnit => "CompileUnit"
  | batchSeparator => "BatchSeparator"
  | statement => "Statement"
  | createProcedure => "CreateProcedure"
  | qualifiedName => "QualifiedName"
  | procedureParameters => "ProcedureParameters"
  | procedureParameter => "ProcedureParameter"
  | parameterDefault => "ParameterDefault"
  | procedureOptions => "ProcedureOptions"
  | procedureBody => "ProcedureBody"
  | dataType => "DataType"
  | declare => "Declare"
  | variableDeclaration => "VariableDeclaration"
  | tableVariable => "TableVariable"
  | columnDefinition => "ColumnDefinition"
  | identitySpec => "IdentitySpec"
  | tableConstraint => "TableConstraint"
  | setVariable => "SetVariable"
  | setOption => "SetOption"
  | select => "Select"
  | topClause => "TopClause"
  | selectElement => "SelectElement"
  | intoClause => "IntoClause"
  | fromClause => "FromClause"
  | tableSource => "TableSource"
  | tableHint => "TableHint"
  | joinClause => "JoinClause"
  | whereClause => "WhereClause"
  | groupByClause => "GroupByClause"
  | havingClause => "HavingClause"
  | orderByClause => "OrderByClause"
  | insert => "Insert"
  | columnList => "ColumnList"
  | outputClause => "OutputClause"
  | valuesRow => "ValuesRow"
  | update => "Update"
  | updateAssignment => "UpdateAssignment"
  | delete => "Delete"
  | ifStatement => "If"
  | whileStatement => "While"
  | block => "Block"
  | tryCatch => "TryCatch"
  | transaction => "Transaction"
  | returnStatement => "Return"
  | print => "Print"
  | raiseError => "RaiseError"
  | execute => "Execute"
  | executeArgument => "ExecuteArgument"
  | createTable => "CreateTable"
  | createIndex => "CreateIndex"
  | dropTable => "DropTable"
  | truncate => "Truncate"
  | breakStatement => "Break"
  | continueStatement => "Continue"
  | otherStatement => "OtherStatement"
  | orExpression => "OrExpression"
  | andExpression => "AndExpression"
  | notExpression => "NotExpression"
  | comparisonExpression => "ComparisonExpression"
  | additiveExpression => "AdditiveExpression"
  | multiplicativeExpression => "MultiplicativeExpression"
  | unaryExpression => "UnaryExpression"
  | parenExpression => "ParenExpression"
  | functionCall => "FunctionCall"
  | convertExpression => "ConvertExpression"
  | castExpression => "CastExpression"
  | caseExpression => "CaseExpression"
  | subquery => "Subquery"
  | existsExpression => "ExistsExpression"
  | columnRef => "ColumnRef"

/-- Every kind. -/
def all : List Kind := [
  .keyword, .identifier, .quotedIdentifier, .userVariable, .systemVariable, .tempTable,
  .stringLiteral, .numberLiteral, .binaryLiteral, .leftParen, .rightParen, .comma, .semicolon,
  .dot, .equals, .notEquals, .less, .greater, .lessEquals, .greaterEquals, .plus, .minus, .star,
  .slash, .percent, .ampersand, .pipe, .caret, .tilde, .compileUnit, .batchSeparator, .statement,
  .createProcedure, .qualifiedName, .procedureParameters, .procedureParameter, .parameterDefault,
  .procedureOptions, .procedureBody, .dataType, .declare, .variableDeclaration, .tableVariable,
  .columnDefinition, .identitySpec, .tableConstraint, .setVariable, .setOption, .select,
  .topClause, .selectElement, .intoClause, .fromClause, .tableSource, .tableHint, .joinClause,
  .whereClause, .groupByClause, .havingClause, .orderByClause, .insert, .columnList,
  .outputClause, .valuesRow, .update, .updateAssignment, .delete, .ifStatement, .whileStatement,
  .block, .tryCatch, .transaction, .returnStatement, .print, .raiseError, .execute,
  .executeArgument, .createTable, .createIndex, .dropTable, .truncate, .breakStatement,
  .continueStatement, .otherStatement, .orExpression, .andExpression, .notExpression,
  .comparisonExpression, .additiveExpression, .multiplicativeExpression, .unaryExpression,
  .parenExpression, .functionCall, .convertExpression, .castExpression, .caseExpression,
  .subquery, .existsExpression, .columnRef]

theorem mem_all (kind : Kind) : kind ∈ all := by cases kind <;> decide

/-- The kind that a name stands for. -/
def ofName? (text : String) : Option Kind := all.find? (·.name == text)

instance : ToString Kind := ⟨name⟩

/-- The kinds that lexing gives to tokens; all others are rules of the grammar. -/
def isToken : Kind → Bool
  | keyword | identifier | quotedIdentifier | userVariable | systemVariable | tempTable
  | stringLiteral | numberLiteral | binaryLiteral | leftParen | rightParen | comma
  | semicolon | dot | equals | notEquals | less | greater | lessEquals | greaterEquals
  | plus | minus | star | slash | percent | ampersand | pipe | caret | tilde => true
  | _ => false

def isLiteral : Kind → Bool
  | stringLiteral | numberLiteral | binaryLiteral => true
  | _ => false

/-- Tokens that can be read as a word of the language. -/
def isWord : Kind → Bool
  | keyword | identifier => true
  | _ => false

/-- Names: plain or in delimiters. -/
def isName : Kind → Bool
  | identifier | quotedIdentifier => true
  | _ => false

/-- Statements that end with a semicolon in PL/pgSQL. -/
def takesTerminator : Kind → Bool
  | select | insert | update | delete | createTable | createIndex | dropTable | truncate
  | setVariable | declare | execute | returnStatement | print | raiseError
  | breakStatement | continueStatement => true
  | _ => false

end Kind

end SqlFerry.Tsql
