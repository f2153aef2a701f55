import SqlFerry.Text.Case
import SqlFerry.Tree.Basic
import SqlFerry.Tsql.Kind

/-! The variables that a text declares: parameters of procedures, variables and table variables.
Names are compared without regard to case, and of several declarations of a name the first
counts. -/
namespace SqlFerry.Tsql

inductive DeclarationKind where
  | parameter (isOutput : Bool)
  | scalar
  | table
deriving DecidableEq, Repr

structure Declaration where
  /-- The name as it is written, with its `@`. -/
  name : String
  /-- The type as it is written; empty for a table. -/
  type : String
  kind : DeclarationKind
  /-- The number of the declaring node. -/
  node : Nat
deriving DecidableEq, Repr

def Declaration.isParameter (d : Declaration) : Bool :=
  match d.kind with
  | .parameter _ => true
  | _ => false

/-- A parameter of a procedure that hands a value back. -/
def isOutputParameter (node : Node Kind) : Bool := node.hasWord "OUTPUT" || node.hasWord "OUT"

/-- The declaration that a node makes. -/
def declarationOf? (tree : Tree Kind) (node : Node Kind) : Option Declaration := do
  let kind ← match node.kind with
    | .procedureParameter => some (.parameter (isOutputParameter node))
    | .variableDeclaration => some .scalar
    | .tableVariable => some .table
    | _ => none
  let name ← node.firstChild? .userVariable
  let type := ((node.firstChild? .dataType).map tree.text).getD ""
  return ⟨tree.text name, type, kind, node.id⟩

/-- Declarations in the order of the text, with different names. -/
structure Declarations where
  entries : List Declaration := []
deriving DecidableEq, Repr

namespace Declarations

def find? (ds : Declarations) (name : String) : Option Declaration :=
  ds.entries.find? fun d => Text.toLower d.name == Text.toLower name

def add (ds : Declarations) (d : Declaration) : Declarations :=
  if (ds.find? d.name).isSome then ds else ⟨ds.entries ++ [d]⟩

def ofTree (tree : Tree Kind) : Declarations :=
  (tree.descendants.filterMap (declarationOf? tree)).foldl add {}

def isParameter (ds : Declarations) (name : String) : Bool :=
  (ds.find? name).any (·.isParameter)

/-- The declarations made inside a node. -/
def within (ds : Declarations) (scope : Node Kind) : List Declaration :=
  let ids := scope.descendants.map (·.id)
  ds.entries.filter (ids.contains ·.node)

/-- The variables of a procedure that need a place among the declarations of its function. -/
def variablesOf (ds : Declarations) (procedure : Node Kind) : List Declaration :=
  (ds.within procedure).filter (·.kind == .scalar)

def outputsOf (ds : Declarations) (procedure : Node Kind) : List Declaration :=
  (ds.within procedure).filter (·.kind == .parameter true)

end Declarations

end SqlFerry.Tsql
