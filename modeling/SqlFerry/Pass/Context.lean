import SqlFerry.Pass.Visit
import SqlFerry.Tsql.Declarations
import SqlFerry.Tsql.Inference

/-! What a pass knows while it walks: the tree, the settings and the declared variables. -/
namespace SqlFerry

open Tsql (Kind)

structure Context where
  tree : Tree Kind
  options : Options
  declarations : Tsql.Declarations

namespace Context

def ofTree (options : Options) (tree : Tree Kind) : Context := ⟨tree, options, .ofTree tree⟩

/-- The text of a node as it was read. -/
def text (ctx : Context) (node : Node Kind) : String := ctx.tree.text node

def variableName (ctx : Context) (name : String) : String :=
  SqlFerry.variableName ctx.options (ctx.declarations.isParameter name) name

def tempTableName (ctx : Context) (name : String) : String :=
  SqlFerry.tempTableName ctx.options name

def targetType (ctx : Context) (type : String) : String := Tsql.targetType ctx.options type

/-- Replaces a node of the tree unless an earlier edit has changed its text. -/
def replaceUntouched (ctx : Context) (node : Node Kind) (text : String) : Edit Unit :=
  discard (Edit.replaceUntouched ctx.tree node text)

def renameVariable (ctx : Context) (node : Node Kind) : Edit Unit :=
  ctx.replaceUntouched node (ctx.variableName (ctx.text node))

def renameTempTable (ctx : Context) (node : Node Kind) : Edit Unit :=
  ctx.replaceUntouched node (ctx.tempTableName (ctx.text node))

/-- A name in brackets loses them, or gets double quotes instead. -/
def unbracketName (ctx : Context) (node : Node Kind) : Edit Unit :=
  let text := ctx.text node
  let name := unbracket text
  if name = text then return else ctx.replaceUntouched node name

end Context

end SqlFerry
