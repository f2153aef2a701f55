import SqlFerry.Pass.Context

/-! Passes that rename variables or temporary tables and leave all else alone. -/
namespace SqlFerry.Pass

def renameVariables (ctx : Context) : Visit := fun recur site =>
  match site.kind with
  | .userVariable => ctx.renameVariable site.node
  | _ => Visit.children recur site

def renameTempTables (ctx : Context) : Visit := fun recur site =>
  match site.kind with
  | .tempTable => ctx.renameTempTable site.node
  | _ => Visit.children recur site

def variableNames (options : Options) : Pass :=
  .ofVisit "variable-names" fun tree => renameVariables (.ofTree options tree)

def tableNames (options : Options) : Pass :=
  .ofVisit "table-names" fun tree => renameTempTables (.ofTree options tree)

end SqlFerry.Pass
