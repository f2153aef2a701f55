import SqlFerry.Pass.Visit
import SqlFerry.Tsql.Parser

/-! Running passes one after the other. A snapshot is a text under edit and, once it was needed,
the tree of the text as it was then. A stage runs one pass on a snapshot, and a session runs stage
after stage and collects what they report. -/
namespace SqlFerry

open Tsql (Kind)

structure Snapshot where
  editor : Editor
  tree? : Option (Tree Kind) := none

namespace Snapshot

def ofLines (lines : List String) : Snapshot := { editor := .ofLines lines }

def ofText (text : String) : Snapshot := { editor := .ofText text }

/-- The tree of the text, which is read only once. -/
def tree (s : Snapshot) : Except ParseError (Tree Kind) :=
  match s.tree? with
  | some tree => .ok tree
  | none => Tsql.parse s.editor.buffer.joined

end Snapshot

inductive StageError where
  | unreadable (stage : String) (error : ParseError)
  | failed (stage : String) (error : EditError)
deriving DecidableEq, Repr

namespace StageError

def stage : StageError → String
  | unreadable stage _ | failed stage _ => stage

def message : StageError → String
  | unreadable stage error => s!"Stage '{stage}' could not parse its input: {error.message}"
  | failed stage error => s!"Stage '{stage}' failed: {error.message}"

end StageError

inductive Outcome where
  | continued
  | rebuilt
  | replaced
deriving DecidableEq, Repr

namespace Outcome

def name : Outcome → String
  | continued => "continued"
  | rebuilt => "rebuilt"
  | replaced => "replaced"

def ofEnding : Ending → Outcome
  | .keep => continued
  | .rebuild => rebuilt
  | .replace _ => replaced

end Outcome

structure StageReport where
  name : String
  outcome : Outcome
  diagnosticCount : Nat
  /-- The number of lines handed on. -/
  lineCount : Nat
deriving DecidableEq, Repr

/-- A stage that is over. -/
structure Stage where
  name : String
  tree : Tree Kind
  ending : Ending
  diagnostics : List Diagnostic
  /-- What the next stage starts from. -/
  next : Snapshot

namespace Stage

/-- What the next stage starts from. -/
def handOn (editor : Editor) (tree : Tree Kind) : Ending → Snapshot
  | .keep => { editor, tree? := some tree }
  | .rebuild => .ofLines editor.contents
  | .replace lines => .ofLines lines

def run (pass : Pass) (snapshot : Snapshot) : Except StageError Stage :=
  match snapshot.tree with
  | .error error => .error (.unreadable pass.name error)
  | .ok tree =>
    match (pass.run tree).run snapshot.editor with
    | .error error _ => .error (.failed pass.name error)
    | .ok ending editor => .ok {
        name := pass.name
        tree
        ending
        diagnostics := editor.diagnostics.map fun d => { d with stage := pass.name }
        next := handOn { editor with diagnostics := [] } tree ending }

def report (stage : Stage) : StageReport where
  name := stage.name
  outcome := .ofEnding stage.ending
  diagnosticCount := stage.diagnostics.length
  lineCount := stage.next.editor.buffer.lineCount

end Stage

structure Session where
  snapshot : Snapshot
  reports : List StageReport := []
  diagnostics : List Diagnostic := []

namespace Session

def ofLines (lines : List String) : Session := { snapshot := .ofLines lines }

def ofText (text : String) : Session := { snapshot := .ofText text }

def contents (s : Session) : List String := s.snapshot.editor.contents

def step (s : Session) (pass : Pass) : Except StageError Session := do
  let stage ← Stage.run pass s.snapshot
  return {
    snapshot := stage.next
    reports := s.reports ++ [stage.report]
    diagnostics := s.diagnostics ++ stage.diagnostics }

/-- Runs passes in order up to the first that fails. -/
def run (s : Session) (passes : List Pass) : Except StageError Session := passes.foldlM step s

end Session

end SqlFerry
