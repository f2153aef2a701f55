import SqlFerry.Text.Blank
import SqlFerry.Text.Pieces

/-! Paths of files. A path is a text, and its components are what the text says: slashes side by
side count as one, and a dot says nothing unless the path starts with it. -/
namespace SqlFerry

inductive Component where
  | root
  /-- A dot at the start of a relative path. -/
  | current
  | parent
  | name (text : String)
deriving DecidableEq, Repr

namespace Component

def text : Component → String
  | root => "/"
  | current => "."
  | parent => ".."
  | name text => text

/-- The component that a piece between slashes stands for; none for an empty piece and a dot. -/
def ofPiece? (piece : String) : Option Component :=
  if piece = "" || piece = "." then none
  else if piece = ".." then some parent
  else some (name piece)

def rank : Component → Nat
  | root => 0
  | current => 1
  | parent => 2
  | name _ => 3

/-- The root comes first, then dots, then names by their characters. -/
def compare (a b : Component) : Ordering :=
  (Ord.compare a.rank b.rank).then (Ord.compare a.text b.text)

/-- Adds a component to a path in normal form: a dot is left out, and two dots take back a name
and lead nowhere from the root. -/
def enter (path : List Component) (component : Component) : List Component :=
  match component with
  | current => path
  | parent =>
    match path.getLast? with
    | some (name _) => path.dropLast
    | some root => path
    | _ => path ++ [parent]
  | other => path ++ [other]

/-- The components without dots, as far as they can be left out without looking at files. -/
def normalForm (components : List Component) : List Component :=
  match components.foldl enter [] with
  | [] => [current]
  | path => path

def compareAll : List Component → List Component → Ordering
  | [], [] => .eq
  | [], _ :: _ => .lt
  | _ :: _, [] => .gt
  | a :: as, b :: bs => (a.compare b).then (compareAll as bs)

/-- The path that components spell. -/
def spell : List Component → String
  | root :: rest => "/" ++ Text.join "/" (rest.map text)
  | components => Text.join "/" (components.map text)

end Component

structure Path where
  text : String
deriving DecidableEq, Repr

namespace Path

def pieces (p : Path) : List String := Text.splitOn '/' p.text

def components (p : Path) : List Component :=
  match p.pieces with
  | "" :: _ :: _ => .root :: p.pieces.filterMap Component.ofPiece?
  | "." :: rest => .current :: rest.filterMap Component.ofPiece?
  | pieces => pieces.filterMap Component.ofPiece?

def ofComponents (components : List Component) : Path := ⟨Component.spell components⟩

/-- The path in normal form, found without looking at files. -/
def normalize (p : Path) : Path := ofComponents (Component.normalForm p.components)

def here : Path := ⟨"."⟩

def isAbsolute (p : Path) : Bool := p.text.toList.head? = some '/'

def hasNul (p : Path) : Bool := p.text.toList.contains '\x00'

/-- A relative path below another one. -/
def join (p : Path) (name : String) : Path :=
  if p.text = "" then ⟨name⟩ else ⟨p.text ++ "/" ++ name⟩

/-- The directory that holds the path's last component. -/
def directory (p : Path) : Path :=
  match p.components.dropLast with
  | [] => here
  | components => ofComponents components

def fileName? (p : Path) : Option String :=
  match p.components.getLast? with
  | some (.name text) => some text
  | _ => none

/-- A name before and behind its last dot. A dot at the start of a name divides nothing. -/
def divide (name : String) : String × Option String :=
  let tail := name.toList.reverse.takeWhile (· != '.')
  match name.toList.reverse.drop tail.length with
  | [] | [_] => (name, none)
  | _ :: stem => (.ofList stem.reverse, some (.ofList tail.reverse))

def stem? (p : Path) : Option String := p.fileName?.map fun name => (divide name).1

def extension? (p : Path) : Option String := p.fileName?.bind fun name => (divide name).2

/-- The order of paths by their components. -/
def le (p q : Path) : Bool := Component.compareAll p.components q.components != .gt

/-- A file name with an extension, which may be written without its dot. -/
def fileNameWith (stem extension : String) : String :=
  let extension := Text.trim extension
  if extension = "" || extension.toList.head? = some '.' then stem ++ extension
  else stem ++ "." ++ extension

/-- Where the conversion of a file goes: into `outdir`, under the file's name with another
extension. -/
def target (p : Path) (outdir : Path) (extension : String) : Path :=
  (outdir.join (fileNameWith (p.stem?.getD "") extension)).normalize

end Path

end SqlFerry
