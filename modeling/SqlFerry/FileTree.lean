import SqlFerry.Storage
import SqlFerry.Text.Column

/-! Files and directories as a value. Every item has a location, the names that lead to it from the
root, and relative paths start at the working directory. -/
namespace SqlFerry

abbrev Location := List String

inductive Item where
  | directory
  | text (contents : String)
  /-- A file whose bytes are no text. -/
  | bytes
deriving DecidableEq, Repr

structure FileTree where
  items : List (Location × Item)
  working : Location

namespace FileTree

def item? (t : FileTree) (place : Location) : Option Item := t.items.lookup place

def put (t : FileTree) (place : Location) (item : Item) : FileTree :=
  { t with items := t.items.filter (·.1 != place) ++ [(place, item)] }

/-- An empty working directory. -/
def empty (working : Location) : FileTree where
  items := (List.range (working.length + 1)).map fun n => (working.take n, .directory)
  working := working

/-- The directory at a place, or why there is none. -/
def requireDirectory (t : FileTree) (place : Location) : Except SystemError Unit :=
  match t.item? place with
  | some .directory => .ok ()
  | some _ => .error .notDirectory
  | none => .error .notFound

/-- Where a piece of a path leads. -/
def step (place : Location) (piece : String) : Location :=
  if piece = "" || piece = "." then place
  else if piece = ".." then place.dropLast
  else place ++ [piece]

/-- The most bytes that a name can have. -/
def nameLimit : Nat := 255

/-- The most bytes that a path can have. -/
def pathLimit : Nat := 4095

/-- Where a piece of a path leads, if it is not too long. -/
def enter (place : Location) (piece : String) : Except SystemError Location :=
  if nameLimit < Text.size piece then .error .nameTooLong else .ok (step place piece)

/-- Where pieces of a path lead through directories. Nothing need exist at the end. -/
def follow (t : FileTree) (place : Location) (pieces : List String) : Except SystemError Location :=
  pieces.foldlM (fun place piece => do
    t.requireDirectory place
    enter place piece) place

/-- Paths that cannot be followed, whatever there is. -/
def check (path : Path) : Except SystemError Unit :=
  if path.hasNul then .error .nulByte
  else if pathLimit < Text.size path.text then .error .nameTooLong
  else if path.text = "" then .error .notFound
  else .ok ()

/-- Where the pieces of a path are followed from. -/
def start (t : FileTree) (path : Path) : Location := if path.isAbsolute then [] else t.working

def locate (t : FileTree) (path : Path) : Except SystemError Location := do
  check path
  t.follow (t.start path) path.pieces

/-- The item that a path leads to. -/
def find (t : FileTree) (path : Path) : Except SystemError Item := do
  match t.item? (← t.locate path) with
  | some item => return item
  | none => .error .notFound

def isDirectory (t : FileTree) (path : Path) : Bool := (t.find path).toOption = some .directory

def isPresent (t : FileTree) (path : Path) : Bool := (t.find path).toOption.isSome

def filesBelow (t : FileTree) (path : Path) : Except StorageError (List Path) :=
  match t.locate path with
  | .error cause => .error (.read path cause)
  | .ok place => .ok (t.items.filterMap fun (other, item) =>
      if item != .directory && place.isPrefixOf other then
        some (path.join (Text.join "/" (other.drop place.length)))
      else
        none)

def read (t : FileTree) (path : Path) : Except SystemError String := do
  match ← t.find path with
  | .text contents => return contents
  | .bytes => .error .notText
  | .directory => .error .isDirectory

/-- Makes the directories that the pieces of a path lead through, as far as that can be done. -/
def makeDirectories (t : FileTree) (place : Location) :
    List String → Except SystemError Unit × FileTree
  | [] => (.ok (), t)
  | piece :: rest =>
    match enter place piece with
    | .error cause => (.error cause, t)
    | .ok next =>
      match t.item? next with
      | some .directory => makeDirectories t next rest
      | some _ => (.error .notDirectory, t)
      | none => makeDirectories (t.put next .directory) next rest

def makeDirectory (t : FileTree) (path : Path) : Except SystemError Unit × FileTree :=
  match check path with
  | .error cause => (.error cause, t)
  | .ok () => t.makeDirectories (t.start path) path.pieces

/-- The name that a draft in a directory has. -/
def draftPath (t : FileTree) (directory : Path) : Path :=
  let directory :=
    if directory.isAbsolute then directory
    else Path.join ⟨"/" ++ Text.join "/" t.working⟩ directory.text
  directory.join ".tmp000000"

/-- A draft in a directory that exists. It is kept apart from the items of the tree. -/
def draft (t : FileTree) (directory : Path) (contents : String) : Except SystemError DraftFile := do
  let path := t.draftPath directory
  let _ ← t.locate path
  return ⟨path, contents⟩

/-- Puts a text at a path whose directory exists. -/
def overwrite (t : FileTree) (path : Path) (contents : String) : Except SystemError FileTree := do
  if path.hasNul then
    .error .invalidArgument
  let place ← t.locate path
  if path.fileName?.isNone then
    .error .busy
  else if t.item? place = some .directory then
    .error .isDirectory
  else
    return t.put place (.text contents)

/-- A tree with one item more, and the directories that lead to it. -/
def add (t : FileTree) (path : Path) (item : Item) : Except SystemError FileTree := do
  let directory := if item = .directory then path else path.directory
  let (made, t) := if t.isPresent directory then (.ok (), t) else t.makeDirectory directory
  made
  if item = .directory then
    return t
  else
    return t.put (← t.locate path) item

/-- The storage of a file tree that is kept as a state. -/
def storage : Storage (StateM FileTree) where
  isPresent path := return (← get).isPresent path
  isDirectory path := return (← get).isDirectory path
  filesBelow path := return (← get).filesBelow path
  read path := return (← get).read path
  makeDirectories path := modifyGet (·.makeDirectory path)
  draft directory contents := return (← get).draft directory contents
  rename draft path := modifyGet fun t =>
    match t.overwrite path draft.contents with
    | .ok t => (.ok (), t)
    | .error cause => (.error cause, t)

/-- The texts below the working directory that another tree does not hold, under their paths. -/
def textsBeyond (t before : FileTree) : List (String × String) :=
  t.items.filterMap fun (place, item) =>
    match item with
    | .text contents =>
      if t.working.isPrefixOf place && before.item? place != some item then
        some (Text.join "/" (place.drop t.working.length), contents)
      else
        none
    | _ => none

end FileTree

end SqlFerry
