import SqlFerry.CommandLine.Command

/-! The command as a program, on the files of the system. -/
namespace SqlFerry.Main

/-- The number of a system error, which some calls give with its sign turned. -/
def errorNumber (code : UInt32) : UInt32 := if 0x80000000 ≤ code then 0 - code else code

def systemError : IO.Error → SystemError
  | .noFileOrDirectory .. => .notFound
  | .resourceBusy .. => .busy
  | .invalidArgument _ code _ => if errorNumber code = 36 then .nameTooLong else .invalidArgument
  | .inappropriateType _ code _ =>
    if errorNumber code = 21 then .isDirectory else .notDirectory
  | error => .other (toString error)

/-- An action, with its failure as a value. -/
def attempt {α β : Type} (failure : SystemError → β) (action : IO α) : IO (Except β α) := do
  try
    return .ok (← action)
  catch error =>
    return .error (failure (systemError error))

def isDirectory (path : Path) : IO Bool := do
  try
    (← IO.FS.realPath path.text).isDir
  catch _ =>
    return false

def isPresent (path : Path) : IO Bool := do
  try
    (← IO.FS.realPath path.text).pathExists
  catch _ =>
    return false

partial def filesBelow (path : Path) : IO (List Path) := do
  let entries ← (← IO.FS.realPath path.text).readDir
  let files ← entries.toList.mapM fun entry => do
    let file := path.join entry.fileName
    if ← isDirectory file then filesBelow file else return [file]
  return files.flatten

def read (path : Path) : IO (Except SystemError String) := do
  match ← attempt id (IO.FS.readBinFile path.text) with
  | .error cause => return .error cause
  | .ok bytes =>
    match String.fromUTF8? bytes with
    | some text => return .ok text
    | none => return .error .notText

/-- Makes a directory, and those that lead to it where they are missing. -/
partial def makeDirectories (path : Path) : IO Unit := do
  try
    IO.FS.createDir path.text
  catch error =>
    match systemError error with
    | .notFound =>
      if path.directory = path then
        throw error
      makeDirectories path.directory
      IO.FS.createDir path.text
    | _ =>
      unless ← isDirectory path do
        throw error

/-- An action on a draft, which is removed if the action fails. -/
def orRemove (draft : Path) (action : IO Unit) : IO Unit := do
  try
    action
  catch error =>
    try
      IO.FS.removeFile draft.text
    catch _ =>
      pure ()
    throw error

def draft (directory : Path) (contents : String) : IO DraftFile := do
  let path := directory.join s!".tmp{← IO.rand 100000 999999}"
  orRemove path (IO.FS.writeFile path.text contents)
  return ⟨path, contents⟩

def rename (draft : DraftFile) (path : Path) : IO Unit :=
  orRemove draft.path (IO.FS.rename draft.path.text path.text)

def storage : Storage IO where
  isPresent := isPresent
  isDirectory := isDirectory
  filesBelow path := attempt (.read path) (filesBelow path)
  read := read
  makeDirectories path := attempt id (makeDirectories path)
  draft directory contents := attempt id (draft directory contents)
  rename draft path := attempt id (rename draft path)

end SqlFerry.Main

def main (arguments : List String) : IO UInt32 := do
  let output ← SqlFerry.Command.run arguments SqlFerry.Main.storage
  IO.print output.stdout
  IO.eprint output.stderr
  return output.exitCode.toUInt32
