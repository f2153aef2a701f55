import SqlFerry.Path

/-! What a conversion asks of the place where files are kept. -/
namespace SqlFerry

/-- Why the system refused to do something with a file. -/
inductive SystemError where
  | notFound
  | busy
  | notDirectory
  | isDirectory
  | invalidArgument
  | nameTooLong
  | notText
  /-- The path holds a character that no path may hold. -/
  | nulByte
  | other (description : String)
deriving DecidableEq, Repr

def SystemError.message : SystemError → String
  | notFound => "No such file or directory (os error 2)"
  | busy => "Device or resource busy (os error 16)"
  | notDirectory => "Not a directory (os error 20)"
  | isDirectory => "Is a directory (os error 21)"
  | invalidArgument => "Invalid argument (os error 22)"
  | nameTooLong => "File name too long (os error 36)"
  | nulByte => "file name contained an unexpected NUL byte"
  | notText => "stream did not contain valid UTF-8"
  | other description => description

/-- A step on a file that failed. -/
inductive StorageError where
  | read (path : Path) (cause : SystemError)
  | write (path : Path) (cause : SystemError)
  | makeDirectory (path : Path) (cause : SystemError)
  | rename (path : Path) (cause : SystemError)
deriving DecidableEq, Repr

def StorageError.message : StorageError → String
  | read path cause => s!"Failed to read file {path.text}: {cause.message}"
  | write path cause => s!"Failed to write file {path.text}: {cause.message}"
  | makeDirectory path cause => s!"Failed to create directory {path.text}: {cause.message}"
  | rename path cause => s!"Atomic rename failed for {path.text}: {cause.message}"

/-- A text that is written out beside the file whose place it is to take. -/
structure DraftFile where
  path : Path
  contents : String
deriving DecidableEq, Repr

structure Storage (m : Type → Type) where
  isPresent : Path → m Bool
  isDirectory : Path → m Bool
  /-- The files in a directory and in those below it, in any order. -/
  filesBelow : Path → m (Except StorageError (List Path))
  read : Path → m (Except SystemError String)
  /-- Makes a directory and those that lead to it. What was made stays when one cannot be made. -/
  makeDirectories : Path → m (Except SystemError Unit)
  /-- Writes a text out to a new file in a directory. -/
  draft : Path → String → m (Except SystemError DraftFile)
  /-- Gives a draft the name of a file. A draft that cannot have it is dropped. -/
  rename : DraftFile → Path → m (Except SystemError Unit)

namespace Storage

variable {m : Type → Type} [Monad m]

def attempt {α : Type} (failure : SystemError → StorageError) (action : m (Except SystemError α)) :
    ExceptT StorageError m α :=
  ExceptT.mk (return (← action).mapError failure)

/-- Puts a text in the place of a file. Its directory is made first, and the text is written there
before it takes the file's name, so that nobody sees a file that is written in part. -/
def replace (storage : Storage m) (path : Path) (contents : String) : ExceptT StorageError m Unit := do
  let directory := path.directory
  unless ← storage.isPresent directory do
    attempt (.makeDirectory directory) (storage.makeDirectories directory)
  let draft ← attempt (.write path) (storage.draft directory contents)
  attempt (.rename path) (storage.rename draft path)

end Storage

end SqlFerry
