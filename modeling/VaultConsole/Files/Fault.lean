/-!
# Faults of files

Why a path leads to nothing, or to nothing that can be read as text.
-/

namespace VaultConsole

/-- Why a file cannot be read. -/
inductive FileFault where
  | noSuchFile
  | isDirectory
  | notDirectory
  | invalidText
  | nulInName
  | linkLoop
  | nameTooLong
  deriving DecidableEq, Repr, Inhabited

namespace FileFault

/-- The kind of a fault. -/
def kind : FileFault → String
  | .noSuchFile => "NotFound"
  | .isDirectory => "IsADirectory"
  | .notDirectory => "NotADirectory"
  | .invalidText => "InvalidData"
  | .nulInName => "InvalidInput"
  | .linkLoop => "FilesystemLoop"
  | .nameTooLong => "InvalidFilename"

/-- The text of a fault. -/
def message : FileFault → String
  | .noSuchFile => "No such file or directory (os error 2)"
  | .isDirectory => "Is a directory (os error 21)"
  | .notDirectory => "Not a directory (os error 20)"
  | .invalidText => "stream did not contain valid UTF-8"
  | .nulInName => "file name contained an unexpected NUL byte"
  | .linkLoop => "Too many levels of symbolic links (os error 40)"
  | .nameTooLong => "File name too long (os error 36)"

end FileFault

end VaultConsole
