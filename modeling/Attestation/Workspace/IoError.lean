/-!
# Failed file operations

Why reading or changing files fails.
-/

namespace Attestation

/-- Why a file operation fails. -/
inductive IoError where
  | notFound
  | alreadyExists
  | isADirectory
  | notADirectory
  | directoryNotEmpty
  | invalidInput
  | permissionDenied
  /-- The file is not UTF-8. -/
  | invalidData
  /-- Any other reason, by its text. -/
  | other (text : String)
  deriving DecidableEq, Repr, Inhabited

/-- The text shown to the user. -/
def IoError.message : IoError → String
  | .notFound => "No such file or directory (os error 2)"
  | .permissionDenied => "Permission denied (os error 13)"
  | .alreadyExists => "File exists (os error 17)"
  | .notADirectory => "Not a directory (os error 20)"
  | .isADirectory => "Is a directory (os error 21)"
  | .invalidInput => "Invalid argument (os error 22)"
  | .directoryNotEmpty => "Directory not empty (os error 39)"
  | .invalidData => "stream did not contain valid UTF-8"
  | .other text => text

end Attestation
