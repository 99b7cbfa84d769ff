/-! # Why a file operation fails -/
namespace ServiceMetadata

inductive FileError where
  | notFound | alreadyExists | notDirectory | isDirectory | nameTooLong
  | nulInPath
  | notText
  deriving DecidableEq, Repr

def numbered (message : String) (number : Nat) : String :=
  message ++ " (os error " ++ toString number ++ ")"

def FileError.message : FileError → String
  | .notFound => numbered "No such file or directory" 2
  | .alreadyExists => numbered "File exists" 17
  | .notDirectory => numbered "Not a directory" 20
  | .isDirectory => numbered "Is a directory" 21
  | .nameTooLong => numbered "File name too long" 36
  | .nulInPath => "file name contained an unexpected NUL byte"
  | .notText => "stream did not contain valid UTF-8"

end ServiceMetadata
