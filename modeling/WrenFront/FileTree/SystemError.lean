/-! The ways in which a file system refuses a request. -/

namespace WrenFront

inductive SystemError where
  | noEntry
  | permissionDenied
  | entryExists
  | notDirectory
  | isDirectory
  | nameTooLong
  | tooManyLinks
  /-- Any other refusal, in the system's own words. -/
  | other (message : String)
  deriving DecidableEq, Repr

def SystemError.message : SystemError → String
  | .noEntry => "No such file or directory (os error 2)"
  | .permissionDenied => "Permission denied (os error 13)"
  | .entryExists => "File exists (os error 17)"
  | .notDirectory => "Not a directory (os error 20)"
  | .isDirectory => "Is a directory (os error 21)"
  | .nameTooLong => "File name too long (os error 36)"
  | .tooManyLinks => "Too many levels of symbolic links (os error 40)"
  | .other message => message

end WrenFront
