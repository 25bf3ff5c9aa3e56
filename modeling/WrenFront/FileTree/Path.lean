import WrenFront.Text.Utf8

/-! Paths in a file system. A name is any bytes without a slash; it need not be text. -/

namespace WrenFront

abbrev FileName := List UInt8

namespace FileName

def here : FileName := [46]

def parent : FileName := [46, 46]

def maxLength : Nat := 255

end FileName

structure Path where
  isAbsolute : Bool
  names : List FileName
  deriving DecidableEq, Repr

namespace Path

def maxLength : Nat := 4095

def slash : UInt8 := 47

/-- The names between slashes. A slash at the end asks for a directory, as `.` after it would. -/
def ofBytes (bytes : List UInt8) : Path where
  isAbsolute := bytes.head? == some slash
  names :=
    let names := (bytes.splitOn slash).filter (!·.isEmpty)
    if bytes.getLast? == some slash then names ++ [FileName.here] else names

/-- The directory around what a path names. It ends in `.`, so that nothing but a directory will
do. -/
def parent (path : Path) : Path :=
  { path with names := path.names.dropLast ++ [FileName.here] }

/-- The paths that `path` passes through before it ends, outermost first. -/
def ancestors (path : Path) : List Path :=
  (List.range path.names.length).map fun count => { path with names := path.names.take count }

/-- The path of an entry in a directory. -/
def join (directory name : String) : String :=
  if directory.endsWith "/" then directory ++ name else directory ++ "/" ++ name

/-- What follows the last dot of a name, if there is something before that dot. -/
def extension? (name : List Char) : Option (List Char) :=
  let reversed := name.reverse
  let ending := reversed.takeWhile (· ≠ '.')
  let stem := (reversed.drop ending.length).drop 1
  if stem.isEmpty then none else some ending.reverse

end Path

end WrenFront
