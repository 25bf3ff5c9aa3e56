import WrenFront.FileTree.Path
import WrenFront.FileTree.SystemError

/-! Directories and what they hold. A file or directory with a `refusal` is there but cannot be
read. A place is the list of names that lead to a node from a directory above it, without `.`, `..`
or a link on the way. -/

namespace WrenFront

structure File where
  refusal : Option SystemError := none
  content : List UInt8
  deriving DecidableEq, Repr

mutual
inductive Node where
  | file (file : File)
  | directory (directory : Directory)
  | link (target : List UInt8)

inductive Directory where
  | mk (refusal : Option SystemError) (entries : List Entry)

inductive Entry where
  | mk (name : FileName) (node : Node)
end

abbrev Place := List FileName

namespace Entry

def name : Entry → FileName
  | .mk name _ => name

def node : Entry → Node
  | .mk _ node => node

end Entry

namespace Directory

def empty : Directory :=
  .mk none []

def refusal : Directory → Option SystemError
  | .mk refusal _ => refusal

def entries : Directory → List Entry
  | .mk _ entries => entries

def lookup? (directory : Directory) (name : FileName) : Option Node :=
  (directory.entries.find? (·.name == name)).map Entry.node

def get? (directory : Directory) : Place → Option Node
  | [] => some (.directory directory)
  | name :: rest =>
    match directory.lookup? name with
    | some (.directory inner) => inner.get? rest
    | found => if rest.isEmpty then found else none

/-- Gives `name` a new node, in the place of the one it had. -/
def put (directory : Directory) (name : FileName) (node : Node) : Directory :=
  if directory.entries.any (·.name == name) then
    .mk directory.refusal <| directory.entries.map fun entry =>
      if entry.name == name then .mk name node else entry
  else .mk directory.refusal (directory.entries ++ [.mk name node])

/-- Puts `node` at a place below, making the directories on the way. -/
def insert (directory : Directory) (node : Node) : Place → Directory
  | [] => directory
  | [name] => directory.put name node
  | name :: rest =>
    let inner := match directory.lookup? name with
      | some (.directory inner) => inner
      | _ => empty
    directory.put name (.directory (inner.insert node rest))

/-- The place that `names` lead to from the directory at `start`. Links are followed wherever they
stand, at most `links` of them, and `..` at the top stays there. All but the last name must lead to
a directory; nothing need be at the place itself. -/
def locate (root : Directory) (links : Nat) (start : Place) :
    List FileName → Except SystemError Place
  | [] => .ok start
  | name :: rest =>
    if name = FileName.here then root.locate links start rest
    else if name = FileName.parent then root.locate links start.dropLast rest
    else if FileName.maxLength < name.length then .error .nameTooLong
    else match root.get? (start ++ [name]) with
      | some (.directory _) => root.locate links (start ++ [name]) rest
      | some (.file _) => if rest.isEmpty then .ok (start ++ [name]) else .error .notDirectory
      | none => if rest.isEmpty then .ok (start ++ [name]) else .error .noEntry
      | some (.link target) =>
        match links with
        | 0 => .error .tooManyLinks
        | links + 1 =>
          let path := Path.ofBytes target
          root.locate links (if path.isAbsolute then [] else start) (path.names ++ rest)
termination_by names => (links, names.length)

end Directory

end WrenFront
