import WrenFront.FileTree.Directory

/-! A file system as a tree, with the directory that relative paths start from. -/

namespace WrenFront

structure FileTree where
  root : Directory
  working : Place

/-- What a path leads to once links have been followed. -/
inductive Target where
  | file (file : File)
  | directory (directory : Directory)

namespace FileTree

/-- Links beyond this many on one way are refused. -/
def maxLinks : Nat := 40

/-- A tree with nothing in it but the working directory. -/
def emptyIn (working : Place) : FileTree where
  root := Directory.empty.insert (.directory .empty) working
  working := working

def locate (tree : FileTree) (path : Path) : Except SystemError Place :=
  tree.root.locate maxLinks (if path.isAbsolute then [] else tree.working) path.names

def insert (tree : FileTree) (node : Node) (place : Place) : FileTree :=
  { tree with root := tree.root.insert node place }

def target (tree : FileTree) (path : Path) : Except SystemError Target := do
  match tree.root.get? (← tree.locate path) with
  | some (.file file) => return .file file
  | some (.directory directory) => return .directory directory
  | _ => throw .noEntry

def follow (tree : FileTree) (path : String) : Except SystemError Target :=
  let bytes := Text.Utf8.encode path
  if bytes.isEmpty then .error .noEntry
  else if Path.maxLength < bytes.length then .error .nameTooLong
  else tree.target (Path.ofBytes bytes)

/-- Makes an entry under a name that is still free. A link at the end of the path is not followed:
it takes its name. -/
def makeEntry (tree : FileTree) (path : Path) (node : Node) : Except SystemError FileTree := do
  let directory ← tree.locate path.parent
  match path.names.getLast? with
  | none => throw .entryExists
  | some name =>
    let place := directory ++ [name]
    if name = FileName.here ∨ name = FileName.parent ∨ (tree.root.get? place).isSome then
      throw .entryExists
    else return tree.insert node place

def makeLink (tree : FileTree) (path : Path) (destination : List UInt8) :
    Except SystemError FileTree :=
  tree.makeEntry path (.link destination)

/-- Makes a directory, unless the path already leads to one. -/
def makeDirectory (tree : FileTree) (path : Path) : Except SystemError FileTree :=
  match tree.target path with
  | .ok (.directory _) => .ok tree
  | _ => tree.makeEntry path (.directory .empty)

/-- Makes the directories that a path passes through, outermost first. -/
def makeAncestors (tree : FileTree) (path : Path) : Except SystemError FileTree :=
  path.ancestors.foldlM makeDirectory tree

/-- Writes a file, through a link if the path leads to one, over what the file held before. -/
def writeFile (tree : FileTree) (path : Path) (content : List UInt8) :
    Except SystemError FileTree := do
  let place ← tree.locate path
  match tree.root.get? place with
  | some (.directory _) => throw .isDirectory
  | _ => return tree.insert (.file { content }) place

end FileTree

end WrenFront
