import WrenFront.FileTree

/-! Finding scripts: the file that a path names, or every file with the scripts' extension below the
directory that it names. Links are not followed below the path itself. -/

namespace WrenFront

inductive SearchFailure where
  | noSuchPath (path : String)
  | unreadableDirectory (path : String) (cause : SystemError)
  | nameNotText
  deriving DecidableEq, Repr

/-- A script under the path that it is reported by. `names` leads to it from where the search
began. -/
structure ScriptFile where
  path : String
  names : List FileName
  file : File
  deriving DecidableEq, Repr

namespace ScriptFile

def fileExtension : List Char := ['w', 'r', 'e', 'n']

/-- Scripts go by the names that lead to them, compared one by one and byte by byte. -/
def before (first second : ScriptFile) : Bool :=
  (List.compareLex (List.compareLex compare) first.names second.names).isLE

end ScriptFile

mutual
def Node.scripts (path : String) (names : List FileName) (name : String) :
    Node → Except SearchFailure (List ScriptFile)
  | .link _ => .ok []
  | .directory directory => directory.scripts path names
  | .file file =>
    if Path.extension? name.toList = some ScriptFile.fileExtension then .ok [⟨path, names, file⟩]
    else .ok []

def Directory.scripts (path : String) (names : List FileName) :
    Directory → Except SearchFailure (List ScriptFile)
  | .mk (some cause) _ => .error (.unreadableDirectory path cause)
  | .mk none entries => Entry.scripts path names entries

def Entry.scripts (path : String) (names : List FileName) :
    List Entry → Except SearchFailure (List ScriptFile)
  | [] => .ok []
  | .mk _ (.link _) :: rest => Entry.scripts path names rest
  | .mk name node :: rest =>
    match Text.Utf8.text? name with
    | none => .error .nameNotText
    | some text => do
      let found ← node.scripts (Path.join path text) (names ++ [name]) text
      return found ++ (← Entry.scripts path names rest)
end

def Directory.sortedScripts (directory : Directory) (path : String) :
    Except SearchFailure (List ScriptFile) := do
  return (← directory.scripts path []).mergeSort ScriptFile.before

/-- The scripts to check for a path, given what it leads to. -/
def ScriptFile.search (path : String) (target : Except SystemError Target) :
    Except SearchFailure (List ScriptFile) :=
  match target with
  | .error _ => .error (.noSuchPath path)
  | .ok (.file file) => .ok [⟨path, [], file⟩]
  | .ok (.directory directory) => directory.sortedScripts path

end WrenFront
