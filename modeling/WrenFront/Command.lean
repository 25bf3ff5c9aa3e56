import WrenFront.Command.Arguments
import WrenFront.Diagnostic
import WrenFront.FileTree.Scripts
import WrenFront.Tree.Outline

/-! What the program does: it lists the tokens of a script, prints its tree, or checks every script
below a path. A command sees only what its path leads to. -/

namespace WrenFront

inductive Failure where
  | unreadableFile (path : String) (cause : SystemError)
  | search (failure : SearchFailure)
  | noScripts (path : String)
  | errorsInFile (errors : Nat) (path : String)
  | errorsInFiles (errors files : Nat)
  deriving DecidableEq, Repr

namespace Failure

def message : Failure → String
  | .unreadableFile path _ => s!"Failed to read '{path}'"
  | .search (.noSuchPath path) => s!"Path '{path}' does not exist"
  | .search (.unreadableDirectory path _) => s!"Failed to read directory '{path}'"
  | .search .nameNotText => "Non-UTF-8 path"
  | .noScripts path => s!"No .wren source files found in '{path}'"
  | .errorsInFile errors path => s!"Found {errors} error(s) in '{path}'"
  | .errorsInFiles errors files => s!"Found {errors} error(s) in {files} file(s)"

def cause? : Failure → Option SystemError
  | .unreadableFile _ cause => some cause
  | .search (.unreadableDirectory _ cause) => some cause
  | _ => none

end Failure

/-- What has been written so far: standard output, and the reports on standard error. -/
structure Transcript where
  stdout : String := ""
  reports : List String := []
  deriving DecidableEq, Repr

def Transcript.append (first second : Transcript) : Transcript where
  stdout := first.stdout ++ second.stdout
  reports := first.reports ++ second.reports

/-- All that a run shows. `reports` ends with the failure, if there was one, and `causes` says what
the system answered. -/
structure Outcome where
  exitCode : Nat
  stdout : String := ""
  reports : List String := []
  causes : List String := []
  summary : Option String := none
  deriving DecidableEq, Repr

namespace Outcome

def success (transcript : Transcript) (summary : Option String) : Outcome where
  exitCode := 0
  stdout := transcript.stdout
  reports := transcript.reports
  summary := summary

def failed (transcript : Transcript) (failure : Failure) : Outcome where
  exitCode := 1
  stdout := transcript.stdout
  reports := transcript.reports ++ [failure.message]
  causes := failure.cause?.toList.map SystemError.message

end Outcome

def File.load (file : File) (path : String) : Except Failure Source :=
  match file.refusal with
  | some cause => .error (.unreadableFile path cause)
  | none => .ok { id := path, bytes := file.content }

def Target.load (path : String) (target : Except SystemError Target) : Except Failure Source :=
  match target with
  | .error cause => .error (.unreadableFile path cause)
  | .ok (.directory _) => .error (.unreadableFile path .isDirectory)
  | .ok (.file found) => found.load path

/-- A token on a line of its own, after its position. -/
def Token.listing (source : Source) (token : Token) : String :=
  s!"{source.line token.start}:{source.column token.start} {token.kind.label} " ++
    Text.Quoted.string (token.text source) ++ "\n"

def Source.listing (source : Source) : String :=
  String.join (source.tokens.map (Token.listing source))

namespace Command

def errorCount (diagnostics : List Diagnostic) : Nat :=
  diagnostics.countP Diagnostic.isError

/-- Lexical errors are reported after the listing and never make it fail. -/
def runTokens (path : String) (target : Except SystemError Target) : Outcome :=
  match Target.load path target with
  | .error failure => .failed {} failure
  | .ok source =>
    let errors := (Lexer.ofSource source).readAll.2.errors
    .success ⟨source.listing, errors.map LexicalError.message⟩ none

/-- The tree is printed even when the script has problems. -/
def runParse (path : String) (strict : Bool) (target : Except SystemError Target) : Outcome :=
  match Target.load path target with
  | .error failure => .failed {} failure
  | .ok source =>
    let parsed := source.parse
    let diagnostics := parsed.diagnostics strict
    let tree := parsed.module.dump source
    let transcript : Transcript :=
      ⟨if tree.isEmpty then "" else tree ++ "\n", diagnostics.map Diagnostic.message⟩
    let errors := errorCount diagnostics
    if errors = 0 then .success transcript none
    else .failed transcript (.errorsInFile errors path)

/-- Text goes to the reports, JSON to standard output. -/
def present (format : OutputFormat) (diagnostics : List Diagnostic) : Transcript :=
  match format with
  | .text => { reports := diagnostics.map Diagnostic.message }
  | .json => { stdout := String.join (diagnostics.map (·.jsonLine ++ "\n")) }

/-- Checks one script after another and counts the errors. A script that cannot be read ends the
check there. -/
def checkScripts (format : OutputFormat) (strict : Bool) :
    List ScriptFile → Transcript × Except Failure Nat
  | [] => ({}, .ok 0)
  | script :: rest =>
    match script.file.load script.path with
    | .error failure => ({}, .error failure)
    | .ok source =>
      let diagnostics := source.parse.diagnostics strict
      let (transcript, errors) := checkScripts format strict rest
      ((present format diagnostics).append transcript,
        errors.map (errorCount diagnostics + ·))

def runCheck (path : String) (format : OutputFormat) (strict : Bool)
    (target : Except SystemError Target) : Outcome :=
  match ScriptFile.search path target with
  | .error failure => .failed {} (.search failure)
  | .ok [] => .failed {} (.noScripts path)
  | .ok scripts =>
    match checkScripts format strict scripts with
    | (transcript, .error failure) => .failed transcript failure
    | (transcript, .ok 0) =>
      let summary := s!"Checked {scripts.length} file(s), no errors"
      .success transcript (if format = .text then some summary else none)
    | (transcript, .ok errors) => .failed transcript (.errorsInFiles errors scripts.length)

/-- Runs a command, given what its path leads to. -/
def run (command : Command) (target : Except SystemError Target) : Outcome :=
  match command with
  | .tokens path => runTokens path target
  | .parse path strict => runParse path strict target
  | .check path format strict => runCheck path format strict target

end Command

namespace Arguments

def versionText : String := "wrenlet 0.1.0\n"

def usageText : String :=
  "Usage: wrenlet [-v] <COMMAND>\n\n" ++
  "Commands:\n" ++
  "  tokens <PATH>                                  list the tokens of a script\n" ++
  "  parse [--strict] <PATH>                        print the tree of a script\n" ++
  "  check [--strict] [--format text|json] [PATH]   check every script below a path\n"

/-- What is shown when there is no command to run. Wrong usage shows nothing but its exit code. -/
def Halt.outcome : Halt → Outcome
  | .usage _ => { exitCode := 2 }
  | .version => { exitCode := 0, stdout := versionText }
  | .help => { exitCode := 0, stdout := usageText }

end Arguments

/-- The whole program on a file system held as a tree. -/
def FileTree.runProgram (tree : FileTree) (arguments : List String) : Outcome :=
  match Arguments.parse arguments with
  | .error halt => halt.outcome
  | .ok command => command.run (tree.follow command.path)

end WrenFront
