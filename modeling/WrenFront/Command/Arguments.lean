/-! The command line. Options may stand before and after the path, a lone `--` ends them, and the
first word that is not an option names the command. -/

namespace WrenFront

inductive OutputFormat where
  | text
  | json
  deriving DecidableEq, Repr

def OutputFormat.ofName? : String → Option OutputFormat
  | "text" => some .text
  | "json" => some .json
  | _ => none

inductive Command where
  | tokens (path : String)
  | parse (path : String) (strict : Bool)
  | check (path : String) (format : OutputFormat) (strict : Bool)
  deriving DecidableEq, Repr

def Command.path : Command → String
  | .tokens path => path
  | .parse path _ => path
  | .check path _ _ => path

namespace Arguments

inductive UsageError where
  | missingCommand
  | unknownCommand (word : String)
  | unknownOption (word : String)
  | unexpectedArgument (word : String)
  | unexpectedValue (option : String)
  | missingValue (option : String)
  | invalidValue (option value : String)
  | repeatedOption (option : String)
  | missingPath
  deriving DecidableEq, Repr

def UsageError.message : UsageError → String
  | .missingCommand => "a command is required"
  | .unknownCommand word => s!"unrecognized command '{word}'"
  | .unknownOption word => s!"unexpected option '{word}'"
  | .unexpectedArgument word => s!"unexpected argument '{word}'"
  | .unexpectedValue option => s!"option '{option}' takes no value"
  | .missingValue option => s!"option '{option}' needs a value"
  | .invalidValue option value => s!"invalid value '{value}' for option '{option}'"
  | .repeatedOption option => s!"option '{option}' cannot be used more than once"
  | .missingPath => "a path is required"

/-- Why there is no command to run. -/
inductive Halt where
  | usage (error : UsageError)
  | version
  | help
  deriving DecidableEq, Repr

/-- A word of the command line, before it is known what it means. -/
inductive Word where
  | value (text : String)
  | endOfOptions
  | long (name : String) (attached : Option String)
  | short (letters : List Char)
  deriving DecidableEq, Repr

/-- A lone `-` is a value. -/
def Word.ofString (text : String) : Word :=
  match text.toList with
  | ['-', '-'] => .endOfOptions
  | '-' :: '-' :: rest =>
    let name := rest.takeWhile (· ≠ '=')
    match rest.drop name.length with
    | [] => .long (String.ofList name) none
    | _ :: attached => .long (String.ofList name) (some (String.ofList attached))
  | '-' :: letter :: rest => .short (letter :: rest)
  | _ => .value text

inductive Verb where
  | tokens
  | parse
  | check
  deriving DecidableEq, Repr

namespace Verb

def ofName? : String → Option Verb
  | "tokens" => some .tokens
  | "parse" => some .parse
  | "check" => some .check
  | _ => none

def takesStrict (verb : Verb) : Bool :=
  verb ≠ .tokens

def takesFormat (verb : Verb) : Bool :=
  verb = .check

end Verb

/-- What the words after a verb have settled so far. -/
structure Settings where
  path : Option String := none
  strict : Bool := false
  format : Option OutputFormat := none
  deriving DecidableEq, Repr

namespace Settings

def setPath (settings : Settings) (path : String) : Except Halt Settings :=
  match settings.path with
  | some _ => .error (.usage (.unexpectedArgument path))
  | none => .ok { settings with path := some path }

def setStrict (settings : Settings) : Except Halt Settings :=
  if settings.strict then .error (.usage (.repeatedOption "--strict"))
  else .ok { settings with strict := true }

def setFormat (settings : Settings) (value : String) : Except Halt Settings :=
  match OutputFormat.ofName? value, settings.format with
  | none, _ => .error (.usage (.invalidValue "--format" value))
  | some _, some _ => .error (.usage (.repeatedOption "--format"))
  | some format, none => .ok { settings with format := some format }

def command (verb : Verb) (settings : Settings) : Except Halt Command :=
  match verb, settings.path with
  | .check, path =>
    .ok (.check (path.getD ".") (settings.format.getD .text) settings.strict)
  | .tokens, some path => .ok (.tokens path)
  | .parse, some path => .ok (.parse path settings.strict)
  | _, none => .error (.usage .missingPath)

end Settings

/-- Options of one letter may be joined. `-v` asks for more logging and changes nothing else. -/
def shortOptions (versionAllowed : Bool) : List Char → Except Halt Unit
  | [] => .ok ()
  | 'v' :: rest => shortOptions versionAllowed rest
  | 'h' :: _ => .error .help
  | letter :: rest =>
    if letter = 'V' ∧ versionAllowed then .error .version
    else .error (.usage (.unknownOption (String.ofList ('-' :: letter :: rest))))

/-- Words after `--` are values, however they look. -/
def values : List String → Settings → Except Halt Settings
  | [], settings => .ok settings
  | word :: rest, settings => do values rest (← settings.setPath word)

/-- The words after a verb. -/
def settings (verb : Verb) : List String → Settings → Except Halt Settings
  | [], found => .ok found
  | word :: rest, found =>
    match Word.ofString word with
    | .value text => do settings verb rest (← found.setPath text)
    | .endOfOptions => values rest found
    | .short letters => do
      shortOptions false letters
      settings verb rest found
    | .long name attached =>
      if name = "format" ∧ verb.takesFormat then
        match attached with
        | some value => do settings verb rest (← found.setFormat value)
        | none =>
          match rest with
          | [] => .error (.usage (.missingValue "--format"))
          | next :: others =>
            match Word.ofString next with
            | .value value => do settings verb others (← found.setFormat value)
            | _ => .error (.usage (.missingValue "--format"))
      else if name = "strict" ∧ verb.takesStrict ∧ attached = none then do
        settings verb rest (← found.setStrict)
      else if name = "verbose" ∧ attached = none then settings verb rest found
      else if name = "help" ∧ attached = none then .error .help
      else if (name = "strict" ∧ verb.takesStrict) ∨ name = "verbose" ∨ name = "help" then
        .error (.usage (.unexpectedValue word))
      else .error (.usage (.unknownOption word))

/-- The words after `help` may name a command. -/
def helpTopic : List String → Halt
  | [] => .help
  | topic :: rest =>
    if (Verb.ofName? topic).isSome ∨ topic = "help" then
      match rest with
      | [] => .help
      | word :: _ => .usage (.unknownCommand word)
    else .usage (.unknownCommand topic)

def parse : List String → Except Halt Command
  | [] => .error (.usage .missingCommand)
  | word :: rest =>
    match Word.ofString word with
    | .value text =>
      match Verb.ofName? text with
      | some verb => do (← settings verb rest {}).command verb
      | none => .error (if text = "help" then helpTopic rest else .usage (.unknownCommand text))
    | .endOfOptions =>
      .error (.usage (match rest with
        | [] => .missingCommand
        | next :: _ => .unexpectedArgument next))
    | .short letters => do
      shortOptions true letters
      parse rest
    | .long name attached =>
      if name = "verbose" ∧ attached = none then parse rest
      else if name = "version" ∧ attached = none then .error .version
      else if name = "help" ∧ attached = none then .error .help
      else if name = "verbose" ∨ name = "version" ∨ name = "help" then
        .error (.usage (.unexpectedValue word))
      else .error (.usage (.unknownOption word))

end Arguments

end WrenFront
