/-! The kinds of token. Punctuators and keywords have one fixed spelling each; the other kinds are
classes of text. -/

namespace WrenFront

inductive TokenKind where
  | leftParen | rightParen | leftBracket | rightBracket | leftBrace | rightBrace
  | colon | dot | dotDot | dotDotDot | comma | star | slash | percent | plus | minus
  | pipe | pipePipe | caret | amp | ampAmp | question | bang | tilde | equal
  | less | lessEqual | lessLess | greater | greaterEqual | greaterGreater
  | equalEqual | bangEqual
  | kwBreak | kwClass | kwConstruct | kwElse | kwFalse | kwFor | kwForeign | kwIf | kwImport
  | kwIn | kwIs | kwNull | kwReturn | kwStatic | kwSuper | kwThis | kwTrue | kwVar | kwWhile
  | name | field | staticField | number | string | interpolation | line | error | eof
  deriving DecidableEq, Repr, Inhabited

namespace TokenKind

/-- Longer spellings come before the ones they extend, so the first that fits is the longest. -/
def punctuators : List TokenKind :=
  [.dotDotDot, .dotDot, .dot, .pipePipe, .pipe, .ampAmp, .amp, .bangEqual, .bang,
    .equalEqual, .equal, .lessLess, .lessEqual, .less, .greaterGreater, .greaterEqual, .greater,
    .leftParen, .rightParen, .leftBracket, .rightBracket, .leftBrace, .rightBrace, .colon,
    .comma, .star, .slash, .percent, .plus, .minus, .caret, .question, .tilde]

def keywords : List TokenKind :=
  [.kwBreak, .kwClass, .kwConstruct, .kwElse, .kwFalse, .kwFor, .kwForeign, .kwIf, .kwImport,
    .kwIn, .kwIs, .kwNull, .kwReturn, .kwStatic, .kwSuper, .kwThis, .kwTrue, .kwVar, .kwWhile]

def textual : List TokenKind :=
  [.name, .field, .staticField, .number, .string, .interpolation, .line, .error, .eof]

def all : List TokenKind :=
  punctuators ++ keywords ++ textual

/-- The name a kind is listed under. -/
def label : TokenKind → String
  | .leftParen => "LeftParen" | .rightParen => "RightParen"
  | .leftBracket => "LeftBracket" | .rightBracket => "RightBracket"
  | .leftBrace => "LeftBrace" | .rightBrace => "RightBrace"
  | .colon => "Colon" | .dot => "Dot" | .dotDot => "DotDot" | .dotDotDot => "DotDotDot"
  | .comma => "Comma" | .star => "Star" | .slash => "Slash" | .percent => "Percent"
  | .plus => "Plus" | .minus => "Minus" | .pipe => "Pipe" | .pipePipe => "PipePipe"
  | .caret => "Caret" | .amp => "Amp" | .ampAmp => "AmpAmp" | .question => "Question"
  | .bang => "Bang" | .tilde => "Tilde" | .equal => "Equal"
  | .less => "Less" | .lessEqual => "LessEqual" | .lessLess => "LessLess"
  | .greater => "Greater" | .greaterEqual => "GreaterEqual"
  | .greaterGreater => "GreaterGreater"
  | .equalEqual => "EqualEqual" | .bangEqual => "BangEqual"
  | .kwBreak => "Break" | .kwClass => "Class" | .kwConstruct => "Construct"
  | .kwElse => "Else" | .kwFalse => "False" | .kwFor => "For" | .kwForeign => "Foreign"
  | .kwIf => "If" | .kwImport => "Import" | .kwIn => "In" | .kwIs => "Is" | .kwNull => "Null"
  | .kwReturn => "Return" | .kwStatic => "Static" | .kwSuper => "Super" | .kwThis => "This"
  | .kwTrue => "True" | .kwVar => "Var" | .kwWhile => "While"
  | .name => "Name" | .field => "Field" | .staticField => "StaticField"
  | .number => "Number" | .string => "String" | .interpolation => "Interpolation"
  | .line => "Line" | .error => "Error" | .eof => "Eof"

def ofLabel? (text : String) : Option TokenKind :=
  all.find? (·.label == text)

def spelling? : TokenKind → Option String
  | .leftParen => some "(" | .rightParen => some ")"
  | .leftBracket => some "[" | .rightBracket => some "]"
  | .leftBrace => some "\x7b" | .rightBrace => some "\x7d"
  | .colon => some ":" | .dot => some "." | .dotDot => some ".." | .dotDotDot => some "..."
  | .comma => some "," | .star => some "*" | .slash => some "/" | .percent => some "%"
  | .plus => some "+" | .minus => some "-" | .pipe => some "|" | .pipePipe => some "||"
  | .caret => some "^" | .amp => some "&" | .ampAmp => some "&&" | .question => some "?"
  | .bang => some "!" | .tilde => some "~" | .equal => some "="
  | .less => some "<" | .lessEqual => some "<=" | .lessLess => some "<<"
  | .greater => some ">" | .greaterEqual => some ">=" | .greaterGreater => some ">>"
  | .equalEqual => some "==" | .bangEqual => some "!="
  | .kwBreak => some "break" | .kwClass => some "class" | .kwConstruct => some "construct"
  | .kwElse => some "else" | .kwFalse => some "false" | .kwFor => some "for"
  | .kwForeign => some "foreign" | .kwIf => some "if" | .kwImport => some "import"
  | .kwIn => some "in" | .kwIs => some "is" | .kwNull => some "null"
  | .kwReturn => some "return" | .kwStatic => some "static" | .kwSuper => some "super"
  | .kwThis => some "this" | .kwTrue => some "true" | .kwVar => some "var"
  | .kwWhile => some "while"
  | .name | .field | .staticField | .number | .string | .interpolation | .line | .error
  | .eof => none

/-- A kind as a message names it: its spelling between single quotes, or its class. -/
def describe (kind : TokenKind) : String :=
  match kind.spelling? with
  | some spelling => s!"'{spelling}'"
  | none =>
    match kind with
    | .name => "name"
    | .field => "field"
    | .staticField => "static field"
    | .number => "number"
    | .string => "string"
    | .interpolation => "string interpolation"
    | .line => "newline"
    | .error => "error"
    | _ => "end of input"

def isKeyword (kind : TokenKind) : Bool :=
  keywords.contains kind

def keyword? (text : String) : Option TokenKind :=
  keywords.find? (·.spelling? == some text)

/-- The infix operators, from the loosest level to the tightest. Each level associates to the
left. -/
def infixLevels : List (List TokenKind) :=
  [[.pipePipe], [.ampAmp], [.equalEqual, .bangEqual], [.kwIs],
    [.less, .lessEqual, .greater, .greaterEqual], [.pipe], [.caret], [.amp],
    [.lessLess, .greaterGreater], [.dotDot, .dotDotDot], [.plus, .minus],
    [.star, .slash, .percent]]

def isInfixOperator (kind : TokenKind) : Bool :=
  infixLevels.any (·.contains kind)

def isPrefixOperator (kind : TokenKind) : Bool :=
  kind == .minus || kind == .bang || kind == .tilde

end TokenKind

end WrenFront
