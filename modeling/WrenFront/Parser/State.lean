import WrenFront.Parser.Feed
import WrenFront.Parser.Problem

/-! Parsing steps: a feed seen through one token of lookahead, with the problems found so far. A
step never fails; where a required token is missing it takes the token that is there and
complains. -/

namespace WrenFront

structure ParserState (σ τ : Type) where
  feed : σ
  current : Option τ := none
  /-- The tokens taken so far, the latest first. -/
  taken : List τ := []
  problems : List (Problem τ) := []
  /-- How many nested constructs are open. -/
  depth : Nat := 0
  /-- More rounds than any loop can take. Each round but the last takes a token from before the
  end, so the tokens left at the start are a bound. -/
  rounds : Nat

abbrev Parse (σ τ : Type) := StateM (ParserState σ τ)

variable {σ τ α : Type} [Feed σ τ]

def ParserState.previous (state : ParserState σ τ) : Option τ :=
  state.taken.head?

namespace Parse

def lookahead : Parse σ τ τ := fun state =>
  match state.current with
  | some token => (token, state)
  | none =>
    let (token, feed) := Feed.next state.feed
    (token, { state with feed, current := some token })

def peek : Parse σ τ TokenKind := do
  return Feed.kind σ (← lookahead)

def advance : Parse σ τ τ := do
  let token ← lookahead
  modify fun state => { state with taken := token :: state.taken, current := none }
  return token

def accept? (kind : TokenKind) : Parse σ τ (Option τ) := do
  if (← peek) = kind then return some (← advance) else return none

def accept (kind : TokenKind) : Parse σ τ Bool := do
  return (← accept? kind).isSome

def acceptAny? (kinds : List TokenKind) : Parse σ τ (Option τ) := do
  if kinds.contains (← peek) then return some (← advance) else return none

/-- Complains about the lookahead if it has been read, and else about the token just taken. -/
def complain (complaint : Complaint) : Parse σ τ Unit := do
  let state ← get
  let token ← match state.current, state.previous with
    | some token, _ => pure token
    | none, some token => pure token
    | none, none => lookahead
  modify fun state => { state with problems := state.problems ++ [⟨complaint, token⟩] }

/-- Takes the next token, whatever it is, and complains if it is not of the required kind. -/
def expect (kind : TokenKind) (what : String) : Parse σ τ τ := do
  let token ← advance
  if Feed.kind σ token ≠ kind then complain (.expected what)
  return token

/-- How a round of a loop ends. -/
inductive Round (α : Type) where
  | stop
  | last (value : α)
  | more (value : α)

def collect (round : Parse σ τ (Round α)) : Nat → Parse σ τ (List α)
  | 0 => return []
  | rounds + 1 => do
    match ← round with
    | .stop => return []
    | .last value => return [value]
    | .more value => return value :: (← collect round rounds)

/-- Repeats `round` and collects the values, until a round says that it was the last. -/
def loop (round : Parse σ τ (Round α)) : Parse σ τ (List α) := do
  collect round (← get).rounds

def newlineRound : Parse σ τ (Round τ) := do
  match ← accept? .line with
  | none => return .stop
  | some token => return .more token

/-- Takes a run of newlines, and says whether there was any. -/
def newlines : Parse σ τ Bool := do
  let taken ← loop newlineRound
  return !taken.isEmpty

def skipNewlines : Parse σ τ Unit := do
  let _ ← newlines

def expectNewline (what : String) : Parse σ τ Unit := do
  let _ ← expect .line what
  skipNewlines

def separatedRound (item : Parse σ τ α) : Parse σ τ (Round α) := do
  let value ← item
  if ← accept .comma then
    skipNewlines
    return .more value
  else return .last value

/-- One item or more with commas between them. Newlines may follow a comma. -/
def separated (item : Parse σ τ α) : Parse σ τ (List α) :=
  loop (separatedRound item)

def elementsRound (closing : TokenKind) (item : Parse σ τ α) : Parse σ τ (Round α) := do
  if (← peek) = closing then return .stop
  let value ← item
  skipNewlines
  if ← accept .comma then
    skipNewlines
    return .more value
  else return .last value

/-- The items of a literal before its closing token. A comma may follow the last item, and newlines
may stand around each comma. -/
def elements (closing : TokenKind) (item : Parse σ τ α) : Parse σ τ (List α) := do
  skipNewlines
  loop (elementsRound closing item)

end Parse

namespace ParserState

/-- Starts on a feed, with the first token already read. -/
def ofFeed (feed : σ) : ParserState σ τ :=
  (Parse.lookahead.run { feed, rounds := Feed.unread feed + 2 }).2

end ParserState

end WrenFront
