import WrenFront.Proofs.ErrorPlaces
import WrenFront.Proofs.InterpolationNesting

/-! Reading with its checks on: offsets are compared before a span or a token is made of them,
differences must not go below zero, and counters must not run over. On a source of less than 2^32
bytes no check is ever failed, so the reads give what they give without the checks. -/

namespace WrenFront

/-- What stops a run that checks what it does. -/
inductive Trap where
  | range (error : RangeError)
  | belowZero
  | counterFull
  deriving DecidableEq, Repr

abbrev Checked := Except Trap

namespace Checked

def ofRange {α : Type} (result : Except RangeError α) : Checked α :=
  result.mapError .range

def difference (whole part : Nat) : Checked Nat :=
  if part ≤ whole then .ok (whole - part) else .error .belowZero

/-- One more in a counter that holds so many values. -/
def increment (values count : Nat) : Checked Nat :=
  if count + 1 < values then .ok (count + 1) else .error .counterFull

theorem ofRange_ok {α : Type} {result : Except RangeError α} {value : α}
    (within : result = .ok value) : ofRange result = .ok value := by
  rw [within]
  rfl

theorem difference_ok {whole part : Nat} (within : part ≤ whole) :
    difference whole part = .ok (whole - part) :=
  if_pos within

theorem increment_ok {values count : Nat} (room : count + 1 < values) :
    increment values count = .ok (count + 1) :=
  if_pos room

theorem mapM_eq {ε α β : Type} {f : α → Except ε β} {g : α → β} {items : List α}
    (passed : ∀ item ∈ items, f item = .ok (g item)) : items.mapM f = .ok (items.map g) := by
  induction items with
  | nil => rfl
  | cons item rest ih =>
    obtain ⟨first, others⟩ := List.forall_mem_cons.1 passed
    rw [List.mapM_cons, first, ih others]
    rfl

end Checked

open Checked

namespace Trivia

/-- Skips as `skipFrom` does. The comments that are open are counted in a word. -/
def skipChecked : Place → List UInt8 → Checked Skipped
  | .blockComment _ length, [] => .ok ⟨[], some length⟩
  | _, [] => .ok ⟨[], none⟩
  | .betweenTokens, 47 :: 47 :: rest => skipChecked .lineComment rest
  | .betweenTokens, 47 :: 42 :: rest => skipChecked (.blockComment 0 2) rest
  | .betweenTokens, byte :: rest =>
    if ByteClass.isBlank byte then skipChecked .betweenTokens rest else .ok ⟨byte :: rest, none⟩
  | .lineComment, byte :: rest =>
    if byte = 10 then .ok ⟨byte :: rest, none⟩ else skipChecked .lineComment rest
  | .blockComment depth length, 47 :: 42 :: rest => do
    let nesting ← increment UInt64.size (depth + 1)
    skipChecked (.blockComment (nesting - 1) (length + 2)) rest
  | .blockComment depth length, 42 :: 47 :: rest => do
    let nesting ← difference (depth + 1) 1
    if nesting = 0 then skipChecked .betweenTokens rest
    else skipChecked (.blockComment (nesting - 1) (length + 2)) rest
  | .blockComment depth length, _ :: rest => skipChecked (.blockComment depth (length + 1)) rest

/-- How many comments are open. -/
def Place.nesting : Place → Nat
  | .blockComment depth _ => depth + 1
  | _ => 0

theorem skipChecked_eq (place : Place) (text : List UInt8)
    (room : place.nesting + text.length < UInt64.size) :
    skipChecked place text = .ok (skipFrom place text) := by
  fun_induction skipFrom place text <;> simp only [Place.nesting, List.length_cons] at *
  case case1 => rfl
  case case2 place other => cases place <;> first | rfl | exact absurd rfl (other _ _)
  case case5 byte rest _ _ blank ih =>
    rw [skipChecked, if_pos blank]
    · exact ih (by omega)
    all_goals assumption
  case case6 byte rest _ _ blank =>
    rw [skipChecked, if_neg blank]
    all_goals assumption
  case case7 => rfl
  case case8 byte rest other ih =>
    rw [skipChecked, if_neg other]
    exact ih (by omega)
  case case9 depth length rest ih =>
    rw [skipChecked, increment_ok (by omega)]
    exact ih (by omega)
  case case12 depth length byte rest noOpening outermost inner ih =>
    rw [skipChecked]
    · exact ih (by omega)
    · exact noOpening
    · intro tail star slash
      cases depth with
      | zero => exact outermost tail rfl star slash
      | succ depth => exact inner depth tail rfl star slash
  all_goals next ih => exact ih (by omega)

end Trivia

namespace Lexeme

/-- Reads as `read` does. The parentheses are counted in 32 bits. -/
def readChecked (openings : List Nat) : List UInt8 → Checked (Option Lexeme)
  | [] => return none
  | first :: rest =>
    match openings, first with
    | depth :: outer, 40 => do
      let depth ← increment UInt32.size depth
      return some { kind := .leftParen, rest, openings := depth :: outer }
    | depth :: outer, 41 => do
      let depth ← difference depth 1
      if depth = 0 then return some (stringSegment outer rest)
      else return some { kind := .rightParen, rest, openings := depth :: outer }
    | _, _ => return some (plain openings first rest)

/-- How many parentheses are counted in all the interpolations that are open. -/
def counted : List Nat → Nat
  | [] => 0
  | depth :: outer => depth + counted outer

theorem readChecked_eq {openings : List Nat} {bytes : List UInt8}
    (positive : ∀ depth ∈ openings, 1 ≤ depth)
    (room : counted openings + bytes.length < UInt32.size) :
    readChecked openings bytes = .ok (read openings bytes) := by
  cases bytes with
  | nil => rfl
  | cons first rest =>
    simp only [readChecked]
    split
    · next depth outer =>
      simp only [counted, List.length_cons] at room
      rw [increment_ok (by omega)]
      rfl
    · next depth outer =>
      have some := positive depth List.mem_cons_self
      rw [difference_ok some, read.eq_3]
      simp only [bind, Except.bind]
      split
      · rw [if_pos (by omega)]
        rfl
      · rw [if_neg (by omega)]
        rfl
    · next notLeft notRight =>
      rw [read.eq_4 _ _ _ notLeft notRight]
      rfl

end Lexeme

namespace Lexer

/-- The fault of what lies between `start` and the unread bytes. -/
def recordFrom (lexer : Lexer) (fault : LexicalFault) (start : Nat) : Checked Lexer := do
  let span ← ofRange (Span.between start lexer.offset)
  return lexer.record fault span.start span.length

/-- The token between `start` and the unread bytes. -/
def tokenFrom (lexer : Lexer) (kind : TokenKind) (start : Nat) : Checked Token := do
  ofRange (Token.make lexer.source kind start (← difference lexer.offset start))

/-- The text between `start` and the unread bytes. -/
def textFrom (lexer : Lexer) (start : Nat) : Checked String := do
  ofRange (lexer.source.substring start (← difference lexer.offset start))

def skipTriviaChecked (lexer : Lexer) : Checked Lexer := do
  let skipped ← Trivia.skipChecked .betweenTokens lexer.rest
  let next := { lexer with rest := skipped.rest }
  match skipped.unclosed with
  | none => return next
  | some length =>
    next.recordFrom .unterminatedBlockComment (← difference next.offset length)

/-- The text of a token is needed to tell keywords from names, and to say which character begins
none. -/
def readLexemeChecked (lexer : Lexer) : Checked (Token × Lexer) := do
  match ← Lexeme.readChecked lexer.openings lexer.rest with
  | none => return (← lexer.tokenFrom .eof lexer.offset, lexer)
  | some lexeme =>
    let next := { lexer with rest := lexeme.rest, openings := lexeme.openings }
    let _ ← next.textFrom lexer.offset
    let token ← next.tokenFrom lexeme.kind lexer.offset
    match lexeme.fault with
    | none => return (token, next)
    | some fault => return (token, ← next.recordFrom fault lexer.offset)

def readChecked (lexer : Lexer) : Checked (Token × Lexer) := do
  (← lexer.skipTriviaChecked).readLexemeChecked

section Passed
variable {lexer : Lexer} {start : Nat}

theorem recordFrom_eq (fault : LexicalFault) (before : start ≤ lexer.offset) :
    lexer.recordFrom fault start = .ok (lexer.record fault start (lexer.offset - start)) := by
  rw [recordFrom, Span.between, if_pos before]
  rfl

theorem start_add_le (before : start ≤ lexer.offset) :
    start + (lexer.offset - start) ≤ lexer.source.length := by
  rw [Nat.add_sub_cancel' before]
  exact Nat.sub_le _ _

theorem tokenFrom_eq (kind : TokenKind) (before : start ≤ lexer.offset) :
    lexer.tokenFrom kind start = .ok ⟨kind, start, lexer.offset - start⟩ := by
  rw [tokenFrom, difference_ok before]
  simp only [bind, Except.bind, Token.make]
  rw [if_pos (start_add_le before)]
  rfl

theorem textFrom_eq (before : start ≤ lexer.offset) :
    lexer.textFrom start =
      .ok (Text.Utf8.text (lexer.source.slice start (lexer.offset - start))) := by
  rw [textFrom, difference_ok before]
  simp only [bind, Except.bind, Source.substring]
  rw [if_pos (start_add_le before)]
  rfl

end Passed

/-- Where fewer bytes are unread, as many more have been read. -/
theorem Placed.forward {lexer : Lexer} (placed : lexer.Placed) (next : Lexer)
    (same : next.source = lexer.source) (shorter : next.rest.length ≤ lexer.rest.length) :
    lexer.offset ≤ next.offset ∧
      next.offset - lexer.offset = lexer.rest.length - next.rest.length := by
  have within := placed.length_le
  simp only [offset, same, Source.length]
  omega

/-- A lexer that its counters have room for. -/
structure Counting (lexer : Lexer) : Prop where
  placed : lexer.Placed
  positive : ∀ depth ∈ lexer.openings, 1 ≤ depth
  room : Lexeme.counted lexer.openings + lexer.rest.length < UInt32.size

theorem Counting.skipTrivia {lexer : Lexer} (counting : lexer.Counting) :
    lexer.skipTrivia.Counting := by
  refine ⟨counting.placed.skipTrivia, ?_, ?_⟩
  · rw [openings_skipTrivia]
    exact counting.positive
  · rw [openings_skipTrivia]
    exact Nat.lt_of_le_of_lt (Nat.add_le_add_left lexer.length_skipTrivia_le _) counting.room

theorem skipTriviaChecked_eq {lexer : Lexer} (counting : lexer.Counting) :
    lexer.skipTriviaChecked = .ok lexer.skipTrivia := by
  have room := counting.room
  have within := counting.placed.length_le
  have word : UInt32.size < UInt64.size := by decide
  have skips : Trivia.skipChecked .betweenTokens lexer.rest = .ok (Trivia.skip lexer.rest) := by
    apply Trivia.skipChecked_eq
    simp only [Trivia.Place.nesting]
    omega
  rw [skipTriviaChecked, skips]
  simp only [bind, Except.bind, skipTrivia]
  cases unclosed : (Trivia.skip lexer.rest).unclosed with
  | none => rfl
  | some length =>
    -- The comment goes on to the end, and it is no longer than what was unread.
    obtain ⟨tail, comment, rfl⟩ := Trivia.skip_comment unclosed
    have exhausted := (Trivia.skipFrom_unclosed .betweenTokens _ _ unclosed).1
    have shorter := comment.length_le
    have inside : 2 + tail.length ≤
        Lexer.offset { lexer with rest := (Trivia.skip lexer.rest).rest } := by
      rw [Trivia.skip, exhausted]
      simp only [offset, Source.length, List.length_cons, List.length_nil] at *
      omega
    simp only [difference_ok inside]
    rw [recordFrom_eq _ (Nat.sub_le _ _), Nat.sub_sub_self inside]

theorem readLexemeChecked_eq {lexer : Lexer} (counting : lexer.Counting) :
    lexer.readLexemeChecked = .ok lexer.readLexeme := by
  rw [readLexemeChecked, readLexeme, Lexeme.readChecked_eq counting.positive counting.room]
  simp only [bind, Except.bind]
  cases found : Lexeme.read lexer.openings lexer.rest with
  | none =>
    simp only
    rw [tokenFrom_eq .eof (Nat.le_refl _), Nat.sub_self]
    rfl
  | some lexeme =>
    have shorter := Nat.le_of_lt (Lexeme.length_read_lt found)
    obtain ⟨before, length⟩ := counting.placed.forward
      { lexer with rest := lexeme.rest, openings := lexeme.openings } rfl shorter
    simp only [textFrom_eq before, tokenFrom_eq _ before, recordFrom_eq _ before, length]
    cases lexeme.fault <;> rfl

theorem readChecked_eq {lexer : Lexer} (counting : lexer.Counting) :
    lexer.readChecked = .ok lexer.read := by
  rw [readChecked, skipTriviaChecked_eq counting]
  exact readLexemeChecked_eq counting.skipTrivia

end Lexer

namespace Source
variable (source : Source)

theorem gapStart_le (reads : Nat) : source.gapStart reads ≤ source.gapStart (reads + 1) :=
  Nat.le_trans (source.gapStart_le_start reads) (Nat.le_add_right _ _)

theorem gapStart_lt {reads : Nat} (before : (source.token reads).kind ≠ .eof) :
    source.gapStart reads < source.gapStart (reads + 1) :=
  Nat.lt_of_le_of_lt (source.gapStart_le_start reads)
    (Nat.lt_add_of_pos_right (source.token_positive before))

end Source

/-- Every interpolation that is open has at least its own parenthesis open, and a token adds one
parenthesis at most. -/
theorem Token.Turns.counts {source : Source} {token : Token} {openings next : List Nat}
    (turns : token.Turns source openings next) (positive : ∀ depth ∈ openings, 1 ≤ depth) :
    (∀ depth ∈ next, 1 ≤ depth) ∧
      Lexeme.counted next ≤ Lexeme.counted openings + if token.kind = .eof then 0 else 1 := by
  cases turns with
  | @resume depth outer resumes last =>
    obtain ⟨first, others⟩ := List.forall_mem_cons.1 positive
    split
    · refine ⟨List.forall_mem_cons.2 ⟨Nat.le_refl 1, others⟩, ?_⟩
      simp only [Lexeme.counted]
      omega
    · refine ⟨others, ?_⟩
      simp only [Lexeme.counted]
      omega
  | start _ opens =>
    have before : token.kind ≠ .eof := by
      rw [of_decide_eq_true opens]
      decide
    rw [if_neg before, Lexeme.counted, Nat.add_comm]
    exact ⟨List.forall_mem_cons.2 ⟨Nat.le_refl 1, positive⟩, Nat.le_refl _⟩
  | @left depth outer isLeft =>
    have before : token.kind ≠ .eof := by
      rw [isLeft]
      decide
    obtain ⟨-, others⟩ := List.forall_mem_cons.1 positive
    rw [if_neg before]
    simp only [Lexeme.counted]
    exact ⟨List.forall_mem_cons.2 ⟨Nat.le_add_left 1 depth, others⟩, by omega⟩
  | @right depth outer _ more =>
    obtain ⟨-, others⟩ := List.forall_mem_cons.1 positive
    simp only [Lexeme.counted]
    exact ⟨List.forall_mem_cons.2 ⟨Nat.le_sub_one_of_lt more, others⟩, by omega⟩
  | other => exact ⟨positive, Nat.le_add_right _ _⟩

namespace Source
variable (source : Source)

/-- No more parentheses are counted than bytes have been read. -/
theorem openings_counts (reads : Nat) : (∀ depth ∈ source.openings reads, 1 ≤ depth) ∧
    Lexeme.counted (source.openings reads) ≤ source.gapStart reads := by
  induction reads with
  | zero => exact ⟨fun _ none => absurd none List.not_mem_nil, Nat.le_refl _⟩
  | succ reads ih =>
    obtain ⟨positive, total⟩ := ih
    obtain ⟨positiveToo, added⟩ := (source.token_turns reads).counts positive
    refine ⟨positiveToo, ?_⟩
    split at added
    · have forward := source.gapStart_le reads
      omega
    · next before =>
      have forward := source.gapStart_lt before
      omega

theorem lexerAfter_counting (short : source.length < UInt32.size) (reads : Nat) :
    (source.lexerAfter reads).Counting := by
  obtain ⟨positive, total⟩ := source.openings_counts reads
  have placed := source.lexerAfter_placed reads
  refine ⟨placed, positive, ?_⟩
  have all := placed.offset_add
  rw [offset_lexerAfter, source_lexerAfter] at all
  change Lexeme.counted (source.openings reads) + _ < _
  omega

/-- So many reads, one after another. -/
def readChecked (source : Source) : Nat → Checked (List Token × Lexer)
  | 0 => return ([], Lexer.ofSource source)
  | reads + 1 => do
    let (tokens, lexer) ← source.readChecked reads
    let (token, next) ← lexer.readChecked
    return (tokens ++ [token], next)

theorem readChecked_eq (short : source.length < UInt32.size) (reads : Nat) :
    source.readChecked reads = .ok (source.history reads, source.lexerAfter reads) := by
  induction reads with
  | zero => rfl
  | succ reads ih =>
    rw [readChecked, ih, history_succ, lexerAfter_succ]
    simp only [bind, Except.bind]
    rw [Lexer.readChecked_eq (source.lexerAfter_counting short reads)]
    rfl

end Source
end WrenFront
