import WrenFront.Proofs.TokenOrder

/-! The parser sees nothing of its tokens but their kinds. A source is therefore parsed as the
numbers of its tokens are, so no token is ever made up, and sources with the same kinds in the same
order have the same trees and problems, with other tokens in them. -/

namespace WrenFront

section Sequences
variable {σ τ ρ υ : Type} [Feed σ τ] [Feed ρ υ] {f : τ → υ}

/-- Feeds correspond if their tokens do, one by one. -/
theorem Feed.Mirrors.of_sequence {feeds : Nat → σ} {mirrors : Nat → ρ}
    (step : ∀ reads, (Feed.next (feeds reads)).2 = feeds (reads + 1))
    (mirrorStep : ∀ reads, (Feed.next (mirrors reads)).2 = mirrors (reads + 1))
    (same : ∀ reads, (Feed.next (mirrors reads)).1 = f (Feed.next (feeds reads)).1) (reads : Nat) :
    Mirrors f (feeds reads) (mirrors reads) := by
  intro tokens last given
  generalize start : feeds reads = feed at given
  induction given generalizing reads with
  | none => exact ⟨_, .none⟩
  | more _ ih =>
    subst start
    obtain ⟨image, rest⟩ := ih (reads + 1) (step reads).symm
    rw [← mirrorStep] at rest
    rw [List.map_cons, ← same]
    exact ⟨image, .more rest⟩

end Sequences

/-- The places of a list of kinds, numbered one after another. Past the list all are ends. -/
structure Numbering (kinds : List TokenKind) where
  next : Nat

namespace Numbering
variable {kinds : List TokenKind}

instance : Feed (Numbering kinds) Nat where
  next numbering := (numbering.next, ⟨numbering.next + 1⟩)
  kind number := kinds[number]?.getD .eof
  unread numbering := kinds.length - numbering.next

theorem reads_ge {numbering last : Numbering kinds} {numbers : List Nat}
    (reads : Feed.Reads numbering numbers last) (skip : Nat) :
    ∀ number ∈ numbers.drop skip, numbering.next + skip ≤ number := by
  induction reads generalizing skip with
  | none => simp
  | @more numbering last numbers rest ih =>
    intro number member
    cases skip with
    | zero =>
      rcases List.mem_cons.1 member with rfl | member
      · exact Nat.le_refl _
      · have later := ih 0 number member
        exact Nat.le_of_succ_le later
    | succ skip =>
      have later : numbering.next + 1 + skip ≤ number := ih skip number member
      omega

theorem roomy (numbering : Numbering kinds) :
    ParserState.Roomy { feed := numbering, rounds := Feed.unread numbering + 2 } := by
  refine ParserState.unread_roomy fun numbers last reads number member => ?_
  have beyond : numbering.next + (kinds.length - numbering.next) ≤ number :=
    reads_ge reads _ number member
  change kinds[number]?.getD .eof = .eof
  rw [List.getElem?_eq_none (by omega)]
  rfl

end Numbering

namespace Source

theorem kind_token (source : Source) (reads : Nat) :
    (source.token reads).kind = (source.tokens.map Token.kind)[reads]?.getD .eof := by
  rw [← tokens_getD, List.getElem?_map]
  cases source.tokens[reads]? <;> rfl

theorem lexer_roomy (source : Source) : ParserState.Roomy
    { feed := Lexer.ofSource source, rounds := Feed.unread (Lexer.ofSource source) + 2 } :=
  ParserState.unread_roomy fun _ _ reads => reads.lexer_left

/-- A source is parsed as the numbers of its tokens are. -/
theorem parse_numbered (source : Source) {kinds : List TokenKind}
    (listed : source.tokens.map Token.kind = kinds) :
    let numbered := Parse.module (ParserState.ofFeed (⟨0⟩ : Numbering kinds))
    source.parse.module = numbered.1.mapTokens source.token ∧
      source.parse.problems = numbered.2.problems.map (Problem.mapToken source.token) := by
  subst listed
  have feeds : Feed.Mirrors source.token (⟨0⟩ : Numbering (source.tokens.map Token.kind))
      (source.lexerAfter 0) :=
    Feed.Mirrors.of_sequence (fun _ => rfl) (fun reads => (source.lexerAfter_succ reads).symm)
      (fun _ => rfl) 0
  obtain ⟨module, after⟩ := Parse.module_agrees _ _ (ParserState.ofFeed_alike source.kind_token
    feeds (Numbering.roomy _) source.lexer_roomy)
  exact ⟨module, after.problems⟩

/-- No problem is found anywhere but at a token of the source. -/
theorem problem_token (source : Source) {problem : Problem Token}
    (found : problem ∈ source.parse.problems) : ∃ reads, problem.token = source.token reads := by
  rw [(source.parse_numbered rfl).2] at found
  obtain ⟨numbered, -, rfl⟩ := List.mem_map.1 found
  exact ⟨numbered.token, rfl⟩

/-- The token of another source that has the place of a token in this one. -/
def counterpart (source other : Source) (token : Token) : Token :=
  if token ∈ source.tokens then other.token (source.tokens.idxOf token) else token

section Counterparts
variable {first second : Source}

theorem kind_alike (same : first.tokens.map Token.kind = second.tokens.map Token.kind)
    (reads : Nat) : (second.token reads).kind = (first.token reads).kind := by
  rw [kind_token, kind_token, same]

/-- Of two places with tokens that start alike only the end token can be at both. -/
theorem token_twice (source : Source) {reads other : Nat}
    (twice : (source.token reads).start = (source.token other).start) :
    reads = other ∨ (source.token reads).kind = .eof := by
  rcases Nat.lt_trichotomy reads other with before | same | after
  · rcases source.token_start_lt before with less | ends
    · rw [twice] at less
      exact absurd less (Nat.lt_irrefl _)
    · exact .inr (by rw [ends.1]; rfl)
  · exact .inl same
  · rcases source.token_start_lt after with less | ends
    · rw [twice] at less
      exact absurd less (Nat.lt_irrefl _)
    · exact .inr (by rw [ends.2]; rfl)

theorem token_idxOf (source : Source) {token : Token} (member : token ∈ source.tokens) :
    source.token (source.tokens.idxOf token) = token := by
  rw [← tokens_getD, List.getElem?_eq_getElem (List.idxOf_lt_length_of_mem member),
    List.getElem_idxOf, Option.getD_some]

theorem token_end (source : Source) {reads : Nat} (atEnd : (source.token reads).kind = .eof) :
    source.token reads = source.endToken :=
  (lexerAfter_end atEnd 0).1

theorem counterpart_token (same : first.tokens.map Token.kind = second.tokens.map Token.kind)
    (reads : Nat) : first.counterpart second (first.token reads) = second.token reads := by
  have member := first.token_mem reads
  have found := first.token_idxOf member
  rw [counterpart, if_pos member]
  rcases first.token_twice (congrArg Token.start found) with place | atEnd
  · rw [place]
  · have atEndToo : (first.token reads).kind = .eof := found ▸ atEnd
    rw [← kind_alike same] at atEnd atEndToo
    rw [second.token_end atEnd, second.token_end atEndToo]

theorem kind_counterpart (same : first.tokens.map Token.kind = second.tokens.map Token.kind)
    (token : Token) : (first.counterpart second token).kind = token.kind := by
  by_cases member : token ∈ first.tokens
  · rw [counterpart, if_pos member, kind_alike same, first.token_idxOf member]
  · rw [counterpart, if_neg member]

end Counterparts

/-- Sources with the same kinds of token in the same order are parsed alike, whatever is wrong with
them: in the tree of the one and in its problems every token is replaced by the token of the other
that has the same place. -/
theorem parse_by_kinds (first second : Source)
    (same : first.tokens.map Token.kind = second.tokens.map Token.kind) :
    second.parse.module = first.parse.module.mapTokens (first.counterpart second) ∧
      second.parse.problems =
        first.parse.problems.map (Problem.mapToken (first.counterpart second)) ∧
      (∀ reads, first.counterpart second (first.token reads) = second.token reads) ∧
      (∃ numbers : Module Nat, first.parse.module = numbers.mapTokens first.token) ∧
      ∀ problem ∈ first.parse.problems, ∃ reads, problem.token = first.token reads := by
  have replaced := counterpart_token same
  have feeds : Feed.Mirrors (first.counterpart second) (first.lexerAfter 0) (second.lexerAfter 0) :=
    Feed.Mirrors.of_sequence (fun reads => (first.lexerAfter_succ reads).symm)
      (fun reads => (second.lexerAfter_succ reads).symm) (fun reads => (replaced reads).symm) 0
  obtain ⟨module, after⟩ := Parse.module_agrees _ _ (ParserState.ofFeed_alike
    (kind_counterpart same) feeds first.lexer_roomy second.lexer_roomy)
  exact ⟨module, after.problems, replaced, ⟨_, (first.parse_numbered rfl).1⟩,
    fun problem found => first.problem_token found⟩

/-- A missing name and a character that begins no token: `var = $`. -/
def spelledPlain : Source where
  id := "plain"
  bytes := Text.Utf8.encode "var = $"

/-- The same kinds of token: `/**/var=é//`. -/
def spelledOddly : Source where
  id := "odd"
  bytes := Text.Utf8.encode "/**/var=é//"

theorem spelledPlain_by_kinds :
    spelledPlain.tokens.map Token.kind = spelledOddly.tokens.map Token.kind ∧
      spelledPlain.parse.problems ≠ [] ∧
      spelledOddly.parse.module =
        spelledPlain.parse.module.mapTokens (spelledPlain.counterpart spelledOddly) ∧
      spelledOddly.parse.problems = spelledPlain.parse.problems.map
        (Problem.mapToken (spelledPlain.counterpart spelledOddly)) := by
  have same : spelledPlain.tokens.map Token.kind = spelledOddly.tokens.map Token.kind := by
    decide +kernel
  obtain ⟨module, problems, -⟩ := parse_by_kinds spelledPlain spelledOddly same
  exact ⟨same, by decide +kernel, module, problems⟩

end Source
end WrenFront
