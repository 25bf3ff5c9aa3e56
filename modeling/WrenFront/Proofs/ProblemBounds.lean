import WrenFront.Proofs.ErrorPlaces
import WrenFront.Proofs.RuleReports

/-! Where the problems of a source lie, and how many there are. They are recorded token by token
while the tokens are taken, so they come in the order of the tokens, and no token but the end token
has more than two. -/

namespace WrenFront

namespace Recorded
variable {σ τ : Type} [Feed σ τ] {taken : List τ} {problems : List (Problem τ)}

theorem located (recorded : Recorded σ taken problems) :
    ∀ problem ∈ problems,
      problem.token ∈ taken ∧ problem.complaint.Suits (Feed.kind σ problem.token) := by
  induction recorded with
  | none => exact fun _ none => absurd none List.not_mem_nil
  | token _ about _ _ ih =>
    intro problem member
    rcases List.mem_append.1 member with member | member
    · obtain ⟨taken, suits⟩ := ih problem member
      exact ⟨List.mem_cons_of_mem _ taken, suits⟩
    · obtain ⟨rfl, suits⟩ := about problem member
      exact ⟨List.mem_cons_self, suits⟩

/-- The problems are in the order of the tokens. -/
theorem ordered {precedes : τ → τ → Prop} (alike : ∀ token, precedes token token)
    (recorded : Recorded σ taken problems)
    (inOrder : taken.Pairwise fun later earlier => precedes earlier later) :
    (problems.map Problem.token).Pairwise precedes := by
  induction recorded with
  | none => exact .nil
  | @token taken problems token reports before about _ _ ih =>
    obtain ⟨latest, earlier⟩ := List.pairwise_cons.1 inOrder
    rw [List.map_append, List.pairwise_append]
    refine ⟨ih earlier, ?_, ?_⟩
    · rw [List.pairwise_map]
      refine List.pairwise_of_forall_mem_list fun first member second memberToo => ?_
      rw [(about first member).1, (about second memberToo).1]
      exact alike token
    · intro first member second memberToo
      obtain ⟨old, inProblems, rfl⟩ := List.mem_map.1 member
      obtain ⟨new, inReports, rfl⟩ := List.mem_map.1 memberToo
      rw [(about new inReports).1]
      exact latest _ (before.located old inProblems).1

/-- There are at most two problems with a token each time it is taken. -/
theorem countP_le [DecidableEq τ] (recorded : Recorded σ taken problems) (token : τ) :
    problems.countP (·.token = token) ≤ 2 * taken.count token := by
  induction recorded with
  | none => exact Nat.le_refl 0
  | @token taken problems other reports _ about few _ ih =>
    rw [List.countP_append, List.count_cons]
    by_cases same : other = token
    · have bound := (reports.countP_le_length (p := (·.token = token)))
      simp only [same, beq_self_eq_true, if_true]
      omega
    · have none : reports.countP (·.token = token) = 0 := by
        refine List.countP_eq_zero.2 fun problem member found => same ?_
        rw [← (about problem member).1]
        exact of_decide_eq_true found
      simp only [none, beq_iff_eq, same, if_false]
      omega

theorem heard (recorded : Recorded σ taken problems) {token : τ} (member : token ∈ taken)
    (stray : Feed.kind σ token = .error) : ∃ problem ∈ problems, problem.token = token := by
  induction recorded with
  | none => cases member
  | @token taken problems other reports _ about _ heard ih =>
    rcases List.mem_cons.1 member with rfl | member
    · obtain ⟨problem, inReports⟩ := List.exists_mem_of_ne_nil _ (heard stray)
      exact ⟨problem, List.mem_append_right _ inReports, (about problem inReports).1⟩
    · obtain ⟨problem, inProblems, same⟩ := ih member
      exact ⟨problem, List.mem_append_left _ inProblems, same⟩

end Recorded

namespace Source

/-- The problems of a source are recorded with its tokens, and then with copies of the end token. -/
theorem parse_recorded (source : Source) : ∃ copies, Recorded Lexer
    (source.tokens ++ List.replicate copies source.endToken).reverse source.parse.problems := by
  obtain ⟨-, ⟨copies, taken⟩, -⟩ := Parser.module_accounts (Lexer.ofSource source)
  have begins : (ParserState.ofFeed (Lexer.ofSource source)).Heard false := by
    refine ParserState.Heard.look ⟨[], [], rfl, .none, ?_, Nat.le_refl 0⟩
    exact fun _ none => absurd none List.not_mem_nil
  -- The parser stops once it has taken the end token, so nothing is pending.
  obtain ⟨settled, pending, same, recorded, -, none⟩ := Parse.module_reports _ begins
  obtain rfl := List.length_eq_zero_iff.1 (Nat.le_zero.1 none)
  rw [List.append_nil] at same
  refine ⟨copies, ?_⟩
  change Recorded Lexer (source.tokens ++ _).reverse
    (Parse.module (ParserState.ofFeed (Lexer.ofSource source))).2.problems
  rw [same]
  have latestFirst := congrArg List.reverse taken
  rw [List.reverse_reverse] at latestFirst
  exact latestFirst ▸ recorded

theorem endToken_mem (source : Source) : source.endToken ∈ source.tokens := by
  obtain ⟨before, ends, -⟩ := (Lexer.ofSource source).readAll_ends
  rw [Source.tokens, ends]
  exact List.mem_append_right _ (List.mem_singleton.2 rfl)

theorem problem_located (source : Source) {problem : Problem Token}
    (member : problem ∈ source.parse.problems) :
    problem.token ∈ source.tokens ∧ problem.complaint.Suits problem.token.kind := by
  obtain ⟨copies, recorded⟩ := source.parse_recorded
  obtain ⟨taken, suits⟩ := recorded.located problem member
  refine ⟨?_, suits⟩
  rcases List.mem_append.1 (List.mem_reverse.1 taken) with inside | copied
  · exact inside
  · rw [List.eq_of_mem_replicate copied]
    exact source.endToken_mem

/-- Every token of a source begins after those before it. -/
theorem tokens_increasing (source : Source) : source.tokens.Pairwise (·.start < ·.start) := by
  obtain ⟨count, listed, before, -⟩ := (Lexer.ofSource source).readAll_after
  rw [Source.tokens, listed, List.pairwise_map]
  refine List.pairwise_lt_range.imp_of_mem fun {first second} _ last less => ?_
  have within : first < count := Nat.lt_of_lt_of_le less (Nat.le_of_lt_succ (List.mem_range.1 last))
  rcases source.token_start_lt less with below | ends
  · exact below
  · exact absurd (congrArg Token.kind ends.1) (before first within)

theorem tokens_nodup (source : Source) : source.tokens.Nodup := by
  refine source.tokens_increasing.imp ?_
  rintro token _ less rfl
  exact Nat.lt_irrefl _ less

theorem start_le_length {source : Source} {token : Token} (member : token ∈ source.tokens) :
    token.start ≤ source.length := by
  have inside := source.token_inside (source.tokens.idxOf token)
  rw [source.token_idxOf member, Token.stop] at inside
  omega

/-- Every problem lies at a token of the source. The problems are found in the order of their
tokens, and there are never more than two with a token, the end token apart. -/
theorem problems_bounded (source : Source) :
    (∀ problem ∈ source.parse.problems, problem.token ∈ source.tokens) ∧
      (source.parse.problems.map Problem.token).Pairwise (·.start ≤ ·.start) ∧
      ∀ token, token.kind ≠ .eof → source.parse.problems.countP (·.token = token) ≤ 2 := by
  obtain ⟨copies, recorded⟩ := source.parse_recorded
  refine ⟨fun problem member => (source.problem_located member).1,
    recorded.ordered (fun _ => Nat.le_refl _) ?_, fun token before => ?_⟩
  · rw [List.pairwise_reverse, List.pairwise_append]
    refine ⟨source.tokens_increasing.imp Nat.le_of_lt, ?_, fun token member last copied => ?_⟩
    · exact List.pairwise_replicate.2 (.inr (Nat.le_refl _))
    · rw [List.eq_of_mem_replicate copied]
      exact start_le_length member
  · have once : source.tokens.count token ≤ 1 := List.nodup_iff_count.1 source.tokens_nodup token
    have copied : (List.replicate copies source.endToken).count token = 0 := by
      refine List.count_eq_zero.2 fun member => before ?_
      rw [List.eq_of_mem_replicate member]
      rfl
    have bound := recorded.countP_le token
    rw [List.count_reverse, List.count_append, copied] at bound
    omega

/-- A parenthesis that nothing opens. -/
def strayParenthesis : Source where
  id := "stray"
  bytes := Text.Utf8.encode ")"

theorem strayParenthesis_bounded :
    strayParenthesis.parse.problems.countP (·.token = ⟨.rightParen, 0, 1⟩) = 2 ∧
      strayParenthesis.parse.problems.countP (·.token = ⟨.rightParen, 0, 1⟩) ≤ 2 :=
  ⟨by decide +kernel, strayParenthesis.problems_bounded.2.2 _ (by simp)⟩

end Source
end WrenFront
