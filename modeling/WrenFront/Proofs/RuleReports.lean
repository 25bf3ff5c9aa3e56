import WrenFront.Proofs.TokenReports

/-! Every rule of the parser speaks about the next token once at most. The rules of one level are
read move by move, given that the nested ones do so; they are tied together at the end. -/

namespace WrenFront

variable {σ τ : Type} [Feed σ τ]

/-- The nested rules say no more than that about the next token. -/
structure Nested.Speaks (nested : Nested σ τ) : Prop where
  expression : Parse.Speaks nested.expression
  conditional : Parse.Speaks nested.conditional
  operand : Parse.Speaks nested.operand
  statement : Parse.Speaks nested.statement
  classTail : ∀ foreign keyword, Parse.Speaks (nested.classTail foreign keyword)

namespace Parse

/-- Every name is taken, so nothing is left said. -/
theorem names_report {what : String} (plain : (what != "expression") = true) :
    Reports false (separated (expect .name what) : Parse σ τ (List τ)) fun _ => false := by
  refine Reports.rounds (.bind (expect_reports plain) fun name => .accepted (by simp) ?_ (.pure _))
  exact .bind (skipNewlines_quiet false) fun _ => .pure _

theorem importTail_reports (keyword : τ) :
    Reports false (importTail keyword : Parse σ τ (Stmt τ)) fun _ => false := by
  refine .bind (expect_reports rfl) fun path => .accepted (by simp) ?_ (.pure _)
  exact .bind (skipNewlines_quiet false) fun _ => .bind (names_report rfl) fun _ => .pure _

section Rules
variable {nested : Nested σ τ} (speaks : nested.Speaks)
include speaks

theorem varTail_speaks (keyword : τ) : Speaks (varTail nested keyword) := by
  refine .bind (expect_reports rfl) fun name => .accepted (by simp) ?_ (.done _)
  exact .bind speaks.expression fun _ => .pure _

theorem definition_speaks : Speaks (definition nested) := by
  refine .found (by simp) ?_ fun keyword => speaks.classTail none keyword
  refine .found (by simp) ?_ fun foreign =>
    .bind (expect_reports rfl) fun keyword => speaks.classTail (some foreign) keyword
  refine .found (by simp) ?_ fun keyword => (importTail_reports keyword).speaks
  exact .found (by simp) speaks.statement (varTail_speaks speaks)

theorem bodyElement_speaks : Speaks (bodyElement nested) := by
  refine .bind (peek_quiet false) fun kind => ?_
  split
  case h_6 => exact .bind speaks.expression fun _ => .pure _
  all_goals exact speaks.statement

theorem bodyRound_reports : Reports false (bodyRound nested) fun _ => false := by
  refine .bind (peek_quiet false) fun kind => ?_
  split
  · exact .bind (expect_reports rfl) fun _ => .pure _
  · exact .bind (definition_speaks speaks) fun _ => .bind (expectNewline_reports rfl) fun _ =>
      .accepted (by simp) (.pure _) (.pure _)

/-- A body ends with a brace, or with what stands in its place. -/
theorem bodyTail_reports (parameters : Option (List τ)) :
    Reports false (bodyTail nested parameters) fun _ => false := by
  have statements : Reports false (bodyStatements nested) fun _ => false :=
    .accepted (by simp) (.pure _) (bodyRound_reports speaks).rounds
  refine .accepted (by simp) (.pure _) (.bind (newlines_quiet false) fun found => ?_)
  split
  · exact .bind statements fun _ => .pure _
  · exact .bind (bodyElement_speaks speaks) fun _ => .bind (skipNewlines_quiet true) fun _ =>
      .bind (expect_reports rfl) fun _ => .pure _

theorem argumentList_speaks : Speaks (argumentList nested) :=
  .bind (skipNewlines_quiet false) fun _ => separated_speaks speaks.expression

theorem callArguments_report : Reports false (callArguments nested) fun _ => false := by
  refine .accepted (by simp) (.accepted (by simp) (.pure _) ?_) (.pure _)
  exact .bind (argumentList_speaks speaks) fun _ => .bind (expect_reports rfl) fun _ => .pure _

omit speaks in
theorem blockParameters_report :
    Reports false (blockParameters : Parse σ τ (Option (List τ))) fun _ => false := by
  refine .accepted (by simp) ?_ (.pure _)
  exact .bind (names_report rfl) fun _ => .bind (expect_reports rfl) fun _ => .pure _

theorem blockArgument_reports : Reports false (blockArgument nested) fun _ => false := by
  refine .accepted (by simp) ?_ (.pure _)
  exact .bind blockParameters_report fun parameters =>
    .bind (bodyTail_reports speaks parameters) fun _ => .pure _

theorem callTail_reports (receiver : Option (Expr τ)) (name : τ) :
    Reports false (callTail nested receiver name) fun _ => false :=
  .bind (callArguments_report speaks) fun _ => .bind (blockArgument_reports speaks) fun _ => .pure _

theorem superTail_reports (keyword : τ) :
    Reports false (superTail nested keyword) fun _ => false := by
  have tail (name : Option τ) : Reports false (callArguments nested >>= fun arguments =>
      blockArgument nested >>= fun block =>
        Pure.pure (Expr.superCall keyword name arguments block)) fun _ => false :=
    .bind (callArguments_report speaks) fun _ => .bind (blockArgument_reports speaks) fun _ =>
      .pure _
  exact .accepted (by simp) (.bind (expect_reports rfl) fun name => tail (some name)) (tail none)

theorem groupingTail_reports (leftParen : τ) :
    Reports false (groupingTail nested leftParen) fun _ => false :=
  .bind speaks.expression fun _ => .bind (expect_reports rfl) fun _ => .pure _

theorem listTail_reports (leftBracket : τ) :
    Reports false (listTail nested leftBracket) fun _ => false :=
  .bind (elements_speaks speaks.expression) fun _ => .bind (expect_reports rfl) fun _ => .pure _

theorem mapTail_reports (leftBrace : τ) :
    Reports false (mapTail nested leftBrace) fun _ => false := by
  have entry : Speaks (mapEntry nested) :=
    .bind speaks.expression fun _ => .bind (expect_reports rfl) fun _ =>
      .bind speaks.expression fun _ => .pure _
  exact .bind (elements_speaks entry) fun _ => .bind (expect_reports rfl) fun _ => .pure _

theorem interpolation_reports :
    Reports false (interpolation nested) fun _ => false := by
  -- A round takes a segment before anything else, so it does not matter what was said before it.
  have round : Reports true (interpolationRound nested) fun _ => true :=
    .found (by simp) (.pure _) fun _ => .bind speaks.expression fun _ => .pure _
  exact .bind round.rounds.unspoken fun _ => .bind (expect_reports rfl) fun _ => .pure _

/-- What begins no expression is spoken about and left. -/
theorem primary_speaks : Speaks (primary nested) := by
  refine .peeked fun seen => ?_
  split
  case h_1 => exact .advanced (by simp) fun token => (groupingTail_reports speaks token).speaks
  case h_2 => exact .advanced (by simp) fun token => (listTail_reports speaks token).speaks
  case h_3 => exact .advanced (by simp) fun token => (mapTail_reports speaks token).speaks
  case h_4 => exact .advanced (by simp) fun token => (callTail_reports speaks none token).speaks
  case h_5 => exact .advanced (by simp) fun token => (superTail_reports speaks token).speaks
  case h_14 => exact (interpolation_reports speaks).speaks.faces
  case h_15 =>
    have other : seen ≠ .kwNull := by assumption
    intro state heard same
    simp only [bind_apply, pure_apply, complain_read (lookahead_takes state).2]
    exact heard.speak fun null => other (same.symm.trans null)
  all_goals exact .advanced (by simp) fun _ => .done _

/-- A link begins with a token of its own. -/
theorem link_reports : Reports true (link nested) fun _ => true := by
  refine .found (by simp) (.accepted (by simp) ?_ (.pure _)) fun leftBracket => ?_
  · exact .bind (expect_reports rfl) fun _ => .bind (callArguments_report speaks) fun _ =>
      .bind (blockArgument_reports speaks) fun _ => .done _
  · exact .bind (argumentList_speaks speaks) fun _ => .bind (expect_reports rfl) fun _ => .done _

theorem operand_speaks : Speaks (operand nested) := by
  have chain : Speaks (chain nested) :=
    .bind (primary_speaks speaks) fun _ => .bind (link_reports speaks).rounds fun _ => .pure _
  refine .peeked fun seen => ?_
  split
  · next negates =>
    have known : seen ≠ .error := by rintro rfl; contradiction
    exact .advanced known fun _ => .bind speaks.operand fun _ => .pure _
  · exact chain.faces

theorem infixChain_speaks (levels : List (List TokenKind))
    (known : ∀ operators ∈ levels, .error ∉ operators) : Speaks (infixChain nested levels) := by
  induction levels with
  | nil => exact operand_speaks speaks
  | cons operators tighter ih =>
    have operand := ih fun operators member => known operators (List.mem_cons_of_mem _ member)
    have round : Reports true (infixRound operators (infixChain nested tighter)) fun _ => true :=
      .foundAny (known operators List.mem_cons_self) (.pure _) fun _ =>
        .bind (skipNewlines_quiet false) fun _ => .bind operand fun _ => .pure _
    exact .bind operand fun _ => .bind round.rounds fun _ => .pure _

theorem conditional_speaks : Speaks (conditional nested) := by
  have known : ∀ operators ∈ TokenKind.infixLevels, .error ∉ operators := by decide
  refine .bind (infixChain_speaks speaks _ known) fun condition =>
    .found (by simp) (.pure _) fun question => ?_
  exact .bind speaks.conditional fun _ => .bind (expect_reports rfl) fun _ =>
    .bind speaks.expression fun _ => .pure _

theorem assignment_speaks : Speaks (assignment nested) :=
  .bind (conditional_speaks speaks) fun _ => .found (by simp) (.pure _) fun _ =>
    .bind speaks.expression fun _ => .pure _

theorem ifTail_speaks (keyword : τ) : Speaks (ifTail nested keyword) := by
  refine .bind (expect_reports rfl) fun _ => .bind (skipNewlines_quiet false) fun _ =>
    .bind speaks.expression fun _ => .bind (expect_reports rfl) fun _ =>
      .bind speaks.statement fun _ => .accepted (by simp) ?_ (.pure _)
  exact .bind speaks.statement fun _ => .pure _

theorem forTail_speaks (keyword : τ) : Speaks (forTail nested keyword) :=
  .bind (expect_reports rfl) fun _ => .bind (expect_reports rfl) fun _ =>
    .bind (expect_reports rfl) fun _ => .bind (skipNewlines_quiet false) fun _ =>
      .bind speaks.expression fun _ => .bind (expect_reports rfl) fun _ =>
        .bind speaks.statement fun _ => .pure _

theorem whileTail_speaks (keyword : τ) : Speaks (whileTail nested keyword) :=
  .bind (expect_reports rfl) fun _ => .bind (skipNewlines_quiet false) fun _ =>
    .bind speaks.expression fun _ => .bind (expect_reports rfl) fun _ =>
      .bind speaks.statement fun _ => .pure _

theorem returnTail_speaks (keyword : τ) : Speaks (returnTail nested keyword) := by
  refine .bind (peek_quiet false) fun kind => ?_
  split
  case h_4 => exact .bind speaks.expression fun _ => .pure _
  all_goals exact .done _

/-- A definition is followed by a newline before the next one is read. -/
theorem definitions_speak {stops ends : TokenKind → Prop} [DecidablePred stops]
    [DecidablePred ends] {what : String} (plain : (what != "expression") = true) :
    Speaks (loop do
      if stops (← peek) then return .stop
      let statement ← definition nested
      if ends (← peek) then return .last statement
      expectNewline what
      return .more statement) := by
  refine Reports.items (.bind (peek_quiet false) fun kind => ?_)
  split
  · exact .done _
  refine .bind (definition_speaks speaks) fun statement => .bind (peek_quiet true) fun kind => ?_
  split
  · exact .pure _
  · exact .bind (expectNewline_reports plain) fun _ => .pure _

theorem blockTail_reports (leftBrace : τ) :
    Reports false (blockTail nested leftBrace) fun _ => false :=
  .bind (skipNewlines_quiet false) fun _ => .bind (definitions_speak speaks rfl) fun _ =>
    .bind (expect_reports rfl) fun _ => .pure _

theorem statement_speaks : Speaks (statement nested) := by
  refine .found (by simp) ?_ fun keyword => .done _
  refine .found (by simp) ?_ (ifTail_speaks speaks)
  refine .found (by simp) ?_ (forTail_speaks speaks)
  refine .found (by simp) ?_ (whileTail_speaks speaks)
  refine .found (by simp) ?_ (returnTail_speaks speaks)
  refine .found (by simp) ?_ fun leftBrace => (blockTail_reports speaks leftBrace).speaks
  exact .bind speaks.expression fun _ => .pure _

omit speaks in
theorem signature_reports : Reports false (signature : Parse σ τ (Signature τ)) fun _ => false := by
  refine .found (by simp) (.peeked fun seen => ?_) fun leftBracket => ?_
  · split
    · next joins =>
      have known : seen ≠ .error := by rintro rfl; contradiction
      exact .advanced known fun _ => .pure _
    · refine Reports.faces (.foundAny (by simp) ?_ fun _ => .pure _)
      exact .bind (expect_reports rfl) fun _ => .pure _
  · exact .bind (names_report rfl) fun _ => .bind (expect_reports rfl) fun _ => .pure _

omit speaks in
/-- A list that is not allowed is a problem with its parenthesis, which has just been taken. -/
theorem disallowed_reports {rest missing : Parse σ τ (Option (List τ))}
    (goesOn : Reports false rest fun _ => false)
    (otherwise : Reports false missing fun _ => false) :
    Reports false (accept .leftParen >>= fun opened =>
      if opened then complain .parametersNotAllowed >>= fun _ => rest else missing)
      fun _ => false := by
  intro state heard
  have complains : complain .parametersNotAllowed (advance state).2 =
      (⟨⟩, (advance state).2.noting ⟨.parametersNotAllowed, (lookahead state).1⟩) :=
    complain_unread rfl rfl
  change (((if (accept? .leftParen state).1.isSome
    then complain .parametersNotAllowed >>= fun _ => rest else missing)
      (accept? .leftParen state).2).2).Heard false
  rw [accept?_apply]
  split
  · refine goesOn (complain .parametersNotAllowed (advance state).2).2 ?_
    rw [complains]
    exact heard.mistake trivial
  · exact otherwise _ heard.look

omit speaks in
theorem methodParameters_report (signature : Signature τ) :
    Reports false (methodParameters signature : Parse σ τ _) fun _ => false := by
  have list : Reports false (skipNewlines >>= fun _ => accept .rightParen >>= fun empty =>
      if empty then Pure.pure (some []) else parameterList >>= fun parameters =>
        skipNewlines >>= fun _ => expect .rightParen "')' after parameters" >>= fun _ =>
          Pure.pure (some parameters) : Parse σ τ (Option (List τ))) fun _ => false := by
    refine .bind (skipNewlines_quiet false) fun _ => .accepted (by simp) (.pure _) ?_
    exact .bind (names_report rfl) fun _ => .bind (skipNewlines_quiet false) fun _ =>
      .bind (expect_reports rfl) fun _ => .pure _
  obtain ⟨name, parameters, takesList⟩ := signature
  cases takesList with
  | true => exact .accepted (by simp) list (.pure _)
  | false => exact disallowed_reports list (.pure _)

theorem method_reports : Reports false (method nested) fun _ => false := by
  have modifier {kind : TokenKind} (known : kind ≠ .error) :
      Reports false (accept? kind : Parse σ τ (Option τ)) fun _ => false := by
    have same : Reports false (accept? kind >>= Pure.pure : Parse σ τ (Option τ)) fun _ => false :=
      .found known (.pure _) fun _ => .pure _
    exact same
  refine .bind (modifier (by simp)) fun foreign => .bind (modifier (by simp)) fun static =>
    .bind (modifier (by simp)) fun construct => .bind signature_reports fun signature =>
      .bind (methodParameters_report signature) fun parameters => ?_
  split
  · exact .pure _
  · exact .bind (expect_reports rfl) fun _ => .bind (bodyTail_reports speaks parameters) fun _ =>
      .pure _

theorem methodsRound_reports : Reports false (methodsRound nested) fun _ => false := by
  refine .accepted (by simp) (.pure _) (.bind (peek_quiet false) fun kind => ?_)
  split
  · exact .bind (expect_reports rfl) fun _ => .pure _
  · exact .bind (method_reports speaks) fun _ => .accepted (by simp) (.pure _)
      (.bind (expectNewline_reports rfl) fun _ => .pure _)

theorem classTail_reports (foreign : Option τ) (keyword : τ) :
    Reports false (classTail nested foreign keyword) fun _ => false := by
  have above : Reports false (superclass : Parse σ τ (Option τ)) fun _ => false :=
    .accepted (by simp) (.bind (expect_reports rfl) fun _ => .pure _) (.pure _)
  exact .bind (expect_reports rfl) fun _ => .bind above fun _ => .bind (expect_reports rfl) fun _ =>
    .bind (skipNewlines_quiet false) fun _ => .bind (methodsRound_reports speaks).rounds fun _ =>
      .pure _

end Rules

theorem refuse_speaks : Speaks (refuse : Parse σ τ (Expr τ)) := by
  intro state heard
  simp only [refuse, bind_apply, pure_apply, complain_read (lookahead_takes state).2]
  exact heard.speak trivial

end Parse

namespace Nested
open Parse

theorem refused_speaks : (refused : Nested σ τ).Speaks where
  expression := refuse_speaks
  conditional := refuse_speaks
  operand := refuse_speaks
  statement := .map refuse_speaks
  classTail _ _ := .map refuse_speaks

theorem around_speaks {nested : Nested σ τ} (speaks : nested.Speaks) : nested.around.Speaks where
  expression := .deeper (assignment_speaks speaks)
  conditional := .deeper (conditional_speaks speaks)
  operand := .deeper (operand_speaks speaks)
  statement := .deeper (statement_speaks speaks)
  classTail foreign keyword := .deeper (classTail_reports speaks foreign keyword).speaks

theorem within_speaks (levels : Nat) : (within levels : Nested σ τ).Speaks := by
  induction levels with
  | zero => exact refused_speaks
  | succ levels ih => exact around_speaks ih

end Nested

namespace Parse

/-- Once the end token has been taken there is nothing left to be said. -/
theorem module_reports : Reports false (module : Parse σ τ (Module τ)) fun _ => false := by
  have begins : Reports false (get : Parse σ τ (ParserState σ τ)) fun _ => false :=
    fun _ heard => heard
  exact .bind begins fun _ => .bind (skipNewlines_quiet false) fun _ =>
    .bind (definitions_speak (Nested.within_speaks _) rfl) fun _ =>
      .bind (expect_reports rfl) fun _ => .pure _

end Parse
end WrenFront
