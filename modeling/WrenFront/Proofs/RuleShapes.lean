import WrenFront.Proofs.TreeShapes

/-! Every rule of the parser builds a tree of the right shape. The rules of one level are read move
by move, given that the nested ones do so; they are tied together at the end. -/

namespace WrenFront

variable {clean : Prop}

/-- The nested rules build trees of the right shape. -/
structure Nested.Builds (clean : Prop) (nested : Nested Reel Token) : Prop where
  expression : Parse.Gives clean nested.expression fun value =>
    (TreeNode.expression value).Built clean
  conditional : Parse.Gives clean nested.conditional fun value =>
    (TreeNode.expression value).Built clean
  operand : Parse.Gives clean nested.operand fun value => (TreeNode.expression value).Built clean
  statement : Parse.Gives clean nested.statement fun value =>
    (TreeNode.statement value).Built clean ∧ value.isDefinition = false
  element : ∀ seen ∈ Grammar.elementKeywords, Parse.Facing seen clean nested.statement fun value =>
    (TreeNode.statement value).Built clean ∧ value.isElement = true
  classTail : ∀ foreign keyword, Parse.Gives clean (nested.classTail foreign keyword) fun value =>
    (TreeNode.statement value).Built clean

namespace Parse

theorem importTail_builds (keyword : Token) : Gives clean (importTail keyword) fun value =>
    (TreeNode.statement value).Built clean := by
  refine .bind expect_gives fun path quoted => .accepted ?_ ?_
  · refine .after fun _ => .bind names_give fun names holds => .pure ?_
    refine .intro (by simpa [TreeNode.Shaped, Stmt.Shaped] using holds.1)
      (fun isClean => ⟨quoted isClean, holds.2 isClean⟩) ?_
    simp [TreeNode.parts, Stmt.parts]
  · refine .pure (.intro (by simp [TreeNode.Shaped, Stmt.Shaped])
      (fun isClean => ⟨quoted isClean, by simp [Token.Names]⟩) ?_)
    simp [TreeNode.parts, Stmt.parts]

section Rules
variable {nested : Nested Reel Token} [nested.Steps] (builds : nested.Builds clean)
include builds

theorem varTail_builds (keyword : Token) : Gives clean (varTail nested keyword) fun value =>
    (TreeNode.statement value).Built clean := by
  refine .bind expect_gives fun name named => .accepted ?_ ?_
  · refine .bind builds.expression fun value built => .pure (.intro trivial named ?_)
    simpa [TreeNode.parts, Stmt.parts] using built
  · refine .pure (.intro trivial named ?_)
    simp [TreeNode.parts, Stmt.parts]

theorem definition_builds : Gives clean (definition nested) fun value =>
    (TreeNode.statement value).Built clean := by
  refine .found ?_ fun keyword _ => builds.classTail none keyword
  refine .found ?_ fun foreign _ => .after fun keyword => builds.classTail (some foreign) keyword
  refine .found ?_ fun keyword _ => importTail_builds keyword
  refine .found ?_ fun keyword _ => varTail_builds builds keyword
  exact builds.statement.mono fun _ holds => holds.1

theorem bodyElement_builds : Gives clean (bodyElement nested) fun value =>
    (TreeNode.statement value).Built clean ∧ value.isElement = true := by
  refine .peeked fun seen => ?_
  split
  case h_6 =>
    refine Gives.facing (.bind builds.expression fun value built =>
      .pure ⟨.intro trivial ?_ ?_, rfl⟩)
    · exact fun _ => trivial
    · simpa [TreeNode.parts, Stmt.parts] using built
  all_goals exact builds.element _ (by decide)

theorem bodyRound_builds : Gives clean (bodyRound nested) fun ending =>
    ∀ value ∈ ending.toList, (TreeNode.statement value).Built clean := by
  refine .after fun kind => ?_
  split
  · exact .after fun _ => .pure (by simp [Round.toList])
  · refine .bind (definition_builds builds) fun value built => .after fun _ => .accepted ?_ ?_
    all_goals exact .pure (by simpa [Round.toList] using built)

theorem bodyTail_builds {parameters : Option (List Token)}
    (named : clean → Token.Names (parameters.getD [])) :
    Gives clean (bodyTail nested parameters) fun body =>
      (TreeNode.body body).Built clean ∧ body.parameters = parameters := by
  have sequence {statements : List (Stmt Token)}
      (built : ∀ value ∈ statements, (TreeNode.statement value).Built clean) :
      (TreeNode.body (.sequence parameters statements)).Built clean :=
    .intro trivial named (by simpa [TreeNode.parts] using built)
  have statements : Gives clean (bodyStatements nested) fun values =>
      ∀ value ∈ values, (TreeNode.statement value).Built clean :=
    .accepted (.pure (by simp)) (.loop (bodyRound_builds builds))
  refine .accepted (.pure ⟨sequence (by simp), rfl⟩) (.after fun found => ?_)
  split
  · exact .bind statements fun values built => .pure ⟨sequence built, rfl⟩
  · refine .bind (bodyElement_builds builds) fun value holds => .after fun _ => .after fun _ =>
      .pure ⟨.intro holds.2 named ?_, rfl⟩
    simpa [TreeNode.parts] using holds.1

theorem argumentList_builds : Gives clean (argumentList nested) fun values =>
    values ≠ [] ∧ ∀ value ∈ values, (TreeNode.expression value).Built clean :=
  .after fun _ => separated_gives builds.expression

theorem callArguments_build : Gives clean (callArguments nested) fun values =>
    ∀ part ∈ Part.arguments values, part.Built clean := by
  refine .accepted (.accepted (.pure (by simp)) ?_) (.pure (by simp))
  refine .bind (argumentList_builds builds) fun values holds => .after fun _ => .pure ?_
  simpa using holds.2

omit [nested.Steps] builds in
theorem blockParameters_give : Gives clean blockParameters fun names =>
    clean → Token.Names (names.getD []) := by
  refine .accepted ?_ (.pure fun _ => by simp [Token.Names])
  exact .bind names_give fun names holds => .after fun _ => .pure holds.2

theorem blockArgument_builds : Gives clean (blockArgument nested) fun block =>
    ∀ part ∈ Part.block block, part.Built clean := by
  refine .accepted ?_ (.pure (by simp [Part.block]))
  refine .bind blockParameters_give fun names named => .bind (bodyTail_builds builds named)
    fun body holds => .pure ?_
  simpa [Part.block, or_imp, forall_and] using holds.1

omit [nested.Steps] builds in
theorem call_built {receiver : Option (Expr Token)} {name : Token}
    {arguments : Option (List (Expr Token))} {block : Option (Body Token)}
    (target : ∀ value ∈ receiver, (TreeNode.expression value).Built clean)
    (called : receiver = none → name.kind = .name) (named : clean → name.kind = .name)
    (given : ∀ part ∈ Part.arguments arguments, part.Built clean)
    (last : ∀ part ∈ Part.block block, part.Built clean) :
    (TreeNode.expression (.call receiver name arguments block)).Built clean := by
  refine .intro called named fun part member => ?_
  simp only [TreeNode.parts, Expr.parts, List.mem_append, List.mem_cons, List.mem_map,
    Option.mem_toList] at member
  rcases member with (⟨value, here, rfl⟩ | rfl | member) | member
  · exact target value here
  · trivial
  · exact given part member
  · exact last part member

theorem callTail_builds {name : Token} (named : name.kind = .name) :
    Gives clean (callTail nested none name) fun value => (TreeNode.expression value).Built clean :=
  .bind (callArguments_build builds) fun _ given => .bind (blockArgument_builds builds)
    fun _ last => .pure (call_built (by simp) (fun _ => named) (fun _ => named) given last)

theorem superTail_builds (keyword : Token) : Gives clean (superTail nested keyword) fun value =>
    (TreeNode.expression value).Built clean := by
  have tail {name : Option Token} (named : clean → ∀ token ∈ name, token.kind = .name) :
      Gives clean (callArguments nested >>= fun arguments => blockArgument nested >>= fun block =>
        Pure.pure (Expr.superCall keyword name arguments block)) fun value =>
          (TreeNode.expression value).Built clean := by
    refine .bind (callArguments_build builds) fun arguments given =>
      .bind (blockArgument_builds builds) fun block last =>
        .pure (.intro trivial named fun part member => ?_)
    simp only [TreeNode.parts, Expr.parts, List.mem_append, List.mem_cons, Part.tokens,
      List.mem_map] at member
    rcases member with ((rfl | ⟨token, _, rfl⟩) | member) | member
    · trivial
    · trivial
    · exact given part member
    · exact last part member
  refine .accepted (.bind expect_gives fun name named => ?_) (tail (by simp))
  exact tail fun isClean => by simpa using named isClean

theorem groupingTail_builds (leftParen : Token) : Gives clean (groupingTail nested leftParen)
    fun value => (TreeNode.expression value).Built clean := by
  refine .bind builds.expression fun value built => .after fun _ =>
    .pure (.intro trivial (fun _ => trivial) ?_)
  simpa [TreeNode.parts, Expr.parts] using built

theorem listTail_builds (leftBracket : Token) : Gives clean (listTail nested leftBracket)
    fun value => (TreeNode.expression value).Built clean := by
  refine .bind (elements_gives builds.expression) fun values built => .after fun _ =>
    .pure (.intro trivial (fun _ => trivial) ?_)
  simpa [TreeNode.parts, Expr.parts, or_imp, forall_and] using built

theorem mapTail_builds (leftBrace : Token) : Gives clean (mapTail nested leftBrace)
    fun value => (TreeNode.expression value).Built clean := by
  have entry : Gives clean (mapEntry nested) fun entry =>
      ∀ part ∈ Part.entry entry, part.Built clean := by
    refine .bind builds.expression fun key first => .after fun _ =>
      .bind builds.expression fun value second => .pure ?_
    simpa [Part.entry] using ⟨first, second⟩
  refine .bind (elements_gives entry) fun entries built => .after fun _ =>
    .pure (.intro trivial (fun _ => trivial) fun part member => ?_)
  simp only [TreeNode.parts, Expr.parts, List.cons_append, List.mem_cons, List.mem_append,
    List.mem_flatMap, List.not_mem_nil, or_false] at member
  rcases member with rfl | ⟨entry, inside, member⟩ | rfl
  · trivial
  · exact built entry inside part member
  · trivial

/-- A string that begins with a segment has that one at least. -/
theorem interpolation_builds : Facing .interpolation clean (interpolation nested)
    fun value => (TreeNode.expression value).Built clean := by
  have round : Gives clean (interpolationRound nested) fun ending => ∀ part ∈ ending.toList,
      part.segment.kind = .interpolation ∧
        (TreeNode.expression part.expression).Built clean := by
    refine .found (.pure (by simp [Round.toList])) fun segment same => ?_
    refine .bind builds.expression fun value built => .pure ?_
    simpa [Round.toList, InterpolationPart.segment, InterpolationPart.expression]
      using ⟨same, built⟩
  have parts : Facing .interpolation clean (loop (interpolationRound nested)) fun parts =>
      parts ≠ [] ∧ ∀ part ∈ parts, part.segment.kind = .interpolation ∧
        (TreeNode.expression part.expression).Built clean := by
    intro state same room ends
    have seen : Feed.kind Reel (lookahead state).1 = .interpolation := same
    refine ⟨loop_ne_nil room ?_, round.loop state room ends⟩
    rw [interpolationRound, bind_apply, accept?_apply, if_pos seen]
    exact List.cons_ne_nil _ _
  refine parts.bind fun parts holds => .bind expect_gives fun last closed =>
    .pure (.intro ⟨?_, ?_, ?_⟩ closed fun part member => ?_)
  · simp [InterpolationPart.strings, InterpolationPart.expressions]
  · simpa [InterpolationPart.expressions, Nat.one_le_iff_ne_zero] using holds.1
  · simpa [InterpolationPart.strings] using fun part member => (holds.2 part member).1
  · simp only [TreeNode.parts, Expr.parts, List.mem_append, List.mem_flatMap,
      List.mem_singleton] at member
    rcases member with ⟨⟨segment, value⟩, inside, member⟩ | rfl
    · have built := (holds.2 _ inside).2
      simp only [Part.segment, Part.expression, List.mem_cons, List.not_mem_nil,
        or_false] at member
      rcases member with rfl | rfl
      · trivial
      · exact built
    · trivial

omit [nested.Steps] builds in
/-- A leaf has a token of the kind that it was chosen by. -/
theorem leaf_built {value : Expr Token} {token : Token} (leaf : value.parts = [.token token])
    (shaped : value.Shaped) (spelled : value.Spelled) :
    (TreeNode.expression value).Built clean :=
  .intro shaped (fun _ => spelled) (by simp [TreeNode.parts, leaf])

theorem primary_builds : Gives clean (primary nested) fun value =>
    (TreeNode.expression value).Built clean := by
  refine .peeked fun seen => ?_
  split
  case h_1 => exact .advanced fun token _ => groupingTail_builds builds token
  case h_2 => exact .advanced fun token _ => listTail_builds builds token
  case h_3 => exact .advanced fun token _ => mapTail_builds builds token
  case h_4 => exact .advanced fun token same => callTail_builds builds same
  case h_5 => exact .advanced fun token _ => superTail_builds builds token
  case h_6 => exact .advanced fun token same => .pure (leaf_built rfl (.inl same) trivial)
  case h_7 => exact .advanced fun token same => .pure (leaf_built rfl (.inr same) trivial)
  case h_8 =>
    refine .advanced fun token same => .pure (.intro trivial (fun _ => same) ?_)
    simp [TreeNode.parts, Expr.parts]
  case h_14 => exact interpolation_builds builds
  case h_15 =>
    -- What stands in for an expression is only found where there is a problem.
    refine Gives.facing (.after fun token => .complaining fun unclean =>
      .pure (.intro trivial (fun isClean => absurd isClean unclean) ?_))
    simp [TreeNode.parts, Expr.parts]
  all_goals exact .advanced fun token same => .pure (leaf_built rfl same trivial)

/-- A link makes an expression of the one before it. -/
theorem link_builds : Gives clean (link nested) fun ending => ∀ link ∈ ending.toList,
    ∀ receiver, (TreeNode.expression receiver).Built clean →
      (TreeNode.expression (link.attach receiver)).Built clean := by
  refine .found (.accepted ?_ (.pure (by simp [Round.toList]))) fun leftBracket _ => ?_
  · refine .bind expect_gives fun name named => .bind (callArguments_build builds)
      fun arguments given => .bind (blockArgument_builds builds) fun block last => .pure ?_
    simp only [Round.toList, List.mem_singleton, forall_eq, Link.attach]
    exact fun receiver built => call_built (by simpa using built) (by simp) named given last
  · refine .bind (argumentList_builds builds) fun arguments given => .after fun _ => .pure ?_
    simp only [Round.toList, List.mem_singleton, forall_eq, Link.attach]
    refine fun receiver built => .intro given.1 (fun _ => trivial) ?_
    simpa [TreeNode.parts, Expr.parts, or_imp, forall_and] using ⟨built, given.2⟩

theorem chain_builds : Gives clean (chain nested) fun value =>
    (TreeNode.expression value).Built clean := by
  refine .bind (primary_builds builds) fun first built =>
    .bind (.loop (link_builds builds)) fun links attach => .pure ?_
  induction links generalizing first with
  | nil => exact built
  | cons link links ih =>
    rw [List.forall_mem_cons] at attach
    exact ih (link.attach first) (attach.1 first built) attach.2

theorem operand_builds : Gives clean (operand nested) fun value =>
    (TreeNode.expression value).Built clean := by
  refine .peeked fun seen => ?_
  split
  · next negates =>
    refine .advanced fun operator same => .bind builds.operand fun value built =>
      .pure (.intro trivial (fun _ => ?_) ?_)
    · rw [← same] at negates
      exact negates
    · simpa [TreeNode.parts, Expr.parts] using built
  · exact (chain_builds builds).facing

theorem infixChain_builds {levels : List (List TokenKind)}
    (known : ∀ operators ∈ levels, operators ∈ TokenKind.infixLevels) :
    Gives clean (infixChain nested levels) fun value =>
      (TreeNode.expression value).Built clean := by
  induction levels with
  | nil => exact operand_builds builds
  | cons operators tighter ih =>
    rw [List.forall_mem_cons] at known
    have round : Gives clean (infixRound operators (infixChain nested tighter)) fun ending =>
        ∀ link ∈ ending.toList,
          link.1.kind.isInfixOperator ∧ (TreeNode.expression link.2).Built clean := by
      refine .foundAny (.pure (by simp [Round.toList])) fun operator member => ?_
      refine .after fun _ => .bind (ih known.2) fun value built => .pure ?_
      have joins : operator.kind.isInfixOperator :=
        List.any_eq_true.2 ⟨operators, known.1, List.contains_iff_mem.2 member⟩
      simpa [Round.toList] using ⟨joins, built⟩
    refine .bind (ih known.2) fun first built => .bind (.loop round) fun links holds => .pure ?_
    clear ih
    induction links generalizing first with
    | nil => exact built
    | cons link links ih =>
      rw [List.forall_mem_cons] at holds
      refine ih _ (.intro trivial (fun _ => holds.1.1) ?_) holds.2
      simpa [TreeNode.parts, Expr.parts] using ⟨built, holds.1.2⟩

theorem conditional_builds : Gives clean (conditional nested) fun value =>
    (TreeNode.expression value).Built clean := by
  refine .bind (infixChain_builds builds fun _ member => member) fun condition first =>
    .found (.pure first) fun question _ => ?_
  refine .bind builds.conditional fun thenBranch second => .after fun _ =>
    .bind builds.expression fun elseBranch third => .pure (.intro trivial (fun _ => trivial) ?_)
  simpa [TreeNode.parts, Expr.parts] using ⟨first, second, third⟩

theorem assignment_builds : Gives clean (assignment nested) fun value =>
    (TreeNode.expression value).Built clean := by
  refine .bind (conditional_builds builds) fun target first => .found (.pure first)
    fun equal _ => .bind builds.expression fun value second =>
      .pure (.intro trivial (fun _ => trivial) ?_)
  simpa [TreeNode.parts, Expr.parts] using ⟨first, second⟩

theorem ifTail_builds (keyword : Token) : Gives clean (ifTail nested keyword) fun value =>
    (TreeNode.statement value).Built clean ∧ value.isElement = true := by
  refine .after fun _ => .after fun _ => .bind builds.expression fun condition first =>
    .after fun _ => .bind builds.statement fun thenBranch second => .accepted ?_ ?_
  · refine .bind builds.statement fun elseBranch third =>
      .pure ⟨.intro ⟨second.2, by simpa using third.2⟩ (fun _ => trivial) ?_, rfl⟩
    simpa [TreeNode.parts, Stmt.parts] using ⟨first, second.1, third.1⟩
  · refine .pure ⟨.intro ⟨second.2, by simp⟩ (fun _ => trivial) ?_, rfl⟩
    simpa [TreeNode.parts, Stmt.parts] using ⟨first, second.1⟩

set_option synthInstance.maxSize 256 in
theorem forTail_builds (keyword : Token) : Gives clean (forTail nested keyword) fun value =>
    (TreeNode.statement value).Built clean ∧ value.isElement = true := by
  refine .after fun _ => .bind expect_gives fun loopVariable named => .after fun _ =>
    .after fun _ => .bind builds.expression fun iterator first => .after fun _ =>
      .bind builds.statement fun body second => .pure ⟨.intro second.2 named ?_, rfl⟩
  simpa [TreeNode.parts, Stmt.parts] using ⟨first, second.1⟩

theorem whileTail_builds (keyword : Token) : Gives clean (whileTail nested keyword) fun value =>
    (TreeNode.statement value).Built clean ∧ value.isElement = true := by
  refine .after fun _ => .after fun _ => .bind builds.expression fun condition first =>
    .after fun _ => .bind builds.statement fun body second =>
      .pure ⟨.intro second.2 (fun _ => trivial) ?_, rfl⟩
  simpa [TreeNode.parts, Stmt.parts] using ⟨first, second.1⟩

theorem returnTail_builds (keyword : Token) : Gives clean (returnTail nested keyword) fun value =>
    (TreeNode.statement value).Built clean ∧ value.isElement = true := by
  have bare : (TreeNode.statement (.returnValue keyword none)).Built clean :=
    .intro trivial (fun _ => trivial) (by simp [TreeNode.parts, Stmt.parts])
  refine .peeked fun seen => ?_
  split
  case h_4 =>
    refine Gives.facing (.bind builds.expression fun value built =>
      .pure ⟨.intro trivial (fun _ => trivial) ?_, rfl⟩)
    simpa [TreeNode.parts, Stmt.parts] using built
  all_goals exact Gives.facing (.pure ⟨bare, rfl⟩)

theorem definitions_build {stops ends : TokenKind → Prop} [DecidablePred stops]
    [DecidablePred ends] {what : String} :
    Gives clean (loop do
      if stops (← peek) then return .stop
      let statement ← definition nested
      if ends (← peek) then return .last statement
      expectNewline what
      return .more statement) fun values =>
        ∀ value ∈ values, (TreeNode.statement value).Built clean := by
  refine .loop (.after fun kind => ?_)
  split
  · exact .pure (by simp [Round.toList])
  refine .bind (definition_builds builds) fun value built => .after fun kind => ?_
  split
  · exact .pure (by simpa [Round.toList] using built)
  · exact .after fun _ => .pure (by simpa [Round.toList] using built)

theorem blockTail_builds (leftBrace : Token) : Gives clean (blockTail nested leftBrace) fun value =>
    (TreeNode.statement value).Built clean ∧ value.isDefinition = false := by
  refine .after fun _ => .bind (definitions_build builds) fun values built => .after fun _ =>
    .pure ⟨.intro trivial (fun _ => trivial) ?_, rfl⟩
  simpa [TreeNode.parts, Stmt.parts, or_imp, forall_and] using built

omit [nested.Steps] builds in
theorem not_definition {value : Stmt Token} (element : value.isElement = true) :
    value.isDefinition = false := by
  cases value <;> simp_all [Stmt.isElement, Stmt.isDefinition]

/-- Only a block is a statement that is no element, and it begins with a brace. -/
theorem statement_builds (seen : TokenKind) : Facing seen clean (statement nested) fun value =>
    (TreeNode.statement value).Built clean ∧ value.isDefinition = false ∧
      (seen ∈ Grammar.elementKeywords → value.isElement = true) := by
  have element {value : Stmt Token}
      (holds : (TreeNode.statement value).Built clean ∧ value.isElement = true) :
      (TreeNode.statement value).Built clean ∧ value.isDefinition = false ∧
        (seen ∈ Grammar.elementKeywords → value.isElement = true) :=
    ⟨holds.1, not_definition holds.2, fun _ => holds.2⟩
  refine .found (fun _ => ?_) fun keyword _ _ => .pure (element ⟨.intro trivial ?_ ?_, rfl⟩)
  · refine .found (fun _ => ?_) fun keyword _ _ =>
      (ifTail_builds builds keyword).mono fun _ => element
    refine .found (fun _ => ?_) fun keyword _ _ =>
      (forTail_builds builds keyword).mono fun _ => element
    refine .found (fun _ => ?_) fun keyword _ _ =>
      (whileTail_builds builds keyword).mono fun _ => element
    refine .found (fun _ => ?_) fun keyword _ _ =>
      (returnTail_builds builds keyword).mono fun _ => element
    refine .found (fun _ => ?_) fun leftBrace _ same =>
      (blockTail_builds builds leftBrace).mono fun _ holds => ⟨holds.1, holds.2, fun keyword => ?_⟩
    · refine Gives.facing (.bind builds.expression fun value built =>
        .pure (element ⟨.intro trivial (fun _ => trivial) ?_, rfl⟩))
      simpa [TreeNode.parts, Stmt.parts] using built
    · simp [Grammar.elementKeywords, same] at keyword
  · exact fun _ => trivial
  · simp [TreeNode.parts, Stmt.parts]

omit [nested.Steps] builds in
theorem signature_gives : Gives clean signature fun head => clean →
    head.name.kind ∈ Grammar.signatureFronts ∧ Token.Names (head.parameters.getD []) := by
  have none : Token.Names ((none : Option (List Token)).getD []) := by simp [Token.Names]
  refine .found (.peeked fun seen => ?_) fun leftBracket same => ?_
  · split
    · next joins =>
      refine .advanced fun operator same => .pure fun _ => ⟨?_, none⟩
      exact List.mem_append_right _ (Grammar.mem_infixLevels (same ▸ joins))
    · refine Gives.facing (.foundAny ?_ fun operator member => .pure fun _ => ⟨?_, none⟩)
      · refine .bind expect_gives fun name named => .pure fun isClean => ⟨?_, none⟩
        exact Grammar.kind_mem (named isClean) rfl
      · have listed : [TokenKind.bang, .tilde] ⊆ Grammar.signatureFronts := by decide
        exact listed member
  · refine .bind names_give fun names holds => .after fun _ =>
      .pure fun isClean => ⟨Grammar.kind_mem same rfl, holds.2 isClean⟩

omit [nested.Steps] builds in
theorem methodParameters_give {head : Signature Token}
    (named : clean → Token.Names (head.parameters.getD [])) :
    Gives clean (methodParameters head) fun names => clean → Token.Names (names.getD []) := by
  have list : Gives clean (skipNewlines >>= fun _ => accept .rightParen >>= fun empty =>
      if empty then Pure.pure (some []) else parameterList >>= fun parameters =>
        skipNewlines >>= fun _ => expect .rightParen "')' after parameters" >>= fun _ =>
          Pure.pure (some parameters) : Parse Reel Token (Option (List Token))) fun names =>
            clean → Token.Names (names.getD []) := by
    refine .after fun _ => .accepted (.pure fun _ => by simp [Token.Names]) ?_
    exact .bind names_give fun names holds => .after fun _ => .after fun _ => .pure holds.2
  obtain ⟨name, parameters, takesList⟩ := head
  cases takesList with
  | true => exact .accepted list (.pure named)
  | false => exact .accepted (.complaining fun _ => list) (.pure named)

theorem method_builds : Gives clean (method nested) fun value =>
    (TreeNode.method value).Built clean := by
  refine .bind accept?_gives fun foreign first => .bind accept?_gives fun static second =>
    .bind accept?_gives fun construct third => .bind signature_gives fun head spelled =>
      .bind (methodParameters_give fun isClean => (spelled isClean).2) fun parameters named => ?_
  have kinds (isClean : clean) : TreeNode.Spelled
      (.method (.mk foreign static construct head.name parameters none)) :=
    ⟨first, second, third, (spelled isClean).1, named isClean⟩
  cases foreign with
  | some keyword =>
    refine .pure (.intro (by simp [TreeNode.Shaped]) kinds ?_)
    simp [TreeNode.parts, or_imp, forall_and]
  | none =>
    refine .after fun _ => .bind (bodyTail_builds builds named) fun body holds =>
      .pure (.intro (by simpa [TreeNode.Shaped] using holds.2) kinds ?_)
    simpa [TreeNode.parts, or_imp, forall_and] using holds.1

theorem methodsRound_builds : Gives clean (methodsRound nested) fun ending =>
    ∀ value ∈ ending.toList, (TreeNode.method value).Built clean := by
  refine .accepted (.pure (by simp [Round.toList])) (.after fun kind => ?_)
  split
  · exact .after fun _ => .pure (by simp [Round.toList])
  · refine .bind (method_builds builds) fun value built => .accepted ?_ (.after fun _ => ?_)
    all_goals exact .pure (by simpa [Round.toList] using built)

theorem classTail_builds (foreign : Option Token) (keyword : Token) :
    Gives clean (classTail nested foreign keyword) fun value =>
      (TreeNode.statement value).Built clean := by
  have above : Gives clean superclass fun name => clean → ∀ token ∈ name, token.kind = .name :=
    .accepted (.bind expect_gives fun name named => .pure fun isClean => by
      simpa using named isClean) (.pure (by simp))
  refine .bind expect_gives fun name named => .bind above fun superclass inherits =>
    .after fun _ => .after fun _ => .bind (.loop (methodsRound_builds builds)) fun methods built =>
      .pure (.intro trivial (fun isClean => ?_) ?_)
  · simpa [TreeNode.Spelled, Stmt.Spelled, Token.Names] using ⟨named isClean, inherits isClean⟩
  · simpa [TreeNode.parts, Stmt.parts, or_imp, forall_and] using built

end Rules

theorem refuse_builds : Gives clean refuse fun value =>
    (TreeNode.expression value).Built clean ∧ ¬ clean := by
  refine .after fun token => .complaining fun unclean => .pure ⟨.intro trivial ?_ ?_, unclean⟩
  · exact fun isClean => absurd isClean unclean
  · simp [TreeNode.parts, Expr.parts]

end Parse

namespace Nested
open Parse

theorem refused_builds : (refused : Nested Reel Token).Builds clean := by
  have statement {value : Expr Token}
      (holds : (TreeNode.expression value).Built clean ∧ ¬ clean) :
      (TreeNode.statement (.expression value)).Built clean := by
    refine .intro trivial (fun _ => trivial) ?_
    simpa [TreeNode.parts, Stmt.parts] using holds.1
  exact {
    expression := refuse_builds.mono fun _ holds => holds.1
    conditional := refuse_builds.mono fun _ holds => holds.1
    operand := refuse_builds.mono fun _ holds => holds.1
    statement := .map (refuse_builds.mono fun _ holds => ⟨statement holds, rfl⟩)
    element := fun _ _ => Gives.facing
      (.map (refuse_builds.mono fun _ holds => ⟨statement holds, rfl⟩))
    classTail := fun _ _ => .map (refuse_builds.mono fun _ holds => statement holds) }

theorem around_builds {nested : Nested Reel Token} [nested.Steps] (builds : nested.Builds clean) :
    nested.around.Builds clean where
  expression := .deeper (assignment_builds builds)
  conditional := .deeper (conditional_builds builds)
  operand := .deeper (operand_builds builds)
  statement := .deeper (Facing.gives fun seen state same room ends =>
    have holds := statement_builds builds seen state same room ends
    ⟨holds.1, holds.2.1⟩)
  element seen keyword := .deeper fun state same room ends =>
    have holds := statement_builds builds seen state same room ends
    ⟨holds.1, holds.2.2 keyword⟩
  classTail foreign keyword := .deeper (classTail_builds builds foreign keyword)

theorem within_builds (levels : Nat) : (within levels : Nested Reel Token).Builds clean := by
  induction levels with
  | zero => exact refused_builds
  | succ levels ih => exact around_builds ih

end Nested

theorem Parse.module_builds : Gives clean Parse.module fun module =>
    (TreeNode.script module).Built clean := by
  refine .after fun _ => .after fun _ => .bind (definitions_build (Nested.within_builds _))
    fun values built => .after fun _ => .pure (.intro trivial (fun _ => trivial) ?_)
  simpa [TreeNode.parts] using built

namespace Source

theorem parse_built (source : Source) :
    (TreeNode.script source.parse.module).Built (source.parse.problems = []) := by
  obtain ⟨module, problems⟩ := source.parse_reel
  rw [module, problems]
  have rounds := (ParserState.ofFeed_takes source.reel).rounds
  exact Parse.module_builds _ (rounds ▸ Nat.succ_pos _) fun ends => ends

/-- No node has another shape, however the parser had to recover. -/
theorem nodes_shaped (source : Source) {levels : Nat} {node : TreeNode Token}
    (path : (TreeNode.script source.parse.module).Path levels node) : node.Shaped :=
  (source.parse_built levels node path).1

/-- A name stands where the rest of a string is missing. -/
def brokenString : Source where
  id := "broken"
  bytes := Text.Utf8.encode "\"a%(b c\n"

/-- The string that is left of it, which ends with the name. -/
def brokenInterpolation : Expr Token :=
  .interpolation [.mk ⟨.interpolation, 0, 4⟩ (.call none ⟨.name, 4, 1⟩ none none)] ⟨.name, 6, 1⟩

theorem brokenString_shaped : brokenString.parse.problems ≠ [] ∧
    (TreeNode.script brokenString.parse.module).Path 2 (.expression brokenInterpolation) ∧
      (TreeNode.expression brokenInterpolation).Shaped := by
  have tokens : brokenString.tokens = [⟨.interpolation, 0, 4⟩, ⟨.name, 4, 1⟩, ⟨.name, 6, 1⟩,
      ⟨.line, 7, 1⟩, ⟨.eof, 8, 0⟩] := by decide +kernel
  have last : brokenString.endToken = ⟨.eof, 8, 0⟩ := by decide +kernel
  have module : brokenString.parse.module = ⟨[.expression brokenInterpolation]⟩ := by
    rw [brokenString.parse_reel.1, reel, tokens, last]
    rfl
  have path : (TreeNode.script brokenString.parse.module).Path 2
      (.expression brokenInterpolation) := by
    rw [module]
    exact .further List.mem_cons_self (.further List.mem_cons_self .here)
  exact ⟨by decide +kernel, path, brokenString.nodes_shaped path⟩

end Source
end WrenFront
