import WrenFront.Proofs.TreeListing

/-! The shape of every node, and what a rule of the parser gives whatever the tokens are. A rule
goes on with a token that is not the required one, so what the tokens of a node are is only known
where nothing was reported; but no recovery makes a node of another shape. -/

namespace WrenFront

variable {τ : Type}

namespace Stmt

/-- A class, an import or a variable. -/
def isDefinition : Stmt τ → Bool
  | .classDef .. | .importDef .. | .varDef .. => true
  | _ => false

/-- What may be the one element of a body. -/
def isElement : Stmt τ → Bool
  | .expression .. | .returnValue .. | .breakLoop .. | .ifElse .. | .forIn .. | .whileDo .. => true
  | _ => false

end Stmt

/-- The segments of an interpolated string. -/
def InterpolationPart.strings (parts : List (InterpolationPart τ)) (last : τ) : List τ :=
  parts.map segment ++ [last]

/-- The expressions between the segments. -/
def InterpolationPart.expressions (parts : List (InterpolationPart τ)) : List (Expr τ) :=
  parts.map expression

def Expr.Shaped : Expr Token → Prop
  | .this token => token.kind = .kwThis
  | .bool token => token.kind = .kwTrue ∨ token.kind = .kwFalse
  | .number token => token.kind = .number
  | .string token => token.kind = .string
  | .field token => token.kind = .field
  | .staticField token => token.kind = .staticField
  | .call receiver name _ _ => receiver = none → name.kind = .name
  | .subscript _ _ arguments _ => arguments ≠ []
  | .interpolation parts last =>
    let strings := InterpolationPart.strings parts last
    let expressions := InterpolationPart.expressions parts
    strings.length = expressions.length + 1 ∧ 1 ≤ expressions.length ∧
      ∀ string ∈ strings.dropLast, string.kind = .interpolation
  | _ => True

def Stmt.Shaped : Stmt Token → Prop
  | .importDef _ _ imported => ∀ names ∈ imported, names ≠ []
  | .ifElse _ _ thenBranch elseBranch =>
    thenBranch.isDefinition = false ∧ ∀ statement ∈ elseBranch, statement.isDefinition = false
  | .forIn _ _ _ body | .whileDo _ _ body => body.isDefinition = false
  | _ => True

/-- The shape of a node, whatever is wrong with its script. -/
def TreeNode.Shaped : TreeNode Token → Prop
  | .script _ => True
  | .statement value => value.Shaped
  | .method (.mk foreign _ _ _ parameters body?) =>
    (body?.isSome ↔ foreign = none) ∧ ∀ content ∈ body?, content.parameters = parameters
  | .body (.single _ element) => element.isElement = true
  | .body (.sequence _ _) => True
  | .expression value => value.Shaped

def Expr.Spelled : Expr Token → Prop
  | .null token => token.kind = .kwNull
  | .infixOp _ operator _ => operator.kind.isInfixOperator
  | .prefixOp operator _ => operator.kind.isPrefixOperator
  | .call _ name _ _ => name.kind = .name
  | .superCall _ name _ _ => ∀ token ∈ name, token.kind = .name
  | .interpolation _ last => last.kind = .string
  | _ => True

/-- All the tokens are names. -/
def Token.Names (tokens : List Token) : Prop :=
  ∀ token ∈ tokens, token.kind = .name

def Stmt.Spelled : Stmt Token → Prop
  | .classDef _ _ name superclass _ => Token.Names (name :: superclass.toList)
  | .importDef _ path imported => path.kind = .string ∧ Token.Names (imported.getD [])
  | .varDef _ name _ | .forIn _ name _ _ => name.kind = .name
  | _ => True

/-- The tokens of a node in a script that has no problems, as far as its shape leaves them open. -/
def TreeNode.Spelled : TreeNode Token → Prop
  | .script _ => True
  | .statement value => value.Spelled
  | .method (.mk foreign static construct name parameters _) =>
    (∀ token ∈ foreign, token.kind = .kwForeign) ∧ (∀ token ∈ static, token.kind = .kwStatic) ∧
      (∀ token ∈ construct, token.kind = .kwConstruct) ∧ name.kind ∈ Grammar.signatureFronts ∧
        Token.Names (parameters.getD [])
  | .body content => Token.Names (content.parameters.getD [])
  | .expression value => value.Spelled

/-- A node and all the nodes in it have their shapes, and their tokens too if it is clean. -/
def TreeNode.Built (clean : Prop) (node : TreeNode Token) : Prop :=
  ∀ levels last, node.Path levels last → last.Shaped ∧ (clean → last.Spelled)

def Part.Built (clean : Prop) : Part Token → Prop
  | .token _ | .null _ => True
  | .node child | .nested child => child.Built clean

theorem TreeNode.Built.intro {clean : Prop} {node : TreeNode Token} (shaped : node.Shaped)
    (spelled : clean → node.Spelled) (parts : ∀ part ∈ node.parts, part.Built clean) :
    node.Built clean := by
  intro levels last path
  cases path with
  | here => exact ⟨shaped, spelled⟩
  | beside part rest => exact parts _ part _ _ rest
  | further part rest => exact parts _ part _ _ rest

namespace Part
variable {clean : Prop}

@[simp]
theorem built_token (token : Token) : (Part.token token).Built clean := trivial

@[simp]
theorem built_null (token : Token) : (Part.null token).Built clean := trivial

@[simp]
theorem built_node (child : TreeNode Token) :
    (Part.node child).Built clean ↔ child.Built clean := Iff.rfl

@[simp]
theorem built_nested (child : TreeNode Token) :
    (Part.nested child).Built clean ↔ child.Built clean := Iff.rfl

@[simp]
theorem built_statement (statement : Stmt Token) :
    (Part.statement statement).Built clean ↔ (TreeNode.statement statement).Built clean := by
  cases statement <;> exact Iff.rfl

@[simp]
theorem built_element (statement : Stmt Token) :
    (Part.element statement).Built clean ↔ (TreeNode.statement statement).Built clean := by
  cases statement <;> exact Iff.rfl

end Part

namespace Parse
variable {α β : Type} {clean : Prop} {post : β → Prop}

/-- What a program gives, where `clean` means that there are no problems in the end. -/
def Gives (clean : Prop) (program : Parse Reel Token α) (post : α → Prop) : Prop :=
  ∀ state : ParserState Reel Token, 0 < state.rounds →
    (clean → (program state).2.problems = []) → post (program state).1

/-- What a program gives that begins at a token of that kind. -/
def Facing (seen : TokenKind) (clean : Prop) (program : Parse Reel Token α) (post : α → Prop) :
    Prop :=
  ∀ state : ParserState Reel Token, (lookahead state).1.kind = seen → 0 < state.rounds →
    (clean → (program state).2.problems = []) → post (program state).1

section Gives
variable {program : Parse Reel Token α} {next : α → Parse Reel Token β} {middle : α → Prop}

theorem Gives.pure {value : β} (holds : post value) : Gives clean (Pure.pure value) post :=
  fun _ _ _ => holds

theorem Gives.any (program : Parse Reel Token α) : Gives clean program fun _ => True :=
  fun _ _ _ => trivial

theorem Gives.mono {weaker : α → Prop} (gives : Gives clean program middle)
    (implies : ∀ value, middle value → weaker value) : Gives clean program weaker :=
  fun state room ends => implies _ (gives state room ends)

theorem Gives.map {f : α → β} (gives : Gives clean program fun value => post (f value)) :
    Gives clean (f <$> program) post :=
  gives

theorem Gives.facing {seen : TokenKind} (gives : Gives clean program middle) :
    Facing seen clean program middle :=
  fun state _ => gives state

theorem Facing.gives (facing : ∀ seen, Facing seen clean program middle) :
    Gives clean program middle :=
  fun state => facing _ state rfl

/-- Problems are never withdrawn, so where there are none in the end there were none before. -/
theorem Facing.bind {seen : TokenKind} [Steps program] [∀ value, Steps (next value)]
    (first : Facing seen clean program middle)
    (rest : ∀ value, middle value → Gives clean (next value) post) :
    Facing seen clean (program >>= next) post := by
  intro state same room ends
  obtain ⟨_, begins⟩ := takes program state
  obtain ⟨_, goesOn⟩ := takes (next (program state).1) (program state).2
  have holds := first state same room fun holds =>
    List.prefix_nil.1 (ends holds ▸ goesOn.problems)
  exact rest _ holds _ (begins.rounds ▸ room) ends

theorem Gives.bind [Steps program] [∀ value, Steps (next value)]
    (first : Gives clean program middle)
    (rest : ∀ value, middle value → Gives clean (next value) post) :
    Gives clean (program >>= next) post :=
  Facing.gives fun _ => first.facing.bind rest

/-- A program whose value does not matter. -/
theorem Gives.after [Steps program] [∀ value, Steps (next value)]
    (rest : ∀ value, Gives clean (next value) post) : Gives clean (program >>= next) post :=
  .bind (.any program) fun value _ => rest value

theorem Gives.deeper {rule : Parse Reel Token β} (gives : Gives clean rule post) :
    Gives clean (deeper rule) post :=
  fun _ room ends => gives _ room ends

theorem Facing.deeper {seen : TokenKind} {rule : Parse Reel Token β}
    (facing : Facing seen clean rule post) : Facing seen clean (Parse.deeper rule) post := by
  intro state same room ends
  refine facing _ ?_ room ends
  rw [← same]
  unfold lookahead
  cases state.current <;> rfl

end Gives

section Tokens
variable {seen kind : TokenKind}

theorem Facing.peeked {next : TokenKind → Parse Reel Token β}
    (rest : Facing seen clean (next seen) post) : Facing seen clean (peek >>= next) post := by
  intro state same room ends
  subst same
  refine rest (lookahead state).2 ?_ ((lookahead_takes state).1.rounds ▸ room) ends
  rw [lookahead_again]

theorem Gives.peeked {next : TokenKind → Parse Reel Token β}
    (rest : ∀ seen, Facing seen clean (next seen) post) : Gives clean (peek >>= next) post :=
  Facing.gives fun seen => .peeked (rest seen)

theorem Facing.advanced {next : Token → Parse Reel Token β}
    (rest : ∀ token, token.kind = seen → Gives clean (next token) post) :
    Facing seen clean (advance >>= next) post := by
  intro state same room ends
  exact rest _ same _ (Nat.lt_of_lt_of_eq room (advance_takes state).rounds.symm) ends

theorem Facing.found {next : Option Token → Parse Reel Token β}
    (missing : seen ≠ kind → Facing seen clean (next none) post)
    (found : ∀ token, token.kind = kind → seen = kind → Gives clean (next (some token)) post) :
    Facing seen clean (accept? kind >>= next) post := by
  intro state same room ends
  subst same
  rw [bind_apply, accept?_apply] at ends ⊢
  split at ends
  · next same =>
    rw [if_pos same]
    exact found _ same same _ ((advance_takes state).rounds ▸ room) ends
  · next other =>
    rw [if_neg other]
    refine missing other _ ?_ ((lookahead_takes state).1.rounds ▸ room) ends
    rw [lookahead_again]

theorem Gives.found {next : Option Token → Parse Reel Token β}
    (missing : Gives clean (next none) post)
    (found : ∀ token, token.kind = kind → Gives clean (next (some token)) post) :
    Gives clean (accept? kind >>= next) post :=
  Facing.gives fun _ => .found (fun _ => missing.facing) fun token same _ => found token same

theorem Gives.foundAny {kinds : List TokenKind} {next : Option Token → Parse Reel Token β}
    (missing : Gives clean (next none) post)
    (found : ∀ token, token.kind ∈ kinds → Gives clean (next (some token)) post) :
    Gives clean (acceptAny? kinds >>= next) post := by
  intro state room ends
  rw [bind_apply, acceptAny?_apply] at ends ⊢
  split at ends
  · next listed =>
    rw [if_pos listed]
    exact found _ (List.contains_iff_mem.1 listed) _ ((advance_takes state).rounds ▸ room) ends
  · next other =>
    rw [if_neg other]
    exact missing _ ((lookahead_takes state).1.rounds ▸ room) ends

theorem Gives.accepted {found missing : Parse Reel Token β} (taken : Gives clean found post)
    (otherwise : Gives clean missing post) :
    Gives clean (accept kind >>= fun accepted => if accepted then found else missing) post := by
  have same : Gives clean (accept? kind >>= fun token => if token.isSome then found else missing)
      post := .found otherwise fun _ _ => taken
  exact same

/-- A token that may be left out is of its kind if it is there. -/
theorem accept?_gives : Gives clean (accept? kind) fun found => ∀ token ∈ found,
    token.kind = kind := by
  have same : Gives clean (accept? kind >>= Pure.pure) fun found => ∀ token ∈ found,
      token.kind = kind :=
    .found (.pure (by simp)) fun token same => .pure (by simpa using same)
  exact same

/-- A token that is not the required one is never taken without a problem. -/
theorem expect_gives {what : String} :
    Gives clean (expect kind what) fun token => clean → token.kind = kind := by
  intro state _ ends holds
  have none := ends holds
  rw [expect_apply] at none ⊢
  split
  · next same => exact same
  · next other =>
    rw [if_neg other] at none
    simp [ParserState.noting] at none

theorem Gives.complaining {complaint : Complaint} {next : Unit → Parse Reel Token β}
    [∀ value, Steps (next value)] (rest : ¬ clean → Gives clean (next ⟨⟩) post) :
    Gives clean (complain complaint >>= next) post := by
  have reported : Gives clean (complain complaint) fun _ => ¬ clean := by
    intro state _ ends holds
    obtain ⟨token, added⟩ := complain_problems complaint state
    rw [ends holds] at added
    simp at added
  exact .bind reported fun _ unclean => rest unclean

section Items
variable {item : α → Prop}

/-- What a loop does after a round, by how the round ended. -/
theorem Steps.goesOn {round : Parse Reel Token (Round α)} (steps : Steps round) (count : Nat)
    (ending : Round α) : Steps (match ending with
      | .stop => (Pure.pure [] : Parse Reel Token (List α))
      | .last value => Pure.pure [value]
      | .more value => round.collect count >>= fun values => Pure.pure (value :: values)) := by
  have further := steps.collect count
  cases ending <;> dsimp only <;> infer_instance

theorem Gives.loop {round : Parse Reel Token (Round α)} [steps : Steps round]
    (rounds : Gives clean round fun ending => ∀ value ∈ ending.toList, item value) :
    Gives clean (loop round) fun values => ∀ value ∈ values, item value := by
  have collects (count : Nat) :
      Gives clean (collect round count) fun values => ∀ value ∈ values, item value := by
    induction count with
    | zero => exact .pure (by simp)
    | succ count ih =>
      have further := steps.collect count
      have goesOn := steps.goesOn count
      refine .bind rounds fun ending holds => ?_
      cases ending with
      | stop => exact .pure (by simp)
      | last value => exact .pure (by simpa [Round.toList] using holds)
      | more value =>
        refine .bind ih fun values others => .pure ?_
        simpa [Round.toList] using ⟨by simpa [Round.toList] using holds, others⟩
  exact fun state => collects state.rounds state

/-- A loop gives something if its first round does. -/
theorem loop_ne_nil {round : Parse Reel Token (Round α)} {state : ParserState Reel Token}
    (room : 0 < state.rounds) (some : (round state).1.toList ≠ []) : (loop round state).1 ≠ [] := by
  obtain ⟨rounds, enough⟩ : ∃ rounds, state.rounds = rounds + 1 := ⟨state.rounds - 1, by omega⟩
  simp only [Parse.loop, bind_apply, get_apply, enough, collect]
  cases ending : (round state).1 with
  | stop => simp [ending, Round.toList] at some
  | last value => exact List.cons_ne_nil _ _
  | more value => exact List.cons_ne_nil _ _

theorem separatedRound_ne_nil (item : Parse Reel Token α) (state : ParserState Reel Token) :
    (separatedRound item state).1.toList ≠ [] := by
  simp only [separatedRound, bind_apply]
  split <;> exact List.cons_ne_nil _ _

theorem separated_gives {value : Parse Reel Token α} [Steps value]
    (gives : Gives clean value item) :
    Gives clean (separated value) fun values => values ≠ [] ∧ ∀ value ∈ values, item value := by
  have round : Gives clean (separatedRound value) fun ending =>
      ∀ value ∈ ending.toList, item value := by
    refine .bind gives fun value holds => .accepted (.after fun _ => .pure ?_) (.pure ?_)
    · simpa [Round.toList] using holds
    · simpa [Round.toList] using holds
  exact fun state room ends =>
    ⟨loop_ne_nil room (separatedRound_ne_nil value state), round.loop state room ends⟩

theorem elements_gives {closing : TokenKind} {value : Parse Reel Token α} [Steps value]
    (gives : Gives clean value item) :
    Gives clean (elements closing value) fun values => ∀ value ∈ values, item value := by
  refine .after fun _ => Gives.loop (.after fun seen => ?_)
  split
  · exact .pure (by simp [Round.toList])
  · refine .bind gives fun value holds => .after fun _ => .accepted (.after fun _ => .pure ?_)
      (.pure ?_)
    · simpa [Round.toList] using holds
    · simpa [Round.toList] using holds

end Items

/-- One name or more, if nothing was reported. -/
theorem names_give {what : String} :
    Gives clean (separated (expect .name what)) fun names =>
      names ≠ [] ∧ (clean → Token.Names names) :=
  (separated_gives expect_gives).mono fun _ holds =>
    ⟨holds.1, fun isClean token member => holds.2 token member isClean⟩

end Tokens
end Parse
end WrenFront
