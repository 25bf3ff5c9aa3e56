import WrenFront.Token
import WrenFront.Proofs.Grammar

/-! The shape of expressions: what may stand beside an operator, before the parts of a call, or in
the places of a conditional or an assignment, wherever the tokens came from. -/

namespace WrenFront.Expr

/-- A call, a subscript or a primary. -/
def isPostfix {τ : Type} : Expr τ → Bool
  | .assignment .. | .conditional .. | .infixOp .. | .prefixOp .. => false
  | _ => true

def isOperand {τ : Type} : Expr τ → Bool
  | .prefixOp .. => true
  | expression => expression.isPostfix

def isAssignment {τ : Type} : Expr τ → Bool
  | .assignment .. => true
  | _ => false

/-- An operand, or operands joined by an operator of that level or of a tighter one. -/
inductive BindsFrom (level : Nat) : Expr Token → Prop where
  | operand {expression} (shape : expression.isOperand = true) : BindsFrom level expression
  | infixOp {left operator right tighter operators} (tight : level ≤ tighter)
      (here : TokenKind.infixLevels[tighter]? = some operators)
      (joins : operator.kind ∈ operators) : BindsFrom level (.infixOp left operator right)

/-- The places next to a node's own tokens hold what binds tightly enough. What is asked of the
target of an assignment depends on whether the script has no problems. -/
def Ordered (clean : Prop) : Expr Token → Prop
  | .infixOp left operator right => ∃ level operators,
      TokenKind.infixLevels[level]? = some operators ∧ operator.kind ∈ operators ∧
        left.BindsFrom level ∧ right.BindsFrom (level + 1)
  | .prefixOp operator operand =>
    operator.kind ∈ [.minus, .bang, .tilde] ∧ operand.isOperand = true
  | .call receiver _ _ _ => ∀ expression ∈ receiver, expression.isPostfix = true
  | .subscript receiver _ _ _ => receiver.isPostfix = true
  | .conditional condition _ thenBranch _ _ =>
    condition.isAssignment = false ∧ condition.isConditional = false ∧
      thenBranch.isAssignment = false
  | .assignment target _ _ =>
    target.isAssignment = false ∧ (clean → target.isConditional = false)
  | _ => True

theorem isOperand_of_isPostfix {τ : Type} {expression : Expr τ}
    (shape : expression.isPostfix = true) : expression.isOperand = true := by
  cases expression <;> simp_all [isOperand, isPostfix]

theorem BindsFrom.looser {level tighter : Nat} {expression : Expr Token}
    (binds : expression.BindsFrom tighter) (loose : level ≤ tighter) :
    expression.BindsFrom level := by
  cases binds with
  | operand shape => exact .operand shape
  | infixOp tight here joins => exact .infixOp (Nat.le_trans loose tight) here joins

theorem BindsFrom.plain {level : Nat} {expression : Expr Token}
    (binds : expression.BindsFrom level) :
    expression.isAssignment = false ∧ expression.isConditional = false := by
  cases binds with
  | operand shape =>
    cases expression <;> simp_all [isOperand, isPostfix, isAssignment, isConditional]
  | infixOp => exact ⟨rfl, rfl⟩

end WrenFront.Expr
