import WrenFront.Parser.State
import WrenFront.Tree

/-! The constructs that may hold each other, one level further in. A grammar rule never calls a
rule of its own level through one of these, so the limit on nesting is what ends the recursion. -/

namespace WrenFront

structure Nested (σ τ : Type) where
  expression : Parse σ τ (Expr τ)
  conditional : Parse σ τ (Expr τ)
  operand : Parse σ τ (Expr τ)
  statement : Parse σ τ (Stmt τ)
  /-- A class after its keywords. -/
  classTail : Option τ → τ → Parse σ τ (Stmt τ)

variable {σ τ α : Type} [Feed σ τ]

/-- Runs a rule one level further in. -/
def Parse.deeper (rule : Parse σ τ α) : Parse σ τ α := do
  modify fun state => { state with depth := state.depth + 1 }
  let result ← rule
  modify fun state => { state with depth := state.depth - 1 }
  return result

/-- Complains about the lookahead and leaves it, standing in for an expression. -/
def Parse.refuse : Parse σ τ (Expr τ) := do
  let token ← lookahead
  complain .nestedTooDeeply
  return .null token

/-- What is left when no further level is allowed. -/
def Nested.refused : Nested σ τ where
  expression := Parse.refuse
  conditional := Parse.refuse
  operand := Parse.refuse
  statement := .expression <$> Parse.refuse
  classTail _ _ := .expression <$> Parse.refuse

def Nested.limit : Nat := 64

end WrenFront
