/-! What the grammar can find wrong, and where. -/

namespace WrenFront

inductive Complaint where
  /-- Another token stood where one was required; `what` names the required one and its place. -/
  | expected (what : String)
  | missingExpression
  | nestedTooDeeply
  | parametersNotAllowed
  deriving DecidableEq, Repr

namespace Complaint

def message : Complaint → String
  | .expected what => s!"Expect {what}."
  | .missingExpression => "Expect expression."
  | .nestedTooDeeply => "Expression nested too deeply."
  | .parametersNotAllowed => "A parameter list is not allowed for this method."

end Complaint

structure Problem (τ : Type) where
  complaint : Complaint
  token : τ
  deriving DecidableEq, Repr

namespace Problem

def message {τ : Type} (problem : Problem τ) : String :=
  problem.complaint.message

end Problem

end WrenFront
