import WrenFront.Token.Kind

/-! Where a parser takes its tokens from. A feed never runs dry: past the last token it goes on
giving an end token. -/

namespace WrenFront

class Feed (σ : Type) (τ : outParam Type) where
  next : σ → τ × σ
  kind : τ → TokenKind
  /-- A bound on how many tokens are left before the end. -/
  unread : σ → Nat

end WrenFront
