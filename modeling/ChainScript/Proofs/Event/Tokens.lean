import ChainScript.Event.Basic

/-! # Tokens of an event -/

namespace ChainScript.Event
set_option autoImplicit false

mutual

/-- The tokens of an event, from left to right. -/
def tokens : Event → List String
  | .token text => [text]
  | .seq es => tokensAll es

def tokensAll : List Event → List String
  | [] => []
  | e :: es => e.tokens ++ tokensAll es

end

theorem mem_tokensAll {es : List Event} {text : String} :
    text ∈ tokensAll es ↔ ∃ e ∈ es, text ∈ e.tokens := by
  induction es with
  | nil => simp [tokensAll]
  | cons e es ih => simp [tokensAll, ih]

end ChainScript.Event
