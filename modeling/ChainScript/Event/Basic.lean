/-! # Events

A script line is an event: a token, or a sequence of events. Handlers look at the `elements` of an
event, where a bare token counts as a sequence of one. `Event.size` is the measure by which the
resolution of nested events ends.
-/

namespace ChainScript
set_option autoImplicit false

inductive Event where
  | token (text : String)
  | seq (items : List Event)
  deriving Inhabited

namespace Event

/-! ## Equality -/

mutual

/-- Structural equality is decided token by token. -/
def decEq : (a b : Event) → Decidable (a = b)
  | .token s, .token t =>
    if h : s = t then isTrue (h ▸ rfl) else isFalse fun e => h (Event.token.inj e)
  | .token _, .seq _ => isFalse fun e => Event.noConfusion e
  | .seq _, .token _ => isFalse fun e => Event.noConfusion e
  | .seq xs, .seq ys =>
    match decEqList xs ys with
    | isTrue h => isTrue (h ▸ rfl)
    | isFalse h => isFalse fun e => h (Event.seq.inj e)

def decEqList : (xs ys : List Event) → Decidable (xs = ys)
  | [], [] => isTrue rfl
  | [], _ :: _ => isFalse fun e => List.noConfusion rfl (heq_of_eq e)
  | _ :: _, [] => isFalse fun e => List.noConfusion rfl (heq_of_eq e)
  | x :: xs, y :: ys =>
    match decEq x y with
    | isFalse h => isFalse fun e => h (List.cons.inj e).1
    | isTrue h =>
      match decEqList xs ys with
      | isTrue h' => isTrue (h ▸ h' ▸ rfl)
      | isFalse h' => isFalse fun e => h' (List.cons.inj e).2

end

instance : DecidableEq Event := decEq

/-! ## Views -/

def isToken : Event → Bool
  | .token _ => true
  | .seq _ => false

def asToken? : Event → Option String
  | .token text => some text
  | .seq _ => none

def asSeq? : Event → Option (List Event)
  | .token _ => none
  | .seq items => some items

/-- The positional view: a bare token is a sequence of itself. -/
def elements : Event → List Event
  | .token text => [.token text]
  | .seq items => items

/-- The token that names an event: the token itself, or the first element when that is a token. -/
def head? : Event → Option String
  | .token text => some text
  | .seq [] => none
  | .seq (e :: _) => e.asToken?

def isEmpty : Event → Bool
  | .token _ => false
  | .seq items => items.isEmpty

/-! ## Size -/

mutual

/-- Tokens and sequences in an event, itself included. -/
def size : Event → Nat
  | .token _ => 1
  | .seq items => 1 + sizeList items

def sizeList : List Event → Nat
  | [] => 0
  | e :: es => e.size + sizeList es

end

end Event

end ChainScript
