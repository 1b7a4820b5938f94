import ChainScript.Event.Basic
import ChainScript.Text.Case
import ChainScript.Value.Basic

/-! # Handlers

A handler describes what it takes and does: a name, or none for a catch-all; parameters; and either
an effect or a group of handlers that share the front of their events. `ρ` is the type of readings,
the ways in which an element becomes a value, and `ε` the type of effects. Both are data: how they
are carried out is decided where a handler is used.
-/

namespace ChainScript
set_option autoImplicit false

/-! ## Parameters -/

/-- Where the value of a parameter comes from: an element of the event, or a slot of the context. -/
inductive Source (ρ : Type) where
  | element (reading : ρ)
  | slot (name : String)

/-- A parameter of a handler. A variadic one takes all elements left, as one sequence or, when it is
mapped, one by one. -/
structure Param (ρ : Type) where
  name : String
  source : Source ρ
  variadic : Bool := false
  mapped : Bool := false
  fallback : Option Value := none
  nullable : Bool := false

namespace Param

variable {ρ : Type}

/-- A parameter read from one element. -/
def one (name : String) (reading : ρ) : Param ρ :=
  { name := name, source := .element reading }

/-- A parameter that takes each of the elements left. -/
def each (name : String) (reading : ρ) : Param ρ :=
  { name := name, source := .element reading, variadic := true, mapped := true }

/-- A parameter that may be missing. -/
def optional (name : String) (reading : ρ) : Param ρ :=
  { name := name, source := .element reading, nullable := true }

def isImplicit (p : Param ρ) : Bool :=
  match p.source with
  | .slot _ => true
  | .element _ => false

/-- The parameter in a usage line: `<amount>`, `[reason]`, `<args>...`. -/
def usage (p : Param ρ) : String :=
  let body := if p.fallback.isSome || p.nullable then "[" ++ p.name ++ "]" else "<" ++ p.name ++ ">"
  if p.variadic then body ++ "..." else body

end Param

/-! ## Handlers -/

/-- What a handler shows of itself. The label is the name of a named handler. -/
structure Signature (ρ : Type) where
  name : Option String
  label : String
  params : List (Param ρ)
  description : Option String := none
  namePosition : Nat := 0

namespace Signature

variable {ρ : Type}

def isCatchAll (s : Signature ρ) : Bool := s.name.isNone

/-- Whether the element at the name position is the name, letter case aside. -/
def isNamedIn (s : Signature ρ) (elements : List Event) : Bool :=
  match s.name, elements[s.namePosition]? with
  | some name, some (.token text) => Text.sameLetters name text
  | _, _ => false

/-- The elements left for the parameters once the name is taken out. -/
def remaining (s : Signature ρ) (elements : List Event) : List Event :=
  if s.isCatchAll then elements else elements.eraseIdx s.namePosition

end Signature

inductive Handler (ρ ε : Type) where
  | leaf (signature : Signature ρ) (effect : ε)
  | group (signature : Signature ρ) (members : List (Handler ρ ε))

namespace Handler

variable {ρ ε : Type}

def signature : Handler ρ ε → Signature ρ
  | .leaf s _ => s
  | .group s _ => s

def members? : Handler ρ ε → Option (List (Handler ρ ε))
  | .leaf _ _ => none
  | .group _ members => some members

def label (h : Handler ρ ε) : String := h.signature.label

def description (h : Handler ρ ε) : Option String := h.signature.description

/-- A handler with a name and an effect. -/
def named (name : String) (params : List (Param ρ)) (effect : ε) (description : String) :
    Handler ρ ε :=
  .leaf { name := some name, label := name, params := params, description := some description }
    effect

/-- A handler without a name, tried after every named one. -/
def catchAll (label : String) (params : List (Param ρ)) (effect : ε) (description : String) :
    Handler ρ ε :=
  .leaf { name := none, label := label, params := params, description := some description }
    effect

/-- A group of handlers behind a name. -/
def namespaced (name : String) (members : List (Handler ρ ε)) (description : Option String) :
    Handler ρ ε :=
  .group { name := some name, label := name, params := [], description := description } members

/-- The usage line of a handler: its name, its parameters, and dots for a group. -/
def usage (h : Handler ρ ε) : String :=
  let params := (h.signature.params.filter fun p => !p.isImplicit).map Param.usage
  let more := if h.members?.isSome then ["..."] else []
  " ".intercalate (h.signature.name.toList ++ params ++ more)

end Handler

end ChainScript
