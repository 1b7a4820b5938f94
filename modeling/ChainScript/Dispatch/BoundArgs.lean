import ChainScript.Error

/-! # Bound arguments

The values bound to the parameters of a handler, in the order in which they were first bound.
Binding a name again replaces its value in place. `BoundArgs.prepend` puts the arguments of an
enclosing handler in front; a name bound inside hides the same name outside.
-/

namespace ChainScript
set_option autoImplicit false

structure BoundArgs where
  entries : List (String × Value) := []
  deriving Inhabited

namespace BoundArgs

/-- Entries with `value` under `name`, in place or at the end. -/
def insertEntry (name : String) (value : Value) : List (String × Value) → List (String × Value)
  | [] => [(name, value)]
  | (k, v) :: rest =>
    if k = name then (k, value) :: rest else (k, v) :: insertEntry name value rest

def insert (args : BoundArgs) (name : String) (value : Value) : BoundArgs :=
  ⟨insertEntry name value args.entries⟩

def get? (args : BoundArgs) (name : String) : Option Value :=
  args.entries.lookup name

/-- The arguments with those of an enclosing handler in front. -/
def prepend (args outer : BoundArgs) : BoundArgs :=
  ⟨outer.entries.filter (fun entry => (args.get? entry.1).isNone) ++ args.entries⟩

/-! ## Accessors -/

def value (args : BoundArgs) (name : String) : Except Error Value :=
  match args.get? name with
  | some v => .ok v
  | none => .error (.invalid (.unboundArgument name))

/-- The argument in a view that only values of one kind have. -/
def view {α : Type} (args : BoundArgs) (name : String) (as? : Value → Option α) (expected : Kind) :
    Except Error α := do
  let v ← args.value name
  match as? v with
  | some a => .ok a
  | none => .error (.invalid (.argumentKind name v.kind expected))

def number (args : BoundArgs) (name : String) : Except Error Number :=
  args.view name Value.asNumber? .number

def string (args : BoundArgs) (name : String) : Except Error String :=
  args.view name Value.asString? .string

def address (args : BoundArgs) (name : String) : Except Error Address :=
  args.view name Value.asAddress? .address

def boolean (args : BoundArgs) (name : String) : Except Error Bool :=
  args.view name Value.asBool? .bool

def event (args : BoundArgs) (name : String) : Except Error Event :=
  args.view name Value.asEvent? .event

def list (args : BoundArgs) (name : String) : Except Error (List Value) :=
  args.view name Value.asList? .list

end BoundArgs

end ChainScript
