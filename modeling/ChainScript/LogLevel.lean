/-! # Log levels

How much is logged, by how often the command line asks for more.
-/

namespace ChainScript
set_option autoImplicit false

inductive LogLevel where
  | warn
  | info
  | debug
  | trace
  deriving DecidableEq, Inhabited

namespace LogLevel

def ofVerbosity : Nat → LogLevel
  | 0 => .warn
  | 1 => .info
  | 2 => .debug
  | _ => .trace

def name : LogLevel → String
  | .warn => "WARN"
  | .info => "INFO"
  | .debug => "DEBUG"
  | .trace => "TRACE"

end LogLevel

end ChainScript
