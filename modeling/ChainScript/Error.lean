import ChainScript.Chain.Call
import ChainScript.Event.Parser
import ChainScript.Value.Compare

/-! # Errors

Every failure is one of seven causes, each with a message and a code. Errors of comparison, of the
chain and of an assertion are fatal: they end a resolution. All others let the search for a handler
go on to the next candidate.
-/

namespace ChainScript
set_option autoImplicit false

/-! ## Invalid values -/

/-- Why a value cannot be had. -/
inductive Fault where
  | notANumber (text : String)
  | notABoolean (text : String)
  | notAnAddress (text : String) (cause : Address.Fault)
  | unknownAddress (name : String)
  | notALiteral (event : Event)
  | unexpectedKind (expected : Kind) (event : Event) (found : Value)
  | divisionByZero (dividend : Number)
  | badPrecision (precision : Number)
  | unknownAccount (name : String)
  | unsetVariable (key : String)
  | nothingDeployed
  | unboundArgument (name : String)
  | argumentKind (name : String) (found expected : Kind)
  | badAlias (name : String) (text : String) (cause : Address.Fault)
  | noContractAddress (name : String)
  | selfReference (event : Event)
  | refused (reason : String)

namespace Fault

def addressMessage (text : String) (cause : Address.Fault) : String :=
  "`" ++ text ++ "` is not an address: " ++ cause.message

def message : Fault → String
  | .notANumber text => "`" ++ text ++ "` is not a number"
  | .notABoolean text => "`" ++ text ++ "` is not a boolean"
  | .notAnAddress text cause => addressMessage text cause
  | .unknownAddress name => "unknown address `" ++ name ++ "`"
  | .notALiteral event => "`" ++ event.display ++ "` is not a literal"
  | .unexpectedKind expected event found =>
    "expected " ++ expected.name ++ " from `" ++ event.display ++ "`, found " ++ found.kind.name ++
      " `" ++ found.display ++ "`"
  | .divisionByZero dividend => "cannot divide " ++ dividend.display ++ " by zero"
  | .badPrecision precision =>
    "precision `" ++ precision.display ++ "` must be a positive integer"
  | .unknownAccount name => "unknown account `" ++ name ++ "`"
  | .unsetVariable key => "variable `" ++ key ++ "` is not set"
  | .nothingDeployed => "no contract has been deployed"
  | .unboundArgument name => "argument `" ++ name ++ "` was not bound"
  | .argumentKind name found expected =>
    "argument `" ++ name ++ "` is " ++ found.name ++ ", expected " ++ expected.name
  | .badAlias name text cause => "alias `" ++ name ++ "`: " ++ addressMessage text cause
  | .noContractAddress name => "deploy of `" ++ name ++ "` returned no contract address"
  | .selfReference event => "`" ++ event.display ++ "` resolves through itself"
  | .refused reason => reason

end Fault

/-! ## Failed assertions -/

/-- How an assertion failed. -/
inductive Assertion where
  | unequal (expected actual : Value)
  | misordered (left right : Value) (wanted : Ordering)
  | untruth (value : Value) (wanted : Bool)
  | nothingReverted
  | otherReason (wanted reason : String)
  | otherFailure (found : TransportError)
  | noRevert (target method : String)
  | noSuccess (target method : String) (found : TransportError)
  | nothingInvoked
  | stated (reason : String)

namespace Assertion

def orderWord : Ordering → String
  | .lt => "less than"
  | .eq => "equal to"
  | .gt => "greater than"

def message : Assertion → String
  | .unequal expected actual =>
    "expected " ++ expected.display ++ " (" ++ expected.kind.name ++ "), got " ++ actual.display ++
      " (" ++ actual.kind.name ++ ")"
  | .misordered left right wanted =>
    "expected " ++ left.display ++ " to be " ++ orderWord wanted ++ " " ++ right.display
  | .untruth value wanted =>
    "expected " ++ value.display ++ " to be " ++ (if wanted then "true" else "false")
  | .nothingReverted => "expected a revert, but nothing was invoked"
  | .otherReason wanted reason => "expected revert `" ++ wanted ++ "`, got `" ++ reason ++ "`"
  | .otherFailure found => "expected a revert, got " ++ found.message
  | .noRevert target method =>
    "expected " ++ target ++ "." ++ method ++ " to revert, but it succeeded"
  | .noSuccess target method found =>
    "expected " ++ target ++ "." ++ method ++ " to succeed, got " ++ found.message
  | .nothingInvoked => "expected a successful invocation, but nothing was invoked"
  | .stated reason => reason

end Assertion

/-! ## Errors -/

/-- A handler that was tried and why it was given up. -/
structure Attempt where
  handler : String
  reason : String
  deriving DecidableEq, Inhabited

inductive Error where
  | noMatch (kind : String) (event : Event) (attempted : List Attempt)
  | incomparable (kinds : Mismatch)
  | unordered (kinds : Mismatch)
  | transport (cause : TransportError)
  | assertion (cause : Assertion)
  | invalid (cause : Fault)
  | parse (cause : ParseError)

namespace Error

instance : Inhabited Error := ⟨.invalid .nothingDeployed⟩

def attemptText (a : Attempt) : String := a.handler ++ ": " ++ a.reason

/-- The handlers that were tried, in order. -/
def attemptsText (attempted : List Attempt) : String :=
  if attempted.isEmpty then "none" else "; ".intercalate (attempted.map attemptText)

def message : Error → String
  | .noMatch _ event attempted =>
    "no handler matched `" ++ event.head?.getD "" ++ "` for `" ++ event.display ++
      "` (attempted: " ++ attemptsText attempted ++ ")"
  | .incomparable kinds =>
    "cannot compare `" ++ kinds.left.name ++ "` to `" ++ kinds.right.name ++ "`"
  | .unordered kinds =>
    "cannot order `" ++ kinds.left.name ++ "` against `" ++ kinds.right.name ++ "`"
  | .transport cause => cause.message
  | .assertion cause => "assertion failed: " ++ cause.message
  | .invalid cause => cause.message
  | .parse cause => cause.message

/-- A stable code for each class of errors. -/
def code : Error → String
  | .parse _ => "E001"
  | .noMatch _ _ _ => "E002"
  | .incomparable _ => "E003"
  | .unordered _ => "E003"
  | .transport _ => "E005"
  | .assertion _ => "E006"
  | .invalid _ => "E007"

/-- Whether an error ends the whole resolution. -/
def isFatal : Error → Bool
  | .incomparable _ => true
  | .unordered _ => true
  | .transport _ => true
  | .assertion _ => true
  | .noMatch _ _ _ => false
  | .invalid _ => false
  | .parse _ => false

end Error

end ChainScript
