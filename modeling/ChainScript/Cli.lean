import ChainScript.Chain.Memory
import ChainScript.Prompt
import ChainScript.Settings.Parser

/-! # The command line

Three commands work on a chain in memory: `run` executes a script, `eval` resolves one expression
and `repl` opens a prompt. What they write and how they exit is a function of the files and the
input they are given, so the outer program only reads and writes.
-/

namespace ChainScript.Cli
set_option autoImplicit false

/-! ## Requests -/

inductive Command where
  | run (script : String) (seed : Option UInt64)
  | eval (expr : String)
  | repl
  deriving Inhabited

/-- The arguments: a command, the settings file that is asked for, and how much to log. -/
structure Request where
  command : Command
  config : Option String := none
  verbosity : Nat := 0
  deriving Inhabited

/-- What is read from outside: the contents of the settings file asked for, of the user's settings
file and of the script, where these exist. -/
structure Files where
  config : Option String := none
  userConfig : Option String := none
  script : Option String := none
  deriving Inhabited

/-- What a command writes and the status with which it exits. -/
structure Result where
  exit : UInt32
  stdout : String := ""
  stderr : String := ""
  deriving Inhabited

/-! ## Failures -/

inductive Failure where
  | missingConfig (path : String)
  | badConfig (path : String)
  | missingScript (path : String)
  | error (cause : Error)

def noSuchFile : String := "No such file or directory (os error 2)"

def causedBy (message cause : String) : String :=
  message ++ "\n\nCaused by:\n    " ++ cause

def Failure.message : Failure → String
  | .missingConfig path =>
    causedBy ("failed to read config file " ++ path ++ ": " ++ noSuchFile) noSuchFile
  | .badConfig path => "invalid config file " ++ path
  | .missingScript path => causedBy ("failed to read " ++ path) noSuchFile
  | .error cause => cause.message

/-- A command that fails writes its error and exits with 1. -/
def Result.ofFailure (f : Failure) : Result where
  exit := 1
  stderr := "Error: " ++ f.message ++ "\n"

/-! ## Commands -/

/-- Where the user's settings are kept, below the user's directory of settings. -/
def userConfigName : String := "scenario/config.toml"

def readSettings (path text : String) : Except Failure Settings :=
  match Settings.parse? text with
  | some settings => .ok settings
  | none => .error (.badConfig path)

/-- The settings: from the file asked for, else from the user's file, else the defaults. -/
def settings (config : Option String) (files : Files) : Except Failure Settings :=
  match config, files.config, files.userConfig with
  | some path, some text, _ => readSettings path text
  | some path, none, _ => .error (.missingConfig path)
  | none, _, some text => readSettings userConfigName text
  | none, _, none => .ok {}

/-- A new chain and a world on it. -/
def start (s : Settings) : Except Failure (World × MemoryChain) :=
  let chain := MemoryChain.new s.chainSeed s.accounts.length
  match World.new chain.accounts s with
  | .ok w => .ok (w, chain)
  | .error cause => .error (.error cause)

/-- What a finished run writes: the output if the settings ask for it, and the failure or the number
of lines. -/
def report (path : String) (printValues : Bool) (o : RunOutcome) : Result :=
  let printed := if printValues then Prompt.textOfLines o.world.output else ""
  match o.failure with
  | some f => { exit := 1, stdout := printed, stderr := path ++ ": " ++ f.message ++ "\n" }
  | none => { exit := 0, stdout := printed ++ toString o.executed ++ " line(s) executed\n" }

/-- Execute a script. -/
def runScript (path : String) (seed : Option UInt64) (s : Settings) (script : Option String) :
    Except Failure Result :=
  match script with
  | none => .error (.missingScript path)
  | some source => do
    let (w, chain) ← start { s with chainSeed := seed.getD s.chainSeed }
    return report path s.printValues ((Script.run w source).run MemoryChain.answer chain).1

/-- Resolve one expression. -/
def evalExpr (expr : String) (s : Settings) : Except Failure Result := do
  let (w, chain) ← start s
  match ((w.evalLine expr).run.run MemoryChain.answer chain).1 with
  | .ok v => return { exit := 0, stdout := v.display ++ "\n" }
  | .error cause => .error (.error cause)

/-- A prompt over an input text. -/
def repl (input : String) (s : Settings) : Except Failure Result := do
  let (w, chain) ← start s
  return { exit := 0, stdout := ((Prompt.run w input).run MemoryChain.answer chain).1.1 }

/-- Carry out a request; `input` is read by the prompt only. -/
def execute (request : Request) (files : Files) (input : String) : Result :=
  let outcome : Except Failure Result := do
    let s ← settings request.config files
    match request.command with
    | .run path seed => runScript path seed s files.script
    | .eval expr => evalExpr expr s
    | .repl => repl input s
  match outcome with
  | .ok result => result
  | .error f => .ofFailure f

/-! ## Arguments -/

/-- The arguments of a command line, taken apart: options, and the other words in order. -/
structure Words where
  config : Option String := none
  seed : Option String := none
  verbosity : Nat := 0
  plain : List String := []

/-- The number of `v` in a word such as `-vv`. -/
def verboseCount? (word : String) : Option Nat :=
  match word.toList with
  | '-' :: 'v' :: rest => if rest.all (· == 'v') then some (rest.length + 1) else none
  | _ => none

/-- Takes apart the arguments of a command line. Behind `--` every word is plain. -/
def splitWords : List String → Words → Option Words
  | [], words => some words
  | "--" :: rest, words => some { words with plain := words.plain ++ rest }
  | "--config" :: path :: rest, words => splitWords rest { words with config := some path }
  | "--seed" :: n :: rest, words => splitWords rest { words with seed := some n }
  | "--verbose" :: rest, words => splitWords rest { words with verbosity := words.verbosity + 1 }
  | word :: rest, words =>
    match verboseCount? word with
    | some n => splitWords rest { words with verbosity := words.verbosity + n }
    | none =>
      if word.toList.head? = some '-' then none
      else splitWords rest { words with plain := words.plain ++ [word] }

/-- An unsigned integer of 64 bits. -/
def seed? (text : String) : Option UInt64 :=
  let digits := text.toList
  if digits.isEmpty || !digits.all Text.isDigit then none
  else
    let n := Text.digitsValue digits
    if n < UInt64.size then some n.toUInt64 else none

/-- The request that the arguments make, if they make one. -/
def parseArgs? (args : List String) : Option Request :=
  match splitWords args {} with
  | none => none
  | some words =>
    let request (c : Command) : Request := ⟨c, words.config, words.verbosity⟩
    match words.plain, words.seed with
    | ["run", script], none => some (request (.run script none))
    | ["run", script], some n => (seed? n).map fun seed => request (.run script (some seed))
    | ["eval", expr], none => some (request (.eval expr))
    | ["repl"], none => some (request .repl)
    | _, _ => none

def usage : String :=
  "usage: [--config FILE] [-v] run SCRIPT [--seed N] | eval [--] EXPR | repl\n"

end ChainScript.Cli
