import ChainScript.Cli
import ChainScript.LogLevel

/-! # The program

Reads the files that a request names and the input, and writes the result. The prompt is answered
line by line.
-/

namespace ChainScript.Outer
set_option autoImplicit false

/-- The content of a file, if it can be read. -/
def contentOf (path : String) : IO (Option String) := do
  try
    return some (← IO.FS.readFile path)
  catch _ =>
    return none

/-- The user's settings file, where there is a directory for settings. -/
def userConfigPath : IO (Option String) := do
  match ← IO.getEnv "XDG_CONFIG_HOME", ← IO.getEnv "HOME" with
  | some dir, _ => return some (dir ++ "/" ++ Cli.userConfigName)
  | none, some home => return some (home ++ "/.config/" ++ Cli.userConfigName)
  | none, none => return none

def readFiles (request : Cli.Request) : IO Cli.Files := do
  let config ← match request.config with
    | some path => contentOf path
    | none => pure none
  let userConfig ← match ← userConfigPath with
    | some path => contentOf path
    | none => pure none
  let script ← match request.command with
    | .run path _ => contentOf path
    | _ => pure none
  return ⟨config, userConfig, script⟩

/-- Answer the lines of the input until it ends or a line quits. -/
partial def converse (input output : IO.FS.Stream) (w : World) (chain : MemoryChain) : IO Unit := do
  let line ← input.getLine
  match Text.lines line with
  | [] => return
  | text :: _ =>
    if Prompt.isQuit text then return
    let ((written, next), chain) := (Prompt.turn w text).run MemoryChain.answer chain
    output.putStr written
    output.flush
    converse input output next chain

def prompt (request : Cli.Request) (files : Cli.Files) : IO UInt32 := do
  match Cli.settings request.config files >>= Cli.start with
  | .ok (w, chain) =>
    let output ← IO.getStdout
    output.putStr Prompt.mark
    output.flush
    converse (← IO.getStdin) output w chain
    return 0
  | .error failure =>
    IO.eprint (Cli.Result.ofFailure failure).stderr
    return 1

/-- Carry out the request of a command line. -/
def execute (args : List String) : IO UInt32 := do
  match Cli.parseArgs? args with
  | none =>
    IO.eprint Cli.usage
    return 2
  | some request =>
    let files ← readFiles request
    match request.command with
    | .repl => prompt request files
    | _ =>
      let result := Cli.execute request files ""
      IO.print result.stdout
      IO.eprint result.stderr
      return result.exit

end ChainScript.Outer

def main (args : List String) : IO UInt32 :=
  ChainScript.Outer.execute args
