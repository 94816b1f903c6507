import Reckoner.CommandLine.Console

/-!
# The program

Reads arguments, the settings file and standard input, and prints what the console answers.
-/

namespace Reckoner

/-- Writes to the two output streams. -/
def emit (p : Printed) : IO Unit := do
  let out ← IO.getStdout
  out.putStr p.out
  out.flush
  (← IO.getStderr).putStr p.err

/-- The content of a file, if there is one at the path. -/
def readFile (path : String) : IO (Option String) := do
  try
    return some (← IO.FS.readFile path)
  catch _ =>
    return none

/-- The path of the default settings file. -/
def findSettings : IO (Option String) := do
  let override ← IO.getEnv "NUMBY_CONFIG"
  let directory ←
    match ← IO.getEnv "XDG_CONFIG_HOME", ← IO.getEnv "HOME" with
    | some dir, _ => pure (some (dir ++ "/numby"))
    | none, some home => pure (some (home ++ "/.config/numby"))
    | none, none => pure none
  match Settings.defaultPath override directory with
  | .ok path => return some path
  | .error _ => return none

/-- Answers the lines of a stream until it ends. -/
partial def answerStream (input : IO.FS.Stream) (s : Session) : IO Unit := do
  let line ← input.getLine
  if line = "" then return
  let (printed, s) := Console.readLine s line
  emit printed
  answerStream input s

/-- Answers what the options ask for. -/
def serveOptions (s : Session) (o : Options) : IO UInt32 := do
  if o.inputs = [] then
    try
      answerStream (← IO.getStdin) s
      return 0
    catch e =>
      let ending := Console.abort (.input (.unreadable (toString e)))
      emit ending.printed
      return ending.exit.toUInt32
  else
    let ending := Console.serve s o []
    emit ending.printed
    return ending.exit.toUInt32

/-- Runs the program with its options. -/
def runOptions (o : Options) : IO UInt32 := do
  let path ← if o.settings.isSome then pure o.settings else findSettings
  let content ←
    match path with
    | some path => readFile path
    | none => pure none
  let opened := Console.openSession o path content
  let started : Outcome (Option String × Session) ←
    match opened with
    | .error e => pure (.error e)
    | .ok s =>
      if o.updateRates then
        let now ← IO.monoMsNow
        let updated := Console.updateRates s path content now fun _ =>
          .error "request failed: no connection"
        pure (updated.map fun (text, s) => (some text, s))
      else pure (.ok (none, s))
  match started with
  | .error e =>
    let ending := Console.abort e
    emit ending.printed
    return ending.exit.toUInt32
  | .ok (text, s) =>
    if let (some text, some path) := (text, path) then IO.FS.writeFile path text
    serveOptions s o

end Reckoner

open Reckoner in
def main (arguments : List String) : IO UInt32 := do
  match Request.ofArguments arguments with
  | .error e =>
    emit ⟨"", "error: " ++ e.message ++ "\n"⟩
    return 2
  | .ok .help =>
    emit ⟨Console.helpText, ""⟩
    return 0
  | .ok .version =>
    emit ⟨Console.versionText, ""⟩
    return 0
  | .ok (.run o) => runOptions o
