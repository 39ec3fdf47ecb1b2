import LineCalculator.Program

/-!
# The executable

Reads what the task needs, and writes what the program says. A dialogue writes its prompt before it
reads and answers each line at once, so it takes its turns here, one by one.
-/

set_option autoImplicit false

namespace LineCalculator

/-- A diagnostic as it is shown: of a failed line the code, the message and the help text. -/
def Diagnostic.text : Diagnostic → Text
  | failed e => e.code ++ '\n' :: e.message ++ '\n' :: e.help
  | unreadable path => "cannot read ".toList ++ path
  | usage => "usage: [--power modular|exact] [-v] [repl | run FILE | tokenize EXPR | parse EXPR]".toList

/-- Write to the two output streams. -/
def emit (w : Written) : IO Unit := do
  let out ← IO.getStdout
  let err ← IO.getStderr
  out.putStr (String.ofList w.out)
  out.flush
  for diagnostic in w.err do
    err.putStrLn (String.ofList diagnostic.text)

/-- Prompt, read and answer until the input ends or an exit is asked for. -/
partial def converse (verbose : Bool) (c : Calculator) : IO Unit := do
  emit prompt
  let read ← (← IO.getStdin).getLine
  match Text.lines read.toList with
  | [] => return
  | line :: _ =>
    let turn := c.promptTurn line
    emit (turn.response.written verbose)
    unless turn.response.isExit do converse verbose turn.after

/-- The bytes of a file, if it can be read. -/
def readBytes? (path : Text) : IO (Option ByteArray) :=
  try return some (← IO.FS.readBinFile (String.ofList path)) catch _ => return none

/-- Write what a finished run wrote, and hand on its code. -/
def finish (e : Ended) : IO UInt32 := do
  emit e.written
  return e.code.toUInt32

/-- Run a command line on the files and streams of the process. -/
def execute (args : List Text) : IO UInt32 := do
  match Invocation.ofCommandLine args with
  | none => finish (.failure 2 .usage)
  | some i =>
    match i.task with
    | .dialogue =>
      converse i.verbose (.new i.mode)
      return 0
    | .run path =>
      let bytes ← readBytes? path
      finish (i.perform (fun _ => bytes) [])
    | _ => finish (i.perform (fun _ => none) [])

end LineCalculator

def main (args : List String) : IO UInt32 :=
  LineCalculator.execute (args.map String.toList)
