import LineCalculator.Calculator
import LineCalculator.Text.Lines

/-!
# Two front ends

A script hands its lines to the calculator one after another; a dialogue prompts before each one,
and passes over a line of white space. Both stop at an exit. Each is described by its turns: a line,
the response to it, and the calculator after it. What is written is a function of the turns, so the
two can be compared turn by turn.

Given the same lines, both read the same of them and take a turn on each (`linesRead`). The two turns
on a line leave the same calculator and show the same text, unless the line is white space with
something in it that is no ASCII blank: to a script that is an expression it cannot read, and a
dialogue passes over it (`Turn.Agrees`).
-/

set_option autoImplicit false

namespace LineCalculator

/-- What is told to the error stream. How it reads there is not settled here. -/
inductive Diagnostic where
  /-- A line that failed, in full. -/
  | failed (error : LineError)
  /-- A file that holds no text, or cannot be read. -/
  | unreadable (path : Text)
  /-- A command line that cannot be understood. -/
  | usage
  deriving DecidableEq

/-- What goes to the two output streams. -/
structure Written where
  out : Text
  err : List Diagnostic
  deriving DecidableEq

namespace Written

/-- Nothing. -/
def nothing : Written := ⟨[], []⟩

/-- One after the other, on each stream. -/
def append (v w : Written) : Written := ⟨v.out ++ w.out, v.err ++ w.err⟩

instance : Append Written := ⟨append⟩

/-- All of them, one after the other. -/
def concat (ws : List Written) : Written := ws.foldr append nothing

/-- One line of output. -/
def line (s : Text) : Written := ⟨s ++ ['\n'], []⟩

end Written

/-- What a response makes a front end write. A verbose one also reports errors in full. -/
def Response.written (verbose : Bool) : Response → Written
  | silent => .nothing
  | print text | exit text => .line text
  | failed e => ⟨e.message ++ ['\n'], if verbose then [.failed e] else []⟩

/-- One line as a front end handled it. -/
structure Turn where
  line : Text
  response : Response
  /-- The calculator after the line. -/
  after : Calculator

namespace Calculator

/-- A line of a script. -/
def scriptTurn (c : Calculator) (line : Text) : Turn :=
  let (response, after) := c.respond line
  ⟨line, response, after⟩

/-- A line at the prompt: one of white space is passed over. -/
def promptTurn (c : Calculator) (line : Text) : Turn :=
  if line.trimWhiteSpace.isEmpty then ⟨line, .silent, c⟩ else c.scriptTurn line

/-- The turns of a list of lines, up to and including the first exit. -/
def turns (turn : Calculator → Text → Turn) : Calculator → List Text → List Turn
  | _, [] => []
  | c, l :: ls =>
    let t := turn c l
    if t.response.isExit then [t] else t :: turns turn t.after ls

end Calculator

/-- What a script writes for its turns. -/
def scriptWritten (verbose : Bool) (ts : List Turn) : Written :=
  .concat (ts.map fun t => t.response.written verbose)

/-- The prompt, written before every attempt to read a line. -/
def prompt : Written := ⟨"> ".toList, []⟩

/-- What a dialogue writes for its turns: one more prompt meets the end of the input, unless an exit
    came first. -/
def dialogueWritten (verbose : Bool) (ts : List Turn) : Written :=
  .concat (ts.map fun t => prompt ++ t.response.written verbose) ++
    if ts.any (·.response.isExit) then .nothing else prompt

/-! ## Agreement -/

/-- Whether a line asks to exit. -/
def Text.asksToExit (line : Text) : Bool := line.trimWhiteSpace == "/exit".toList

/-- The lines up to and including the first that asks to exit. -/
def linesRead : List Text → List Text
  | [] => []
  | l :: ls => if l.asksToExit then [l] else l :: linesRead ls

/-- Whether a text is nothing but white space. -/
def Text.isWhite (s : Text) : Bool := s.all isWhiteSpace

/-- What a turn writes to the output stream. -/
def Turn.out (verbose : Bool) (t : Turn) : Text := (t.response.written verbose).out

/-- A turn of a dialogue agrees with the turn of a script on the same line. -/
structure Turn.Agrees (verbose : Bool) (script dialogue : Turn) : Prop where
  line : dialogue.line = script.line
  after : dialogue.after = script.after
  out : dialogue.out verbose = if script.line.isWhite then [] else script.out verbose
  differ : dialogue.out verbose ≠ script.out verbose ↔
    script.line.isWhite = true ∧ ∃ c ∈ script.line, isBlank c = false
  invalid : dialogue.out verbose ≠ script.out verbose →
    script.out verbose = "Invalid expression\n".toList

end LineCalculator
