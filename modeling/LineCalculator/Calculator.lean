import LineCalculator.Command
import LineCalculator.Outcome

/-!
# The calculator

A calculator is an environment that outlives the lines, and the mode in which it takes powers. It
answers each line, command or not, with what a front end should do about it.
-/

set_option autoImplicit false

namespace LineCalculator

/-- What a front end should do with a line. -/
inductive Response where
  | silent
  | print (text : Text)
  | failed (error : LineError)
  /-- Say goodbye and stop. -/
  | exit (text : Text)
  deriving DecidableEq

namespace Response

/-- Whether a front end stops here. -/
def isExit : Response → Bool
  | exit _ => true
  | _ => false

/-- The response to a result: a value is printed, an assignment and a blank line are silent. -/
def ofResult : Except LineError Outcome → Response
  | .ok o =>
    match o.output? with
    | some text => print text
    | none => silent
  | .error e => failed e

/-- The response to a command. -/
def ofCommand : Command → Response
  | .exit => exit Command.exit.message
  | c => print c.message

end Response

/-- A mode of powers and the variables so far. -/
structure Calculator where
  mode : PowerMode
  env : Environment

namespace Calculator

/-- A calculator without variables. -/
def new (mode : PowerMode) : Calculator := ⟨mode, .empty⟩

/-- The response to a line and the calculator after it. -/
def respond (c : Calculator) (line : Text) : Response × Calculator :=
  match Command.ofLine? line with
  | some command => (.ofCommand command, c)
  | none =>
    let (result, env) := evaluate c.mode c.env line
    (.ofResult result, { c with env })

/-- A line that is no command is answered by its result, and leaves what the result records. -/
theorem respond_of_ofLine? {c : Calculator} {line : Text} (h : Command.ofLine? line = none) :
    c.respond line = (.ofResult (resultOf c.mode c.env line),
      { c with env := c.env.record (resultOf c.mode c.env line) }) := by
  rw [respond, h]
  dsimp only
  rw [evaluate_eq]

end Calculator

end LineCalculator
