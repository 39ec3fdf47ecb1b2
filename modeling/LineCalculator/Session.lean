import LineCalculator.Calculator

/-!
# Sessions

Lines given one after another, each finding the environment that the one before it left. The power
mode may change from line to line. An environment is reachable if some session leads to it from the
empty one.

A line comes to a calculator in one of two ways: it is evaluated among the variables of the
calculator, in a mode of its own, or it is responded to in the mode of the calculator, and then
commands are taken out before anything is evaluated. A request is a line with the way it comes, and
a session may mix the two.
-/

set_option autoImplicit false

namespace LineCalculator

/-- One line of a session and the mode in which it is taken. -/
structure Entry where
  mode : PowerMode
  line : Text
  deriving DecidableEq

/-- The results of a session, each with the environment after it. -/
def evaluateAll (env : Environment) : List Entry → List (Except LineError Outcome × Environment)
  | [] => []
  | s :: entries =>
    let r := evaluate s.mode env s.line
    r :: evaluateAll r.2 entries

/-- An environment that lines can lead to. -/
inductive Reachable : Environment → Prop
  | empty : Reachable .empty
  | step {env : Environment} (mode : PowerMode) (line : Text) :
    Reachable env → Reachable (evaluate mode env line).2

namespace Calculator

/-- The responses to lines given one after another, each with the calculator after it. An exit is a
    response like any other: what follows it is answered too. -/
def respondAll : Calculator → List Text → List (Response × Calculator)
  | _, [] => []
  | c, l :: ls =>
    let r := c.respond l
    r :: respondAll r.2 ls

end Calculator

/-! ## Requests

A response does not tell an assignment from a blank line, since both are silent. So a request is
judged by its result, the one of the evaluation behind it; a command has none. Either way a request
leaves what its result records, and nothing at all if it has no result (`Request.after_eq`). -/

/-- A line as it is given to a calculator. -/
inductive Request where
  /-- To be evaluated, with powers in this mode. -/
  | evaluate (mode : PowerMode) (line : Text)
  /-- To be responded to, command or not. -/
  | respond (line : Text)
  deriving DecidableEq

namespace Request

/-- The line of a request. -/
def line : Request → Text
  | evaluate _ l | respond l => l

/-- The mode in which a calculator takes the powers of a request. -/
def modeFor (c : Calculator) : Request → PowerMode
  | evaluate mode _ => mode
  | respond _ => c.mode

/-- Whether a request is a command, and so never evaluated. -/
def isCommand : Request → Bool
  | evaluate _ _ => false
  | respond l => (Command.ofLine? l).isSome

/-- The result of a request; a command has none. -/
def result? (c : Calculator) (r : Request) : Option (Except LineError Outcome) :=
  if r.isCommand then none else some (LineCalculator.evaluate (r.modeFor c) c.env r.line).1

/-- The calculator after a request. -/
def after (c : Calculator) : Request → Calculator
  | evaluate mode l => { c with env := (LineCalculator.evaluate mode c.env l).2 }
  | respond l => (c.respond l).2

/-- Only what is no command is evaluated. -/
theorem after_eq_evaluate (c : Calculator) (r : Request) :
    r.after c = if r.isCommand then c
      else { c with env := (LineCalculator.evaluate (r.modeFor c) c.env r.line).2 } := by
  cases r with
  | evaluate mode l => rfl
  | respond l =>
    show (c.respond l).2 = _
    cases h : Command.ofLine? l with
    | none =>
      simp only [Calculator.respond, isCommand, h]
      rfl
    | some k =>
      simp only [Calculator.respond, isCommand, h]
      rfl

/-- A request leaves what its result records. -/
theorem after_eq (c : Calculator) (r : Request) :
    r.after c = { c with env := ((r.result? c).map c.env.record).getD c.env } := by
  rw [after_eq_evaluate, result?]
  split
  · rfl
  · rw [snd_evaluate, fst_evaluate]
    rfl

end Request

namespace Calculator

/-- The calculator after requests given one after another. -/
def afterAll (c : Calculator) (rs : List Request) : Calculator := rs.foldl Request.after c

/-- The results of requests given one after another, in this order. -/
def results (c : Calculator) : List Request → List (Except LineError Outcome)
  | [] => []
  | r :: rs => (r.result? c).toList ++ (r.after c).results rs

@[simp] theorem afterAll_cons (c : Calculator) (r : Request) (rs : List Request) :
    c.afterAll (r :: rs) = (r.after c).afterAll rs := rfl

theorem afterAll_append (c : Calculator) (rs rs' : List Request) :
    c.afterAll (rs ++ rs') = (c.afterAll rs).afterAll rs' := List.foldl_append

end Calculator

/-! ## Repairing a line

A line that reports an unknown variable can be repaired: the variable is given some value, and the line
is evaluated again, which may report another one. Nothing is asked of the values, and the mode may
change from round to round, so neither is known here before the round.

In a round without such a report there is nothing to repair, and the line is evaluated all the same. -/

/-- The variable that a result reports as unknown. -/
def unknownOf? : Except LineError Outcome → Option Text
  | .error (.unknownVariable x) => some x
  | _ => none

/-- For each round the mode in which a line is evaluated, and the value that a variable gets which the
    line reports as unknown. -/
structure Repair where
  mode : Nat → PowerMode
  value : Nat → Int

namespace Repair

/-- The environment before a round, if `env` is the one before the first. -/
def before (r : Repair) (line : Text) (env : Environment) : Nat → Environment
  | 0 => env
  | i + 1 =>
    let (result, after) := evaluate (r.mode i) (r.before line env i) line
    match unknownOf? result with
    | some x => after.define x (r.value i)
    | none => after

/-- The variable that the line reports as unknown in a round. -/
def unknown? (r : Repair) (line : Text) (env : Environment) (i : Nat) : Option Text :=
  unknownOf? (evaluate (r.mode i) (r.before line env i) line).1

end Repair

end LineCalculator
