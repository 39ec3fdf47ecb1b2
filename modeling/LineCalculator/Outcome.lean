import LineCalculator.Line
import LineCalculator.NormalForm
import LineCalculator.Postfix
import LineCalculator.Postfix.Yard

/-!
# The outcome of a line

A line is brought to its normal form, classified, and carried out in the environment as it stands.
The environment is written in one place only, when an assignment has got the value of its source.

So a line can also be described in two parts. Its result is found by reading alone (`resultOf`), and
what it leaves behind is settled by its result alone (`Environment.record`): an assignment that
succeeded defines its variable, and nothing else writes. `evaluate_eq` says that the two descriptions
agree.
-/

set_option autoImplicit false

namespace LineCalculator

/-- What a line came to. -/
inductive Outcome where
  | value (v : Int)
  | assigned (name : Text) (v : Int)
  | blank
  deriving DecidableEq

namespace Outcome

/-- What the user is shown: values only. -/
def output? : Outcome → Option Text
  | value v => some (Decimal.ofInt v)
  | assigned _ _ | blank => none

/-- The outcome as a text; of an assignment, one that assigns the same again. -/
def display : Outcome → Text
  | value v => Decimal.ofInt v
  | assigned x v => x ++ " = ".toList ++ Decimal.ofInt v
  | blank => []

end Outcome

/-- The integer that a right-hand side stands for. -/
def Source.value (env : Environment) : Source → Except LineError Int
  | number n => .ok n
  | var x => env.lookup x

/-- The value of an expression. -/
def evaluateExpression (mode : PowerMode) (env : Environment) (s : Text) : Except LineError Int :=
  (Fault.lift (Postfix.ofText s)).bind (Postfix.evaluate mode env)

/-- Carry out a classified line: its result, and the environment after it. -/
def Line.execute (mode : PowerMode) (env : Environment) :
    Line → Except LineError Outcome × Environment
  | blank => (.ok .blank, env)
  | number n => (.ok (.value n), env)
  | lookup x => ((env.lookup x).map .value, env)
  | assignment x source =>
    match source.value env with
    | .ok v => (.ok (.assigned x v), env.define x v)
    | .error e => (.error e, env)
  | expression s => ((evaluateExpression mode env s).map .value, env)

/-- The result of a line as it was typed, and the environment after it. -/
def evaluate (mode : PowerMode) (env : Environment) (line : Text) :
    Except LineError Outcome × Environment :=
  match Line.classify (normalize line) with
  | .ok l => l.execute mode env
  | .error e => (.error e, env)

theorem evaluate_of_normalize_eq {s t : Text} (h : normalize s = normalize t) (mode : PowerMode)
    (env : Environment) : evaluate mode env s = evaluate mode env t := by
  rw [evaluate, evaluate, h]

/-! ## Results and what they leave -/

/-- The outcome of a classified line in an environment. -/
def Line.outcome (mode : PowerMode) (env : Environment) : Line → Except LineError Outcome
  | blank => .ok .blank
  | number n => .ok (.value n)
  | lookup x => (env.lookup x).map .value
  | assignment x source => (source.value env).map (.assigned x)
  | expression s => (evaluateExpression mode env s).map .value

/-- The result of a line as it was typed. -/
def resultOf (mode : PowerMode) (env : Environment) (line : Text) : Except LineError Outcome :=
  (Line.classify (normalize line)).bind (Line.outcome mode env)

/-- What a result leaves behind. -/
def Environment.record (env : Environment) : Except LineError Outcome → Environment
  | .ok (.assigned x v) => env.define x v
  | _ => env

theorem Environment.record_map_value (env : Environment) (r : Except LineError Int) :
    env.record (r.map .value) = env := by
  cases r <;> rfl

theorem Line.execute_eq (mode : PowerMode) (env : Environment) (l : Line) :
    l.execute mode env = (l.outcome mode env, env.record (l.outcome mode env)) := by
  cases l with
  | blank => rfl
  | number n => rfl
  | lookup x => rw [outcome, env.record_map_value, execute]
  | assignment x source =>
    rw [execute, outcome]
    cases source.value env <;> rfl
  | expression s => rw [outcome, env.record_map_value, execute]

/-- **A line leaves what its result records**, and nothing else. -/
theorem evaluate_eq (mode : PowerMode) (env : Environment) (line : Text) :
    evaluate mode env line = (resultOf mode env line, env.record (resultOf mode env line)) := by
  rw [evaluate, resultOf]
  cases Line.classify (normalize line) with
  | error e => rfl
  | ok l => exact l.execute_eq mode env

theorem fst_evaluate (mode : PowerMode) (env : Environment) (line : Text) :
    (evaluate mode env line).1 = resultOf mode env line := by
  rw [evaluate_eq]

theorem snd_evaluate (mode : PowerMode) (env : Environment) (line : Text) :
    (evaluate mode env line).2 = env.record (resultOf mode env line) := by
  rw [evaluate_eq]

end LineCalculator
