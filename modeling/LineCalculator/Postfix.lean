import LineCalculator.Environment
import LineCalculator.Power
import LineCalculator.Token

/-!
# Postfix sequences

A postfix sequence lists the operands of an operator before the operator, so it needs neither
parentheses nor precedences, and neither has a place in its items. A sequence may be any list of
items, one that no expression yields included; what such a list means is for its evaluation to
say.

The items act one after another on a stack of values: a number and a variable push one, an
operator replaces the two on top by one. The sequence has a value when exactly one is left. The
first item that cannot act ends the evaluation, so the error is that of the leftmost such item,
and an operator that lacks operands is refused before anything is computed.

Because every item acts on the stack alone, a sequence followed by another is one run after the
other (`run_append`), and this is what makes induction over the structure of an expression
possible.
-/

set_option autoImplicit false

namespace LineCalculator

/-- One element of a postfix sequence. -/
inductive Item where
  | number (n : Int)
  /-- A variable, by its name. -/
  | var (x : Text)
  | op (o : Operator)
  deriving DecidableEq

/-- The text of an item: a decimal number, a name or an operator's symbol. -/
def Item.render : Item → Text
  | number n => Decimal.ofInt n
  | var x => x
  | op o => [o.symbol]

/-- Operands and operators, each operator behind its two operands. -/
abbrev Postfix := List Item

/-- The text of a sequence: its items with one space between neighbours. -/
def Postfix.render (p : Postfix) : Text := [' '].intercalate (p.map Item.render)

/-! ## Evaluation -/

namespace Environment

/-- The value of a variable, or the error that it has none. -/
def lookup (env : Environment) (x : Text) : Except LineError Int :=
  match env.get? x with
  | some v => .ok v
  | none => .error (.unknownVariable x)

theorem lookup_eq_ok_iff {env : Environment} {x : Text} {v : Int} :
    env.lookup x = .ok v ↔ env.get? x = some v := by
  unfold lookup
  cases env.get? x <;> simp

theorem lookup_eq_error_iff {env : Environment} {x : Text} {e : LineError} :
    env.lookup x = .error e ↔ env.get? x = none ∧ .unknownVariable x = e := by
  unfold lookup
  cases env.get? x <;> simp

theorem lookup_congr {env env' : Environment} {x : Text} (h : env.get? x = env'.get? x) :
    env.lookup x = env'.lookup x := by
  rw [lookup, lookup, h]

end Environment

/-- Regard a fault of an expression as the error of its line. -/
def Fault.lift {α : Type} : Except Fault α → Except LineError α :=
  Except.mapError .invalidExpression

/-- What an item does to the stack of values, the most recent first. -/
def Item.step (mode : PowerMode) (env : Environment) (stack : List Int) :
    Item → Except LineError (List Int)
  | number n => .ok (n :: stack)
  | var x => (env.lookup x).map (· :: stack)
  | op o =>
    match stack with
    | rhs :: lhs :: below => (Fault.lift (o.apply mode lhs rhs)).map (· :: below)
    | _ => .error (.invalidExpression (.missingOperand o))

/-- Only a variable looks at the environment, and only at itself. -/
theorem Item.step_congr {mode : PowerMode} {env env' : Environment} {i : Item}
    (h : ∀ x, i = .var x → env.get? x = env'.get? x) (stack : List Int) :
    i.step mode env stack = i.step mode env' stack := by
  cases i with
  | number n => rfl
  | op o => rfl
  | var x =>
    show (env.lookup x).map _ = (env'.lookup x).map _
    rw [Environment.lookup_congr (h x rfl)]

namespace Postfix

/-- Let the items act from left to right. -/
def run (mode : PowerMode) (env : Environment) (stack : List Int) (p : Postfix) :
    Except LineError (List Int) :=
  p.foldlM (Item.step mode env) stack

/-- The one value that is left. -/
def single : List Int → Except Fault Int
  | [] => .error .empty
  | [v] => .ok v
  | stack => .error (.leftoverOperands stack.length)

/-- The value of a postfix sequence. -/
def evaluate (mode : PowerMode) (env : Environment) (p : Postfix) : Except LineError Int :=
  (p.run mode env []).bind fun stack => Fault.lift (single stack)

variable {mode : PowerMode} {env env' : Environment} {p : Postfix}

@[simp] theorem run_nil (stack : List Int) : run mode env stack [] = .ok stack := rfl

@[simp] theorem run_cons (stack : List Int) (i : Item) (p : Postfix) :
    run mode env stack (i :: p) = (i.step mode env stack).bind fun s => run mode env s p := rfl

/-- A sequence followed by another is one run after the other. -/
theorem run_append (stack : List Int) (p q : Postfix) :
    run mode env stack (p ++ q) = (run mode env stack p).bind fun s => run mode env s q := by
  induction p generalizing stack with
  | nil => rfl
  | cons i p ih =>
    rw [List.cons_append, run_cons, run_cons]
    cases i.step mode env stack with
    | error e => rfl
    | ok s => exact ih s

theorem run_congr (h : ∀ x, .var x ∈ p → env.get? x = env'.get? x) (stack : List Int) :
    run mode env stack p = run mode env' stack p := by
  induction p generalizing stack with
  | nil => rfl
  | cons i p ih =>
    have hstep : i.step mode env stack = i.step mode env' stack := by
      apply Item.step_congr
      intro x hx
      exact h x (hx ▸ List.mem_cons_self)
    rw [run_cons, run_cons, hstep]
    cases i.step mode env' stack with
    | error e => rfl
    | ok s => exact ih (fun x hx => h x (List.mem_cons_of_mem i hx)) s

/-- The value of a sequence is a matter of its own variables. -/
theorem evaluate_congr (h : ∀ x, .var x ∈ p → env.get? x = env'.get? x) :
    p.evaluate mode env = p.evaluate mode env' := by
  rw [evaluate, evaluate, run_congr h]

end Postfix

end LineCalculator
