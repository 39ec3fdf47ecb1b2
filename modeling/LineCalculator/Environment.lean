import LineCalculator.Text.Ascii
import Std.Data.ExtTreeMap

/-!
# Environments

An environment gives finitely many variables their values. Any text may name a variable here; that
a line only ever defines names of letters is a fact about lines.

Two environments are equal exactly when they give every name the same value
(`Environment.ext_get?`): the map behind them is extensional, so no order of definition can show.
Its list of entries comes in the order of the names' characters.
-/

set_option autoImplicit false

namespace LineCalculator

/-- A finite map from names to integers. -/
structure Environment where
  values : Std.ExtTreeMap Text Int

namespace Environment

/-- The environment without variables. -/
def empty : Environment := ⟨∅⟩

/-- The value of a variable. -/
def get? (env : Environment) (x : Text) : Option Int := env.values[x]?

/-- Give a variable a value, whether it had one or not. -/
def define (env : Environment) (x : Text) (v : Int) : Environment := ⟨env.values.insert x v⟩

/-- The number of variables. -/
def size (env : Environment) : Nat := env.values.size

/-- Whether there is no variable. -/
def isEmpty (env : Environment) : Bool := env.values.isEmpty

/-- The variables with their values, in ascending order of the names. -/
def toList (env : Environment) : List (Text × Int) := env.values.toList

@[simp] theorem get?_empty (x : Text) : empty.get? x = none := by
  simp [empty, get?]

/-- Defining a variable changes the value of that variable and of no other. -/
theorem get?_define (env : Environment) (x y : Text) (v : Int) :
    (env.define x v).get? y = if x = y then some v else env.get? y := by
  simp [define, get?, Std.ExtTreeMap.getElem?_insert]

@[simp] theorem get?_define_self (env : Environment) (x : Text) (v : Int) :
    (env.define x v).get? x = some v := by
  simp [get?_define]

/-- Environments that agree on every name are equal. -/
theorem ext_get? {env env' : Environment} (h : ∀ x, env.get? x = env'.get? x) : env = env' := by
  cases env
  cases env'
  exact congrArg mk (Std.ExtTreeMap.ext_getElem? h)

/-- Only a fresh name makes the environment larger. -/
theorem size_define (env : Environment) (x : Text) (v : Int) :
    (env.define x v).size = if (env.get? x).isSome then env.size else env.size + 1 := by
  simp [define, size, get?, Std.ExtTreeMap.size_insert]

end Environment

end LineCalculator
