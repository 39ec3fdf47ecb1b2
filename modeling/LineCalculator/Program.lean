import LineCalculator.Invocation

/-!
# The program

The outer layer: how an invocation is written on a command line.

    [OPTIONS] [repl | run FILE | tokenize EXPR | parse EXPR] [OPTIONS]

The options are `--power modular`, `--power exact` (also `--power=exact`) and `-v`, with the long
form `--verbose`. They may stand before the task or behind it. Any other argument that starts with a
dash is an error, but for the lone dash, which is an ordinary word, and the double dash, behind
which every argument is a word.

An option may be given once before the task and once behind it, but not twice at either place. Of
two power modes the one behind the task counts. Without a task the dialogue is meant.
-/

set_option autoImplicit false

namespace LineCalculator

/-! ## Arguments -/

/-- One argument by its role. -/
inductive Argument where
  | power (mode : PowerMode)
  | verbose
  /-- The double dash. -/
  | endOfOptions
  | word (w : Text)
  deriving DecidableEq

namespace Argument

/-- The power mode that a value names. -/
def powerOfValue (value : Text) : Option Argument :=
  if value = "modular".toList then some (power .modular)
  else if value = "exact".toList then some (power .exact)
  else none

/-- Whether an argument is read as an option: it starts with a dash and is not the lone one. -/
def looksLikeOption : Text → Bool
  | '-' :: _ :: _ => true
  | _ => false

/-- What stands behind the equals sign of `--power=value`. -/
def attachedPower? (a : Text) : Option Text :=
  let key := "--power=".toList
  if a.take key.length = key then some (a.drop key.length) else none

/-- The roles of all arguments. The value of `--power` may be the next argument, unless that one
    looks like an option. -/
def readAll : List Text → Option (List Argument)
  | [] => some []
  | a :: rest =>
    if a = "--".toList then some (endOfOptions :: rest.map word)
    else if a = "--power".toList then
      match rest with
      | [] => none
      | v :: rest' => do
        let p ← powerOfValue v
        return p :: (← readAll rest')
    else if a = "-v".toList ∨ a = "--verbose".toList then
      return verbose :: (← readAll rest)
    else
      match attachedPower? a with
      | some v => do
        let p ← powerOfValue v
        return p :: (← readAll rest)
      | none =>
        if looksLikeOption a then none
        else return word a :: (← readAll rest)

/-- Whether an argument is an option. -/
def isOption : Argument → Bool
  | power _ | verbose => true
  | endOfOptions | word _ => false

/-- The power mode that an argument sets. -/
def power? : Argument → Option PowerMode
  | power m => some m
  | _ => none

/-- The word that an argument is. -/
def word? : Argument → Option Text
  | word w => some w
  | _ => none

end Argument

/-! ## Options of one place -/

/-- The options given at one place. -/
structure Options where
  power : Option PowerMode
  verbose : Bool
  deriving DecidableEq

/-- The options among the arguments of one place, each given at most once. -/
def Options.ofArguments (as : List Argument) : Option Options :=
  let powers := as.filterMap Argument.power?
  if 1 < powers.length || 1 < as.count .verbose then none
  else some ⟨powers.head?, as.contains .verbose⟩

/-! ## Whole command lines -/

/-- The task of a name and the words behind it. No file has an empty name. -/
def Task.ofWords (name : Text) (words : List Text) : Option Task :=
  if name = "repl".toList then
    if words.isEmpty then some .dialogue else none
  else if name = "run".toList then single words fun w =>
    if w.isEmpty then none else some (.run w)
  else if name = "tokenize".toList then single words fun w => some (.tokenize w)
  else if name = "parse".toList then single words fun w => some (.parse w)
  else none
where
  /-- Exactly one word is expected. -/
  single (words : List Text) (use : Text → Option Task) : Option Task :=
    match words with
    | [w] => use w
    | _ => none

namespace Invocation

/-- The invocation with options before and behind a task. -/
def combine (before behind : Options) (task : Task) : Invocation where
  mode := (behind.power.or before.power).getD .modular
  verbose := before.verbose || behind.verbose
  task := task

/-- The invocation that arguments by role make. A task is the first word, and none may come behind
    the double dash. -/
def ofArguments (as : List Argument) : Option Invocation := do
  let before ← Options.ofArguments (as.takeWhile Argument.isOption)
  match as.dropWhile Argument.isOption with
  | .word name :: rest =>
    let behind ← Options.ofArguments rest
    let task ← Task.ofWords name (rest.filterMap Argument.word?)
    return combine before behind task
  | _ :: _ :: _ => none
  | _ => return combine before ⟨none, false⟩ .dialogue

/-- The invocation that a command line makes. -/
def ofCommandLine (args : List Text) : Option Invocation :=
  (Argument.readAll args).bind ofArguments

end Invocation

/-- Run a command line. -/
def runCommandLine (file : Text → Option ByteArray) (input : Text) (args : List Text) : Ended :=
  match Invocation.ofCommandLine args with
  | some i => i.perform file input
  | none => .failure 2 .usage

end LineCalculator
