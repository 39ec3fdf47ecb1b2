import LineCalculator.Dialogue

/-!
# Invocations

What the program writes and the code with which it ends, as a function of what it is asked to do, of
the files that it could read and of its standard input. Standard output is written only by a task that
got under way: an unreadable file and an expression that is refused both leave it empty, and differ in
the code.
-/

set_option autoImplicit false

namespace LineCalculator

/-- What the program is asked to do. -/
inductive Task where
  | dialogue
  | run (file : Text)
  /-- List the tokens of an expression. -/
  | tokenize (expression : Text)
  /-- Print the postfix form of an expression. -/
  | parse (expression : Text)
  deriving DecidableEq

/-- What a run of the program is to do, and how. -/
structure Invocation where
  mode : PowerMode
  verbose : Bool
  task : Task
  deriving DecidableEq

/-- A finished run: what was written, and the code for the caller. -/
structure Ended where
  written : Written
  code : UInt8
  deriving DecidableEq

namespace Ended

/-- A run that did its task. -/
def success (w : Written) : Ended := ⟨w, 0⟩

/-- A run that failed before it wrote anything, but for what is wrong. -/
def failure (code : UInt8) (diagnostic : Diagnostic) : Ended := ⟨⟨[], [diagnostic]⟩, code⟩

end Ended

/-- The listing of the tokens of an expression, brought to its normal form first. -/
def tokenListing (expression : Text) : Written :=
  .concat ((Token.scan (normalize expression)).map fun t => .line t.display)

/-- The text of a file, if its bytes are UTF-8. -/
def textOfBytes? (bytes : ByteArray) : Option Text := (String.fromUTF8? bytes).map String.toList

/-- Bytes are read as a text exactly if they are its UTF-8 form. -/
theorem textOfBytes?_eq_some_iff {bytes : ByteArray} {s : Text} :
    textOfBytes? bytes = some s ↔ bytes = s.utf8Encode := by
  rw [textOfBytes?, String.fromUTF8?]
  constructor
  · intro h
    split at h
    · have hs := Option.some.inj h
      rw [← hs, String.utf8Encode_toList]
      rfl
    · exact absurd h (by simp)
  · intro h
    subst h
    rw [dif_pos ByteArray.isValidUTF8_utf8Encode]
    exact congrArg some (String.toList_ofList)

namespace Invocation

/-- Run a task. `file` gives the bytes of each file that can be read. -/
def perform (file : Text → Option ByteArray) (input : Text) (i : Invocation) : Ended :=
  match i.task with
  | .dialogue =>
    let turns := (Calculator.new i.mode).turns Calculator.promptTurn input.lines
    .success (dialogueWritten i.verbose turns)
  | .run path =>
    match (file path).bind textOfBytes? with
    | some text =>
      let turns := (Calculator.new i.mode).turns Calculator.scriptTurn text.lines
      .success (scriptWritten i.verbose turns)
    | none => .failure 1 (.unreadable path)
  | .tokenize expression => .success (tokenListing expression)
  | .parse expression =>
    match Postfix.ofText (normalize expression) with
    | .ok p => .success (.line p.render)
    | .error f => .failure 65 (.failed (.invalidExpression f))

/-- A script is the text of its file, line by line. -/
theorem perform_run {file : Text → Option ByteArray} {path s : Text}
    (h : file path = some s.utf8Encode) (mode : PowerMode) (verbose : Bool) (input : Text) :
    perform file input ⟨mode, verbose, .run path⟩ =
      .success (scriptWritten verbose ((Calculator.new mode).turns Calculator.scriptTurn s.lines)) := by
  have htext : (file path).bind textOfBytes? = some s := by
    rw [h]
    exact textOfBytes?_eq_some_iff.2 rfl
  rw [perform]
  dsimp only
  rw [htext]

end Invocation

end LineCalculator
