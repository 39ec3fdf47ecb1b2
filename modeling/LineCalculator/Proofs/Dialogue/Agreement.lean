import LineCalculator.Dialogue
import LineCalculator.Proofs.Dialogue.Layout
import LineCalculator.Proofs.Dialogue.WhiteSpace

/-!
# A dialogue does the work of a script

Both front ends go through the same lines with the same calculator and stop at the same line, since
a line asks to exit whether or not a prompt stands before it. What they make of one line differs in
one case only (`Calculator.turn_agrees`), and that case leaves the calculator alone, so the rest of
the lines meets the same calculator (`Calculator.forall₂_agrees`). What they write follows turn by
turn.
-/

set_option autoImplicit false

namespace LineCalculator

theorem Command.ofLine?_eq_exit_iff {line : Text} :
    ofLine? line = some .exit ↔ line.asksToExit = true := by
  rw [Text.asksToExit, beq_iff_eq]
  constructor
  · intro h
    dsimp only [ofLine?] at h
    split at h
    · split at h
      · next hword => exact hword
      · split at h <;> exact absurd h (by simp)
    · exact absurd h (by simp)
  · intro h
    dsimp only [ofLine?]
    rw [h]
    rfl

theorem Response.isExit_ofResult (r : Except LineError Outcome) :
    (ofResult r).isExit = false := by
  cases r with
  | error e => rfl
  | ok o => cases o <;> rfl

theorem Response.isExit_ofCommand (k : Command) : (ofCommand k).isExit = (k == .exit) := by
  cases k <;> rfl

theorem Calculator.isExit_respond (c : Calculator) (line : Text) :
    (c.respond line).1.isExit = line.asksToExit := by
  have hexit : Command.ofLine? line = some .exit ↔ _ := Command.ofLine?_eq_exit_iff
  rw [respond]
  cases hk : Command.ofLine? line with
  | none =>
    have hno : line.asksToExit = false := by
      rw [← Bool.not_eq_true, ← hexit, hk]
      simp
    rw [hno]
    exact Response.isExit_ofResult _
  | some k =>
    rw [hk, Option.some.injEq] at hexit
    rw [Bool.eq_iff_iff, ← hexit]
    show (Response.ofCommand k).isExit = true ↔ _
    rw [Response.isExit_ofCommand, beq_iff_eq]

/-! ## One turn -/

theorem Text.isWhite_iff {s : Text} : s.isWhite = true ↔ ∀ c ∈ s, isWhiteSpace c = true :=
  List.all_eq_true

theorem Text.asksToExit_of_isWhite {s : Text} (h : s.isWhite = true) : s.asksToExit = false := by
  have hword : s.trimWhiteSpace = [] := trim_eq_nil_iff.2 (isWhite_iff.1 h)
  rw [asksToExit, hword]
  rfl

namespace Calculator

theorem promptTurn_of_isWhite {line : Text} (h : line.isWhite = true) (c : Calculator) :
    c.promptTurn line = ⟨line, .silent, c⟩ := by
  have hword : line.trimWhiteSpace = [] := Text.trim_eq_nil_iff.2 (Text.isWhite_iff.1 h)
  rw [promptTurn, hword]
  rfl

theorem promptTurn_of_not_isWhite {line : Text} (h : line.isWhite = false) (c : Calculator) :
    c.promptTurn line = c.scriptTurn line := by
  have hword : line.trimWhiteSpace ≠ [] := by
    intro hnil
    exact absurd (Text.isWhite_iff.2 (Text.trim_eq_nil_iff.1 hnil)) (by simp [h])
  rw [promptTurn, if_neg (by simpa using hword)]

theorem isExit_promptTurn (c : Calculator) (line : Text) :
    (c.promptTurn line).response.isExit = line.asksToExit := by
  cases h : line.isWhite with
  | true =>
    rw [promptTurn_of_isWhite h, Text.asksToExit_of_isWhite h]
    rfl
  | false =>
    rw [promptTurn_of_not_isWhite h]
    exact c.isExit_respond line

theorem scriptTurn_of_blank {line : Text} (h : line.trimBlanks = []) (c : Calculator) :
    c.scriptTurn line = ⟨line, .silent, c⟩ := by
  rw [scriptTurn, respond_of_blank h]

theorem scriptTurn_of_white {line : Text} (h : line.isWhite = true) (hne : line.trimBlanks ≠ [])
    (c : Calculator) : c.scriptTurn line =
      ⟨line, .failed (.invalidExpression (.unknownToken line.trimBlanks)), c⟩ := by
  rw [scriptTurn, respond_of_white (Text.isWhite_iff.1 h) hne]

/-- **The two turns on a line agree**, whatever the calculator has been through. -/
theorem turn_agrees (verbose : Bool) (c : Calculator) (line : Text) :
    Turn.Agrees verbose (c.scriptTurn line) (c.promptTurn line) := by
  cases hwhite : line.isWhite with
  | false =>
    have hline : (c.scriptTurn line).line.isWhite = false := hwhite
    rw [promptTurn_of_not_isWhite hwhite]
    exact ⟨rfl, rfl, by simp [hline], by simp [hline], by simp⟩
  | true =>
    have hsome : line.trimBlanks ≠ [] ↔ ∃ b ∈ line, isBlank b = false := by
      rw [ne_eq, Text.trimBlanks, Text.trim_eq_nil_iff]
      simp
    rw [promptTurn_of_isWhite hwhite]
    by_cases hblank : line.trimBlanks = []
    · rw [scriptTurn_of_blank hblank]
      have hnone : ¬ ∃ b ∈ line, isBlank b = false := fun h => hsome.2 h hblank
      refine ⟨rfl, rfl, ?_, ?_, ?_⟩
      · exact (if_pos hwhite).symm
      · simp [hnone]
      · intro h
        exact absurd rfl h
    · rw [scriptTurn_of_white hwhite hblank]
      refine ⟨rfl, rfl, ?_, ?_, ?_⟩
      · exact (if_pos hwhite).symm
      · refine iff_of_true ?_ ⟨hwhite, hsome.1 hblank⟩
        exact List.cons_ne_nil _ _ ∘ Eq.symm
      · intro _
        rfl

/-! ## All turns -/

section

variable {turn : Calculator → Text → Turn}

/-- What stands behind an exit is not read. -/
theorem turns_linesRead (hexit : ∀ c l, (turn c l).response.isExit = l.asksToExit) (c : Calculator)
    (ls : List Text) : c.turns turn (linesRead ls) = c.turns turn ls := by
  induction ls generalizing c with
  | nil => rfl
  | cons l ls ih =>
    rw [linesRead]
    cases hl : l.asksToExit with
    | true => simp [turns, hexit, hl]
    | false => simp [turns, hexit, hl, ih]

theorem map_line_turns (hexit : ∀ c l, (turn c l).response.isExit = l.asksToExit)
    (hline : ∀ c l, (turn c l).line = l) (c : Calculator) (ls : List Text) :
    (c.turns turn ls).map Turn.line = linesRead ls := by
  induction ls generalizing c with
  | nil => rfl
  | cons l ls ih =>
    rw [linesRead]
    cases hl : l.asksToExit with
    | true => simp [turns, hexit, hl, hline]
    | false => simp [turns, hexit, hl, hline, ih]

theorem any_isExit_turns (hexit : ∀ c l, (turn c l).response.isExit = l.asksToExit)
    (c : Calculator) (ls : List Text) :
    (c.turns turn ls).any (·.response.isExit) = ls.any Text.asksToExit := by
  induction ls generalizing c with
  | nil => rfl
  | cons l ls ih =>
    cases hl : l.asksToExit with
    | true => simp [turns, hexit, hl]
    | false => simp [turns, hexit, hl, ih]

end

theorem forall₂_agrees (verbose : Bool) (c : Calculator) (ls : List Text) :
    List.Forall₂ (Turn.Agrees verbose) (c.turns scriptTurn ls) (c.turns promptTurn ls) := by
  induction ls generalizing c with
  | nil => exact .nil
  | cons l ls ih =>
    have hone := c.turn_agrees verbose l
    rw [turns, turns, c.isExit_promptTurn]
    show List.Forall₂ _ (if (c.respond l).1.isExit then _ else _) _
    rw [c.isExit_respond]
    cases l.asksToExit with
    | true => exact .cons hone .nil
    | false =>
      refine .cons hone ?_
      rw [hone.after]
      exact ih _

end Calculator

/-! ## What is written -/

theorem Written.out_concat (ws : List Written) : (concat ws).out = ws.flatMap Written.out := by
  induction ws with
  | nil => rfl
  | cons w ws ih =>
    rw [List.flatMap_cons, ← ih]
    rfl

theorem out_scriptWritten (verbose : Bool) (ts : List Turn) :
    (scriptWritten verbose ts).out = ts.flatMap (Turn.out verbose) := by
  rw [scriptWritten, Written.out_concat, List.flatMap_map]
  rfl

theorem out_dialogueWritten (verbose : Bool) (ts : List Turn) :
    (dialogueWritten verbose ts).out =
      (ts.flatMap fun t => "> ".toList ++ t.out verbose) ++
        if ts.any (·.response.isExit) then [] else "> ".toList := by
  have hlast : (if ts.any (·.response.isExit) then Written.nothing else prompt).out =
      if ts.any (·.response.isExit) then [] else "> ".toList := by
    split <;> rfl
  show (Written.concat _).out ++ _ = _
  rw [hlast, Written.out_concat, List.flatMap_map]
  rfl

theorem flatMap_prompted {verbose : Bool} {script dialogue : List Turn}
    (h : List.Forall₂ (Turn.Agrees verbose) script dialogue) :
    (dialogue.flatMap fun t => "> ".toList ++ t.out verbose) =
      script.flatMap fun t => "> ".toList ++ if t.line.isWhite then [] else t.out verbose := by
  induction h with
  | nil => rfl
  | cons hone _ ih => rw [List.flatMap_cons, List.flatMap_cons, ih, ← hone.out]

/-- **A dialogue does the work of a script.** On the same text both take a turn on the same lines,
    those up to the first that asks to exit, and after each line the two calculators are the same.
    The script shows what its turns show, one after another. The dialogue shows a prompt before each
    line and, unless the line is white space, what the script shows of it; at the end it shows one
    more prompt if no line asked to exit. Both end with code 0, and what stands behind the line that
    asks to exit changes nothing. -/
theorem dialogue_agrees (mode : PowerMode) (verbose : Bool) {file : Text → Option ByteArray}
    {path text : Text} (h : file path = some text.utf8Encode) (input : Text) :
    let script := (Calculator.new mode).turns Calculator.scriptTurn text.lines
    let dialogue := (Calculator.new mode).turns Calculator.promptTurn text.lines
    let run := Invocation.perform file input ⟨mode, verbose, .run path⟩
    let repl := Invocation.perform file text ⟨mode, verbose, .dialogue⟩
    script.map Turn.line = linesRead text.lines ∧
    List.Forall₂ (Turn.Agrees verbose) script dialogue ∧
    run.written.out = script.flatMap (Turn.out verbose) ∧
    repl.written.out =
      (script.flatMap fun t => "> ".toList ++ if t.line.isWhite then [] else t.out verbose) ++
        (if text.lines.any Text.asksToExit then [] else "> ".toList) ∧
    run.code = 0 ∧ repl.code = 0 ∧
    ∀ (file' : Text → Option ByteArray) (path' text' : Text),
      linesRead text'.lines = linesRead text.lines → file' path' = some text'.utf8Encode →
      Invocation.perform file' input ⟨mode, verbose, .run path'⟩ = run ∧
      Invocation.perform file' text' ⟨mode, verbose, .dialogue⟩ = repl := by
  intro script dialogue run repl
  have hrun : run = .success (scriptWritten verbose script) := Invocation.perform_run h mode verbose input
  have hagree : List.Forall₂ (Turn.Agrees verbose) script dialogue :=
    Calculator.forall₂_agrees verbose (.new mode) text.lines
  have hexit : dialogue.any (·.response.isExit) = text.lines.any Text.asksToExit :=
    Calculator.any_isExit_turns Calculator.isExit_promptTurn (.new mode) text.lines
  refine ⟨?_, hagree, ?_, ?_, ?_, rfl, ?_⟩
  · exact Calculator.map_line_turns Calculator.isExit_respond (fun _ _ => rfl) _ _
  · rw [hrun]
    exact out_scriptWritten verbose script
  · rw [← flatMap_prompted hagree, ← hexit]
    exact out_dialogueWritten verbose dialogue
  · rw [hrun]
    rfl
  · intro file' path' text' hread h'
    refine ⟨?_, ?_⟩
    · rw [hrun, Invocation.perform_run h', ← Calculator.turns_linesRead Calculator.isExit_respond,
        hread, Calculator.turns_linesRead Calculator.isExit_respond]
    · show Ended.success (dialogueWritten verbose (Calculator.turns _ _ text'.lines)) = _
      rw [← Calculator.turns_linesRead Calculator.isExit_promptTurn, hread,
        Calculator.turns_linesRead Calculator.isExit_promptTurn]
      rfl

/-- A line of one no-break space, between a line that is answered and the exit. -/
theorem dialogue_agrees_noBreakSpace :
    let text := "2^3\n\u00a0\n/exit\n1".toList
    let file := fun _ : Text => some text.utf8Encode
    (Invocation.perform file [] ⟨.modular, true, .run ['f']⟩).written.out =
      "8\nInvalid expression\nBye!\n".toList ∧
    (Invocation.perform file text ⟨.modular, true, .dialogue⟩).written.out =
      "> 8\n> > Bye!\n".toList := by
  intro text file
  have hfile : file ['f'] = some text.utf8Encode := rfl
  obtain ⟨-, -, hrun, hrepl, -⟩ := dialogue_agrees .modular true hfile []
  refine ⟨hrun.trans ?_, hrepl.trans ?_⟩
  · rfl
  · rfl

end LineCalculator
