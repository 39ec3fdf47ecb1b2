import LineCalculator.Invocation
import LineCalculator.Proofs.NormalForm.Pieces
import LineCalculator.Proofs.Text.Lines
import LineCalculator.Text.Lines
import Mathlib.Logic.Relation

/-!
# The layout of a script does not matter

A line is answered as it would be without the blanks at its ends (`Calculator.respond_padded`),
although two parts of the program trim it, each with blanks of its own: the part that looks for a
command drops all white space, and the normal form drops the ASCII blanks. A line of such blanks is
not answered at all.

So a script depends on the **content** of its text only, the trimmed lines that are not empty. The
content is read off line by line and not changed by a change of layout (`Text.Relaid.content_eq`); a
carriage return that the line feed leaves behind is a blank like any other.
-/

set_option autoImplicit false

namespace LineCalculator

/-! ## One line -/

theorem normalize_append_append {u v : Text} (hu : ∀ c ∈ u, isBlank c = true)
    (hv : ∀ c ∈ v, isBlank c = true) (s : Text) : normalize (u ++ s ++ v) = normalize s := by
  rw [normalize, List.append_assoc, List.foldr_append, dropWhile_foldr_absorb_of_isBlank hu,
    List.foldr_append, foldr_absorb_of_isBlank hv Text.atBoundary_nil, ← normalize]

theorem Command.ofLine?_append_append {u v : Text} (hu : ∀ c ∈ u, isBlank c = true)
    (hv : ∀ c ∈ v, isBlank c = true) (s : Text) : ofLine? (u ++ s ++ v) = ofLine? s := by
  have htrim : Text.trimWhiteSpace (u ++ s ++ v) = s.trimWhiteSpace :=
    Text.trim_append_append (fun c hc => isWhiteSpace_of_isBlank (hu c hc))
      (fun c hc => isWhiteSpace_of_isBlank (hv c hc)) s
  rw [ofLine?, htrim, ← ofLine?]

namespace Calculator

theorem respond_padded {u v : Text} (hu : ∀ c ∈ u, isBlank c = true)
    (hv : ∀ c ∈ v, isBlank c = true) (c : Calculator) (line : Text) :
    c.respond (u ++ line ++ v) = c.respond line := by
  rw [respond, respond, Command.ofLine?_append_append hu hv,
    evaluate_of_normalize_eq (normalize_append_append hu hv line)]

theorem respond_trimBlanks (c : Calculator) (line : Text) :
    c.respond line.trimBlanks = c.respond line := by
  obtain ⟨u, v, hline, hu, hv⟩ := Text.exists_append_trim isBlank line
  rw [← respond_padded hu hv, Text.trimBlanks, ← hline]

theorem respond_of_blank {line : Text} (h : line.trimBlanks = []) (c : Calculator) :
    c.respond line = (.silent, c) := by
  rw [← respond_trimBlanks, h]
  rfl

end Calculator

/-! ## The lines of a script -/

/-- One line after another: what the first one writes, and then the rest, unless it was an exit. -/
theorem scriptWritten_cons (verbose : Bool) (c : Calculator) (l : Text) (ls : List Text) :
    scriptWritten verbose (c.turns Calculator.scriptTurn (l :: ls)) =
      (c.respond l).1.written verbose ++
        if (c.respond l).1.isExit then .nothing
        else scriptWritten verbose ((c.respond l).2.turns Calculator.scriptTurn ls) := by
  show scriptWritten verbose (if (c.respond l).1.isExit then _ else _) = _
  cases (c.respond l).1.isExit with
  | true => rfl
  | false => rfl

/-- A script answers the trimmed lines that are not empty. -/
theorem scriptWritten_trimPieces (verbose : Bool) (c : Calculator) (ls : List Text) :
    scriptWritten verbose (c.turns Calculator.scriptTurn (trimPieces ls)) =
      scriptWritten verbose (c.turns Calculator.scriptTurn ls) := by
  induction ls generalizing c with
  | nil => rfl
  | cons l ls ih =>
    by_cases hl : l.trimBlanks = []
    · have hgone : trimPieces (l :: ls) = trimPieces ls := by simp [trimPieces, hl]
      rw [hgone, ih, scriptWritten_cons, Calculator.respond_of_blank hl]
      rfl
    · have hstays : trimPieces (l :: ls) = l.trimBlanks :: trimPieces ls := by
        simp [trimPieces, hl]
      rw [hstays, scriptWritten_cons, scriptWritten_cons, Calculator.respond_trimBlanks, ih]

/-! ## Content -/

namespace Text

/-- What is left of a text without its layout. -/
def content (s : Text) : List Text := trimPieces s.lines

theorem trimPieces_padded {u v : Text} (hu : ∀ c ∈ u, isBlank c = true)
    (hv : ∀ c ∈ v, isBlank c = true) (l : Text) : trimPieces [u ++ l ++ v] = trimPieces [l] := by
  have htrim : trimBlanks (u ++ l ++ v) = l.trimBlanks := trim_append_append hu hv l
  rw [trimPieces, List.map_singleton, htrim]
  rfl

theorem trimPieces_concat_return (l : Text) : trimPieces [l ++ ['\r']] = trimPieces [l] := by
  have hnil : ∀ c ∈ [], isBlank c = true := by simp
  have hreturn : ∀ c ∈ ['\r'], isBlank c = true := by simp [isBlank]
  exact trimPieces_padded hnil hreturn l

theorem content_of_not_mem {l : Text} (hl : '\n' ∉ l) : l.content = trimPieces [l] := by
  by_cases hne : l = []
  · rw [hne]
    rfl
  · rw [content, lines_of_not_mem hl hne]

theorem content_line {l : Text} (hl : '\n' ∉ l) (s : Text) :
    content (l ++ '\n' :: s) = trimPieces [l] ++ s.content := by
  have hline : trimPieces [l.withoutReturn] = trimPieces [l] := by
    rcases l.exists_withoutReturn with h | h
    · rw [← h]
    · rw [← trimPieces_concat_return, ← h]
  rw [content, lines_append_newline hl, ← hline]
  show trimPieces ([l.withoutReturn] ++ s.lines) = _
  rw [trimPieces, List.map_append, List.filter_append]
  rfl

/-- A line feed separates content. -/
theorem content_append_newline (s t : Text) :
    content (s ++ '\n' :: t) = s.content ++ t.content := by
  induction s using line_induction with
  | last l hl => rw [content_line hl, content_of_not_mem hl]
  | line l s hl ih =>
    rw [List.append_assoc, List.cons_append, content_line hl, ih, content_line hl,
      List.append_assoc]

theorem content_of_blank {s : Text} (h : ∀ c ∈ s, isBlank c = true) : s.content = [] := by
  induction s using line_induction with
  | last l hl =>
    have htrim : l.trimBlanks = [] := trim_eq_nil_iff.2 h
    rw [content_of_not_mem hl]
    simp [trimPieces, htrim]
  | line l s hl ih =>
    have htrim : l.trimBlanks = [] := trim_eq_nil_iff.2 fun c hc => h c (by simp [hc])
    rw [content_line hl, ih fun c hc => h c (by simp [hc])]
    simp [trimPieces, htrim]

theorem AtLineStart.content_append {s : Text} (hs : s.AtLineStart) (t : Text) :
    content (s ++ t) = s.content ++ t.content := by
  rcases hs with h | ⟨u, h⟩
  · rw [h]
    rfl
  · have hnil : content (u ++ ['\n']) = u.content := by
      rw [content_append_newline]
      exact List.append_nil _
    rw [h, hnil, List.append_assoc, List.singleton_append, content_append_newline]

theorem AtLineEnd.content_congr {s l l' : Text} (hs : s.AtLineEnd) (hl : '\n' ∉ l)
    (hl' : '\n' ∉ l') (h : trimPieces [l] = trimPieces [l']) :
    content (l ++ s) = content (l' ++ s) := by
  cases hs with
  | last =>
    rw [List.append_nil, List.append_nil, content_of_not_mem hl, content_of_not_mem hl', h]
  | feed t => rw [content_line hl, content_line hl', h]
  | returnFeed t =>
    have hreturn : ∀ w : Text, '\n' ∉ w →
        content (w ++ '\r' :: '\n' :: t) = trimPieces [w] ++ t.content := by
      intro w hw
      have hline : '\n' ∉ w ++ ['\r'] := by simp [hw]
      rw [← trimPieces_concat_return, ← content_line hline, List.append_assoc]
      rfl
    rw [hreturn l hl, hreturn l' hl', h]

theorem withReturns_of_not_mem {l : Text} (hl : '\n' ∉ l) : l.withReturns = l := by
  induction l with
  | nil => rfl
  | cons c l ih =>
    have hc : c ≠ '\n' := fun h => hl (h ▸ List.mem_cons_self)
    rw [withReturns, List.flatMap_cons, if_neg hc, ← withReturns,
      ih fun h => hl (List.mem_cons_of_mem c h)]
    rfl

theorem content_withReturns (s : Text) : s.withReturns.content = s.content := by
  induction s using line_induction with
  | last l hl => rw [withReturns_of_not_mem hl]
  | line l s hl ih =>
    have hline : '\n' ∉ l ++ ['\r'] := by simp [hl]
    have hsplit : withReturns (l ++ '\n' :: s) = (l ++ ['\r']) ++ '\n' :: s.withReturns := by
      rw [withReturns, List.flatMap_append, ← withReturns, withReturns_of_not_mem hl,
        List.append_assoc]
      rfl
    rw [hsplit, content_line hline, trimPieces_concat_return, ih, content_line hl]

/-- **A change of layout keeps the content.** -/
theorem Relaid.content_eq {s t : Text} (h : Relaid s t) : s.content = t.content := by
  cases h with
  | returns s => exact (content_withReturns s).symm
  | finalFeed s =>
    rw [content_append_newline]
    exact (List.append_nil _).symm
  | @padded u l v p q hu hl hv hp hq =>
    have hpad : '\n' ∉ p ++ l ++ q := by
      intro hmem
      rcases List.mem_append.1 hmem with hmem | hmem
      · rcases List.mem_append.1 hmem with hmem | hmem
        · exact (hp _ hmem).2 rfl
        · exact hl hmem
      · exact (hq _ hmem).2 rfl
    have htrim := trimPieces_padded (fun c hc => (hp c hc).1) (fun c hc => (hq c hc).1) l
    rw [List.append_assoc, List.append_assoc u, hu.content_append, hu.content_append,
      hv.content_congr hpad hl htrim]
  | inserted hu hw =>
    rw [hu.content_append, hu.content_append, content_append_newline, content_of_blank hw]
    rfl
  | appended hw =>
    rw [content_append_newline, content_of_blank hw]
    exact (List.append_nil _).symm

theorem content_eq_of_eqvGen {s t : Text} (h : Relation.EqvGen Relaid s t) :
    s.content = t.content := by
  induction h with
  | rel s t hstep => exact hstep.content_eq
  | refl s => rfl
  | symm s t _ ih => exact ih.symm
  | trans s t u _ _ ih ih' => exact ih.trans ih'

end Text

theorem scriptWritten_of_content_eq {s t : Text} (h : s.content = t.content) (verbose : Bool)
    (c : Calculator) :
    scriptWritten verbose (c.turns Calculator.scriptTurn s.lines) =
      scriptWritten verbose (c.turns Calculator.scriptTurn t.lines) := by
  rw [← scriptWritten_trimPieces, ← scriptWritten_trimPieces verbose c t.lines]
  exact congrArg (fun ls => scriptWritten verbose (c.turns Calculator.scriptTurn ls)) h

/-- **Layout does not matter.** Blanks at the ends of a line change neither the response to it nor
    what the calculator is left with, whatever the line and the calculator are. And two scripts whose
    texts differ in their layout only write the same and end with the same code. -/
theorem run_of_relaid :
    (∀ (c : Calculator) (line u v : Text), (∀ b ∈ u, isBlank b = true) →
      (∀ b ∈ v, isBlank b = true) → c.respond (u ++ line ++ v) = c.respond line) ∧
    ∀ (mode : PowerMode) (verbose : Bool) (file file' : Text → Option ByteArray)
      (path path' input input' s t : Text), Relation.EqvGen Text.Relaid s t →
      file path = some s.utf8Encode → file' path' = some t.utf8Encode →
      Invocation.perform file input ⟨mode, verbose, .run path⟩ =
        Invocation.perform file' input' ⟨mode, verbose, .run path'⟩ := by
  refine ⟨fun c line u v hu hv => Calculator.respond_padded hu hv c line, ?_⟩
  intro mode verbose file file' path path' input input' s t h hs ht
  rw [Invocation.perform_run hs, Invocation.perform_run ht,
    scriptWritten_of_content_eq (Text.content_eq_of_eqvGen h)]

/-- A script with its first line padded, a blank line before it, a line feed at the end, and a
    carriage return before every line feed. -/
theorem run_of_relaid_product :
    (Calculator.new .exact).respond " /help\r".toList =
      (Calculator.new .exact).respond "/help".toList ∧
    (Invocation.perform (fun _ => some (List.utf8Encode "\t\r\n a = 2 \r\na*3\r\n".toList)) []
        ⟨.modular, true, .run ['f']⟩).written.out = "6\n".toList := by
  have hblank : ∀ c ∈ [' '], isBlank c = true ∧ c ≠ '\n' := by simp [isBlank]
  have hpadded : Text.Relaid "a = 2\na*3".toList " a = 2 \na*3".toList :=
    .padded (.inl rfl) (l := "a = 2".toList) (by simp) (.feed "a*3".toList) hblank hblank
  have hinserted : Text.Relaid " a = 2 \na*3".toList "\t\n a = 2 \na*3".toList :=
    .inserted (.inl rfl) (w := ['\t']) (by simp [isBlank])
  have hfeed : Text.Relaid "\t\n a = 2 \na*3".toList "\t\n a = 2 \na*3\n".toList :=
    .finalFeed "\t\n a = 2 \na*3".toList
  have hreturns : Text.Relaid "\t\n a = 2 \na*3\n".toList "\t\r\n a = 2 \r\na*3\r\n".toList :=
    .returns "\t\n a = 2 \na*3\n".toList
  have hrelaid : Relation.EqvGen Text.Relaid "a = 2\na*3".toList
      "\t\r\n a = 2 \r\na*3\r\n".toList :=
    .trans _ _ _ (.trans _ _ _ (.rel _ _ hpadded) (.rel _ _ hinserted))
      (.trans _ _ _ (.rel _ _ hfeed) (.rel _ _ hreturns))
  obtain ⟨hline, hscript⟩ := run_of_relaid
  refine ⟨?_, ?_⟩
  · apply hline (.new .exact) "/help".toList [' '] ['\r']
    · simp [isBlank]
    · simp [isBlank]
  · rw [← hscript .modular true (fun _ => some (List.utf8Encode "a = 2\na*3".toList)) _ ['f'] _ [] _
      _ _ hrelaid rfl rfl, Invocation.perform_run rfl]
    rfl

end LineCalculator
