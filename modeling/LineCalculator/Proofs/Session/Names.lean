import LineCalculator.Proofs.Session.Frame

/-!
# Which variables a session can define

A session that starts without variables defines names only. The invariant is `NamesOnly`, and one
line keeps it because an assignment judges its left side before anything else.

A sign in front of a variable on the right of an assignment is no operation but a part of the text
that is looked up. A text with a sign is no name, so by the invariant there never is such a variable:
`b = -a` fails in every environment that a session can reach, whether `a` is defined or not, while
`b = a` fails only if `a` is not. Both hold for every way of typing the line, and whether it is
evaluated or responded to, since no line that starts with a name is a command.
-/

set_option autoImplicit false

namespace LineCalculator

/-! ## The invariant -/

/-- Every variable is a name. -/
def Environment.NamesOnly (env : Environment) : Prop :=
  ∀ x v, env.get? x = some v → x.isName = true

theorem Environment.NamesOnly.evaluate {env : Environment} (h : env.NamesOnly) (mode : PowerMode)
    (line : Text) : (evaluate mode env line).2.NamesOnly := by
  intro y a hy
  have hget : ((assignedTo? y (resultOf mode env line)).or (env.get? y)) = some a := by
    rw [← env.get?_record, ← snd_evaluate]
    exact hy
  rcases Option.or_eq_some_iff.1 hget with hassigned | ⟨-, hold⟩
  · exact (exists_of_resultOf_eq_assigned (assignedTo?_eq_some_iff.1 hassigned)).1
  · exact h y a hold

theorem Reachable.namesOnly {env : Environment} (h : Reachable env) : env.NamesOnly := by
  induction h with
  | empty =>
    intro x v hx
    exact absurd hx (by simp)
  | step mode line _ ih => exact ih.evaluate mode line

/-- Requests lead to reachable environments only, commands by staying where they are. -/
theorem Reachable.after {c : Calculator} (h : Reachable c.env) (r : Request) :
    Reachable (r.after c).env := by
  rw [Request.after_eq_evaluate]
  split
  · exact h
  · exact h.step (r.modeFor c) r.line

theorem Reachable.afterAll {c : Calculator} (h : Reachable c.env) (rs : List Request) :
    Reachable (c.afterAll rs).env := by
  induction rs generalizing c with
  | nil => exact h
  | cons r rs ih => exact ih (h.after r)

/-! ## Assigning a name -/

/-- The line assigns the name `y`, behind the text `m`, to the name `x`. There may be blanks around
    `x` and behind `y`; those on the other side of the equals sign are part of `m`. -/
structure AssignsName (line x m y : Text) : Prop where
  target : x.isName = true
  source : y.isName = true
  text : ∃ u w v : Text, line = u ++ x ++ w ++ '=' :: (m ++ y ++ v) ∧
    ∀ c ∈ u ++ w ++ v, isBlank c = true

namespace AssignsName

variable {line x m y : Text}

theorem ofLine?_eq_none (h : AssignsName line x m y) : Command.ofLine? line = none := by
  obtain ⟨u, w, v, rfl, hblank⟩ := h.text
  rw [List.append_assoc (u ++ x)]
  exact Command.ofLine?_of_isName (fun b hb => hblank b (by simp [hb])) h.target _

theorem exists_normalize (h : AssignsName line x m y) :
    ∃ v, (∀ c ∈ v, isBlank c = true) ∧ normalize line = x ++ '=' :: normalize (m ++ y ++ v) := by
  obtain ⟨u, w, v, rfl, hblank⟩ := h.text
  refine ⟨v, fun b hb => hblank b (by simp [hb]), ?_⟩
  exact normalize_assignment (fun b hb => hblank b (by simp [hb])) (Text.isWord_of_isName h.target)
    (fun b hb => hblank b (by simp [hb])) _

/-- With signs, the sign that they mean is part of the name that is looked up. -/
theorem resultOf_of_signs (h : AssignsName line x m y) (hm : IsSignRun m) (mode : PowerMode)
    (env : Environment) :
    resultOf mode env line = (env.lookup (signOf m :: y)).map (.assigned x) := by
  obtain ⟨v, hv, hline⟩ := h.exists_normalize
  rw [normalize_signed_word hm (Text.isWord_of_isName h.source) hv] at hline
  refine resultOf_of_name h.target ?_ hline
  rw [Decimal.dropSign, if_pos (isSign_signOf m)]
  exact h.source

theorem resultOf_of_blanks (h : AssignsName line x m y) (hm : ∀ c ∈ m, isBlank c = true)
    (mode : PowerMode) (env : Environment) :
    resultOf mode env line = (env.lookup y).map (.assigned x) := by
  obtain ⟨v, hv, hline⟩ := h.exists_normalize
  rw [normalize_word hm (Text.isWord_of_isName h.source) hv] at hline
  refine resultOf_of_name h.target ?_ hline
  obtain ⟨c, u, hy, -, hsign⟩ := (Text.isWord_of_isName h.source).exists_cons
  rw [hy, Decimal.dropSign_cons hsign, ← hy]
  exact h.source

end AssignsName

/-! ## Signed variables -/

theorem Request.result?_of_ofLine? {r : Request} (h : Command.ofLine? r.line = none)
    (c : Calculator) : r.result? c = some (resultOf (r.modeFor c) c.env r.line) := by
  have hcommand : r.isCommand = false := by
    cases r with
    | evaluate mode l => rfl
    | respond l =>
      show (Command.ofLine? l).isSome = false
      rw [show Command.ofLine? l = none from h, Option.isSome_none]
  rw [Request.result?, hcommand, fst_evaluate]
  rfl

/-- A text with a sign in front is no name. -/
theorem Environment.NamesOnly.lookup_signed {env : Environment} (h : env.NamesOnly) {c : Char}
    (hc : isSign c = true) (y : Text) :
    env.lookup (c :: y) = .error (.unknownVariable (c :: y)) := by
  rw [Environment.lookup]
  cases hget : env.get? (c :: y) with
  | none => rfl
  | some a =>
    have hletter := (Text.isName_iff.1 (h _ a hget)).2 c List.mem_cons_self
    exact absurd hletter (by simp [isAlpha_of_isBoundary (isBoundary_of_isSign hc)])

/-- **Sessions define names only, so a signed variable is never assigned**, whether or not the
    variable behind the signs is defined. Without signs an assignment succeeds exactly if it is. -/
theorem signed_variable_unknown {mode : PowerMode} {rs : List Request} {c : Calculator}
    (hc : (Calculator.new mode).afterAll rs = c) :
    (∀ x v, c.env.get? x = some v → x.isName = true) ∧
    (∀ (r : Request) (x m y : Text), AssignsName r.line x m y → IsSignRun m →
      r.result? c = some (.error (.unknownVariable (signOf m :: y))) ∧ r.after c = c) ∧
    (∀ (r : Request) (x m y : Text), AssignsName r.line x m y → (∀ b ∈ m, isBlank b = true) →
      (∀ v, r.result? c = some (.ok (.assigned x v)) ↔ c.env.get? y = some v) ∧
      (c.env.get? y = none → r.result? c = some (.error (.unknownVariable y)))) := by
  have hnames : c.env.NamesOnly := by
    rw [← hc]
    have hempty : Reachable (Calculator.new mode).env := .empty
    exact (hempty.afterAll rs).namesOnly
  refine ⟨hnames, ?_, ?_⟩
  · intro r x m y hline hm
    have hresult : r.result? c = some (.error (.unknownVariable (signOf m :: y))) := by
      rw [Request.result?_of_ofLine? hline.ofLine?_eq_none, hline.resultOf_of_signs hm,
        hnames.lookup_signed (isSign_signOf m)]
      rfl
    refine ⟨hresult, ?_⟩
    rw [Request.after_eq, hresult]
    rfl
  · intro r x m y hline hm
    rw [Request.result?_of_ofLine? hline.ofLine?_eq_none, hline.resultOf_of_blanks hm]
    constructor
    · intro v
      rw [← Environment.lookup_eq_ok_iff]
      simp [map_eq_ok_iff]
    · intro hy
      rw [Environment.lookup, hy]
      rfl

/-- The variable is defined, and only the signs keep it from being assigned. -/
theorem signed_variable_unknown_defined :
    let c := (Calculator.new .modular).afterAll [.evaluate .exact "a = 5".toList]
    (Request.respond "b = -+- -a ".toList).result? c =
      some (.error (.unknownVariable "-a".toList)) ∧
    (Request.evaluate .modular "b =  a ".toList).result? c = some (.ok (.assigned ['b'] 5)) := by
  intro c
  have hc : (Calculator.new .modular).afterAll [.evaluate .exact "a = 5".toList] = c := rfl
  obtain ⟨-, hsigned, hplain⟩ := signed_variable_unknown hc
  have hsigns : AssignsName "b = -+- -a ".toList ['b'] [' ', '-', '+', '-', ' ', '-'] ['a'] :=
    ⟨rfl, rfl, [], [' '], [' '], rfl, by simp [isBlank]⟩
  have hblanks : AssignsName "b =  a ".toList ['b'] [' ', ' '] ['a'] :=
    ⟨rfl, rfl, [], [' '], [' '], rfl, by simp [isBlank]⟩
  have hrun : IsSignRun [' ', '-', '+', '-', ' ', '-'] :=
    ⟨by simp [isSign, isBlank], '-', by simp, rfl⟩
  refine ⟨(hsigned (.respond _) _ _ _ hsigns hrun).1, ?_⟩
  exact ((hplain (.evaluate .modular _) _ _ _ hblanks (by simp [isBlank])).1 5).2 rfl

end LineCalculator
