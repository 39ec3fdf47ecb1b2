import LineCalculator.Proofs.Line.Literal
import LineCalculator.Proofs.Session.Frame

/-!
# What is shown can be typed

The text of an outcome is a line of its own: a value is shown as a numeral, an assignment as the
assignment of a numeral, and a blank line as the empty text. None of these asks the environment or
takes a power. So the line that is shown comes to the same outcome again, in any mode, and after the
line that it is shown for there is nothing left to change: assigning a value that a variable already
has is no change.
-/

set_option autoImplicit false

namespace LineCalculator

variable {mode : PowerMode} {env : Environment} {x : Text} {v : Int}

theorem Environment.define_of_get? (h : env.get? x = some v) : env.define x v = env := by
  apply ext_get?
  intro y
  rw [get?_define]
  split
  · next hxy => rw [← hxy, h]
  · rfl

/-! ## Lines that are shown -/

theorem evaluate_ofInt (mode : PowerMode) (env : Environment) (v : Int) :
    evaluate mode env (Decimal.ofInt v) = (.ok (.value v), env) := by
  have hnumeral := Decimal.signedNumeral_ofInt v
  have hresult : resultOf mode env (Decimal.ofInt v) = .ok (.value v) := by
    apply resultOf_of_numeral
    rwa [hnumeral.normalize_eq]
  rw [evaluate_eq, hresult]
  rfl

theorem normalize_display_assigned (hx : x.isName = true) (v : Int) :
    normalize (Outcome.assigned x v).display = x ++ '=' :: Decimal.ofInt v := by
  have hsplit : (Outcome.assigned x v).display =
      [] ++ x ++ [' '] ++ '=' :: (' ' :: Decimal.ofInt v) := by
    simp [Outcome.display]
  rw [hsplit, normalize_assignment (by simp) (Text.isWord_of_isName hx) (by simp [isBlank]),
    normalize_cons_of_isBlank rfl, (Decimal.signedNumeral_ofInt v).normalize_eq]

theorem evaluate_display_assigned (mode : PowerMode) (env : Environment) (hx : x.isName = true)
    (v : Int) : evaluate mode env (Outcome.assigned x v).display =
      (.ok (.assigned x v), env.define x v) := by
  have hresult : resultOf mode env (Outcome.assigned x v).display = .ok (.assigned x v) :=
    resultOf_of_assigned_numeral hx (Decimal.signedNumeral_ofInt v) (normalize_display_assigned hx v)
  rw [evaluate_eq, hresult]
  rfl

/-- The outcome of a line, typed as it is shown, comes to itself again. -/
theorem evaluate_display {line : Text} {o : Outcome} (mode' : PowerMode)
    (h : (evaluate mode env line).1 = .ok o) :
    evaluate mode' (evaluate mode env line).2 o.display = (.ok o, (evaluate mode env line).2) := by
  rw [fst_evaluate] at h
  rw [snd_evaluate, h]
  cases o with
  | value v => exact evaluate_ofInt mode' env v
  | blank => rfl
  | assigned x v =>
    obtain ⟨hx, -⟩ := exists_of_resultOf_eq_assigned h
    show evaluate mode' (env.define x v) _ = (_, env.define x v)
    rw [evaluate_display_assigned mode' _ hx,
      Environment.define_of_get? (env.get?_define_self x v)]

/-! ## Variables that are shown -/

namespace Calculator

variable {c : Calculator}

/-- A variable that no request assigns is worth what it was worth. -/
theorem get?_afterAll_of_not_assigned (rs : List Request)
    (h : ∀ r ∈ c.results rs, ∀ w, r ≠ .ok (.assigned x w)) :
    (c.afterAll rs).env.get? x = c.env.get? x := by
  have hnone : (c.results rs).reverse.findSome? (assignedTo? x) = none := by
    rw [List.findSome?_eq_none_iff]
    intro r hr
    rw [Option.eq_none_iff_forall_ne_some]
    intro w hw
    exact h r (List.mem_reverse.1 hr) w (assignedTo?_eq_some_iff.1 hw)
  rw [c.get?_afterAll, hnone, Option.none_or]

theorem respond_name (hx : x.isName = true) (h : c.env.get? x = some v) :
    c.respond x = (.print (Decimal.ofInt v), c) := by
  have hcommand : Command.ofLine? x = none := by
    have hline := Command.ofLine?_of_isName (u := []) (by simp) hx []
    rwa [List.nil_append, List.append_nil] at hline
  have hresult : resultOf c.mode c.env x = .ok (.value v) := by
    have hnormal := (Text.isWord_of_isName hx).normalize_eq
    rw [resultOf_of_lookup (by rwa [hnormal]), hnormal, Environment.lookup, h]
    rfl
  rw [respond_of_ofLine? hcommand, hresult]
  rfl

end Calculator

/-- **What is shown of an outcome reads back as that outcome**, in either mode, and changes nothing.
    In particular every integer is printed as a line that has it as its value, an assignment of the
    printed integer assigns it to any name, and from then on the name prints the same text, until a
    request assigns to the name again. -/
theorem display_reads_back :
    (∀ (mode mode' : PowerMode) (env : Environment) (line : Text) (o : Outcome),
      (evaluate mode env line).1 = .ok o →
        evaluate mode' (evaluate mode env line).2 o.display =
          (.ok o, (evaluate mode env line).2)) ∧
    ∀ (mode : PowerMode) (env : Environment) (v : Int),
      evaluate mode env (Decimal.ofInt v) = (.ok (.value v), env) ∧
      ∀ x : Text, x.isName = true →
        evaluate mode env (x ++ " = ".toList ++ Decimal.ofInt v) =
          (.ok (.assigned x v), env.define x v) ∧
        ∀ (mode' : PowerMode) (rs : List Request) (c : Calculator),
          (Calculator.mk mode' (env.define x v)).afterAll rs = c →
          (∀ r ∈ (Calculator.mk mode' (env.define x v)).results rs,
            ∀ w, r ≠ .ok (.assigned x w)) →
              c.respond x = (.print (Decimal.ofInt v), c) := by
  refine ⟨fun mode mode' env line o => evaluate_display mode', ?_⟩
  intro mode env v
  refine ⟨evaluate_ofInt mode env v, ?_⟩
  intro x hx
  refine ⟨evaluate_display_assigned mode env hx v, ?_⟩
  intro mode' rs c hc hkept
  apply Calculator.respond_name hx
  rw [← hc, Calculator.get?_afterAll_of_not_assigned rs hkept]
  exact env.get?_define_self x v

/-- A difference is shown with its sign, and the assignment of a sign run with the one sign that it
    means. -/
theorem display_reads_back_negative :
    evaluate .exact .empty "-3".toList = (.ok (.value (-3)), .empty) ∧
    evaluate .exact (Environment.empty.define ['a'] (-7)) "a = -7".toList =
      (.ok (.assigned ['a'] (-7)), Environment.empty.define ['a'] (-7)) := by
  have hvalue : evaluate .modular .empty "7 - 10".toList = (.ok (.value (-3)), .empty) := rfl
  have hassigned : evaluate .modular .empty "a = -+-- 7".toList =
      (.ok (.assigned ['a'] (-7)), Environment.empty.define ['a'] (-7)) := rfl
  have hfirst := display_reads_back.1 .modular .exact .empty "7 - 10".toList (.value (-3))
    (congrArg Prod.fst hvalue)
  have hsecond := display_reads_back.1 .modular .exact .empty "a = -+-- 7".toList
    (.assigned ['a'] (-7)) (congrArg Prod.fst hassigned)
  rw [hvalue] at hfirst
  rw [hassigned] at hsecond
  exact ⟨hfirst, hsecond⟩

end LineCalculator
