import LineCalculator.Proofs.Line.Assignment
import LineCalculator.Session

/-!
# What a session changes

A line changes at most one variable, and changes it only if it succeeds as an assignment. This is
the frame of a line (`Frame`), said of the environments before and after it and of its result, and
every request keeps to it: a command stops before anything is evaluated, and an evaluation writes
nothing before its result is there.

For a whole session it follows that nobody has to look at the lines. The results alone tell what
each variable is worth in the end: the last one that assigns to it decides, and without one it is
still what it was (`get?_afterAll`).
-/

set_option autoImplicit false

namespace LineCalculator

/-! ## One line -/

/-- What a line may do to the variables, by its result; a command has none. -/
structure Frame (line : Text) (env : Environment) (result : Option (Except LineError Outcome))
    (env' : Environment) : Prop where
  /-- An assignment changes its variable and no other. The value is the number on the right-hand
      side, or what the variable on the right-hand side was worth before the line. -/
  assigned : ∀ x v, result = some (.ok (.assigned x v)) →
    env'.get? x = some v ∧ (∀ y, y ≠ x → env'.get? y = env.get? y) ∧
      ∃ rhs, normalize line = x ++ '=' :: rhs ∧
        (Decimal.readInt? rhs = some v ∨ Decimal.readInt? rhs = none ∧ env.get? rhs = some v)
  /-- Nothing else changes anything. -/
  kept : (∀ x v, result ≠ some (.ok (.assigned x v))) → env' = env
  /-- There is one more variable if a fresh one is assigned, and otherwise there are as many. -/
  grown : env'.size = env.size ∨
    env'.size = env.size + 1 ∧ ∃ x v, result = some (.ok (.assigned x v)) ∧ env.get? x = none

theorem Frame.refl (line : Text) (env : Environment) {result : Option (Except LineError Outcome)}
    (h : ∀ x v, result ≠ some (.ok (.assigned x v))) : Frame line env result env where
  assigned := by
    intro x v hr
    exact absurd hr (h x v)
  kept := fun _ => rfl
  grown := Or.inl rfl

/-- **An evaluation keeps to its frame.** -/
theorem frame_evaluate (mode : PowerMode) (env : Environment) (line : Text) :
    Frame line env (some (evaluate mode env line).1) (evaluate mode env line).2 := by
  rw [evaluate_eq]
  dsimp only
  rcases env.record_cases (resultOf mode env line) with ⟨x, v, hr, hrecord⟩ | ⟨hne, hrecord⟩
  · obtain ⟨-, hrhs⟩ := exists_of_resultOf_eq_assigned hr
    rw [hrecord, hr]
    refine ⟨?_, ?_, ?_⟩
    · intro y a hy
      obtain ⟨rfl, rfl⟩ := Outcome.assigned.inj (Except.ok.inj (Option.some.inj hy))
      refine ⟨env.get?_define_self x v, ?_, hrhs⟩
      intro z hz
      rw [env.get?_define, if_neg (Ne.symm hz)]
    · intro h
      exact absurd rfl (h x v)
    · rw [env.size_define]
      cases hx : env.get? x with
      | none => exact Or.inr ⟨rfl, x, v, rfl, hx⟩
      | some a => exact Or.inl rfl
  · rw [hrecord]
    exact Frame.refl line env (by simpa using hne)

theorem Request.frame (c : Calculator) (r : Request) :
    Frame r.line c.env (r.result? c) (r.after c).env := by
  rw [Request.after_eq_evaluate, Request.result?]
  split
  · exact Frame.refl r.line c.env (by simp)
  · exact frame_evaluate (r.modeFor c) c.env r.line

/-! ## A whole session -/

/-- The value that a result gives to a variable, if it is an assignment to it. -/
def assignedTo? (x : Text) : Except LineError Outcome → Option Int
  | .ok (.assigned y v) => if y = x then some v else none
  | _ => none

theorem assignedTo?_eq_some_iff {x : Text} {result : Except LineError Outcome} {v : Int} :
    assignedTo? x result = some v ↔ result = .ok (.assigned x v) := by
  cases result with
  | error e => simp [assignedTo?]
  | ok o =>
    cases o with
    | value n => simp [assignedTo?]
    | blank => simp [assignedTo?]
    | assigned y a => simp [assignedTo?]

theorem Environment.get?_record (env : Environment) (result : Except LineError Outcome) (x : Text) :
    (env.record result).get? x = (assignedTo? x result).or (env.get? x) := by
  cases result with
  | error e => rfl
  | ok o =>
    cases o with
    | value n => rfl
    | blank => rfl
    | assigned y v =>
      show (env.define y v).get? x = (if y = x then some v else none).or (env.get? x)
      rw [env.get?_define]
      split <;> rfl

theorem Request.get?_after (c : Calculator) (r : Request) (x : Text) :
    (r.after c).env.get? x =
      ((r.result? c).bind (assignedTo? x)).or (c.env.get? x) := by
  rw [Request.after_eq]
  cases r.result? c with
  | none => rfl
  | some result => exact c.env.get?_record result x

/-- The last assignment to a variable decides what it is worth after a session. -/
theorem Calculator.get?_afterAll (c : Calculator) (rs : List Request) (x : Text) :
    (c.afterAll rs).env.get? x =
      ((c.results rs).reverse.findSome? (assignedTo? x)).or (c.env.get? x) := by
  induction rs generalizing c with
  | nil => rfl
  | cons r rs ih =>
    have hone : (r.result? c).toList.reverse.findSome? (assignedTo? x) =
        (r.result? c).bind (assignedTo? x) := by
      cases r.result? c with
      | none => rfl
      | some result => simp
    rw [Calculator.afterAll_cons, ih, Request.get?_after, Calculator.results, List.reverse_append,
      List.findSome?_append, hone, Option.or_assoc]

theorem Calculator.isSome_get?_afterAll (c : Calculator) (rs : List Request) {x : Text}
    (h : (c.env.get? x).isSome = true) : ((c.afterAll rs).env.get? x).isSome = true := by
  rw [c.get?_afterAll, Option.isSome_or, h, Bool.or_true]

/-- **Sessions change nothing but what they assign.** Whatever has been requested so far, in whatever
    modes and with whatever commands among it, one more request keeps to its frame; every variable
    is worth what was last assigned to it, or what it was worth in the beginning; and no further
    requests make it undefined. -/
theorem session_frame (c : Calculator) (rs : List Request) :
    (∀ r : Request, Frame r.line (c.afterAll rs).env (r.result? (c.afterAll rs))
      (c.afterAll (rs ++ [r])).env) ∧
    (∀ x, (c.afterAll rs).env.get? x =
      ((c.results rs).reverse.findSome? (assignedTo? x)).or (c.env.get? x)) ∧
    (∀ (x : Text) (more : List Request), ((c.afterAll rs).env.get? x).isSome = true →
      ((c.afterAll (rs ++ more)).env.get? x).isSome = true) := by
  refine ⟨?_, c.get?_afterAll rs, ?_⟩
  · intro r
    rw [Calculator.afterAll_append]
    exact Request.frame (c.afterAll rs) r
  · intro x more h
    rw [Calculator.afterAll_append]
    exact (c.afterAll rs).isSome_get?_afterAll more h

/-- The later assignment wins, the exit between the two changes nothing, and the failed line behind
    them does not undo it. -/
theorem session_frame_overwritten :
    ((Calculator.new .modular).afterAll
      [.evaluate .exact "a = 5".toList, .respond "/exit".toList, .respond "a = - -2".toList,
        .evaluate .modular "a = b".toList]).env.get? ['a'] = some 2 ∧
    (((Calculator.new .modular).afterAll
      ([.evaluate .exact "a = 5".toList] ++ [.respond "/exit".toList])).env.get? ['a']).isSome =
        true := by
  refine ⟨?_, ?_⟩
  · rw [(session_frame _ _).2.1]
    rfl
  · exact (session_frame _ _).2.2 ['a'] _ rfl

end LineCalculator
