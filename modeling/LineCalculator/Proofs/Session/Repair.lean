import LineCalculator.Proofs.Outcome.Faults
import LineCalculator.Proofs.Outcome.Unknown
import LineCalculator.Proofs.Session.Frame
import LineCalculator.Session
import Mathlib.Data.Finset.Card
import Mathlib.Data.Finset.Dedup
import Mathlib.Data.Nat.Count

/-!
# Repairing a line comes to an end

What a line reads without its having a value is `missing`, a part of the names that stand in the line.
A variable that is reported as unknown is missing (`mem_missing_of_unknown`), and no longer is once it
is defined, whatever its value. Evaluation itself takes no value away, so every round with a report
makes the missing variables fewer and no round makes them more (`Repair.card_missing_step`).

This counts the reports and not the rounds. An error of arithmetic hides the variables behind it, and
may be gone in another mode. Only within one mode is a round without a report the end of the reports
(`Repair.unknown?_succ_eq_none`).
-/

set_option autoImplicit false

namespace LineCalculator

variable {mode : PowerMode} {env : Environment} {line x : Text}

/-! ## What is missing -/

/-- What a line reads and has no value. -/
def missing (line : Text) (env : Environment) : Finset Text :=
  (readsOf line).toFinset.filter fun x => env.get? x = none

theorem mem_missing_iff : x ∈ missing line env ↔ x ∈ readsOf line ∧ env.get? x = none := by
  rw [missing, Finset.mem_filter, List.mem_toFinset]

theorem card_missing_le (line : Text) (env : Environment) :
    (missing line env).card ≤ (readsOf line).toFinset.card :=
  Finset.card_le_card (Finset.filter_subset _ _)

theorem mem_missing_of_unknown (h : (evaluate mode env line).1 = .error (.unknownVariable x)) :
    x ∈ missing line env := by
  obtain ⟨hnone, hasks⟩ := asksFirst_of_unknown h
  exact mem_missing_iff.2 ⟨hasks.mem_readsOf, hnone⟩

theorem missing_define (line : Text) (env : Environment) (x : Text) (v : Int) :
    missing line (env.define x v) = (missing line env).erase x := by
  ext y
  rw [Finset.mem_erase, mem_missing_iff, mem_missing_iff, env.get?_define]
  by_cases hxy : x = y
  · simp [hxy]
  · simp [hxy, Ne.symm hxy]

/-- An evaluation takes no value away. -/
theorem missing_evaluate_subset (mode : PowerMode) (env : Environment) (line : Text) :
    missing line (evaluate mode env line).2 ⊆ missing line env := by
  intro y hy
  obtain ⟨hread, hnone⟩ := mem_missing_iff.1 hy
  rw [snd_evaluate, env.get?_record, Option.or_eq_none_iff] at hnone
  exact mem_missing_iff.2 ⟨hread, hnone.2⟩

/-! ## Rounds -/

theorem evaluate_snd_of_error {e : LineError} (h : (evaluate mode env line).1 = .error e) :
    (evaluate mode env line).2 = env :=
  (frame_evaluate mode env line).kept (by simp [h])

theorem unknownOf?_eq_some_iff {result : Except LineError Outcome} :
    unknownOf? result = some x ↔ result = .error (.unknownVariable x) := by
  cases result with
  | ok o => simp [unknownOf?]
  | error e => cases e <;> simp [unknownOf?]

namespace Repair

theorem unknown?_eq_some_iff {r : Repair} {i : Nat} :
    r.unknown? line env i = some x ↔
      (evaluate (r.mode i) (r.before line env i) line).1 = .error (.unknownVariable x) :=
  unknownOf?_eq_some_iff

theorem before_succ_of_some {r : Repair} {i : Nat} (h : r.unknown? line env i = some x) :
    r.before line env (i + 1) = (r.before line env i).define x (r.value i) := by
  have herror := unknown?_eq_some_iff.1 h
  rw [unknown?] at h
  simp only [before, h]
  rw [evaluate_snd_of_error herror]

theorem before_succ_of_none {r : Repair} {i : Nat} (h : r.unknown? line env i = none) :
    r.before line env (i + 1) = (evaluate (r.mode i) (r.before line env i) line).2 := by
  rw [unknown?] at h
  simp only [before, h]

/-- A report costs one of the missing variables. -/
theorem card_missing_step (r : Repair) (line : Text) (env : Environment) (i : Nat) :
    (if (r.unknown? line env i).isSome then 1 else 0) + (missing line (r.before line env (i + 1))).card
      ≤ (missing line (r.before line env i)).card := by
  cases h : r.unknown? line env i with
  | none =>
    rw [before_succ_of_none h, Option.isSome_none, if_neg Bool.false_ne_true, Nat.zero_add]
    exact Finset.card_le_card (missing_evaluate_subset _ _ _)
  | some x =>
    have hmem : x ∈ missing line (r.before line env i) :=
      mem_missing_of_unknown (unknown?_eq_some_iff.1 h)
    rw [before_succ_of_some h, missing_define, Option.isSome_some, if_pos rfl, Nat.add_comm,
      Finset.card_erase_add_one hmem]

theorem count_add_card_missing_le (r : Repair) (line : Text) (env : Environment) (n : Nat) :
    Nat.count (fun i => (r.unknown? line env i).isSome) n + (missing line (r.before line env n)).card
      ≤ (missing line env).card := by
  induction n with
  | zero => rw [Nat.count_zero, Nat.zero_add, before]
  | succ n ih =>
    rw [Nat.count_succ, Nat.add_assoc]
    exact (Nat.add_le_add_left (r.card_missing_step line env n) _).trans ih

theorem count_le (r : Repair) (line : Text) (env : Environment) (n : Nat) :
    Nat.count (fun i => (r.unknown? line env i).isSome) n ≤ (readsOf line).toFinset.card :=
  calc Nat.count (fun i => (r.unknown? line env i).isSome) n
    _ ≤ Nat.count (fun i => (r.unknown? line env i).isSome) n +
          (missing line (r.before line env n)).card := Nat.le_add_right _ _
    _ ≤ (missing line env).card := r.count_add_card_missing_le line env n
    _ ≤ (readsOf line).toFinset.card := card_missing_le line env

/-- With one round more than there are names, not every round can have a report. -/
theorem exists_unknown?_eq_none (r : Repair) (line : Text) (env : Environment) :
    ∃ k ≤ (readsOf line).toFinset.card, r.unknown? line env k = none := by
  by_contra hall
  have hreport : ∀ k < (readsOf line).toFinset.card + 1, (r.unknown? line env k).isSome := by
    intro k hk
    rw [Option.isSome_iff_ne_none]
    intro hnone
    exact hall ⟨k, Nat.le_of_lt_succ hk, hnone⟩
  have hcount := r.count_le line env ((readsOf line).toFinset.card + 1)
  rw [Nat.count_of_forall hreport] at hcount
  exact Nat.not_succ_le_self _ hcount

/-- In one mode a round without a report is followed by no report: either the line has come to
    something and misses nothing, or it fails again as it has failed. -/
theorem unknown?_succ_eq_none {r : Repair} {i : Nat} (hmode : r.mode (i + 1) = r.mode i)
    (h : r.unknown? line env i = none) : r.unknown? line env (i + 1) = none := by
  cases hresult : (evaluate (r.mode i) (r.before line env i) line).1 with
  | error e =>
    rw [unknown?, hmode, before_succ_of_none h, evaluate_snd_of_error hresult]
    exact h
  | ok o =>
    by_contra hreport
    obtain ⟨x, hx⟩ := Option.ne_none_iff_exists'.1 hreport
    have hmem := mem_missing_of_unknown (unknown?_eq_some_iff.1 hx)
    rw [before_succ_of_none h] at hmem
    obtain ⟨hread, hnone⟩ := mem_missing_iff.1 (missing_evaluate_subset _ _ _ hmem)
    exact absurd (isSome_get?_of_ok hresult hread) (by simp [hnone])

theorem unknown?_eq_none_of_le {r : Repair} (hmode : ∀ i, r.mode (i + 1) = r.mode i) {k j : Nat}
    (hk : r.unknown? line env k = none) (hj : k ≤ j) : r.unknown? line env j = none := by
  induction j, hj using Nat.le_induction with
  | base => exact hk
  | succ j _ ih => exact unknown?_succ_eq_none (hmode j) ih

end Repair

/-- **An unknown variable is reported truthfully, and repairing the line comes to an end.** The
    variable has no value, and nothing that is looked up before it is unknown. An error of syntax is
    there before anything is looked up, so it is reported whatever the environment. And if the
    reported variable is given any value and the line is evaluated again, and so on, there are no more
    reports than the line has names, and in one mode they are the first rounds. -/
theorem unknown_repairable (line : Text) (env : Environment) :
    (∀ mode x, (evaluate mode env line).1 = .error (.unknownVariable x) →
      env.get? x = none ∧ AsksFirst env x (normalize line)) ∧
    (∀ text f, Line.classify (normalize line) = .ok (.expression text) →
      Postfix.ofText text = .error f → ∀ mode env', Reports mode env' line f) ∧
    ∀ r : Repair,
      (∀ n, Nat.count (fun i => (r.unknown? line env i).isSome) n ≤
        (readsOf line).toFinset.card) ∧
      ∃ k ≤ (readsOf line).toFinset.card, r.unknown? line env k = none ∧
        ((∀ i, r.mode (i + 1) = r.mode i) → ∀ j ≥ k, r.unknown? line env j = none) := by
  refine ⟨?_, ?_, ?_⟩
  · intro mode x h
    exact asksFirst_of_unknown h
  · intro text f hc hf mode env'
    have htext := Line.eq_of_classify_eq_expression (trimBlanks_normalize line) hc
    rw [htext] at hc hf
    exact reports_iff.2 ⟨hc, Or.inl hf⟩
  · intro r
    obtain ⟨k, hk, hnone⟩ := r.exists_unknown?_eq_none line env
    refine ⟨r.count_le line env, k, hk, hnone, ?_⟩
    intro hmode j hj
    exact Repair.unknown?_eq_none_of_le hmode hnone hj

/-- The second name is reported, if the first one has a value, and the open group before either; and
    two rounds repair two names for good, though the zeros that they get are of no use to the line. -/
theorem unknown_repairable_second_name :
    AsksFirst (Environment.empty.define ['a'] 2) ['b'] "a+b*a".toList ∧
      (∀ mode env, Reports mode env "b + (".toList .unclosedLeftParen) ∧
      ∀ j ≥ 2, (Repair.mk (fun _ => .modular) fun _ => 0).unknown? "a / b".toList .empty j = none := by
  refine ⟨?_, ?_, ?_⟩
  · exact ((unknown_repairable "a + b * a".toList _).1 .modular ['b'] rfl).2
  · exact (unknown_repairable "b + (".toList .empty).2.1 _ .unclosedLeftParen rfl rfl
  · intro j hj
    obtain ⟨-, k, hk, -, hstop⟩ := (unknown_repairable "a / b".toList .empty).2.2
      (Repair.mk (fun _ => .modular) fun _ => 0)
    have hcard : (readsOf "a / b".toList).toFinset.card = 2 := rfl
    exact hstop (fun _ => rfl) j ((hk.trans hcard.le).trans hj)

end LineCalculator
