/-!
# Text and trimming

A text is a list of characters. Every rule of the calculator reads a line from one end to the
other, so the recursion of the list is the induction principle of the rules, and no rule counts
bytes.

Trimming takes the characters to drop as a predicate, because two sets of blanks are in use: the
ASCII ones inside a line and the Unicode ones where a whole line is told apart from a command.
The main statement is `trim_eq_nil_iff`: trimming leaves nothing exactly when every character is
one to drop.
-/

set_option autoImplicit false

namespace LineCalculator

/-- A text is a list of characters. -/
abbrev Text := List Char

namespace Text

/-- Drop the longest run at the end of `s` whose characters all satisfy `p`. Read from the right, a
    droppable character goes exactly when nothing is kept behind it. -/
def trimEnd (p : Char → Bool) (s : Text) : Text :=
  s.foldr (fun c kept => if kept.isEmpty && p c then [] else c :: kept) []

/-- Drop the longest such run at each end. -/
def trim (p : Char → Bool) (s : Text) : Text :=
  trimEnd p (s.dropWhile p)

variable {p : Char → Bool}

@[simp] theorem trimEnd_nil : trimEnd p [] = [] := rfl

theorem trimEnd_cons (c : Char) (s : Text) :
    trimEnd p (c :: s) = if (trimEnd p s).isEmpty && p c then [] else c :: trimEnd p s := rfl

theorem trimEnd_eq_nil_iff {s : Text} : trimEnd p s = [] ↔ ∀ c ∈ s, p c = true := by
  induction s with
  | nil => simp
  | cons c s ih =>
    rw [trimEnd_cons, List.forall_mem_cons, ← ih]
    cases hs : trimEnd p s <;> simp

theorem mem_of_mem_trimEnd {c : Char} {s : Text} (h : c ∈ trimEnd p s) : c ∈ s := by
  induction s with
  | nil => exact h
  | cons d s ih =>
    rw [trimEnd_cons] at h
    split at h
    · exact absurd h (by simp)
    · rcases List.mem_cons.1 h with h | h
      · exact h ▸ List.mem_cons_self
      · exact List.mem_cons_of_mem d (ih h)

theorem trimEnd_append_of_pos {v : Text} (hv : ∀ c ∈ v, p c = true) (s : Text) :
    trimEnd p (s ++ v) = trimEnd p s := by
  induction s with
  | nil => exact trimEnd_eq_nil_iff.2 hv
  | cons c s ih => rw [List.cons_append, trimEnd_cons, trimEnd_cons, ih]

theorem exists_append_trimEnd (p : Char → Bool) (s : Text) :
    ∃ v, s = trimEnd p s ++ v ∧ ∀ c ∈ v, p c = true := by
  induction s with
  | nil => exact ⟨[], rfl, by simp⟩
  | cons c s ih =>
    rw [trimEnd_cons]
    split
    · next hdrop =>
      obtain ⟨hend, hc⟩ : trimEnd p s = [] ∧ p c = true := by simpa using hdrop
      exact ⟨c :: s, rfl, List.forall_mem_cons.2 ⟨hc, trimEnd_eq_nil_iff.1 hend⟩⟩
    · obtain ⟨v, hs, hv⟩ := ih
      exact ⟨v, congrArg (c :: ·) hs, hv⟩

@[simp] theorem trim_nil : trim p [] = [] := rfl

theorem trim_cons_of_pos {c : Char} (hc : p c = true) (s : Text) :
    trim p (c :: s) = trim p s := by
  simp [trim, hc]

theorem trim_cons_of_neg {c : Char} (hc : p c = false) (s : Text) :
    trim p (c :: s) = c :: trimEnd p s := by
  simp [trim, hc, trimEnd_cons]

theorem trim_append_of_pos {u : Text} (hu : ∀ c ∈ u, p c = true) (s : Text) :
    trim p (u ++ s) = trim p s := by
  induction u with
  | nil => rfl
  | cons c u ih =>
    obtain ⟨hc, hu⟩ := List.forall_mem_cons.1 hu
    rw [List.cons_append, trim_cons_of_pos hc, ih hu]

/-- What is to be dropped may stand at both ends. -/
theorem trim_append_append {u v : Text} (hu : ∀ c ∈ u, p c = true) (hv : ∀ c ∈ v, p c = true)
    (s : Text) : trim p (u ++ s ++ v) = trim p s := by
  rw [List.append_assoc, trim_append_of_pos hu]
  induction s with
  | nil =>
    have hnil := trim_append_of_pos hv []
    rwa [List.append_nil] at hnil
  | cons c s ih =>
    rw [List.cons_append]
    cases hc : p c with
    | true => rw [trim_cons_of_pos hc, trim_cons_of_pos hc, ih]
    | false => rw [trim_cons_of_neg hc, trim_cons_of_neg hc, trimEnd_append_of_pos hv]

/-- A text is what trimming leaves, between what it drops. -/
theorem exists_append_trim (p : Char → Bool) (s : Text) :
    ∃ u v, s = u ++ trim p s ++ v ∧ (∀ c ∈ u, p c = true) ∧ ∀ c ∈ v, p c = true := by
  obtain ⟨v, hs, hv⟩ := exists_append_trimEnd p (s.dropWhile p)
  refine ⟨s.takeWhile p, v, ?_, ?_, hv⟩
  · rw [List.append_assoc, trim, ← hs, List.takeWhile_append_dropWhile]
  · intro c hc
    exact List.all_eq_true.1 List.all_takeWhile c hc

theorem mem_of_mem_trim {c : Char} {s : Text} (h : c ∈ trim p s) : c ∈ s :=
  (List.dropWhile_sublist p).subset (mem_of_mem_trimEnd h)

/-- Trimming leaves nothing exactly when every character is one to drop. -/
theorem trim_eq_nil_iff {s : Text} : trim p s = [] ↔ ∀ c ∈ s, p c = true := by
  induction s with
  | nil => simp
  | cons c s ih =>
    cases hc : p c with
    | true => rw [trim_cons_of_pos hc, ih]; simp [hc]
    | false => rw [trim_cons_of_neg hc]; simp [hc]

end Text

end LineCalculator
