import Mathlib.Data.List.Infix
import Mathlib.Tactic.Common

/-!
# First occurrence of a pattern in a list

`find pat l` is the position of the first occurrence of `pat` in `l`, and the
length of `l` when there is none. The results say how that position behaves when
`l` is cut short or extended, for an arbitrary alphabet.
-/

namespace PatternSearch

variable {α : Type*} [DecidableEq α]

def find (pat : List α) : List α → ℕ
  | [] => 0
  | a :: l => if pat <+: a :: l then 0 else find pat l + 1

@[simp] theorem find_nil (pat : List α) : find pat [] = 0 := rfl

theorem find_le_length (pat l : List α) : find pat l ≤ l.length := by
  induction l with
  | nil => simp
  | cons a l ih =>
    simp only [find, List.length_cons]
    split <;> omega

/-- At a position inside the list the pattern really stands there. -/
theorem prefix_drop_find {pat l : List α} (h : find pat l < l.length) :
    pat <+: l.drop (find pat l) := by
  induction l with
  | nil => simp at h
  | cons a l ih =>
    by_cases hp : pat <+: a :: l
    · simp [find, hp]
    · simp only [find, hp, if_false, List.length_cons, List.drop_succ_cons] at h ⊢
      exact ih (by omega)

theorem not_prefix_drop_of_lt_find {pat l : List α} {i : ℕ} (h : i < find pat l) :
    ¬ pat <+: l.drop i := by
  induction l generalizing i with
  | nil => simp at h
  | cons a l ih =>
    by_cases hp : pat <+: a :: l
    · simp [find, hp] at h
    · simp only [find, hp, if_false] at h
      cases i with
      | zero => simpa using hp
      | succ i => simpa using ih (by omega : i < find pat l)

/-- The position is determined by an occurrence that no earlier one precedes. -/
theorem find_eq {pat l : List α} {i : ℕ} (hi : i < l.length) (hp : pat <+: l.drop i)
    (hmin : ∀ j < i, ¬ pat <+: l.drop j) : find pat l = i := by
  induction l generalizing i with
  | nil => simp at hi
  | cons a l ih =>
    cases i with
    | zero => simp only [List.drop_zero] at hp; simp [find, hp]
    | succ i =>
      have h0 : ¬ pat <+: a :: l := by simpa using hmin 0 (by omega)
      simp only [find, h0, if_false, Nat.add_right_cancel_iff]
      refine ih (by simpa using hi) (by simpa using hp) ?_
      intro j hj
      simpa using hmin (j + 1) (by omega)

theorem find_add_length_le {pat l : List α} (h : find pat l < l.length) :
    find pat l + pat.length ≤ l.length := by
  have := (prefix_drop_find h).length_le
  simp only [List.length_drop] at this
  omega

/-- A found occurrence stays the first one when the list is extended. -/
theorem find_append {pat l : List α} (h : find pat l < l.length) (r : List α) :
    find pat (l ++ r) = find pat l := by
  refine find_eq (by simp only [List.length_append]; omega) ?_ ?_
  · rw [List.drop_append_of_le_length h.le]
    exact (prefix_drop_find h).trans (List.prefix_append _ _)
  · intro j hj hp
    refine not_prefix_drop_of_lt_find hj ?_
    have hfit := find_add_length_le h
    rw [List.drop_append_of_le_length (by omega)] at hp
    refine List.prefix_of_prefix_length_le hp (List.prefix_append _ _) ?_
    simp only [List.length_drop]
    omega

/-- An occurrence that ends inside the left part is found there. -/
theorem find_of_append {pat l r : List α} (hpat : pat ≠ [])
    (h : find pat (l ++ r) + pat.length ≤ l.length) : find pat l = find pat (l ++ r) := by
  have hpos : 0 < pat.length := List.length_pos_iff.mpr hpat
  have hlt : find pat (l ++ r) < (l ++ r).length := by
    simp only [List.length_append]
    omega
  have shorten : ∀ j, j + pat.length ≤ l.length →
      (pat <+: (l ++ r).drop j ↔ pat <+: l.drop j) := by
    intro j hj
    rw [List.drop_append_of_le_length (by omega)]
    constructor
    · intro hp
      exact List.prefix_of_prefix_length_le hp (List.prefix_append _ _)
        (by simp only [List.length_drop]; omega)
    · intro hp
      exact hp.trans (List.prefix_append _ _)
  refine find_eq (by omega) ((shorten _ h).mp (prefix_drop_find hlt)) ?_
  intro j hj hp
  exact not_prefix_drop_of_lt_find hj ((shorten j (by omega)).mpr hp)

end PatternSearch
