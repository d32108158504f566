import Mathlib.Data.Nat.Notation
import Mathlib.Tactic.Common

/-!
# Incremental decoders

A decoder is shown the input that has arrived and answers how much of it it used
and whether it needs more, goes on, has reached the end of its message or fails.
`Run` is the big-step meaning of driving it over one input. For a decoder whose
answers survive the arrival of more input (`Resumable`), a run that stopped for
lack of input can be resumed later, and where the input was cut does not matter.
-/

namespace IncrementalDecoder

variable {α σ ε : Type*}

/-- `n` is the number of elements used. -/
inductive Verdict (σ ε : Type*) where
  | more (s : σ) (n : ℕ)
  | next (s : σ) (n : ℕ)
  | done (s : σ) (n : ℕ)
  | fail (e : ε)

inductive Outcome (σ ε : Type*) where
  | more (s : σ) (n : ℕ)
  | done (s : σ) (n : ℕ)
  | fail (e : ε)

def Verdict.used : Verdict σ ε → ℕ
  | .more _ n => n
  | .next _ n => n
  | .done _ n => n
  | .fail _ => 0

def Outcome.used : Outcome σ ε → ℕ
  | .more _ n => n
  | .done _ n => n
  | .fail _ => 0

/-- Count `k` elements that were used before. -/
def Verdict.shift (k : ℕ) : Verdict σ ε → Verdict σ ε
  | .more s n => .more s (k + n)
  | .next s n => .next s (k + n)
  | .done s n => .done s (k + n)
  | .fail e => .fail e

def Outcome.shift (k : ℕ) : Outcome σ ε → Outcome σ ε
  | .more s n => .more s (k + n)
  | .done s n => .done s (k + n)
  | .fail e => .fail e

/-- After a verdict on `u` the input `v` arrives: the decoder is asked again if it asked for
more. -/
def Verdict.resume (step : σ → List α → Verdict σ ε) (u v : List α) : Verdict σ ε → Verdict σ ε
  | .more s n => (step s (u.drop n ++ v)).shift n
  | .next s n => .next s n
  | .done s n => .done s n
  | .fail e => .fail e

@[simp] theorem Verdict.shift_zero (v : Verdict σ ε) : v.shift 0 = v := by
  cases v <;> simp [Verdict.shift]

@[simp] theorem Outcome.shift_zero (o : Outcome σ ε) : o.shift 0 = o := by
  cases o <;> simp [Outcome.shift]

theorem Outcome.shift_shift (a b : ℕ) (o : Outcome σ ε) :
    (o.shift a).shift b = o.shift (b + a) := by
  cases o <;> simp [Outcome.shift, Nat.add_assoc]

/-- Drive `step` over an input until it does not say `next`. -/
inductive Run (step : σ → List α → Verdict σ ε) : σ → List α → Outcome σ ε → Prop where
  | more {s s' u n} (h : step s u = .more s' n) : Run step s u (.more s' n)
  | done {s s' u n} (h : step s u = .done s' n) : Run step s u (.done s' n)
  | fail {s u e} (h : step s u = .fail e) : Run step s u (.fail e)
  | next {s s' u n o} (h : step s u = .next s' n) (rest : Run step s' (u.drop n) o) :
      Run step s u (o.shift n)

variable {step : σ → List α → Verdict σ ε} {s s' : σ} {u v : List α} {n : ℕ} {e : ε}
  {o o' : Outcome σ ε}

theorem Run.unique (h : Run step s u o) (h' : Run step s u o') : o = o' := by
  induction h generalizing o' with
  | more h =>
    cases h' <;> simp_all
  | done h =>
    cases h' <;> simp_all
  | fail h =>
    cases h' <;> simp_all
  | next h rest ih =>
    cases h' with
    | more h' => simp [h] at h'
    | done h' => simp [h] at h'
    | fail h' => simp [h] at h'
    | next h' rest' =>
      obtain ⟨rfl, rfl⟩ := Verdict.next.inj (h.symm.trans h')
      rw [ih rest']

/-- A rank that drops with every `next` bounds the run. -/
theorem exists_run (rank : σ → List α → ℕ)
    (decreases : ∀ s u s' n, step s u = .next s' n → rank s' (u.drop n) < rank s u)
    (s : σ) (u : List α) : ∃ o, Run step s u o := by
  induction hk : rank s u using Nat.strongRecOn generalizing s u with
  | ind k ih =>
    cases h : step s u with
    | more s' n => exact ⟨_, .more h⟩
    | done s' n => exact ⟨_, .done h⟩
    | fail e => exact ⟨_, .fail h⟩
    | next s' n =>
      obtain ⟨o, rest⟩ := ih _ (hk ▸ decreases s u s' n h) s' (u.drop n) rfl
      exact ⟨_, .next h rest⟩

/-- The decoder never uses more than it is shown, and input that arrives later changes nothing
about what it said of the earlier input. -/
structure Resumable (step : σ → List α → Verdict σ ε) : Prop where
  used_le : ∀ s u, (step s u).used ≤ u.length
  append : ∀ s u v, step s (u ++ v) = (step s u).resume step u v

namespace Resumable

variable (resumable : Resumable step)
include resumable

theorem next_le (h : step s u = .next s' n) : n ≤ u.length := by
  simpa [h, Verdict.used] using resumable.used_le s u

theorem more_le (h : step s u = .more s' n) : n ≤ u.length := by
  simpa [h, Verdict.used] using resumable.used_le s u

theorem next_append (h : step s u = .next s' n) (v : List α) :
    step s (u ++ v) = .next s' n := by
  rw [resumable.append, h]
  rfl

theorem run_used_le (h : Run step s u o) : o.used ≤ u.length := by
  induction h with
  | more h => exact resumable.more_le h
  | @done s s' u n h => simpa [h, Verdict.used, Outcome.used] using resumable.used_le s u
  | fail h => exact Nat.zero_le _
  | @next s s' u n o h rest ih =>
    have hn := resumable.next_le h
    rw [List.length_drop] at ih
    cases o <;> simp only [Outcome.used, Outcome.shift] at ih ⊢ <;> omega

theorem run_done_append (h : Run step s u (.done s' n)) (v : List α) :
    Run step s (u ++ v) (.done s' n) := by
  generalize ho : Outcome.done s' n = o at h
  induction h generalizing n with
  | more h => cases ho
  | done h =>
    obtain ⟨rfl, rfl⟩ := Outcome.done.inj ho
    exact .done (by rw [resumable.append, h]; rfl)
  | fail h => cases ho
  | @next s s₁ u k o h rest ih =>
    cases o with
    | more => cases ho
    | fail => cases ho
    | done s₂ m =>
      obtain ⟨rfl, rfl⟩ := Outcome.done.inj ho
      have hrest := ih rfl
      rw [← List.drop_append_of_le_length (resumable.next_le h)] at hrest
      exact .next (resumable.next_append h v) hrest

theorem run_fail_append (h : Run step s u (.fail e)) (v : List α) :
    Run step s (u ++ v) (.fail e) := by
  generalize ho : Outcome.fail e = o at h
  induction h with
  | more h => cases ho
  | done h => cases ho
  | fail h =>
    cases ho
    exact .fail (by rw [resumable.append, h]; rfl)
  | @next s s₁ u k o h rest ih =>
    cases o with
    | more => cases ho
    | done => cases ho
    | fail e' =>
      cases ho
      have hrest := ih rfl
      rw [← List.drop_append_of_le_length (resumable.next_le h)] at hrest
      exact .next (resumable.next_append h v) hrest

/-- A run that stopped for lack of input goes on where it stopped. -/
theorem run_more_append (h : Run step s u (.more s' n)) (rest : Run step s' (u.drop n ++ v) o) :
    Run step s (u ++ v) (o.shift n) := by
  generalize ho : Outcome.more s' n = o₁ at h
  induction h generalizing n with
  | @more s₁ _ u _ h =>
    obtain ⟨rfl, rfl⟩ := Outcome.more.inj ho
    have happ := resumable.append s₁ u v
    rw [h, Verdict.resume] at happ
    cases rest with
    | more h' => simp only [h', Verdict.shift] at happ; exact .more happ
    | done h' => simp only [h', Verdict.shift] at happ; exact .done happ
    | fail h' => simp only [h', Verdict.shift] at happ; exact .fail happ
    | next h' rest' =>
      simp only [h', Verdict.shift] at happ
      rw [Outcome.shift_shift]
      refine .next happ ?_
      rw [← List.drop_drop, List.drop_append_of_le_length (resumable.more_le h)]
      exact rest'
  | done h => cases ho
  | fail h => cases ho
  | @next s s₁ u k o₂ h run ih =>
    cases o₂ with
    | done => cases ho
    | fail => cases ho
    | more s₂ m =>
      obtain ⟨rfl, rfl⟩ := Outcome.more.inj ho
      rw [← List.drop_drop] at rest
      have hrest := ih rest rfl
      rw [← List.drop_append_of_le_length (resumable.next_le h)] at hrest
      rw [← Outcome.shift_shift]
      exact .next (resumable.next_append h v) hrest

end Resumable

/-- After `u`, of which `n` elements are used, the decoder in state `s` stands where a run from
`start` over `u` and any further input gets to. -/
def Resumes (step : σ → List α → Verdict σ ε) (start : σ) (u : List α) (s : σ) (n : ℕ) : Prop :=
  n ≤ u.length ∧ ∀ v o, Run step s (u.drop n ++ v) o → Run step start (u ++ v) (o.shift n)

namespace Resumes

variable {start : σ}

theorem refl (step : σ → List α → Verdict σ ε) (start : σ) (u : List α) :
    Resumes step start u start 0 :=
  ⟨Nat.zero_le _, fun _ _ h => by simpa using h⟩

/-- More input has arrived. -/
theorem append (h : Resumes step start u s n) (w : List α) :
    Resumes step start (u ++ w) s n := by
  refine ⟨by simpa using Nat.le_add_right_of_le h.1, fun v o run => ?_⟩
  rw [List.drop_append_of_le_length h.1, List.append_assoc] at run
  rw [List.append_assoc]
  exact h.2 (w ++ v) o run

/-- The decoder has used what it could of the input at hand. -/
theorem drain (h : Resumes step start u s n) (resumable : Resumable step) {k : ℕ}
    (run : Run step s (u.drop n) (.more s' k)) : Resumes step start u s' (n + k) := by
  have hk := resumable.run_used_le run
  simp only [Outcome.used, List.length_drop] at hk
  refine ⟨by have := h.1; omega, fun v o rest => ?_⟩
  rw [← List.drop_drop] at rest
  have := h.2 v _ (resumable.run_more_append run rest)
  rwa [Outcome.shift_shift] at this

/-- What is found from here is what a run over the whole input finds. -/
theorem run (h : Resumes step start u s n) (run : Run step s (u.drop n) o) :
    Run step start u (o.shift n) := by
  simpa using h.2 [] o (by simpa using run)

end Resumes

end IncrementalDecoder
