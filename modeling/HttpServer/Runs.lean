import Mathlib.Data.Nat.Notation
import Mathlib.Logic.Relation

/-!
# Runs of a transition system

Invariants along the runs of a relation, and the loop that steps until a step
rests. A rank that every other step lowers bounds the steps that loop takes.
-/

namespace Runs

open Relation

variable {S : Type*} {next : S → S → Prop} {s t : S}

/-- What holds at the start and is preserved by each transition holds at the end of a run. -/
theorem invariant (inv : S → Prop) (hrun : ReflTransGen next s t) (hstart : inv s)
    (hnext : ∀ a b, ReflTransGen next s a → inv a → next a b → inv b) : inv t := by
  induction hrun with
  | refl => exact hstart
  | tail hab hbc ih => exact hnext _ _ hab ih hbc

/-- Step until a step rests, at most `fuel` times. -/
def toRest (step : S → S) (rests : S → S → Prop) [DecidableRel rests] : ℕ → S → S
  | 0, s => s
  | fuel + 1, s => if rests s (step s) then step s else toRest step rests fuel (step s)

variable (step : S → S) (rests : S → S → Prop) [DecidableRel rests]

/-- With enough fuel the loop ends with a step that rests, taken from a state that satisfies what
the other steps preserve. -/
theorem toRest_rests (inv : S → Prop) (rank : S → ℕ)
    (hinv : ∀ s, inv s → ¬ rests s (step s) → inv (step s))
    (hrank : ∀ s, inv s → ¬ rests s (step s) → rank (step s) < rank s) {fuel : ℕ}
    (hs : inv s) (hfuel : rank s < fuel) :
    ∃ s', inv s' ∧ rests s' (step s') ∧ toRest step rests fuel s = step s' := by
  induction fuel generalizing s with
  | zero => exact absurd hfuel (Nat.not_lt_zero _)
  | succ fuel ih =>
    by_cases hrests : rests s (step s)
    · exact ⟨s, hs, hrests, if_pos hrests⟩
    · have hlower := hrank s hs hrests
      obtain ⟨s', hs', hrests', heq⟩ := ih (hinv s hs hrests) (by omega)
      exact ⟨s', hs', hrests', (if_neg hrests).trans heq⟩

end Runs
