import Mathlib.Logic.Function.Basic
import Mathlib.Order.BooleanAlgebra.Set

/-!
# Blocks and their owners

Two partial functions of the address: the owners, each with a pointer or none, and the blocks
that the pointers lead to. Ownership means that no pointer dangles and that no two owners
share a block, so that freeing an owner together with its block is safe. The blocks that no
pointer leads to are loose: they have not been handed over yet, or they have been lost.
-/

namespace Ownership

variable {A B N M : Type*}

/-- The pointers of the owners, as far as there are owners. -/
def target (ptr : N → Option B) (owners : A → Option N) (p : A) : Option B :=
  (owners p).bind ptr

structure Owned (ptr : N → Option B) (owners : A → Option N) (mem : B → Option M)
    (loose : Set B) : Prop where
  live : ∀ {p q}, target ptr owners p = some q → mem q ≠ none
  unique : ∀ {p p' q}, target ptr owners p = some q → target ptr owners p' = some q → p = p'
  loose_iff : ∀ {q}, q ∈ loose ↔ mem q ≠ none ∧ ∀ p, target ptr owners p ≠ some q

variable {ptr : N → Option B} {owners : A → Option N} {mem : B → Option M} {loose : Set B}
  {p : A} {q : B} {o : Option N}

theorem Owned.loose_target (h : Owned ptr owners mem loose) (hq : q ∈ loose) (p : A) :
    target ptr owners p ≠ some q :=
  (h.loose_iff.mp hq).2 p

/-- A block that is not allocated is neither owned nor loose. -/
theorem Owned.target_fresh (h : Owned ptr owners mem loose) (hq : mem q = none) (p : A) :
    target ptr owners p ≠ some q := fun hp => h.live hp hq

section

variable [DecidableEq B]

/-- `free`: there is no result where the block is not allocated. -/
def freeBlock (mem : B → Option M) (q : B) : Option (B → Option M) :=
  (mem q).map fun _ => Function.update mem q none

theorem Owned.malloc (h : Owned ptr owners mem loose) (hq : mem q = none) (m : M) :
    Owned ptr owners (Function.update mem q (some m)) (insert q loose) where
  live {p r} hr := by
    have hne : r ≠ q := fun heq => h.target_fresh hq p (heq ▸ hr)
    rw [Function.update_of_ne hne]
    exact h.live hr
  unique := h.unique
  loose_iff {r} := by
    by_cases hr : r = q
    · subst hr
      simpa using h.target_fresh hq
    · simpa [Function.update_of_ne hr, hr] using h.loose_iff

/-- Only a loose block may be freed. -/
theorem Owned.free (h : Owned ptr owners mem loose) (hq : q ∈ loose) :
    Owned ptr owners (Function.update mem q none) (loose \ {q}) where
  live {p r} hr := by
    have hne : r ≠ q := fun heq => h.loose_target hq p (heq ▸ hr)
    rw [Function.update_of_ne hne]
    exact h.live hr
  unique := h.unique
  loose_iff {r} := by
    by_cases hr : r = q
    · simp [hr]
    · simpa [Function.update_of_ne hr, hr] using h.loose_iff

end

/-! ## The owners -/

section

variable [DecidableEq A]

theorem target_update (p' : A) : target ptr (Function.update owners p o) p' =
    if p' = p then o.bind ptr else target ptr owners p' := by
  by_cases hp : p' = p
  · rw [if_pos hp, hp, target, Function.update_self]
  · rw [if_neg hp, target, target, Function.update_of_ne hp]

/-- An owner gives up its block. -/
theorem Owned.release (h : Owned ptr owners mem loose) (hp : target ptr owners p = some q)
    (ho : o.bind ptr = none) :
    Owned ptr (Function.update owners p o) mem (insert q loose) := by
  have htarget : ∀ {p' r}, target ptr (Function.update owners p o) p' = some r →
      p' ≠ p ∧ target ptr owners p' = some r := by
    intro p' r hr
    rw [target_update] at hr
    split at hr
    · rw [ho] at hr
      cases hr
    · exact ⟨‹_›, hr⟩
  refine ⟨fun hr => h.live (htarget hr).2, fun hr hr' => h.unique (htarget hr).2 (htarget hr').2, ?_⟩
  intro r
  rw [Set.mem_insert_iff, h.loose_iff]
  constructor
  · rintro (rfl | ⟨hlive, hnone⟩)
    · exact ⟨h.live hp, fun p' hp' => (htarget hp').1 (h.unique (htarget hp').2 hp)⟩
    · exact ⟨hlive, fun p' hp' => hnone p' (htarget hp').2⟩
  · rintro ⟨hlive, hnone⟩
    by_cases hr : r = q
    · exact .inl hr
    · refine .inr ⟨hlive, fun p' hp' => ?_⟩
      have hne : p' ≠ p := fun heq => hr (Option.some.inj ((heq ▸ hp').symm.trans hp))
      apply hnone p'
      rwa [target_update, if_neg hne]

/-- An owner may change when its pointer stays. -/
theorem Owned.keep (h : Owned ptr owners mem loose) (ho : o.bind ptr = target ptr owners p) :
    Owned ptr (Function.update owners p o) mem loose := by
  have htarget : target ptr (Function.update owners p o) = target ptr owners := by
    funext p'
    rw [target_update]
    split
    · rw [ho, ‹p' = p›]
    · rfl
  refine ⟨fun hr => h.live (htarget ▸ hr), fun hr hr' => h.unique (htarget ▸ hr) (htarget ▸ hr'), ?_⟩
  rw [htarget]
  exact h.loose_iff

end

end Ownership
