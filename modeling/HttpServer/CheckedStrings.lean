import HttpServer.CheckedMemory
import Mathlib.Data.List.TakeWhile

/-!
# Terminated strings in checked memory

`strlen` and `strncat` on an array that is given by its contents. The element that ends
a string is `nul`.
-/

namespace CheckedMemory

variable {A : Type*} {β : Type}

def store (array : A) (mem : List β) (index : ℕ) (b : β) : Except (Fault A) (List β) :=
  if index < mem.length then .ok (mem.set index b) else .error (.store array index)

def storeAll (array : A) (mem : List β) (index : ℕ) : List β → Except (Fault A) (List β)
  | [] => return mem
  | b :: bs => do storeAll array (← store array mem index b) (index + 1) bs

variable {array : A} {nul : β} {mem s rest src bs : List β}

theorem storeAll_eq (h : bs.length ≤ rest.length) :
    storeAll array (s ++ rest) s.length bs = pure (s ++ bs ++ rest.drop bs.length) := by
  induction bs generalizing s rest with
  | nil => simp [storeAll]
  | cons b bs ih =>
    obtain _ | ⟨c, rest⟩ := rest
    · simp at h
    · have hset : (s ++ c :: rest).set s.length b = s ++ [b] ++ rest := by simp
      have hnext : storeAll array (s ++ [b] ++ rest) (s ++ [b]).length bs = _ :=
        ih (by simpa using h)
      rw [List.length_append, List.length_singleton] at hnext
      rw [storeAll, store, if_pos (by simp), hset]
      refine hnext.trans ?_
      simp

variable [DecidableEq β]

/-- The index of the first terminator from `index` on. -/
def strlen (array : A) (nul : β) (mem : List β) (index : ℕ) : Except (Fault A) ℕ :=
  match h : mem[index]? with
  | none => .error (.read array index)
  | some b => if b = nul then .ok index else strlen array nul mem (index + 1)
termination_by mem.length - index
decreasing_by
  obtain ⟨hlt, -⟩ := List.getElem?_eq_some_iff.mp h
  omega

/-- What a string in front of its terminator looks like. -/
def text (nul : β) (s : List β) : List β := s.takeWhile (· ≠ nul)

/-- Append at most `n` elements of the string `src`, and a terminator. -/
def strncat (array : A) (nul : β) (mem src : List β) (n : ℕ) : Except (Fault A) (List β) := do
  let index ← strlen array nul mem 0
  storeAll array mem index ((text nul src).take n ++ [nul])

variable {index n : ℕ}

theorem strlen_of_some {b : β} (h : mem[index]? = some b) : strlen array nul mem index =
    if b = nul then .ok index else strlen array nul mem (index + 1) := by
  rw [strlen]
  split
  · next hnone => cases hnone.symm.trans h
  · next hsome =>
    obtain rfl := Option.some.inj (hsome.symm.trans h)
    rfl

theorem strlen_eq (hs : nul ∉ s) (hindex : index ≤ s.length) :
    strlen array nul (s ++ nul :: rest) index = pure s.length := by
  induction hn : s.length - index generalizing index with
  | zero =>
    obtain rfl : index = s.length := by omega
    have hnul : (s ++ nul :: rest)[s.length]? = some nul := by simp
    rw [strlen_of_some hnul, if_pos rfl]
    rfl
  | succ n ih =>
    have hlt : index < s.length := by omega
    have hne : s[index] ≠ nul := fun heq => hs (heq ▸ List.getElem_mem hlt)
    rw [strlen_of_some ((List.getElem?_append_left hlt).trans (List.getElem?_eq_getElem hlt)),
      if_neg hne]
    exact ih hlt (by omega)

theorem nul_not_mem_text (nul : β) (s : List β) : nul ∉ text nul s := by
  intro h
  simpa using List.mem_takeWhile_imp h

theorem text_eq_self (h : nul ∉ s) : text nul s = s := by
  refine List.takeWhile_eq_self_iff.mpr fun b hb => ?_
  exact decide_eq_true fun heq => h (heq ▸ hb)

/-- An append that has room behind the terminator. -/
theorem strncat_eq (hs : nul ∉ s) (h : ((text nul src).take n).length ≤ rest.length) :
    strncat array nul (s ++ nul :: rest) src n =
      pure (s ++ (text nul src).take n ++ nul :: rest.drop ((text nul src).take n).length) := by
  rw [strncat, strlen_eq hs (Nat.zero_le _), pure_bind]
  refine (storeAll_eq ?_).trans ?_
  · simpa using h
  · simp only [List.append_assoc, List.singleton_append, List.length_append, List.length_singleton,
      List.drop_succ_cons]

end CheckedMemory
