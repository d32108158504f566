import Mathlib.Algebra.Ring.Int.Defs
import Mathlib.Tactic.Common

/-!
# Accesses that are checked

A program over these accesses stops with a fault where it would touch memory outside
an array, so a program that returns a value has stayed inside all its arrays. `A`
names the arrays; an index below the start of an array is negative.
-/

namespace CheckedMemory

inductive Fault (A : Type*) where
  | read (array : A) (index : ℤ)
  | store (array : A) (index : ℕ)
  | diverges
  deriving DecidableEq, Repr

universe u

variable {A β : Type*}

def load (array : A) (mem : List β) (index : ℤ) : Except (Fault A) β :=
  match index with
  | .ofNat i => (mem[i]?.map pure).getD (.error (.read array index))
  | .negSucc _ => .error (.read array index)

/-- The bytes from `index` on, all of which are read. -/
def loadAll (array : A) (mem : List β) (index : ℤ) : ℕ → Except (Fault A) (List β)
  | 0 => return []
  | n + 1 => do
    let b ← load array mem index
    return b :: (← loadAll array mem (index + 1) n)

/-- A store into an array of `cap` elements whose contents are kept elsewhere. -/
def checkStore (array : A) (cap index : ℕ) : Except (Fault A) PUnit.{u + 1} :=
  if index < cap then .ok ⟨⟩ else .error (.store array index)

def checkStores (array : A) (cap index : ℕ) : ℕ → Except (Fault A) PUnit.{u + 1}
  | 0 => return ⟨⟩
  | n + 1 => do
    checkStore array cap index
    checkStores array cap (index + 1) n

variable {array : A} {mem : List β} {index cap i n : ℕ}

theorem load_eq {p : ℤ} (hp : p = i) (h : i < mem.length) : load array mem p = pure mem[i] := by
  subst hp
  show (mem[i]?.map pure).getD _ = _
  rw [List.getElem?_eq_getElem h]
  rfl

theorem load_getD {p : ℤ} (d : β) (hp : p = i) (h : i < mem.length) :
    load array mem p = pure (mem.getD i d) := by
  rw [load_eq hp h, List.getD_eq_getElem?_getD, List.getElem?_eq_getElem h, Option.getD_some]

theorem loadAll_eq {p : ℤ} (hp : p = i) (h : i + n ≤ mem.length) :
    loadAll array mem p n = pure ((mem.drop i).take n) := by
  induction n generalizing p i with
  | zero => rfl
  | succ n ih =>
    have hlt : i < mem.length := by omega
    rw [loadAll, load_eq hp hlt, pure_bind, ih (i := i + 1) (by omega) (by omega), pure_bind,
      List.drop_eq_getElem_cons hlt, List.take_succ_cons]

theorem checkStore_eq (h : index < cap) : checkStore array cap index = pure ⟨⟩ := if_pos h

theorem checkStores_eq (h : index + n ≤ cap) : checkStores array cap index n = pure ⟨⟩ := by
  induction n generalizing index with
  | zero => rfl
  | succ n ih =>
    rw [checkStores, checkStore_eq (by omega)]
    exact ih (by omega)

/-- Consecutive stores that begin inside the array fail where it ends. -/
theorem checkStores_error (hindex : index ≤ cap) (h : cap < index + n) :
    checkStores.{u} array cap index n = .error (.store array cap) := by
  induction n generalizing index with
  | zero => omega
  | succ n ih =>
    rw [checkStores]
    rcases Nat.lt_or_ge index cap with hlt | hge
    · rw [checkStore_eq hlt, pure_bind]
      exact ih hlt (by omega)
    · obtain rfl := Nat.le_antisymm hindex hge
      rw [checkStore, if_neg (lt_irrefl index)]
      rfl

/-- A branch is free of faults when it is wherever it is taken. -/
theorem ite_eq_pure {F α : Type*} {c : Prop} [Decidable c] {x y : Except F α} {a b : α}
    (hpos : c → x = pure a) (hneg : ¬ c → y = pure b) :
    (if c then x else y) = pure (if c then a else b) := by
  by_cases hc : c
  · rw [if_pos hc, if_pos hc, hpos hc]
  · rw [if_neg hc, if_neg hc, hneg hc]

end CheckedMemory
