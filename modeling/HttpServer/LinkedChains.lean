import Mathlib.Logic.Function.Basic
import Mathlib.Tactic.Common

/-!
# Chains of linked nodes

The memory is a partial function of the address. A chain is the list of the addresses that
the links visit from a head on, each with what is read of its node, so it is finite.
-/

namespace LinkedChains

variable {A N B : Type*}

/-- The chain from a head whose nodes show the given contents. -/
inductive Chain (next : N → Option A) (Shows : N → B → Prop) (mem : A → Option N) :
    Option A → List (A × B) → Prop
  | nil : Chain next Shows mem none []
  | cons {p : A} {n : N} {b : B} {tail : List (A × B)} (hread : mem p = some n)
      (hshows : Shows n b) (htail : Chain next Shows mem (next n) tail) :
      Chain next Shows mem (some p) ((p, b) :: tail)

/-- The loop that follows the links to the first node that passes the test. It has no result where
it reads outside the memory, or when the fuel does not suffice. -/
def search (next : N → Option A) (test : N → Option Bool) (mem : A → Option N) :
    ℕ → Option A → Option (Option (A × N))
  | 0, _ => none
  | _ + 1, none => some none
  | fuel + 1, some p =>
    (mem p).bind fun n => (test n).bind fun found =>
      if found then some (some (p, n)) else search next test mem fuel (next n)

variable {next : N → Option A} {Shows Shows' : N → B → Prop} {mem mem' : A → Option N}
  {head : Option A} {p : A} {n n' : N} {b b' : B} {xs ys : List (A × B)}

/-- A head determines the addresses. -/
theorem Chain.unique (hx : Chain next Shows mem head xs) (hy : Chain next Shows' mem head ys) :
    xs.map Prod.fst = ys.map Prod.fst := by
  induction hx generalizing ys with
  | nil =>
    cases hy
    rfl
  | cons hread _ _ ih =>
    cases hy with
    | cons hread' _ htail' =>
      obtain rfl := Option.some.inj (hread.symm.trans hread')
      rw [List.map_cons, List.map_cons, ih htail']

theorem Chain.suffix (h : Chain next Shows mem head (xs ++ (p, b) :: ys)) :
    Chain next Shows mem (some p) ((p, b) :: ys) := by
  induction xs generalizing head with
  | nil =>
    cases h with
    | cons hread hshows htail => exact .cons hread hshows htail
  | cons x xs ih =>
    cases h with
    | cons _ _ htail => exact ih htail

theorem Chain.read (h : Chain next Shows mem head xs) (hb : (p, b) ∈ xs) :
    ∃ n, mem p = some n ∧ Shows n b := by
  obtain ⟨before, after, rfl⟩ := List.append_of_mem hb
  cases h.suffix with
  | cons hread hshows _ => exact ⟨_, hread, hshows⟩

/-- The links do not come back to a node: the chain from there on would be as long as its own
tail. -/
theorem Chain.nodup (h : Chain next Shows mem head xs) : (xs.map Prod.fst).Nodup := by
  induction h with
  | nil => exact List.nodup_nil
  | @cons p n b tail hread hshows htail ih =>
    rw [List.map_cons, List.nodup_cons]
    refine ⟨fun hp => ?_, ih⟩
    obtain ⟨⟨_, b'⟩, hb', rfl⟩ := List.mem_map.mp hp
    obtain ⟨before, after, rfl⟩ := List.append_of_mem hb'
    have hsame := congrArg List.length ((Chain.cons hread hshows htail).unique htail.suffix)
    simp only [List.length_map, List.length_cons, List.length_append] at hsame
    omega

/-! ## What a store does to a chain -/

/-- The chain stays when each of its nodes keeps its link and what it shows. -/
theorem Chain.frame (h : Chain next Shows mem head xs)
    (hnodes : ∀ x ∈ xs, ∀ n, mem x.1 = some n → Shows n x.2 →
      ∃ n', mem' x.1 = some n' ∧ next n' = next n ∧ Shows' n' x.2) :
    Chain next Shows' mem' head xs := by
  induction h with
  | nil => exact .nil
  | cons hread hshows _ ih =>
    obtain ⟨n', hread', hnext, hshows'⟩ := hnodes _ List.mem_cons_self _ hread hshows
    apply Chain.cons hread' hshows'
    rw [hnext]
    exact ih fun x hx => hnodes x (List.mem_cons_of_mem _ hx)

/-- A node that has not been allocated is on no chain. -/
theorem Chain.fresh (h : Chain next Shows mem head xs) (hp : mem p = none) :
    p ∉ xs.map Prod.fst := by
  intro hmem
  obtain ⟨⟨_, b⟩, hb, rfl⟩ := List.mem_map.mp hmem
  obtain ⟨n, hread, -⟩ := h.read hb
  rw [hp] at hread
  cases hread

section

variable [DecidableEq A]

/-- A store outside the chain. -/
theorem Chain.update_other (h : Chain next Shows mem head xs) (hp : p ∉ xs.map Prod.fst)
    (value : Option N) : Chain next Shows (Function.update mem p value) head xs := by
  apply h.frame
  intro x hx n hread hshows
  have hne : x.1 ≠ p := fun heq => hp (heq ▸ List.mem_map_of_mem hx)
  exact ⟨n, by rwa [Function.update_of_ne hne], rfl, hshows⟩

/-- A store that keeps the link of the node and what it shows, on the chain or not. -/
theorem Chain.update_same (h : Chain next Shows mem head xs) (hread : mem p = some n)
    (hnext : next n' = next n) (hshows : ∀ b, Shows n b → Shows n' b) :
    Chain next Shows (Function.update mem p (some n')) head xs := by
  apply h.frame
  intro x _ n₁ hread' hshows'
  by_cases hp : x.1 = p
  · rw [hp, hread] at hread'
    obtain rfl := Option.some.inj hread'
    exact ⟨n', by rw [hp, Function.update_self], hnext, hshows _ hshows'⟩
  · exact ⟨n₁, by rwa [Function.update_of_ne hp], rfl, hshows'⟩

/-- A store into a node of the chain that keeps its link. -/
theorem Chain.update (h : Chain next Shows mem head (xs ++ (p, b) :: ys)) (hread : mem p = some n)
    (hnext : next n' = next n) (hshows : Shows n' b') :
    Chain next Shows (Function.update mem p (some n')) head (xs ++ (p, b') :: ys) := by
  have hnodup := h.nodup
  rw [List.map_append, List.map_cons] at hnodup
  induction xs generalizing head with
  | nil =>
    cases h with
    | cons hread' _ htail =>
      obtain rfl := Option.some.inj (hread.symm.trans hread')
      refine .cons (Function.update_self ..) hshows ?_
      rw [hnext]
      exact htail.update_other (List.nodup_cons.mp hnodup).1 _
  | cons x xs ih =>
    cases h with
    | @cons q _ _ _ hread' hshows' htail =>
      rw [List.map_cons, List.cons_append, List.nodup_cons] at hnodup
      have hne : q ≠ p := fun heq => hnodup.1 (heq ▸ List.mem_append_right _ List.mem_cons_self)
      refine .cons ?_ hshows' (ih htail hnodup.2)
      rwa [Function.update_of_ne hne]

end

/-! ## The loop along a chain -/

section

variable {test : N → Option Bool} {accepts : B → Bool} {fuel : ℕ}

/-- More fuel does not change a result. -/
theorem search_mono {fuel' : ℕ} {result : Option (A × N)}
    (h : search next test mem fuel head = some result) (hfuel : fuel ≤ fuel') :
    search next test mem fuel' head = some result := by
  induction fuel generalizing fuel' head with
  | zero => cases h
  | succ fuel ih =>
    obtain ⟨fuel', rfl⟩ := Nat.exists_eq_add_one.mpr (Nat.lt_of_lt_of_le (Nat.succ_pos fuel) hfuel)
    cases head with
    | none => exact h
    | some p =>
      obtain ⟨n, hread, h⟩ := Option.bind_eq_some_iff.mp h
      obtain ⟨found, htest, h⟩ := Option.bind_eq_some_iff.mp h
      cases found with
      | true => simpa [search, hread, htest] using h
      | false => simpa [search, hread, htest] using ih h (Nat.le_of_succ_le_succ hfuel)

/-- Where no node passes the test, the loop leaves the chain. -/
theorem Chain.search_none (h : Chain next Shows mem head xs)
    (htest : ∀ n b, Shows n b → test n = some (accepts b)) (hfuel : xs.length < fuel)
    (hnone : xs.find? (fun x => accepts x.2) = none) :
    search next test mem fuel head = some none := by
  induction h generalizing fuel with
  | nil =>
    cases fuel with
    | zero => cases hfuel
    | succ fuel => rfl
  | @cons p n b tail hread hshows _ ih =>
    cases fuel with
    | zero => cases hfuel
    | succ fuel =>
      rw [List.find?_eq_none] at hnone
      have hrejects : accepts b = false := Bool.eq_false_iff.mpr (hnone (p, b) List.mem_cons_self)
      have hrest := ih (Nat.lt_of_succ_lt_succ hfuel)
        (List.find?_eq_none.mpr fun x hx => hnone x (List.mem_cons_of_mem _ hx))
      simpa [search, hread, htest _ _ hshows, hrejects] using hrest

/-- The loop finds the first node that passes the test. -/
theorem Chain.search_some (h : Chain next Shows mem head xs)
    (htest : ∀ n b, Shows n b → test n = some (accepts b)) (hfuel : xs.length < fuel)
    (hsome : xs.find? (fun x => accepts x.2) = some (p, b)) :
    ∃ n, search next test mem fuel head = some (some (p, n)) ∧ mem p = some n ∧ Shows n b := by
  induction h generalizing fuel with
  | nil => cases hsome
  | @cons q n c tail hread hshows _ ih =>
    cases fuel with
    | zero => cases hfuel
    | succ fuel =>
      rw [List.find?_cons] at hsome
      cases haccepts : accepts c with
      | true =>
        rw [haccepts] at hsome
        obtain ⟨rfl, rfl⟩ := Prod.mk.inj (Option.some.inj hsome)
        refine ⟨n, ?_, hread, hshows⟩
        simp [search, hread, htest _ _ hshows, haccepts]
      | false =>
        rw [haccepts] at hsome
        obtain ⟨n', hsearch, hfound⟩ := ih (Nat.lt_of_succ_lt_succ hfuel) hsome
        refine ⟨n', ?_, hfound⟩
        simpa [search, hread, htest _ _ hshows, haccepts] using hsearch

end

end LinkedChains
