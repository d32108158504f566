import HttpServer.DictionaryChains
import HttpServer.RegistryHeap

/-!
# Every block of the registry has one owner
-/

namespace HttpServer

open Ownership (Owned target)
open Linked (Heap Allocation EntryBlock Memory)

variable {σ V : Type*} {m m' : Memory V} {d d' : Linked.Dictionary} {h h' : Heap} {w : World σ}
  {a : Allocation} {p string fuel : ℕ} {key : Bytes} {chains chains' : ℕ → List (ℕ × Kvp V)}

/-! ## What the nodes hold -/

/-- The owners of the keys and of the values. -/
def Linked.Memory.kvps (m : Memory V) (p : ℕ) : Option (Linked.Kvp V) :=
  (m.nodes p).map Linked.KvpNode.value

/-- Every live node is on a chain. -/
def Linked.Memory.Listed (m : Memory V) (chains : ℕ → List (ℕ × HttpServer.Kvp V)) : Prop :=
  ∀ p, m.kvps p ≠ none → ∃ i, p ∈ (chains i).map Prod.fst

/-- The heap with the entry in newly allocated blocks. -/
def Linked.Heap.place (h : Heap) (a : Allocation) (entry : ContentEntry) : Heap :=
  (entry.reval.elim h (h.setReval a.reval)).setEntry a.entry
    { mode := entry.mode
      len := entry.len
      headers := entry.headers
      reval := entry.reval.map fun _ => a.reval
      data := entry.data
      allocated := entry.allocated }

/-- What a load does to the heap when it comes to this. -/
def Linked.Heap.loaded (h : Heap) (a : Allocation) :
    Option ContentEntry × World σ → Option ℕ × Heap × World σ
  | (none, w) => (none, h, w)
  | (some entry, w) => (some a.entry, h.place a entry, w)

/-- The entry that a block and its `reval` hold. -/
def Linked.Heap.content (h : Heap) (p : ℕ) : Option ContentEntry :=
  (h.entries p).bind fun block =>
    (block.reval.elim (some none) fun r => (h.revals r).map some).map fun reval =>
      { mode := block.mode
        len := block.len
        headers := block.headers
        reval := reval
        data := block.data
        allocated := block.allocated }

/-- Every block has one owner, except for the `loose` entries, which are not in the registry yet, and
the `leaked` blocks of validators. -/
structure HeapSound (h : Heap) (d : Linked.Dictionary)
    (chains : ℕ → List (ℕ × Kvp ℕ)) (loose : Set ℕ) (leaked : List ℕ) : Prop where
  registry : h.registry = some d
  inMemory : h.memory.Chains d chains
  onChains : h.memory.Listed chains
  keys : Owned Linked.Kvp.key h.memory.kvps h.memory.strings ∅
  values : Owned Linked.Kvp.value h.memory.kvps h.entries loose
  revals : Owned EntryBlock.reval h.entries h.revals {r | r ∈ leaked}
  nodup : leaked.Nodup

/-- The chains lead to the entries of the registry. -/
def HeapRepresents (h : Heap) (chains : ℕ → List (ℕ × Kvp ℕ))
    (registry : ContentRegistry) : Prop :=
  ∀ url, (dictFind (listed chains) url).map h.content =
    (dictFind registry url).map some

section

variable {chains chains' : ℕ → List (ℕ × Kvp ℕ)} {loose : Set ℕ} {leaked : List ℕ}
  {registry : ContentRegistry} {entry : ContentEntry} {url : Bytes} {e : ℕ}

/-- Entries that are not in the registry do not matter to it. -/
theorem HeapRepresents.congr (hrep : HeapRepresents h chains registry)
    (hcontent : ∀ url p, dictFind (listed chains) url = some p →
      h'.content p = h.content p) : HeapRepresents h' chains registry := by
  intro url
  rw [← hrep url]
  cases hfind : dictFind (listed chains) url with
  | none => rfl
  | some p => exact congrArg some (hcontent url p hfind)

/-- The entries without the one that is replaced. -/
def freed (entries : ℕ → Option EntryBlock) (old : Option ℕ) : ℕ → Option EntryBlock :=
  old.elim entries fun p => Function.update entries p none

section

variable {m m' : Memory ℕ} {entries : ℕ → Option EntryBlock} {old : Option ℕ}

end

end

end HttpServer
