import HttpServer.Dictionary
import HttpServer.LinkedChains

/-!
# The hash map in memory

`Dictionary.c` and `linked_node_macro.h` as they follow and set pointers. A pointer is an
address, `none` for `NULL`; what the pointers to values of type `V` point at belongs to the
caller. `malloc` and `strdup` return the addresses that a call is given. A call has no result
where its loop does not end within the fuel or follows a pointer to nothing.
-/

namespace HttpServer.Linked

variable {V : Type*}

structure Kvp (V : Type*) where
  key : Option ℕ
  value : Option V

structure KvpNode (V : Type*) where
  value : Kvp V
  next : Option ℕ
  previous : Option ℕ

structure Memory (V : Type*) where
  nodes : ℕ → Option (KvpNode V)
  strings : ℕ → Option Bytes
  /-- The values that have been freed, the last one first. -/
  freed : List V := []

structure Dictionary where
  bucket : ℕ → Option ℕ

def Memory.setNode (m : Memory V) (p : ℕ) (node : KvpNode V) : Memory V :=
  { m with nodes := Function.update m.nodes p (some node) }

/-- Whether `strcmp` returns zero. -/
def Memory.strcmpEq (m : Memory V) (s : Option ℕ) (key : Bytes) : Option Bool :=
  (s.bind m.strings).map fun text => text == key

def strdup (m : Memory V) (key : Bytes) (block : Option ℕ) : Memory V :=
  block.elim m fun p => { m with strings := Function.update m.strings p (some key) }

def kvpNodeInit (m : Memory V) (value : Kvp V) (block : Option ℕ) : Option (ℕ × Memory V) :=
  block.map fun result => (result, m.setNode result ⟨value, none, none⟩)

def Memory.setPrevious (m : Memory V) (node : ℕ) (head : Option ℕ) : Option (Memory V) :=
  head.elim (some m) fun p =>
    (m.nodes p).map fun headNode => m.setNode p { headNode with previous := some node }

/-- The result is also what the head is set to. -/
def kvpNodeHeadInsert (m : Memory V) (currentHead : Option ℕ) (nodeToInsert : ℕ) :
    Option (Option ℕ × Memory V) := do
  let node ← m.nodes nodeToInsert
  let m := m.setNode nodeToInsert { node with next := currentHead }
  let m ← m.setPrevious nodeToInsert currentHead
  return (some nodeToInsert, m)

/-- The loop of `dict_insert` and `dict_find`. -/
def findNode (fuel : ℕ) (m : Memory V) (head : Option ℕ) (key : Bytes) :
    Option (Option (ℕ × KvpNode V)) :=
  LinkedChains.search KvpNode.next (fun node => m.strcmpEq node.value.key key) m.nodes fuel head

def dictInit (allocated : Bool) : Option Dictionary :=
  if allocated then some ⟨fun _ => none⟩ else none

def dictReplace (m : Memory V) (d : Dictionary) (value : Option V) (curr : ℕ)
    (node : KvpNode V) : ℤ × Memory V × Dictionary :=
  let m := { m with freed := node.value.value.toList ++ m.freed }
  (1, m.setNode curr { node with value := { node.value with value := value } }, d)

def dictInsertNew (m : Memory V) (d : Dictionary) (key : Bytes) (value : Option V)
    (string block : Option ℕ) : Option (ℤ × Memory V × Dictionary) := do
  let index := dictIndex key
  let m := strdup m key string
  let (node, m) ← kvpNodeInit m ⟨string, value⟩ block
  let (n, m) ← kvpNodeHeadInsert m (d.bucket index) node
  return (if n.isSome then 1 else -1, m, ⟨Function.update d.bucket index n⟩)

def dictInsert (fuel : ℕ) (m : Memory V) (d : Dictionary) (key : Bytes) (value : Option V)
    (string block : Option ℕ) : Option (ℤ × Memory V × Dictionary) :=
  (findNode fuel m (d.bucket (dictIndex key)) key).bind fun found =>
    found.elim (dictInsertNew m d key value string block) fun curr =>
      some (dictReplace m d value curr.1 curr.2)

def dictFind (fuel : ℕ) (m : Memory V) (d : Option Dictionary) (key : Option Bytes) :
    Option (Option V) :=
  match d, key with
  | some d, some key =>
    (findNode fuel m (d.bucket (dictIndex key)) key).map fun found =>
      found.bind fun node => node.2.value.value
  | _, _ => some none

/-- A run of `dict_insert` from `dict_init`: what has been inserted, and where it has led. Each call
allocates a string and a node that were not there. -/
inductive DictRun : List (Bytes × V) → Memory V → Dictionary → Prop
  | init {m d} (hinit : dictInit true = some d) : DictRun [] m d
  | insert {log m d m' d' result} (fuel key value string node) (hrun : DictRun log m d)
      (hstring : m.strings string = none) (hnode : m.nodes node = none)
      (hinsert : dictInsert fuel m d key (some value) (some string) (some node) =
        some (result, m', d')) : DictRun (log ++ [(key, value)]) m' d'

end HttpServer.Linked
