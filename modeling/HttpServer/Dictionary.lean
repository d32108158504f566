import HttpServer.Types

/-!
# The hash map behind the content registry

`Dictionary.c`. A bucket is the list of the nodes on its chain, head first.
-/

namespace HttpServer

def FNV_OFFSET : UInt64 := 1469598103934665603
def FNV_PRIME : UInt64 := 1099511628211

def keyHash (key : Bytes) : UInt64 :=
  key.foldl (fun hash c => (hash ^^^ c.toUInt64) * FNV_PRIME) FNV_OFFSET

structure Kvp (V : Type*) where
  key : Bytes
  value : V

structure Dictionary (V : Type*) where
  bucket : ℕ → List (Kvp V) := fun _ => []

variable {V : Type*}

def dictInit : Dictionary V := {}

def dictIndex (key : Bytes) : ℕ := (keyHash key).toNat % HTTP_BUCKET

/-- The walk along a chain: the value of the first node with this key is replaced, `none` when
there is no such node. -/
def chainReplace (key : Bytes) (value : V) : List (Kvp V) → Option (List (Kvp V))
  | [] => none
  | node :: next =>
    if node.key = key then some ({ node with value := value } :: next)
    else (chainReplace key value next).map (node :: ·)

def dictInsert (d : Dictionary V) (key : Bytes) (value : V) : Dictionary V :=
  let index := dictIndex key
  let chain := (chainReplace key value (d.bucket index)).getD (⟨key, value⟩ :: d.bucket index)
  { bucket := fun i => if i = index then chain else d.bucket i }

def dictFind (d : Dictionary V) (key : Bytes) : Option V :=
  ((d.bucket (dictIndex key)).find? fun node => node.key == key).map Kvp.value

end HttpServer
