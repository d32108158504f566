import HttpServer.LinkedDictionary
import HttpServer.Ownership
import HttpServer.Router

/-!
# The registry on the heap

The entries of the registry as blocks that `malloc` returns and `free` takes back, behind the
pointers of `Dictionary.c`. A call has no result where it reads or frees a block that is not
allocated. Which allocations succeed is up to the script of the `World`; those that do return
the addresses that the call is given.
-/

namespace HttpServer.Linked

open Ownership (freeBlock)

variable {σ : Type*}

/-- A header is given by the text that its pointer leads to. What a fresh block holds is never
read. -/
structure EntryBlock where
  mode : ServeMode := .staticResident
  len : ℕ := 0
  headers : List ResponseHeader := []
  reval : Option ℕ := none
  data : Bytes := []
  allocated : ℕ := 0

/-- `registry` is what the pointer to the dictionary leads to. -/
structure Heap where
  memory : Memory ℕ
  entries : ℕ → Option EntryBlock
  revals : ℕ → Option RevalMeta
  registry : Option Dictionary

/-- What the allocator returns to one call. -/
structure Allocation where
  entry : ℕ
  reval : ℕ
  string : ℕ
  node : ℕ

def Heap.setEntry (h : Heap) (p : ℕ) (block : EntryBlock) : Heap :=
  { h with entries := Function.update h.entries p (some block) }

def Heap.setReval (h : Heap) (p : ℕ) (reval : RevalMeta) : Heap :=
  { h with revals := Function.update h.revals p (some reval) }

def Heap.freeEntry (h : Heap) (p : ℕ) : Option Heap :=
  (freeBlock h.entries p).map fun entries => { h with entries := entries }

def Heap.freeReval (h : Heap) (p : ℕ) : Option Heap :=
  (freeBlock h.revals p).map fun revals => { h with revals := revals }

def contentEntryStaticLoad (h : Heap) (w : World σ) (fsPath : Bytes) (c : ℕ) :
    Option (Option ℕ × Heap × World σ) :=
  match w.stat fsPath with
  | (none, w) => some (none, h, w)
  | (some st, w) =>
    let (ok, w) := w.malloc
    if !ok then some (none, h, w)
    else
      let h := h.setEntry c {}
      match fileRead w fsPath st.size with
      | (none, w) => (h.freeEntry c).map fun h => (none, h, w)
      | (some bytes, w) =>
        some (some c, h.setEntry c
          { mode := .staticResident
            len := bytes.length
            headers := [⟨ascii "Content-Type", contentType fsPath⟩,
              ⟨ascii "Content-Length", lenText bytes.length⟩, ⟨ascii "Cache-Control", IMMUTABLE⟩]
            reval := none
            data := bytes ++ [0] ++ lenText bytes.length ++ [0]
            allocated := st.size + 1 + LEN_BUF_SIZE }, w)

def contentEntryDynamicLoad (h : Heap) (w : World σ) (fsPath : Bytes) (st : Stat) (d reval : ℕ) :
    Option (Option ℕ × Heap × World σ) :=
  let (ok, w) := w.malloc
  if !ok then some (none, h, w)
  else
    let h := h.setEntry d {}
    let (ok, w) := w.malloc
    if !ok then (h.freeEntry d).map fun h => (none, h, w)
    else
      let h := (h.setReval reval {}).setEntry d { reval := some reval }
      match fileRead w fsPath st.size with
      | (none, w) => ((h.freeReval reval).bind fun h => h.freeEntry d).map fun h => (none, h, w)
      | (some bytes, w) =>
        let filled := revalFill st fsPath
        some (some d, (h.setReval reval filled).setEntry d
          { mode := .dynResident
            len := bytes.length
            headers := [⟨ascii "Content-Type", contentType fsPath⟩,
              ⟨ascii "Content-Length", lenText bytes.length⟩, ⟨ascii "ETag", filled.etag⟩,
              ⟨ascii "Last-Modified", filled.lastModified⟩, ⟨ascii "Cache-Control", NO_CACHE⟩]
            reval := some reval
            data := bytes ++ [0] ++ lenText bytes.length ++ [0]
            allocated := st.size + 1 }, w)

def contentEntryStreamedLoad (h : Heap) (w : World σ) (fsPath : Bytes) (st : Stat)
    (mode : ServeMode) (cacheControl : Bytes) (entry reval : ℕ) :
    Option (Option ℕ × Heap × World σ) :=
  let (ok, w) := w.malloc
  if !ok then some (none, h, w)
  else
    let h := h.setEntry entry { mode := mode, len := 0 }
    let (ok, w) := w.malloc
    if !ok then (h.freeEntry entry).map fun h => (none, h, w)
    else
      let filled := revalFill st fsPath
      some (some entry, (h.setReval reval filled).setEntry entry
        { mode := mode
          len := 0
          headers := [⟨ascii "Content-Type", contentType fsPath⟩, ⟨ascii "ETag", filled.etag⟩,
            ⟨ascii "Last-Modified", filled.lastModified⟩, ⟨ascii "Cache-Control", cacheControl⟩]
          reval := some reval }, w)

/-! ## The registry's calls -/

/-- `dict_insert` on the registry. A value that it replaces is freed. -/
def Heap.dictInsert (fuel : ℕ) (h : Heap) (key : Bytes) (entry : ℕ) (a : Allocation) :
    Option Heap := do
  let d ← h.registry
  let (_, m, d) ← Linked.dictInsert fuel { h.memory with freed := [] } d key (some entry)
    (some a.string) (some a.node)
  let h ← m.freed.foldlM Heap.freeEntry h
  return { h with memory := m, registry := some d }

/-- An entry that has been loaded is inserted. -/
def insertLoaded (fuel : ℕ) (url : Bytes) (a : Allocation) :
    Option ℕ × Heap × World σ → Option (Option ℕ × Heap × World σ)
  | (none, h, w) => some (none, h, w)
  | (some entry, h, w) => (h.dictInsert fuel url entry a).map fun h => (some entry, h, w)

def contentRegistryAddFile (fuel : ℕ) (h : Heap) (w : World σ) (fsPath url : Bytes)
    (mode : ServeMode) (a : Allocation) : Option (Bool × Heap × World σ) :=
  match w.stat fsPath with
  | (none, w) => some (false, h, w)
  | (some st, w) =>
    let loaded := match mode with
      | .staticResident => contentEntryStaticLoad h w fsPath a.entry
      | .staticStreamed =>
        contentEntryStreamedLoad h w fsPath st .staticStreamed IMMUTABLE a.entry a.reval
      | .dynResident => contentEntryDynamicLoad h w fsPath st a.entry a.reval
      | .dynStreamed =>
        contentEntryStreamedLoad h w fsPath st .dynStreamed NO_CACHE a.entry a.reval
    (loaded.bind (insertLoaded fuel url a)).map fun (entry, h, w) => (entry.isSome, h, w)

inductive ContentLookupResult where
  | miss | gone
  | notModified (entry : ℕ)
  | hit (entry : ℕ)
  deriving DecidableEq, Repr

/-- The entry that a revalidated lookup goes on with. -/
def contentEntryRefresh (fuel : ℕ) (h : Heap) (w : World σ) (urlPath : Bytes) (entry : ℕ)
    (reval : RevalMeta) (st : Stat) (a : Allocation) : Option (Option ℕ × Heap × World σ) :=
  if st.mtime ≠ reval.mtime ∨ st.size ≠ reval.size then
    (contentEntryDynamicLoad h w reval.fsPath st a.entry a.reval).bind (insertLoaded fuel urlPath a)
  else some (some entry, h, w)

/-- What a lookup ends with once the entry is fresh. -/
def Heap.validated (h : Heap) (w : World σ) (headers : List Header) :
    Option ℕ → Option (ContentLookupResult × Heap × World σ)
  | none => some (.gone, h, w)
  | some entry =>
    ((h.entries entry).bind fun block => block.reval.bind h.revals).map fun reval =>
      (if requestValidatorsMatch headers reval then .notModified entry else .hit entry, h, w)

def contentRegistryLookup (fuel : ℕ) (h : Heap) (w : World σ) (headers : List Header)
    (urlPath : Bytes) (a : Allocation) : Option (ContentLookupResult × Heap × World σ) :=
  (dictFind fuel h.memory h.registry (some urlPath)).bind fun found =>
    match found with
    | none => some (.miss, h, w)
    | some entry =>
      (h.entries entry).bind fun block =>
        if block.mode = .dynResident then
          (block.reval.bind h.revals).bind fun reval =>
            match w.stat reval.fsPath with
            | (none, w) => some (.gone, h, w)
            | (some st, w) =>
              (contentEntryRefresh fuel h w urlPath entry reval st a).bind fun (entry, h, w) =>
                h.validated w headers entry
        else some (.hit entry, h, w)

end HttpServer.Linked
