import HttpServer.CheckedMemory
import HttpServer.ContentLoading

/-!
# Stores into a registry entry

The functions that load a file into an entry once more, with every store behind
`data[0]` checked against the number of data bytes that were asked of `malloc`. The
length text of a static entry has room of its own. That of a dynamic entry is composed
in what `fread` has left of the room for the file.
-/

namespace HttpServer

variable {σ : Type*} {w : World σ} {fsPath url : Bytes} {st : Stat}

namespace Checked

open CheckedMemory

inductive EntryArray where
  | data
  deriving DecidableEq, Repr

abbrev Load := Except (Fault EntryArray)

/-- `fread` stores what the file delivers even if it then reports an error. -/
def fileRead (allocated : ℕ) (w : World σ) (path : Bytes) (size : ℕ) :
    Load (Option Bytes × World σ) := do
  let (file, w) := w.open path
  match file with
  | none => return (none, w)
  | some file =>
    let bytes := file.content.take size
    checkStores .data allocated 0 bytes.length
    if !file.reads then return (none, w)
    checkStore .data allocated bytes.length
    return (some bytes, w)

/-- `snprintf` of the length into `LEN_BUF_SIZE` bytes behind the `NUL` of the file's bytes. -/
def lenTextStore (allocated len : ℕ) : Load PUnit :=
  checkStores .data allocated (len + 1) ((lenText len).length + 1)

def contentEntryStaticLoad (w : World σ) (fsPath : Bytes) :
    Load (Option ContentEntry × World σ) :=
  match w.stat fsPath with
  | (none, w) => return (none, w)
  | (some st, w) => do
    let allocated := st.size + 1 + LEN_BUF_SIZE
    let (ok, w) := w.malloc
    if !ok then return (none, w)
    let (bytes, w) ← fileRead allocated w fsPath st.size
    match bytes with
    | none => return (none, w)
    | some bytes =>
      lenTextStore allocated bytes.length
      return (some
        { mode := .staticResident
          len := bytes.length
          headers := [⟨ascii "Content-Type", contentType fsPath⟩,
            ⟨ascii "Content-Length", lenText bytes.length⟩, ⟨ascii "Cache-Control", IMMUTABLE⟩]
          data := bytes ++ [0] ++ lenText bytes.length ++ [0]
          allocated := allocated }, w)

def contentEntryDynamicLoad (w : World σ) (fsPath : Bytes) (st : Stat) :
    Load (Option ContentEntry × World σ) := do
  let allocated := st.size + 1
  let (ok, w) := w.malloc
  if !ok then return (none, w)
  let (ok, w) := w.malloc
  if !ok then return (none, w)
  let (bytes, w) ← fileRead allocated w fsPath st.size
  match bytes with
  | none => return (none, w)
  | some bytes =>
    let reval := revalFill st fsPath
    lenTextStore allocated bytes.length
    return (some
      { mode := .dynResident
        len := bytes.length
        headers := [⟨ascii "Content-Type", contentType fsPath⟩,
          ⟨ascii "Content-Length", lenText bytes.length⟩, ⟨ascii "ETag", reval.etag⟩,
          ⟨ascii "Last-Modified", reval.lastModified⟩, ⟨ascii "Cache-Control", NO_CACHE⟩]
        reval := some reval
        data := bytes ++ [0] ++ lenText bytes.length ++ [0]
        allocated := allocated }, w)

def contentRegistryAddFile (w : World σ) (fsPath url : Bytes) (mode : ServeMode) :
    Load (Bool × World σ) :=
  match w.stat fsPath with
  | (none, w) => return (false, w)
  | (some st, w) => do
    let (entry, w) ← match mode with
      | .staticResident => contentEntryStaticLoad w fsPath
      | .staticStreamed => pure (contentEntryStreamedLoad w fsPath st .staticStreamed IMMUTABLE)
      | .dynResident => contentEntryDynamicLoad w fsPath st
      | .dynStreamed => pure (contentEntryStreamedLoad w fsPath st .dynStreamed NO_CACHE)
    match entry with
    | none => return (false, w)
    | some entry => return (true, { w with registry := dictInsert w.registry url entry })

def contentEntryRefresh (w : World σ) (urlPath : Bytes) (entry : ContentEntry)
    (reval : RevalMeta) (st : Stat) : Load (Option ContentEntry × World σ) := do
  if st.mtime ≠ reval.mtime ∨ st.size ≠ reval.size then
    let (fresh, w) ← contentEntryDynamicLoad w reval.fsPath st
    match fresh with
    | none => return (none, w)
    | some fresh => return (some fresh, { w with registry := dictInsert w.registry urlPath fresh })
  else return (some entry, w)

def contentRegistryLookup (w : World σ) (headers : List Header) (urlPath : Bytes) :
    Load (ContentLookupResult × World σ) :=
  match dictFind w.registry urlPath with
  | none => return (.miss, w)
  | some entry =>
    match entry.mode, entry.reval with
    | .dynResident, some reval =>
      match w.stat reval.fsPath with
      | (none, w) => return (.gone, w)
      | (some st, w) => do
        let (entry, w) ← contentEntryRefresh w urlPath entry reval st
        match entry with
        | none => return (.gone, w)
        | some entry =>
          return (if requestValidatorsMatch headers (entry.reval.getD {}) then .notModified entry
            else .hit entry, w)
    | _, _ => return (.hit entry, w)

end Checked

open CheckedMemory

/-! ## The loaders -/

theorem fileRead_checked {allocated size : ℕ} (h : size < allocated) :
    Checked.fileRead allocated w fsPath size = pure (fileRead w fsPath size) := by
  unfold Checked.fileRead fileRead
  generalize w.open fsPath = found
  obtain ⟨_ | file, w⟩ := found
  · rfl
  · have hlen : (file.content.take size).length ≤ size := List.length_take_le _ _
    dsimp only
    rw [checkStores_eq (by omega), pure_bind, checkStore_eq (by omega), pure_bind,
      Option.filter_some]
    cases file.reads <;> rfl

theorem fileRead_length (w : World σ) (path : Bytes) (size : ℕ) :
    ∀ bytes, (fileRead w path size).1 = some bytes → bytes.length ≤ size := by
  intro bytes h
  obtain ⟨file, -, rfl⟩ := fileRead_some h
  exact List.length_take_le _ _

/-- The text of a static entry fits whatever the file's size is. -/
theorem contentEntryStaticLoad_checked (w : World σ) (fsPath : Bytes) :
    Checked.contentEntryStaticLoad w fsPath = .ok (contentEntryStaticLoad w fsPath) := by
  unfold Checked.contentEntryStaticLoad contentEntryStaticLoad
  generalize w.stat fsPath = found
  obtain ⟨_ | st, w₁⟩ := found
  · rfl
  dsimp only
  split
  · rfl
  rw [fileRead_checked (by omega), pure_bind]
  have hbytes := fileRead_length w₁.malloc.2 fsPath st.size
  generalize fileRead w₁.malloc.2 fsPath st.size = read at hbytes
  obtain ⟨_ | bytes, w₂⟩ := read
  · rfl
  · have hlen := hbytes bytes rfl
    have htext := lenText_length bytes.length
    dsimp only
    rw [Checked.lenTextStore, checkStores_eq (by omega), pure_bind]
    rfl

/-- A load of this file gets no further than `malloc`, `fopen` or `fread`, or the file delivers
enough bytes less than `stat` has announced for the length text and its `NUL`. -/
def DynamicLoadFits (w : World σ) (fsPath : Bytes) (st : Stat) : Prop :=
  w.malloc.1 = true → w.malloc.2.malloc.1 = true →
    ∀ file, w.files fsPath = some file → file.opens = true → file.reads = true →
      min st.size file.content.length + (lenText (min st.size file.content.length)).length + 1 ≤
        st.size

theorem World.malloc_files (w : World σ) : w.malloc.2.files = w.files := w.malloc_extends.files

theorem fileRead_fst (w : World σ) (path : Bytes) (size : ℕ) :
    (fileRead w path size).1 =
      ((w.files path).filter fun file => file.opens && file.reads).map fun file =>
        file.content.take size := by
  unfold fileRead World.open
  dsimp only
  rw [Option.filter_filter]

/-- Where the text does not fit, its first byte outside is the one behind the allocation. -/
theorem contentEntryDynamicLoad_checked (w : World σ) (fsPath : Bytes) (st : Stat) :
    (DynamicLoadFits w fsPath st →
      Checked.contentEntryDynamicLoad w fsPath st = .ok (contentEntryDynamicLoad w fsPath st)) ∧
    (¬ DynamicLoadFits w fsPath st →
      Checked.contentEntryDynamicLoad w fsPath st = .error (.store .data (st.size + 1))) := by
  unfold Checked.contentEntryDynamicLoad contentEntryDynamicLoad DynamicLoadFits
  dsimp only
  have hfiles : w.malloc.2.malloc.2.files = w.files := by
    rw [World.malloc_files, World.malloc_files]
  generalize w.malloc = first at hfiles
  obtain ⟨_ | _, w₁⟩ := first
  · exact ⟨fun _ => rfl, fun hno => absurd nofun hno⟩
  generalize w₁.malloc = second at hfiles
  obtain ⟨_ | _, w₂⟩ := second
  · exact ⟨fun _ => rfl, fun hno => absurd nofun hno⟩
  have hread := fileRead_fst w₂ fsPath st.size
  rw [hfiles] at hread
  simp only [Bool.not_true, Bool.false_eq_true, if_false, forall_const]
  rw [fileRead_checked (Nat.lt_succ_self _), pure_bind]
  generalize fileRead w₂ fsPath st.size = read at hread
  obtain ⟨bytes, w₃⟩ := read
  dsimp only at hread ⊢
  cases bytes with
  | none =>
    refine ⟨fun _ => rfl, fun hno => absurd (fun file hfile hopens hreads => ?_) hno⟩
    simp [hfile, hopens, hreads] at hread
  | some bytes =>
    obtain ⟨file, hfile, rfl⟩ := Option.map_eq_some_iff.mp hread.symm
    obtain ⟨hfile, hopens⟩ := Option.filter_eq_some_iff.mp hfile
    obtain ⟨hopens, hreads⟩ := Bool.and_eq_true_iff.mp hopens
    dsimp only
    rw [Checked.lenTextStore, List.length_take]
    constructor
    · intro hfits
      have hroom := hfits file hfile hopens hreads
      rw [checkStores_eq (by omega), pure_bind]
      rfl
    · intro hno
      have hroom : st.size < min st.size file.content.length +
          (lenText (min st.size file.content.length)).length + 1 := by
        refine Nat.not_le.mp fun hle => hno fun file' hfile' _ _ => ?_
        obtain rfl := Option.some.inj (hfile.symm.trans hfile')
        exact hle
      rw [checkStores_error (by omega) (by omega)]
      rfl

/-! ## First registration and reload -/

theorem dynamicLoadFits_stat (w : World σ) (path : Bytes) :
    DynamicLoadFits (w.stat path).2 fsPath st ↔ DynamicLoadFits w fsPath st := by
  obtain ⟨files, mallocs, registry, fsCalls, handlers⟩ := w
  match mallocs with
  | [] => rfl
  | [ok] => rfl
  | ok :: ok' :: rest => rfl

theorem dynamicLoad_stat_checked (w : World σ) (path fsPath : Bytes) (st : Stat) :
    (DynamicLoadFits w fsPath st →
      Checked.contentEntryDynamicLoad (w.stat path).2 fsPath st =
        .ok (contentEntryDynamicLoad (w.stat path).2 fsPath st)) ∧
    (¬ DynamicLoadFits w fsPath st →
      Checked.contentEntryDynamicLoad (w.stat path).2 fsPath st =
        .error (.store .data (st.size + 1))) := by
  rw [← dynamicLoadFits_stat w path]
  exact contentEntryDynamicLoad_checked _ fsPath st

theorem contentRegistryAddFile_checked_iff (w : World σ) (fsPath url : Bytes) (mode : ServeMode) :
    Checked.contentRegistryAddFile w fsPath url mode =
        .ok (contentRegistryAddFile w fsPath url mode) ↔
      (mode = .dynResident → ∀ file, w.files fsPath = some file →
        DynamicLoadFits w fsPath ⟨file.mtime, file.size⟩) := by
  unfold Checked.contentRegistryAddFile contentRegistryAddFile
  cases hfile : w.files fsPath with
  | none =>
    rw [World.stat_none hfile]
    exact iff_of_true rfl fun _ file h => by cases h
  | some file =>
    obtain ⟨hfits, hoverruns⟩ := dynamicLoad_stat_checked w fsPath fsPath ⟨file.mtime, file.size⟩
    rw [World.stat_some hfile]
    generalize (w.stat fsPath).2 = w₁ at hfits hoverruns ⊢
    cases mode with
    | staticResident =>
      refine iff_of_true ?_ nofun
      dsimp only
      rw [contentEntryStaticLoad_checked]
      obtain ⟨_ | entry, w₂⟩ := contentEntryStaticLoad w₁ fsPath <;> rfl
    | staticStreamed =>
      refine iff_of_true ?_ nofun
      dsimp only
      obtain ⟨_ | entry, w₂⟩ := contentEntryStreamedLoad w₁ fsPath _ .staticStreamed IMMUTABLE <;>
        rfl
    | dynStreamed =>
      refine iff_of_true ?_ nofun
      dsimp only
      obtain ⟨_ | entry, w₂⟩ := contentEntryStreamedLoad w₁ fsPath _ .dynStreamed NO_CACHE <;> rfl
    | dynResident =>
      dsimp only
      constructor
      · intro hok _ file' hfile'
        obtain rfl := Option.some.inj hfile'
        by_contra hno
        rw [hoverruns hno] at hok
        cases hok
      · intro hroom
        rw [hfits (hroom rfl file rfl)]
        obtain ⟨_ | entry, w₂⟩ := contentEntryDynamicLoad w₁ fsPath _ <;> rfl

/-- A file that has changed is loaded again. -/
def ReloadFits (w : World σ) (reval : RevalMeta) (st : Stat) : Prop :=
  st.mtime ≠ reval.mtime ∨ st.size ≠ reval.size → DynamicLoadFits w reval.fsPath st

theorem contentEntryRefresh_checked (w : World σ) (path url : Bytes) (entry : ContentEntry)
    (reval : RevalMeta) (st : Stat) :
    (ReloadFits w reval st →
      Checked.contentEntryRefresh (w.stat path).2 url entry reval st =
        .ok (contentEntryRefresh (w.stat path).2 url entry reval st)) ∧
    (¬ ReloadFits w reval st →
      Checked.contentEntryRefresh (w.stat path).2 url entry reval st =
        .error (.store .data (st.size + 1))) := by
  obtain ⟨hfits, hoverruns⟩ := dynamicLoad_stat_checked w path reval.fsPath st
  unfold Checked.contentEntryRefresh contentEntryRefresh
  generalize (w.stat path).2 = w₁ at hfits hoverruns ⊢
  by_cases hchanged : st.mtime ≠ reval.mtime ∨ st.size ≠ reval.size
  · rw [if_pos hchanged, if_pos hchanged]
    constructor
    · intro hroom
      rw [hfits (hroom hchanged)]
      obtain ⟨_ | fresh, w₂⟩ := contentEntryDynamicLoad w₁ reval.fsPath st <;> rfl
    · intro hno
      rw [hoverruns fun h => hno fun _ => h]
      rfl
  · rw [if_neg hchanged, if_neg hchanged]
    exact ⟨fun _ => rfl, fun hno => absurd (fun h => absurd h hchanged) hno⟩

theorem contentRegistryLookup_checked_iff (w : World σ) (headers : List Header) (url : Bytes) :
    Checked.contentRegistryLookup w headers url = .ok (contentRegistryLookup w headers url) ↔
      ∀ entry reval file, dictFind w.registry url = some entry → entry.mode = .dynResident →
        entry.reval = some reval → w.files reval.fsPath = some file →
        ReloadFits w reval ⟨file.mtime, file.size⟩ := by
  unfold Checked.contentRegistryLookup contentRegistryLookup
  cases hfind : dictFind w.registry url with
  | none => exact iff_of_true rfl nofun
  | some entry =>
    dsimp only
    rcases hmode : entry.mode with _ | _ | _ | _
    case dynResident =>
      rcases hreval : entry.reval with _ | reval
      · exact iff_of_true rfl fun entry' reval file h _ hsome => by
          obtain rfl := Option.some.inj h
          cases hreval.symm.trans hsome
      cases hfile : w.files reval.fsPath with
      | none =>
        dsimp only
        rw [World.stat_none hfile]
        refine iff_of_true rfl fun entry' reval' file h _ hreval' hfile' => ?_
        obtain rfl := Option.some.inj h
        obtain rfl := Option.some.inj (hreval.symm.trans hreval')
        cases hfile.symm.trans hfile'
      | some file =>
        obtain ⟨hfits, hoverruns⟩ :=
          contentEntryRefresh_checked w reval.fsPath url entry reval ⟨file.mtime, file.size⟩
        dsimp only
        rw [World.stat_some hfile]
        generalize (w.stat reval.fsPath).2 = w₁ at hfits hoverruns
        dsimp only
        constructor
        · intro hok entry' reval' file' h _ hreval' hfile'
          obtain rfl := Option.some.inj h
          obtain rfl := Option.some.inj (hreval.symm.trans hreval')
          obtain rfl := Option.some.inj (hfile.symm.trans hfile')
          by_contra hno
          rw [hoverruns hno] at hok
          cases hok
        · intro hroom
          rw [hfits (hroom entry reval file rfl hmode hreval hfile)]
          obtain ⟨_ | fresh, w₂⟩ := contentEntryRefresh w₁ url entry reval _ <;> rfl
    all_goals
      exact iff_of_true rfl fun entry' reval file h hdyn => by
        obtain rfl := Option.some.inj h
        cases hmode.symm.trans hdyn

/-- On registration and on lookup, the stores of every load stay inside the allocated bytes exactly
where no dynamic entry is loaded or its length text fits. -/
theorem entryStores_inside_iff (w : World σ) (fsPath url : Bytes) (st : Stat) (mode : ServeMode)
    (headers : List Header) :
    Checked.contentEntryStaticLoad w fsPath = .ok (contentEntryStaticLoad w fsPath) ∧
    (Checked.contentEntryDynamicLoad w fsPath st = .ok (contentEntryDynamicLoad w fsPath st) ↔
      DynamicLoadFits w fsPath st) ∧
    (Checked.contentRegistryAddFile w fsPath url mode =
        .ok (contentRegistryAddFile w fsPath url mode) ↔
      (mode = .dynResident → ∀ file, w.files fsPath = some file →
        DynamicLoadFits w fsPath ⟨file.mtime, file.size⟩)) ∧
    (Checked.contentRegistryLookup w headers url = .ok (contentRegistryLookup w headers url) ↔
      ∀ entry reval file, dictFind w.registry url = some entry → entry.mode = .dynResident →
        entry.reval = some reval → w.files reval.fsPath = some file →
        ReloadFits w reval ⟨file.mtime, file.size⟩) := by
  refine ⟨contentEntryStaticLoad_checked w fsPath, ⟨fun hok => ?_,
    (contentEntryDynamicLoad_checked w fsPath st).1⟩,
    contentRegistryAddFile_checked_iff w fsPath url mode,
    contentRegistryLookup_checked_iff w headers url⟩
  by_contra hno
  rw [(contentEntryDynamicLoad_checked w fsPath st).2 hno] at hok
  cases hok

/-- A file of five bytes that is delivered whole: its `NUL` is the last of the six bytes, and the
text of its length begins behind them. -/
theorem contentRegistryAddFile_overruns :
    Checked.contentRegistryAddFile
        ({ files := fun _ => some { size := 5, content := ascii "hello" }
           handlers := () } : World Unit)
        (ascii "hello.txt") (ascii "/hello.txt") .dynResident =
      .error (.store .data 6) := by
  rfl

end HttpServer
