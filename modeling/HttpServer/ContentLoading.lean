import HttpServer.Router

/-!
# Loading content

What the functions that read the file system and allocate leave alone, and what an
entry holds that has been loaded from a file, for every serving mode.
-/

namespace HttpServer

variable {σ : Type*} {w w' : World σ} {path : Bytes} {entry : ContentEntry}

/-! ## What loading leaves alone -/

/-- The files and the registry are the same, and more calls may have been made. -/
structure World.Extends (w w' : World σ) : Prop where
  files : w'.files = w.files
  registry : w'.registry = w.registry
  fsCalls : w.fsCalls <+: w'.fsCalls

theorem World.Extends.refl (w : World σ) : w.Extends w :=
  ⟨rfl, rfl, List.prefix_rfl⟩

theorem World.Extends.trans {w'' : World σ} (h : w.Extends w') (h' : w'.Extends w'') :
    w.Extends w'' :=
  ⟨h'.files.trans h.files, h'.registry.trans h.registry, h.fsCalls.trans h'.fsCalls⟩

theorem World.malloc_extends (w : World σ) : w.Extends w.malloc.2 := by
  unfold World.malloc
  split
  · exact .refl w
  · exact ⟨rfl, rfl, List.prefix_rfl⟩

theorem World.stat_extends (w : World σ) (path : Bytes) : w.Extends (w.stat path).2 :=
  ⟨rfl, rfl, List.prefix_append ..⟩

theorem World.open_extends (w : World σ) (path : Bytes) : w.Extends (w.open path).2 :=
  ⟨rfl, rfl, List.prefix_append ..⟩

theorem fileRead_extends (w : World σ) (path : Bytes) (size : ℕ) :
    w.Extends (fileRead w path size).2 :=
  w.open_extends path

theorem contentEntryStaticLoad_extends (w : World σ) (path : Bytes) :
    w.Extends (contentEntryStaticLoad w path).2 := by
  have hstat := w.stat_extends path
  unfold contentEntryStaticLoad
  generalize w.stat path = found at hstat ⊢
  obtain ⟨_ | st, w₁⟩ := found
  · exact hstat
  · have hmalloc := hstat.trans w₁.malloc_extends
    dsimp only
    split
    · exact hmalloc
    · have hread := hmalloc.trans (fileRead_extends w₁.malloc.2 path st.size)
      generalize fileRead w₁.malloc.2 path st.size = read at hread ⊢
      obtain ⟨_ | bytes, w₂⟩ := read <;> exact hread

theorem contentEntryDynamicLoad_extends (w : World σ) (path : Bytes) (st : Stat) :
    w.Extends (contentEntryDynamicLoad w path st).2 := by
  have hmallocs := w.malloc_extends.trans w.malloc.2.malloc_extends
  unfold contentEntryDynamicLoad
  dsimp only
  split
  · exact w.malloc_extends
  · split
    · exact hmallocs
    · have hread := hmallocs.trans (fileRead_extends w.malloc.2.malloc.2 path st.size)
      generalize fileRead w.malloc.2.malloc.2 path st.size = read at hread ⊢
      obtain ⟨_ | bytes, w₁⟩ := read <;> exact hread

theorem contentEntryStreamedLoad_extends (w : World σ) (path : Bytes) (st : Stat) (mode : ServeMode)
    (cacheControl : Bytes) :
    w.Extends (contentEntryStreamedLoad w path st mode cacheControl).2 := by
  unfold contentEntryStreamedLoad
  dsimp only
  split
  · exact w.malloc_extends
  · have hmallocs := w.malloc_extends.trans w.malloc.2.malloc_extends
    split <;> exact hmallocs

theorem fileStreamOpen_extends (w : World σ) (path : Bytes) (scratch : Arena) :
    w.Extends (fileStreamOpen w path scratch).2.2 := by
  have hopen := w.open_extends path
  unfold fileStreamOpen
  generalize w.open path = found at hopen ⊢
  obtain ⟨_ | file, w₁⟩ := found
  · exact hopen
  · dsimp only
    split <;> exact hopen

theorem responseForEntry_extends (w : World σ) (req : RequestView) (entry : ContentEntry)
    (scratch : Arena) : w.Extends (responseForEntry w req entry scratch).2.2 := by
  have hstreamed : w.Extends (responseStreamed w entry scratch).2.2 := by
    have hopen := fileStreamOpen_extends w ((entry.reval.map RevalMeta.fsPath).getD []) scratch
    unfold responseStreamed
    dsimp only
    split <;> exact hopen
  unfold responseForEntry
  cases entry.mode with
  | staticResident => exact .refl w
  | dynResident => exact .refl w
  | staticStreamed => exact hstreamed
  | dynStreamed => exact hstreamed

/-! ## What has been loaded -/

/-- `snprintf` of the length stays within its buffer. -/
theorem lenText_length (len : ℕ) : (lenText len).length < LEN_BUF_SIZE :=
  (List.length_take_le _ _).trans_lt (by decide)

/-- Of the headers with these names, exactly the validators of a file with this status. -/
def CarriesValidators (st : Stat) (headers : List ResponseHeader) : Prop :=
  headers.filter (fun h => h.key = ascii "ETag" ∨ h.key = ascii "Last-Modified") =
    [⟨ascii "ETag", (revalFill st []).etag⟩, ⟨ascii "Last-Modified", (revalFill st []).lastModified⟩]

/-- The bytes of `file` that are delivered when `size` of them are asked for. -/
structure ContentEntry.Holds (entry : ContentEntry) (file : FileNode) (size : ℕ) : Prop where
  data : entry.data.take entry.len = file.content.take size
  len : entry.len = (file.content.take size).length

theorem fileRead_some {size : ℕ} {bytes : Bytes} (h : (fileRead w path size).1 = some bytes) :
    ∃ file, w.files path = some file ∧ bytes = file.content.take size := by
  obtain ⟨file, hfile, rfl⟩ := Option.map_eq_some_iff.mp h
  obtain ⟨hopened, -⟩ := Option.filter_eq_some_iff.mp hfile
  obtain ⟨hsome, -⟩ := Option.filter_eq_some_iff.mp hopened
  exact ⟨file, hsome, rfl⟩

theorem World.stat_some {file : FileNode} (h : w.files path = some file) :
    w.stat path = (some ⟨file.mtime, file.size⟩, (w.stat path).2) := by
  rw [World.stat, h]
  rfl

theorem World.stat_none (h : w.files path = none) : w.stat path = (none, (w.stat path).2) := by
  rw [World.stat, h]
  rfl

theorem contentEntryStaticLoad_some (h : (contentEntryStaticLoad w path).1 = some entry) :
    ∃ file, w.files path = some file ∧ entry.mode = .staticResident ∧
      entry.Holds file file.size := by
  unfold contentEntryStaticLoad at h
  cases hfile : w.files path with
  | none =>
    rw [World.stat_none hfile] at h
    cases h
  | some file =>
    rw [World.stat_some hfile] at h
    dsimp only at h
    have hmalloc := (w.stat_extends path).trans (w.stat path).2.malloc_extends
    split at h
    · cases h
    · have hread : ∀ bytes, (fileRead (w.stat path).2.malloc.2 path file.size).1 = some bytes →
          bytes = file.content.take file.size := by
        intro bytes hbytes
        obtain ⟨file', hfile', rfl⟩ := fileRead_some hbytes
        rw [hmalloc.files, hfile] at hfile'
        rw [Option.some.inj hfile']
      generalize fileRead (w.stat path).2.malloc.2 path file.size = read at hread h
      obtain ⟨_ | bytes, w₁⟩ := read
      · cases h
      · obtain rfl := Option.some.inj h
        refine ⟨file, rfl, rfl, ?_, ?_⟩
        · rw [List.append_assoc, List.append_assoc, List.take_left, hread bytes rfl]
        · exact congrArg List.length (hread bytes rfl)

theorem contentEntryDynamicLoad_some {st : Stat}
    (h : (contentEntryDynamicLoad w path st).1 = some entry) :
    ∃ file, w.files path = some file ∧ entry.mode = .dynResident ∧ entry.Holds file st.size ∧
      entry.reval = some (revalFill st path) ∧ CarriesValidators st entry.headers ∧
      entry.headers.length = 5 := by
  have hmallocs := w.malloc_extends.trans w.malloc.2.malloc_extends
  unfold contentEntryDynamicLoad at h
  dsimp only at h
  split at h
  · cases h
  · split at h
    · cases h
    · have hread : ∀ bytes, (fileRead w.malloc.2.malloc.2 path st.size).1 = some bytes →
          ∃ file, w.files path = some file ∧ bytes = file.content.take st.size := by
        intro bytes hbytes
        obtain ⟨file, hfile, hbytes⟩ := fileRead_some hbytes
        exact ⟨file, hmallocs.files ▸ hfile, hbytes⟩
      generalize fileRead w.malloc.2.malloc.2 path st.size = read at hread h
      obtain ⟨_ | bytes, w₁⟩ := read
      · cases h
      · obtain rfl := Option.some.inj h
        obtain ⟨file, hfile, rfl⟩ := hread bytes rfl
        refine ⟨file, hfile, rfl, ⟨?_, rfl⟩, rfl, ?_, rfl⟩
        · rw [List.append_assoc, List.append_assoc, List.take_left]
        · simp +decide [CarriesValidators, revalFill]

theorem contentEntryStreamedLoad_some {st : Stat} {mode : ServeMode} {cacheControl : Bytes}
    (h : (contentEntryStreamedLoad w path st mode cacheControl).1 = some entry) :
    entry.mode = mode ∧ entry.reval = some (revalFill st path) ∧
      CarriesValidators st entry.headers ∧ entry.headers.length = 4 := by
  unfold contentEntryStreamedLoad at h
  dsimp only at h
  split at h
  · cases h
  · split at h
    · cases h
    · obtain rfl := Option.some.inj h
      refine ⟨rfl, rfl, ?_, rfl⟩
      simp +decide [CarriesValidators, revalFill]

end HttpServer
