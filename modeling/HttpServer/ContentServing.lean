import HttpServer.ContentFreshness

/-!
# Serving what is registered

What stays true of the entry of a URL from its registration on, in every mode, while
files change and requests come. The path of the file goes through a buffer of 256
bytes, and a file that is streamed is opened again at every request.
-/

namespace HttpServer

open Relation

variable {σ : Type*} {allowed : (Bytes → Option FileNode) → Prop} {versions : FileNode → Prop}
  {w w' : World σ} {path url : Bytes} {mode : ServeMode} {st : Stat} {entry : ContentEntry}
  {file : FileNode}

/-! ## What is stored -/

/-- What is left of a path in `fs_path`. -/
def storedPath (path : Bytes) : Bytes := path.take (FS_PATH_SIZE - 1)

theorem storedPath_eq_iff (path : Bytes) : storedPath path = path ↔ path.length < FS_PATH_SIZE := by
  rw [storedPath, List.take_eq_self_iff]
  unfold FS_PATH_SIZE
  omega

theorem storedPath_storedPath (path : Bytes) : storedPath (storedPath path) = storedPath path := by
  simp [storedPath]

/-- An entry that `path` has been registered with when `st` was its status. What is resident is
one of the `versions` of the file. -/
inductive ContentEntry.Stored (versions : FileNode → Prop) (path : Bytes) (st : Stat) :
    ServeMode → ContentEntry → Prop where
  | static {entry : ContentEntry} {file : FileNode} (hmode : entry.mode = .staticResident)
      (hversion : versions file) (hholds : entry.Holds file file.size) :
      Stored versions path st .staticResident entry
  | dynamic {entry : ContentEntry} {file : FileNode} {source : Bytes}
      (hmode : entry.mode = .dynResident) (hversion : versions file)
      (hholds : entry.Holds file file.size) (hsource : storedPath source = storedPath path)
      (hreval : entry.reval = some (revalFill ⟨file.mtime, file.size⟩ source))
      (hheaders : CarriesValidators ⟨file.mtime, file.size⟩ entry.headers)
      (hcount : entry.headers.length = 5) :
      Stored versions path st .dynResident entry
  | streamed {mode : ServeMode} {entry : ContentEntry}
      (hstreamed : mode = .staticStreamed ∨ mode = .dynStreamed) (hmode : entry.mode = mode)
      (hreval : entry.reval = some (revalFill st path)) (hheaders : CarriesValidators st entry.headers)
      (hcount : entry.headers.length = 4) :
      Stored versions path st mode entry

theorem ContentEntry.Stored.mono {versions' : FileNode → Prop} (h : entry.Stored versions path st mode)
    (himp : ∀ file, versions file → versions' file) : entry.Stored versions' path st mode := by
  cases h with
  | static hmode hversion hholds => exact .static hmode (himp _ hversion) hholds
  | dynamic hmode hversion hholds hsource hreval hheaders hcount =>
    exact .dynamic hmode (himp _ hversion) hholds hsource hreval hheaders hcount
  | streamed hstreamed hmode hreval hheaders hcount =>
    exact .streamed hstreamed hmode hreval hheaders hcount

theorem contentEntryDynamicLoad_stored {source : Bytes} (hfile : w.files source = some file)
    (hversion : versions file) (hsource : storedPath source = storedPath path)
    (h : (contentEntryDynamicLoad w source ⟨file.mtime, file.size⟩).1 = some entry) :
    entry.Stored versions path st .dynResident := by
  obtain ⟨file', hfile', hmode, hholds, hreval, hheaders, hcount⟩ := contentEntryDynamicLoad_some h
  obtain rfl := Option.some.inj (hfile.symm.trans hfile')
  exact .dynamic hmode hversion hholds hsource hreval hheaders hcount

/-! ## Registering -/

/-- What registering comes to, once the file has been found. -/
def contentEntryLoad (w : World σ) (path : Bytes) (st : Stat) :
    ServeMode → Option ContentEntry × World σ
  | .staticResident => contentEntryStaticLoad w path
  | .staticStreamed => contentEntryStreamedLoad w path st .staticStreamed IMMUTABLE
  | .dynResident => contentEntryDynamicLoad w path st
  | .dynStreamed => contentEntryStreamedLoad w path st .dynStreamed NO_CACHE

theorem contentEntryLoad_extends (w : World σ) (path : Bytes) (st : Stat) (mode : ServeMode) :
    w.Extends (contentEntryLoad w path st mode).2 := by
  cases mode with
  | staticResident => exact contentEntryStaticLoad_extends w path
  | staticStreamed => exact contentEntryStreamedLoad_extends w path st .staticStreamed IMMUTABLE
  | dynResident => exact contentEntryDynamicLoad_extends w path st
  | dynStreamed => exact contentEntryStreamedLoad_extends w path st .dynStreamed NO_CACHE

theorem contentEntryLoad_stored (hfile : w.files path = some file)
    (h : (contentEntryLoad w path ⟨file.mtime, file.size⟩ mode).1 = some entry) :
    entry.Stored (· = file) path ⟨file.mtime, file.size⟩ mode := by
  cases mode with
  | staticResident =>
    obtain ⟨file', hfile', hmode, hholds⟩ := contentEntryStaticLoad_some h
    obtain rfl := Option.some.inj (hfile.symm.trans hfile')
    exact .static hmode rfl hholds
  | staticStreamed =>
    obtain ⟨hmode, hreval, hheaders, hcount⟩ := contentEntryStreamedLoad_some h
    exact .streamed (.inl rfl) hmode hreval hheaders hcount
  | dynResident => exact contentEntryDynamicLoad_stored hfile rfl rfl h
  | dynStreamed =>
    obtain ⟨hmode, hreval, hheaders, hcount⟩ := contentEntryStreamedLoad_some h
    exact .streamed (.inr rfl) hmode hreval hheaders hcount

/-- Registering touches no file, and of the registry at most the entry of its URL. -/
theorem contentRegistryAddFile_spec (w : World σ) (path url : Bytes) (mode : ServeMode) :
    (contentRegistryAddFile w path url mode).2.files = w.files ∧
      ((contentRegistryAddFile w path url mode).1 = false ∧
          (contentRegistryAddFile w path url mode).2.registry = w.registry ∨
        ∃ file entry, w.files path = some file ∧
          entry.Stored (· = file) path ⟨file.mtime, file.size⟩ mode ∧
          (contentRegistryAddFile w path url mode).2.registry =
            dictInsert w.registry url entry) := by
  cases hfile : w.files path with
  | none =>
    rw [contentRegistryAddFile, World.stat_none hfile]
    exact ⟨rfl, .inl ⟨rfl, rfl⟩⟩
  | some file =>
    have hstat := w.stat_extends path
    have hload := hstat.trans (contentEntryLoad_extends (w.stat path).2 path
      ⟨file.mtime, file.size⟩ mode)
    have hstored : ∀ entry, (contentEntryLoad (w.stat path).2 path
        ⟨file.mtime, file.size⟩ mode).1 = some entry →
        entry.Stored (· = file) path ⟨file.mtime, file.size⟩ mode := fun entry =>
      contentEntryLoad_stored ((congrFun hstat.files path).trans hfile)
    rw [contentRegistryAddFile, World.stat_some hfile]
    obtain ⟨load, heq⟩ : ∃ load, load = contentEntryLoad (w.stat path).2 path
      ⟨file.mtime, file.size⟩ mode := ⟨_, rfl⟩
    rw [← heq] at hload hstored
    cases mode
    all_goals
      rw [contentEntryLoad] at heq
      dsimp only
      rw [← heq]
      obtain ⟨_ | entry, w₁⟩ := load
      · exact ⟨hload.files, .inl ⟨rfl, hload.registry⟩⟩
      · refine ⟨hload.files, .inr ⟨file, entry, rfl, hstored entry rfl, ?_⟩⟩
        rw [← hload.registry]

theorem contentRegistryAddFile_stored (hfile : w.files path = some file)
    (h : (contentRegistryAddFile w path url mode).1 = true) :
    ∃ entry, dictFind (contentRegistryAddFile w path url mode).2.registry url = some entry ∧
      entry.Stored (· = file) path ⟨file.mtime, file.size⟩ mode := by
  obtain ⟨-, ⟨hfails, -⟩ | ⟨file', entry, hfile', hstored, hregistry⟩⟩ :=
    contentRegistryAddFile_spec w path url mode
  · rw [hfails] at h
    cases h
  · obtain rfl := Option.some.inj (hfile.symm.trans hfile')
    exact ⟨entry, by rw [hregistry, dictFind_dictInsert, if_pos rfl], hstored⟩

theorem contentRegistryAddFile_others (w : World σ) (path : Bytes) (mode : ServeMode)
    {other : Bytes} (hother : other ≠ url) :
    dictFind (contentRegistryAddFile w path url mode).2.registry other =
      dictFind w.registry other := by
  obtain ⟨-, ⟨-, hregistry⟩ | ⟨file, entry, -, -, hregistry⟩⟩ :=
    contentRegistryAddFile_spec w path url mode
  · rw [hregistry]
  · rw [hregistry, dictFind_dictInsert, if_neg hother]

/-! ## Looking up -/

theorem contentRegistryLookup_other (hfind : dictFind w.registry url = some entry)
    (hmode : entry.mode ≠ .dynResident) (headers : List Header) :
    contentRegistryLookup w headers url = (.hit entry, w) := by
  unfold contentRegistryLookup
  rw [hfind]
  dsimp only
  split
  · next h _ => exact absurd h hmode
  · rfl

/-- The entry of a file that is no longer there. -/
theorem contentRegistryLookup_gone {reval : RevalMeta}
    (hfind : dictFind w.registry url = some entry) (hmode : entry.mode = .dynResident)
    (hreval : entry.reval = some reval) (hfile : w.files reval.fsPath = none)
    (headers : List Header) :
    contentRegistryLookup w headers url = (.gone, (w.stat reval.fsPath).2) := by
  unfold contentRegistryLookup
  rw [hfind]
  dsimp only
  split
  · next reval' _ hreval' =>
    rw [hreval] at hreval'
    obtain rfl := Option.some.inj hreval'
    rw [World.stat_none hfile]
  · next hother => exact absurd hreval (hother reval hmode)

/-- The entry of a file that is there goes through `contentEntryRefresh`. -/
theorem contentRegistryLookup_refresh {reval : RevalMeta} {result : Option ContentEntry}
    (hfind : dictFind w.registry url = some entry) (hmode : entry.mode = .dynResident)
    (hreval : entry.reval = some reval) (hfile : w.files reval.fsPath = some file)
    (hrefresh : contentEntryRefresh (w.stat reval.fsPath).2 url entry reval
      ⟨file.mtime, file.size⟩ = (result, w')) (headers : List Header) :
    contentRegistryLookup w headers url =
      (result.elim .gone fun entry =>
        if requestValidatorsMatch headers (entry.reval.getD {}) then .notModified entry
        else .hit entry, w') := by
  unfold contentRegistryLookup
  rw [hfind]
  dsimp only
  split
  · next reval' _ hreval' =>
    rw [hreval] at hreval'
    obtain rfl := Option.some.inj hreval'
    rw [World.stat_some hfile]
    dsimp only
    rw [hrefresh]
    cases result <;> rfl
  · next hother => exact absurd hreval (hother reval hmode)

/-- What is found of an unchanged file is the entry as it is. -/
theorem contentRegistryLookup_unchanged {reval : RevalMeta}
    (hfind : dictFind w.registry url = some entry) (hmode : entry.mode = .dynResident)
    (hreval : entry.reval = some reval) (hfile : w.files reval.fsPath = some file)
    (hmtime : file.mtime = reval.mtime) (hsize : file.size = reval.size) (headers : List Header) :
    contentRegistryLookup w headers url =
      (if requestValidatorsMatch headers reval then .notModified entry else .hit entry,
        (w.stat reval.fsPath).2) := by
  have hsame : contentEntryRefresh (w.stat reval.fsPath).2 url entry reval
      ⟨file.mtime, file.size⟩ = (some entry, (w.stat reval.fsPath).2) := by
    unfold contentEntryRefresh
    rw [if_neg]
    simp [hmtime, hsize]
  rw [contentRegistryLookup_refresh hfind hmode hreval hfile hsame, Option.elim_some, hreval,
    Option.getD_some]

/-- Whatever is found, the path that the entry remembers has been looked at. -/
theorem contentRegistryLookup_stats {reval : RevalMeta}
    (hfind : dictFind w.registry url = some entry) (hmode : entry.mode = .dynResident)
    (hreval : entry.reval = some reval) (headers : List Header) :
    w.fsCalls ++ [.stat reval.fsPath] <+: (contentRegistryLookup w headers url).2.fsCalls := by
  cases hfile : w.files reval.fsPath with
  | none =>
    rw [contentRegistryLookup_gone hfind hmode hreval hfile]
    exact List.prefix_rfl
  | some file =>
    have hload := (contentEntryDynamicLoad_extends (w.stat reval.fsPath).2 reval.fsPath
      ⟨file.mtime, file.size⟩).fsCalls
    have hrefresh : (w.stat reval.fsPath).2.fsCalls <+: (contentEntryRefresh
        (w.stat reval.fsPath).2 url entry reval ⟨file.mtime, file.size⟩).2.fsCalls := by
      unfold contentEntryRefresh
      split
      · generalize contentEntryDynamicLoad (w.stat reval.fsPath).2 reval.fsPath
          ⟨file.mtime, file.size⟩ = load at hload ⊢
        obtain ⟨_ | fresh, w₁⟩ := load <;> exact hload
      · exact List.prefix_rfl
    rw [contentRegistryLookup_refresh hfind hmode hreval hfile (Prod.mk.eta).symm]
    exact hrefresh

theorem contentEntryRefresh_stored {reval : RevalMeta} (hfile : w.files (storedPath path) = some file)
    (hversion : versions file) (hfind : dictFind w.registry url = some entry)
    (hstored : entry.Stored versions path st .dynResident) (hreval : reval.fsPath = storedPath path) :
    ∃ entry', dictFind (contentEntryRefresh w url entry reval ⟨file.mtime, file.size⟩).2.registry
        url = some entry' ∧
      entry'.Stored versions path st .dynResident ∧
      ((contentEntryRefresh w url entry reval ⟨file.mtime, file.size⟩).1 = none ∨
        (contentEntryRefresh w url entry reval ⟨file.mtime, file.size⟩).1 = some entry') := by
  unfold contentEntryRefresh
  rw [hreval]
  split
  · have hload : ∀ fresh, (contentEntryDynamicLoad w (storedPath path)
        ⟨file.mtime, file.size⟩).1 = some fresh → fresh.Stored versions path st .dynResident :=
      fun fresh => contentEntryDynamicLoad_stored hfile hversion (storedPath_storedPath path)
    have hregistry := (contentEntryDynamicLoad_extends w (storedPath path)
      ⟨file.mtime, file.size⟩).registry
    generalize contentEntryDynamicLoad w (storedPath path) ⟨file.mtime, file.size⟩ = load
      at hload hregistry ⊢
    obtain ⟨_ | fresh, w₁⟩ := load
    · exact ⟨entry, (congrArg (dictFind · url) hregistry).trans hfind, hstored, .inl rfl⟩
    · refine ⟨fresh, ?_, hload fresh rfl, .inr rfl⟩
      dsimp only
      rw [dictFind_dictInsert, if_pos rfl]
  · exact ⟨entry, hfind, hstored, .inr rfl⟩

/-- A lookup keeps what is stored, loading it again from a file that has changed. -/
theorem contentRegistryLookup_stored
    (hversions : mode = .dynResident → ∀ file ∈ w.files (storedPath path), versions file)
    (hfind : dictFind w.registry url = some entry) (hstored : entry.Stored versions path st mode)
    (headers : List Header) :
    ∃ entry', dictFind (contentRegistryLookup w headers url).2.registry url = some entry' ∧
      entry'.Stored versions path st mode ∧
      ((contentRegistryLookup w headers url).1 = .gone ∨
        (contentRegistryLookup w headers url).1 = .notModified entry' ∨
        (contentRegistryLookup w headers url).1 = .hit entry') := by
  by_cases hmode : entry.mode = .dynResident
  · cases hstored with
    | static hother => rw [hother] at hmode; cases hmode
    | streamed hstreamed hother =>
      rw [hother] at hmode
      rw [hmode] at hstreamed
      simp at hstreamed
    | @dynamic _ version source _ hversion hholds hsource hreval hheaders hcount =>
      have hstored : entry.Stored versions path st .dynResident :=
        .dynamic hmode hversion hholds hsource hreval hheaders hcount
      have hfsPath : (revalFill ⟨version.mtime, version.size⟩ source).fsPath = storedPath path :=
        hsource
      cases hfile : w.files (storedPath path) with
      | none =>
        rw [contentRegistryLookup_gone hfind hmode hreval (hfsPath ▸ hfile)]
        exact ⟨entry, hfind, hstored, .inl rfl⟩
      | some file =>
        have hfile₁ : (w.stat (storedPath path)).2.files (storedPath path) = some file := hfile
        obtain ⟨entry', hfind', hstored', hrefresh⟩ := contentEntryRefresh_stored hfile₁
          (hversions rfl file hfile) hfind hstored hfsPath
        rw [← hfsPath] at hfind' hrefresh
        generalize hresult : contentEntryRefresh (w.stat (revalFill ⟨version.mtime, version.size⟩
          source).fsPath).2 url entry (revalFill ⟨version.mtime, version.size⟩ source)
          ⟨file.mtime, file.size⟩ = refreshed at hfind' hrefresh
        obtain ⟨result, w₂⟩ := refreshed
        rw [contentRegistryLookup_refresh hfind hmode hreval (hfsPath ▸ hfile) hresult]
        rcases hrefresh with rfl | rfl
        · exact ⟨entry', hfind', hstored', .inl rfl⟩
        · refine ⟨entry', hfind', hstored', .inr ?_⟩
          rw [Option.elim_some]
          split
          · exact .inl rfl
          · exact .inr rfl
  · rw [contentRegistryLookup_other hfind hmode]
    exact ⟨entry, hfind, hstored, .inr (.inr rfl)⟩

/-! ## Runs -/

/-- What can happen behind the registration of `url`: the file system changes within what is
`allowed`, other URLs are registered, and requests are answered. -/
inductive RegistryNext (allowed : (Bytes → Option FileNode) → Prop) (url : Bytes) :
    World σ → World σ → Prop where
  | change {w : World σ} (files : Bytes → Option FileNode) (mallocs : List Bool) (handlers : σ)
      (hallowed : allowed files) :
      RegistryNext allowed url w { w with files := files, mallocs := mallocs, handlers := handlers }
  | add {w : World σ} (path other : Bytes) (mode : ServeMode) (hother : other ≠ url) :
      RegistryNext allowed url w (contentRegistryAddFile w path other mode).2
  | lookup {w : World σ} (headers : List Header) (other : Bytes) :
      RegistryNext allowed url w (contentRegistryLookup w headers other).2
  | respond {w : World σ} (req : RequestView) (entry : ContentEntry) (scratch : Arena) :
      RegistryNext allowed url w (responseForEntry w req entry scratch).2.2

/-- The files are within what is allowed, and the entry of `url` is that of `path`. -/
structure World.Keeps (allowed : (Bytes → Option FileNode) → Prop) (versions : FileNode → Prop)
    (path url : Bytes) (st : Stat) (mode : ServeMode) (w : World σ) : Prop where
  allowed : allowed w.files
  stored : ∃ entry, dictFind w.registry url = some entry ∧ entry.Stored versions path st mode

theorem RegistryNext.keeps
    (hversions : mode = .dynResident →
      ∀ files, allowed files → ∀ file ∈ files (storedPath path), versions file)
    (h : RegistryNext allowed url w w') (hw : w.Keeps allowed versions path url st mode) :
    w'.Keeps allowed versions path url st mode := by
  obtain ⟨hfiles, entry, hfind, hstored⟩ := hw
  cases h with
  | change files mallocs handlers hallowed => exact ⟨hallowed, entry, hfind, hstored⟩
  | add path' other mode' hother =>
    have hsame := (contentRegistryAddFile_spec w path' other mode').1
    exact ⟨hsame ▸ hfiles, entry,
      (contentRegistryAddFile_others w path' mode' hother.symm).trans hfind, hstored⟩
  | lookup headers other =>
    obtain ⟨hsame, hothers⟩ := contentRegistryLookup_frame w headers other
    by_cases hurl : url = other
    · subst hurl
      obtain ⟨entry', hfind', hstored', -⟩ :=
        contentRegistryLookup_stored (fun hmode => hversions hmode _ hfiles) hfind hstored headers
      exact ⟨hsame ▸ hfiles, entry', hfind', hstored'⟩
    · exact ⟨hsame ▸ hfiles, entry, (hothers url hurl).trans hfind, hstored⟩
  | respond req entry' scratch =>
    have hextends := responseForEntry_extends w req entry' scratch
    exact ⟨hextends.files ▸ hfiles, entry, hextends.registry ▸ hfind, hstored⟩

theorem keeps_of_reaches
    (hversions : mode = .dynResident →
      ∀ files, allowed files → ∀ file ∈ files (storedPath path), versions file)
    (h : ReflTransGen (RegistryNext allowed url) w w')
    (hw : w.Keeps allowed versions path url st mode) :
    w'.Keeps allowed versions path url st mode := by
  induction h with
  | refl => exact hw
  | tail _ hnext ih => exact hnext.keeps hversions ih

/-- From the registration on. -/
theorem keeps_of_added
    (hversions : mode = .dynResident →
      ∀ files, allowed files → ∀ file ∈ files (storedPath path), versions file)
    (hfile : w.files path = some file) (hversion : versions file) (hallowed : allowed w.files)
    (hadded : (contentRegistryAddFile w path url mode).1 = true)
    (hreaches : ReflTransGen (RegistryNext allowed url) (contentRegistryAddFile w path url mode).2
      w') :
    w'.Keeps allowed versions path url ⟨file.mtime, file.size⟩ mode := by
  obtain ⟨entry, hfind, hstored⟩ := contentRegistryAddFile_stored hfile hadded
  refine keeps_of_reaches hversions hreaches ⟨?_, entry, hfind, hstored.mono ?_⟩
  · rwa [(contentRegistryAddFile_spec w path url mode).1]
  · rintro _ rfl
    exact hversion

/-! ## Answering -/

def fileStream (path : Bytes) : Stream := { ctx := some (.file path), pull := true, cleanup := true }

/-- What a streamed answer needs: a file that can be opened, and room for a `FileCtx`. -/
def Streamable (w : World σ) (path : Bytes) (scratch : Arena) : Prop :=
  (∃ file, w.files path = some file ∧ file.opens = true) ∧
    (arenaAlloc scratch FILE_CTX_SIZE FILE_CTX_SIZE).1.isSome

theorem fileStreamOpen_spec (w : World σ) (path : Bytes) (scratch : Arena) :
    (fileStreamOpen w path scratch).2.2.fsCalls = w.fsCalls ++ [.open path] ∧
      (Streamable w path scratch ∧ (fileStreamOpen w path scratch).1 = fileStream path ∨
        ¬ Streamable w path scratch ∧ (fileStreamOpen w path scratch).1 = {}) := by
  have hopens : (w.open path).1 = (w.files path).filter FileNode.opens := rfl
  have hcalls : (w.open path).2.fsCalls = w.fsCalls ++ [.open path] := rfl
  unfold fileStreamOpen Streamable
  generalize w.open path = found at hopens hcalls ⊢
  obtain ⟨_ | file, w₁⟩ := found
  · refine ⟨hcalls, .inr ⟨?_, rfl⟩⟩
    rintro ⟨⟨file, hfile, hopen⟩, -⟩
    rw [hfile, Option.filter_some, if_pos hopen] at hopens
    cases hopens
  · obtain ⟨hfile, hopen⟩ := Option.filter_eq_some_iff.mp hopens.symm
    dsimp only
    generalize arenaAlloc scratch FILE_CTX_SIZE FILE_CTX_SIZE = alloc
    obtain ⟨_ | ctx, scratch'⟩ := alloc
    · exact ⟨hcalls, .inr ⟨fun h => Bool.noConfusion h.2, rfl⟩⟩
    · exact ⟨hcalls, .inl ⟨⟨⟨file, hfile, hopen⟩, rfl⟩, rfl⟩⟩

theorem responseForEntry_streamed {reval : RevalMeta}
    (hmode : entry.mode = .staticStreamed ∨ entry.mode = .dynStreamed)
    (hreval : entry.reval = some reval) (w : World σ) (req : RequestView) (scratch : Arena) :
    (responseForEntry w req entry scratch).2.2.fsCalls = w.fsCalls ++ [.open reval.fsPath] ∧
      (Streamable w reval.fsPath scratch ∧ (responseForEntry w req entry scratch).1 =
          responseStream 200 (ascii "OK") (fileStream reval.fsPath) (entry.headers.take 4) ∨
        ¬ Streamable w reval.fsPath scratch ∧
          (responseForEntry w req entry scratch).1 = responseErrorFromStatus .serverError) := by
  have hanswer : responseForEntry w req entry scratch = responseStreamed w entry scratch := by
    unfold responseForEntry
    rcases hmode with hmode | hmode <;> rw [hmode]
  obtain ⟨hcalls, hopened⟩ := fileStreamOpen_spec w reval.fsPath scratch
  rw [hanswer, responseStreamed, hreval, Option.map_some, Option.getD_some]
  generalize fileStreamOpen w reval.fsPath scratch = opened at hcalls hopened ⊢
  obtain ⟨s, scratch', w₁⟩ := opened
  rcases hopened with ⟨hstreamable, rfl⟩ | ⟨hstreamable, rfl⟩
  · exact ⟨hcalls, .inl ⟨hstreamable, rfl⟩⟩
  · exact ⟨hcalls, .inr ⟨hstreamable, rfl⟩⟩

theorem responseForEntry_resident
    (hmode : entry.mode = .staticResident ∨ entry.mode = .dynResident) (w : World σ)
    (req : RequestView) (scratch : Arena) :
    responseForEntry w req entry scratch = (responseResident req entry, scratch, w) := by
  unfold responseForEntry
  rcases hmode with hmode | hmode <;> rw [hmode]

/-! ## What is registered is served -/

def FsCall.target : FsCall → Bytes
  | .stat path => path
  | .open path => path

/-- A request for `url` is answered from the file at `path`, and no other path is used. Without a
match of the validators this is the answer; with one the entry is the same. -/
def ServedFrom (w : World σ) (path url : Bytes) (file : FileNode) (req : RequestView)
    (scratch : Arena) : Prop :=
  ∃ entry, ((contentRegistryLookup w req.headers url).1 = .hit entry ∨
      (contentRegistryLookup w req.headers url).1 = .notModified entry) ∧
    (∃ calls, (responseForEntry (contentRegistryLookup w req.headers url).2 req entry
        scratch).2.2.fsCalls = w.fsCalls ++ calls ∧ ∀ call ∈ calls, call.target = path) ∧
    (responseForEntry (contentRegistryLookup w req.headers url).2 req entry scratch).1.status = 200 ∧
    ((entry.Holds file file.size ∧
        (responseForEntry (contentRegistryLookup w req.headers url).2 req entry scratch).1.body =
          if req.requestLine.method = .head then .buffer none 0
          else .buffer (some entry.data) entry.len) ∨
      (responseForEntry (contentRegistryLookup w req.headers url).2 req entry scratch).1.body =
        .stream (fileStream path))

theorem responseResident_body (req : RequestView) (entry : ContentEntry) :
    (responseResident req entry).body =
      if req.requestLine.method = .head then .buffer none 0
      else .buffer (some entry.data) entry.len := by
  unfold responseResident
  by_cases hhead : req.requestLine.method = .head
  · simp [hhead]
  · simp [hhead]

/-- What is streamed from an entry of `path` in a file system where `path` is `file`. -/
theorem servedFrom_streamed (hfile : w.files path = some file)
    (hfind : dictFind w.registry url = some entry)
    (hmode : entry.mode = .staticStreamed ∨ entry.mode = .dynStreamed)
    (hreval : entry.reval = some (revalFill st path)) (req : RequestView) (scratch : Arena) :
    ServedFrom w path url file req scratch ↔
      path.length < FS_PATH_SIZE ∧ file.opens = true ∧
        (arenaAlloc scratch FILE_CTX_SIZE FILE_CTX_SIZE).1.isSome := by
  have hother : entry.mode ≠ .dynResident := by
    rcases hmode with hmode | hmode <;> rw [hmode] <;> decide
  have hfsPath : (revalFill st path).fsPath = storedPath path := rfl
  obtain ⟨hcalls, hanswer⟩ := responseForEntry_streamed hmode hreval w req scratch
  unfold ServedFrom
  rw [contentRegistryLookup_other hfind hother, ← storedPath_eq_iff]
  rw [hfsPath] at hcalls hanswer
  constructor
  · rintro ⟨entry', hfound, ⟨calls, hcalls', hpath⟩, hstatus, -⟩
    obtain rfl : entry = entry' := by simpa using hfound
    rw [hcalls] at hcalls'
    obtain rfl := List.append_cancel_left hcalls'
    have hsame : storedPath path = path := hpath _ (List.mem_singleton_self _)
    rcases hanswer with ⟨⟨⟨file', hfile', hopens⟩, hroom⟩, -⟩ | ⟨-, hanswer⟩
    · rw [hsame, hfile] at hfile'
      obtain rfl := Option.some.inj hfile'
      exact ⟨hsame, hopens, hroom⟩
    · rw [hanswer] at hstatus
      exact absurd hstatus (by decide)
  · rintro ⟨hsame, hopens, hroom⟩
    rw [hsame] at hcalls hanswer
    have hstreamable : Streamable w path scratch := ⟨⟨file, hfile, hopens⟩, hroom⟩
    rcases hanswer with ⟨-, hanswer⟩ | ⟨hnot, -⟩
    · refine ⟨entry, .inl rfl, ⟨_, hcalls, ?_⟩, ?_, .inr ?_⟩
      · simp [FsCall.target]
      · exact congrArg HttpResponse.status hanswer
      · exact congrArg HttpResponse.body hanswer
    · exact absurd hstreamable hnot

theorem servedFrom_resident (hmode : entry.mode = .staticResident ∨ entry.mode = .dynResident)
    (hholds : entry.Holds file file.size) {req : RequestView}
    (hfound : (contentRegistryLookup w req.headers url).1 = .hit entry ∨
      (contentRegistryLookup w req.headers url).1 = .notModified entry)
    (calls : List FsCall)
    (hcalls : (contentRegistryLookup w req.headers url).2.fsCalls = w.fsCalls ++ calls)
    (htarget : ∀ call ∈ calls, call.target = path) (scratch : Arena) :
    ServedFrom w path url file req scratch := by
  unfold ServedFrom
  refine ⟨entry, hfound, ?_⟩
  rw [responseForEntry_resident hmode]
  exact ⟨⟨calls, hcalls, htarget⟩, rfl, .inl ⟨hholds, responseResident_body req entry⟩⟩

/-- A file is served as registered exactly when its path fits into `fs_path`, unless nothing is
looked at again, and when it can be opened, if it is streamed. -/
theorem registered_served_iff (w₀ w : World σ) (path url : Bytes) (mode : ServeMode)
    (file : FileNode) (hfile : w₀.files path = some file)
    (hadded : (contentRegistryAddFile w₀ path url mode).1 = true)
    (hreaches : ReflTransGen (RegistryNext (· = w₀.files) url)
      (contentRegistryAddFile w₀ path url mode).2 w)
    (req : RequestView) (scratch : Arena) :
    ServedFrom w path url file req scratch ↔
      (mode = .staticResident ∨ path.length < FS_PATH_SIZE) ∧
        (mode = .staticStreamed ∨ mode = .dynStreamed →
          file.opens = true ∧ (arenaAlloc scratch FILE_CTX_SIZE FILE_CTX_SIZE).1.isSome) := by
  have hversions : mode = .dynResident → ∀ files, files = w₀.files →
      ∀ file' ∈ files (storedPath path),
        (mode = .dynResident → path.length < FS_PATH_SIZE) → file' = file := by
    rintro hmode files rfl file' hfile' hshort
    rw [(storedPath_eq_iff path).mpr (hshort hmode), Option.mem_def, hfile] at hfile'
    exact (Option.some.inj hfile').symm
  obtain ⟨hfiles, entry, hfind, hstored⟩ :=
    keeps_of_added hversions hfile (fun _ => rfl) rfl hadded hreaches
  have hfile : w.files path = some file := by rw [hfiles, hfile]
  cases hstored with
  | static hmode hversion hholds =>
    obtain rfl := hversion (by simp)
    refine iff_of_true ?_ (by simp)
    have hlookup := contentRegistryLookup_other hfind (by rw [hmode]; decide) req.headers
    refine servedFrom_resident (.inl hmode) hholds (.inl ?_) [] ?_ (by simp) scratch
    · rw [hlookup]
    · rw [hlookup, List.append_nil]
  | @dynamic _ version source hmode hversion hholds hsource hreval hheaders hcount =>
    have hfsPath : (revalFill ⟨version.mtime, version.size⟩ source).fsPath = storedPath path := hsource
    rw [and_iff_left (by simp), or_iff_right (by simp)]
    constructor
    · rintro ⟨entry', -, ⟨calls, hcalls, htarget⟩, -⟩
      rw [← storedPath_eq_iff]
      have hstats := (contentRegistryLookup_stats hfind hmode hreval req.headers).trans
        (responseForEntry_extends _ req entry' scratch).fsCalls
      rw [hcalls, List.prefix_append_right_inj, hfsPath] at hstats
      exact htarget _ (hstats.subset (List.mem_singleton_self _))
    · intro hshort
      obtain rfl := hversion fun _ => hshort
      rw [(storedPath_eq_iff path).mpr hshort] at hfsPath
      have hlookup := contentRegistryLookup_unchanged hfind hmode hreval (by rw [hfsPath, hfile])
        rfl rfl req.headers
      refine servedFrom_resident (.inr hmode) hholds ?_ [.stat path] ?_ ?_ scratch
      · rw [hlookup]
        dsimp only
        split
        · exact .inr rfl
        · exact .inl rfl
      · rw [hlookup, hfsPath]
        rfl
      · simp [FsCall.target]
  | streamed hstreamed hmode hreval hheaders hcount =>
    rw [servedFrom_streamed hfile hfind (hmode ▸ hstreamed) hreval]
    have hother : mode ≠ .staticResident := by
      rcases hstreamed with rfl | rfl <;> decide
    rw [or_iff_right hother, imp_iff_right hstreamed]

def pageWorld : World Unit := { files := fun _ => some firstPage, handlers := () }

theorem registered_served_iff_page :
    ServedFrom (contentRegistryAddFile pageWorld (ascii "page") (ascii "/page") .dynStreamed).2
        (ascii "page") (ascii "/page") firstPage {} (arenaInit 0 64) ↔
      (ServeMode.dynStreamed = .staticResident ∨ (ascii "page").length < FS_PATH_SIZE) ∧
        (ServeMode.dynStreamed = .staticStreamed ∨ ServeMode.dynStreamed = .dynStreamed →
          firstPage.opens = true ∧
            (arenaAlloc (arenaInit 0 64) FILE_CTX_SIZE FILE_CTX_SIZE).1.isSome) :=
  registered_served_iff pageWorld _ (ascii "page") (ascii "/page") .dynStreamed firstPage rfl
    (by decide +kernel) .refl {} (arenaInit 0 64)

/-- A path of 256 bytes. The file whose path has one byte less is another one. -/
def longPath : Bytes := List.replicate 256 97

def longPathWorld : World Unit where
  files path :=
    if path = longPath then some firstPage
    else if path = storedPath longPath then some secondPage
    else none
  handlers := ()

/-- The file is registered, and the other one is opened. -/
theorem long_path_redirected :
    (contentRegistryAddFile longPathWorld longPath (ascii "/page") .dynStreamed).1 = true ∧
      ¬ ServedFrom (contentRegistryAddFile longPathWorld longPath (ascii "/page") .dynStreamed).2
        longPath (ascii "/page") firstPage {} (arenaInit 0 64) := by
  have hadded : (contentRegistryAddFile longPathWorld longPath (ascii "/page") .dynStreamed).1 =
      true := by decide +kernel
  have hfile : longPathWorld.files longPath = some firstPage := by
    simp only [longPathWorld, if_true]
  obtain ⟨entry, hfind, hstored⟩ := contentRegistryAddFile_stored hfile hadded
  have hfiles := (contentRegistryAddFile_spec longPathWorld longPath (ascii "/page")
    .dynStreamed).1
  refine ⟨hadded, fun h => ?_⟩
  cases hstored with
  | streamed hstreamed hmode hreval hheaders hcount =>
    obtain ⟨hshort, -⟩ := (servedFrom_streamed (by rw [hfiles, hfile]) hfind
      (hmode ▸ hstreamed) hreval {} (arenaInit 0 64)).mp h
    rw [longPath, List.length_replicate] at hshort
    exact absurd hshort (by decide)

end HttpServer
