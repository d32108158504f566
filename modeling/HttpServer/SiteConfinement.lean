import HttpServer.ContentServing
import HttpServer.ServerSessions

/-!
# Confinement of a server to its site

The site of a server is what its URLs lead to: how each is served, and from which path.
It is settled when the files are registered. No request of any client, and no order in
which clients are served, changes it or makes the server look at another path.
-/

namespace HttpServer

open Relation

variable {σ : Type*} {router : Router σ} {m : Machine σ} {w w' w'' : World σ}
  {roots roots' : Set Bytes} {path url : Bytes} {entry : ContentEntry} {i : ℕ}

/-! ## Sites -/

/-- How an entry is served, and from which path unless it stays as it has been loaded. -/
def ContentEntry.place (entry : ContentEntry) : ServeMode × Option Bytes :=
  (entry.mode, entry.reval.map RevalMeta.fsPath)

def ServeMode.place (mode : ServeMode) (path : Bytes) : ServeMode × Option Bytes :=
  (mode, if mode = .staticResident then none else some (storedPath path))

/-- What each URL leads to. -/
def World.site (w : World σ) (url : Bytes) : Option (ServeMode × Option Bytes) :=
  (dictFind w.registry url).map ContentEntry.place

/-- The paths that `url` leads to. -/
def World.root (w : World σ) (url : Bytes) : Set Bytes :=
  {path | ∃ mode, w.site url = some (mode, some path)}

/-- Every path is one that has been cut down to the length of `fs_path`. -/
def World.Rooted (w : World σ) : Prop :=
  ∀ url place, w.site url = some place → ∃ mode path, place = ServeMode.place mode path

/-- The site is the same, and of the file system only `roots` has been looked at. -/
structure World.Visits (roots : Set Bytes) (w w' : World σ) : Prop where
  site : w'.site = w.site
  calls : ∃ calls, w'.fsCalls = w.fsCalls ++ calls ∧ ∀ call ∈ calls, call.target ∈ roots

theorem World.Visits.refl (roots : Set Bytes) (w : World σ) : w.Visits roots w :=
  ⟨rfl, [], (List.append_nil _).symm, fun _ hcall => (nomatch hcall)⟩

theorem World.Visits.trans (h : w.Visits roots w') (h' : w'.Visits roots w'') :
    w.Visits roots w'' := by
  obtain ⟨calls, heq, hcalls⟩ := h.calls
  obtain ⟨calls', heq', hcalls'⟩ := h'.calls
  refine ⟨h'.site.trans h.site, calls ++ calls', ?_, fun call hcall => ?_⟩
  · rw [heq', heq, List.append_assoc]
  · exact (List.mem_append.mp hcall).elim (hcalls call) (hcalls' call)

theorem World.Visits.mono (h : w.Visits roots w') (hroots : roots ⊆ roots') :
    w.Visits roots' w' := by
  obtain ⟨calls, heq, hcalls⟩ := h.calls
  exact ⟨h.site, calls, heq, fun call hcall => hroots (hcalls call hcall)⟩

theorem World.site_of_registry (h : w'.registry = w.registry) : w'.site = w.site := by
  funext url
  unfold site
  rw [h]

/-! ## Loading -/

theorem World.malloc_visits (w : World σ) : w.Visits roots w.malloc.2 := by
  unfold malloc
  split
  · exact .refl roots w
  · exact ⟨rfl, (Visits.refl roots w).calls⟩

theorem World.stat_visits (w : World σ) (hpath : path ∈ roots) :
    w.Visits roots (w.stat path).2 :=
  ⟨rfl, [.stat path], rfl, fun _ hcall => List.mem_singleton.mp hcall ▸ hpath⟩

theorem World.open_visits (w : World σ) (hpath : path ∈ roots) :
    w.Visits roots (w.open path).2 :=
  ⟨rfl, [.open path], rfl, fun _ hcall => List.mem_singleton.mp hcall ▸ hpath⟩

theorem fileRead_visits (w : World σ) (size : ℕ) (hpath : path ∈ roots) :
    w.Visits roots (fileRead w path size).2 :=
  w.open_visits hpath

theorem contentEntryStaticLoad_visits (w : World σ) (hpath : path ∈ roots) :
    w.Visits roots (contentEntryStaticLoad w path).2 ∧
      ∀ entry ∈ (contentEntryStaticLoad w path).1,
        entry.place = ServeMode.place .staticResident path := by
  have hstat := w.stat_visits hpath
  unfold contentEntryStaticLoad
  generalize w.stat path = found at hstat ⊢
  obtain ⟨_ | st, w₁⟩ := found
  · exact ⟨hstat, fun _ h => (nomatch h)⟩
  · have hmalloc := hstat.trans w₁.malloc_visits
    dsimp only
    split
    · exact ⟨hmalloc, fun _ h => (nomatch h)⟩
    · have hread := hmalloc.trans (fileRead_visits w₁.malloc.2 st.size hpath)
      generalize fileRead w₁.malloc.2 path st.size = read at hread ⊢
      obtain ⟨_ | bytes, w₂⟩ := read
      · exact ⟨hread, fun _ h => (nomatch h)⟩
      · refine ⟨hread, fun entry h => ?_⟩
        obtain rfl := Option.some.inj h
        rfl

theorem contentEntryDynamicLoad_visits (w : World σ) (st : Stat) (hpath : path ∈ roots) :
    w.Visits roots (contentEntryDynamicLoad w path st).2 ∧
      ∀ entry ∈ (contentEntryDynamicLoad w path st).1,
        entry.place = ServeMode.place .dynResident path := by
  have hmallocs : w.Visits roots w.malloc.2.malloc.2 :=
    w.malloc_visits.trans w.malloc.2.malloc_visits
  unfold contentEntryDynamicLoad
  dsimp only
  split
  · exact ⟨w.malloc_visits, fun _ h => (nomatch h)⟩
  · split
    · exact ⟨hmallocs, fun _ h => (nomatch h)⟩
    · have hread := hmallocs.trans (fileRead_visits w.malloc.2.malloc.2 st.size hpath)
      generalize fileRead w.malloc.2.malloc.2 path st.size = read at hread ⊢
      obtain ⟨_ | bytes, w₁⟩ := read
      · exact ⟨hread, fun _ h => (nomatch h)⟩
      · refine ⟨hread, fun entry h => ?_⟩
        obtain rfl := Option.some.inj h
        rfl

theorem contentEntryStreamedLoad_visits (w : World σ) (path : Bytes) (st : Stat) {mode : ServeMode}
    (hmode : mode ≠ .staticResident) (cacheControl : Bytes) :
    w.Visits roots (contentEntryStreamedLoad w path st mode cacheControl).2 ∧
      ∀ entry ∈ (contentEntryStreamedLoad w path st mode cacheControl).1,
        entry.place = ServeMode.place mode path := by
  have hmallocs : w.Visits roots w.malloc.2.malloc.2 :=
    w.malloc_visits.trans w.malloc.2.malloc_visits
  unfold contentEntryStreamedLoad
  dsimp only
  split
  · exact ⟨w.malloc_visits, fun _ h => (nomatch h)⟩
  · split
    · exact ⟨hmallocs, fun _ h => (nomatch h)⟩
    · refine ⟨hmallocs, fun entry h => ?_⟩
      obtain rfl := Option.some.inj h
      exact congrArg (Prod.mk mode) (if_neg hmode).symm

theorem contentEntryLoad_visits (w : World σ) (st : Stat) (mode : ServeMode)
    (hpath : path ∈ roots) :
    w.Visits roots (contentEntryLoad w path st mode).2 ∧
      ∀ entry ∈ (contentEntryLoad w path st mode).1, entry.place = mode.place path := by
  cases mode with
  | staticResident => exact contentEntryStaticLoad_visits w hpath
  | staticStreamed => exact contentEntryStreamedLoad_visits w path st (by decide) IMMUTABLE
  | dynResident => exact contentEntryDynamicLoad_visits w st hpath
  | dynStreamed => exact contentEntryStreamedLoad_visits w path st (by decide) NO_CACHE

/-! ## Looking up -/

/-- Replacing the entry of a URL by one with the same place does not show. -/
theorem World.site_insert (h : w.site url = some entry.place) :
    ({ w with registry := dictInsert w.registry url entry } : World σ).site = w.site := by
  funext other
  show (dictFind (dictInsert w.registry url entry) other).map ContentEntry.place = w.site other
  rw [dictFind_dictInsert]
  split
  · next hother => exact hother ▸ h.symm
  · rfl

theorem contentEntryRefresh_visits (reval : RevalMeta) (st : Stat)
    (hsite : w.site url = some entry.place) (hreval : entry.reval = some reval)
    (hplace : entry.place = ServeMode.place .dynResident path) (hpath : storedPath path ∈ roots) :
    w.Visits roots (contentEntryRefresh w url entry reval st).2 ∧
      ∀ entry' ∈ (contentEntryRefresh w url entry reval st).1, entry'.place = entry.place := by
  have hfsPath : reval.fsPath = storedPath path := by
    have hsome : entry.reval.map RevalMeta.fsPath = some (storedPath path) :=
      congrArg Prod.snd hplace
    rw [hreval] at hsome
    exact Option.some.inj hsome
  unfold contentEntryRefresh
  split
  · obtain ⟨hload, hloaded⟩ := contentEntryDynamicLoad_visits w st (hfsPath ▸ hpath)
    generalize contentEntryDynamicLoad w reval.fsPath st = load at hload hloaded ⊢
    obtain ⟨_ | fresh, w₁⟩ := load
    · exact ⟨hload, fun _ h => (nomatch h)⟩
    · have hfresh : fresh.place = entry.place := by
        rw [hloaded fresh rfl, hplace, ServeMode.place, hfsPath, storedPath_storedPath]
        rfl
      refine ⟨⟨?_, hload.calls⟩, fun entry' h => ?_⟩
      · refine Eq.trans (World.site_insert ?_) hload.site
        rw [congrFun hload.site url, hsite, hfresh]
      · obtain rfl := Option.some.inj h
        exact hfresh
  · refine ⟨.refl roots w, fun entry' h => ?_⟩
    obtain rfl := Option.some.inj h
    rfl

/-- The entry that a lookup answers with. -/
def ContentLookupResult.found : ContentLookupResult → Option ContentEntry
  | .miss | .gone => none
  | .notModified entry | .hit entry => some entry

/-- A lookup visits only what its URL leads to. -/
theorem contentRegistryLookup_visits (hrooted : w.Rooted) (headers : List Header) (url : Bytes) :
    w.Visits (w.root url) (contentRegistryLookup w headers url).2 ∧
      ∀ entry ∈ (contentRegistryLookup w headers url).1.found, w.site url = some entry.place := by
  unfold contentRegistryLookup
  cases hfind : dictFind w.registry url with
  | none => exact ⟨.refl _ w, fun _ h => (nomatch h)⟩
  | some entry =>
    have hsite : w.site url = some entry.place := congrArg (Option.map ContentEntry.place) hfind
    dsimp only
    split
    · next reval hmode hreval =>
      obtain ⟨mode, path, hplace⟩ := hrooted url _ hsite
      obtain rfl : mode = .dynResident := hmode ▸ (congrArg Prod.fst hplace).symm
      have hroot : reval.fsPath ∈ w.root url :=
        ⟨.dynResident, by rw [hsite, ContentEntry.place, hmode, hreval]; rfl⟩
      have hpath : storedPath path ∈ w.root url := ⟨.dynResident, by rw [hsite, hplace]; rfl⟩
      have hstat := w.stat_visits hroot
      generalize w.stat reval.fsPath = found at hstat ⊢
      obtain ⟨_ | st, w₁⟩ := found
      · exact ⟨hstat, fun _ h => (nomatch h)⟩
      · dsimp only at hstat ⊢
        obtain ⟨hrefresh, hrefreshed⟩ := contentEntryRefresh_visits reval st
          ((congrFun hstat.site url).trans hsite) hreval hplace hpath
        generalize contentEntryRefresh w₁ url entry reval st = refreshed at hrefresh hrefreshed ⊢
        obtain ⟨_ | entry', w₂⟩ := refreshed
        · exact ⟨hstat.trans hrefresh, fun _ h => (nomatch h)⟩
        · refine ⟨hstat.trans hrefresh, fun found h => ?_⟩
          dsimp only at h
          obtain rfl : entry' = found := by
            split at h <;> exact Option.some.inj h
          rw [hrefreshed entry' rfl, hsite]
    · refine ⟨.refl _ w, fun found h => ?_⟩
      obtain rfl := Option.some.inj h
      exact hsite

theorem fileStreamOpen_visits (w : World σ) (scratch : Arena) (hpath : path ∈ roots) :
    w.Visits roots (fileStreamOpen w path scratch).2.2 := by
  have hopen := w.open_visits hpath
  unfold fileStreamOpen
  generalize w.open path = found at hopen ⊢
  obtain ⟨_ | file, w₁⟩ := found
  · exact hopen
  · dsimp only
    split <;> exact hopen

theorem responseStreamed_visits (w : World σ) (scratch : Arena)
    (hpath : (entry.reval.map RevalMeta.fsPath).getD [] ∈ roots) :
    w.Visits roots (responseStreamed w entry scratch).2.2 := by
  have hopen := fileStreamOpen_visits w scratch hpath
  unfold responseStreamed
  dsimp only
  split <;> exact hopen

theorem responseForEntry_visits (hrooted : w.Rooted) (req : RequestView) (scratch : Arena)
    (hsite : w.site url = some entry.place) :
    w.Visits (w.root url) (responseForEntry w req entry scratch).2.2 := by
  obtain ⟨mode, path, hplace⟩ := hrooted url _ hsite
  have hmode : entry.mode = mode := congrArg Prod.fst hplace
  have hstreamed : mode ≠ .staticResident →
      w.Visits (w.root url) (responseStreamed w entry scratch).2.2 := by
    intro hne
    have hpath : entry.reval.map RevalMeta.fsPath = some (storedPath path) :=
      (congrArg Prod.snd hplace).trans (if_neg hne)
    apply responseStreamed_visits
    rw [hpath]
    exact ⟨mode, by rw [hsite, hplace, ServeMode.place, if_neg hne]; rfl⟩
  unfold responseForEntry
  rw [hmode]
  cases mode with
  | staticResident => exact .refl _ w
  | dynResident => exact .refl _ w
  | staticStreamed => exact hstreamed (by decide)
  | dynStreamed => exact hstreamed (by decide)

theorem World.Visits.rooted (h : w.Visits roots w') (hrooted : w.Rooted) : w'.Rooted := by
  unfold Rooted
  rw [h.site]
  exact hrooted

theorem World.Visits.root (h : w.Visits roots w') (url : Bytes) : w'.root url = w.root url := by
  unfold World.root
  rw [h.site]

/-! ## Serving -/

/-- Choosing a response visits only what the target of the request leads to. -/
theorem responseDispatch_visits (router : Router σ) (hrooted : m.world.Rooted) :
    m.world.Visits (m.world.root m.conn.requestView.requestLine.path)
      (responseDispatch router m).2.world := by
  have hrouted : ∀ (roots : Set Bytes) method (m' : Machine σ), m'.world.Visits roots
      (routeDispatch router method m').2.world := by
    intro roots method m'
    unfold routeDispatch
    dsimp only
    split
    · exact ⟨rfl, (World.Visits.refl roots m'.world).calls⟩
    · split <;> exact .refl roots m'.world
  unfold responseDispatch
  dsimp only
  generalize (if m.conn.requestView.requestLine.method = .head then HttpMethod.get
    else m.conn.requestView.requestLine.method) = method
  split
  · obtain ⟨hlookup, hfound⟩ := contentRegistryLookup_visits hrooted m.conn.requestView.headers
      m.conn.requestView.requestLine.path
    generalize contentRegistryLookup m.world m.conn.requestView.headers
      m.conn.requestView.requestLine.path = found at hlookup hfound ⊢
    obtain ⟨_ | _ | entry | entry, world⟩ := found
    · exact hlookup.trans (hrouted _ method { m with world := world })
    · exact hlookup
    · exact hlookup
    · have hanswered := responseForEntry_visits (hlookup.rooted hrooted) m.conn.requestView
        m.conn.mem.arena ((congrFun hlookup.site _).trans (hfound entry rfl))
      rw [hlookup.root] at hanswered
      exact hlookup.trans hanswered
  · exact hrouted _ _ _

theorem stepHeaderRead_world (m : Machine σ) : (stepHeaderRead m).2.world = m.world := by
  unfold stepHeaderRead
  generalize connRecvHeader m.conn.fd m.conn.mem.reqBuf m.io = read
  obtain ⟨⟨status, total, bodyStart⟩, buf, io⟩ := read
  cases status with
  | ok =>
    dsimp only
    generalize headAccept _ bodyStart = accepted
    obtain ⟨verdict, conn⟩ := accepted
    cases verdict <;> rfl
  | _ => rfl

theorem stepSend100_world (m : Machine σ) : (stepSend100 m).2.world = m.world := by
  unfold stepSend100
  generalize responseSend m.conn.fd continue100Buf m.conn.st.getSend m.io = sent
  obtain ⟨status, st, io⟩ := sent
  cases status <;> rfl

theorem stepBodyClRead_world (m : Machine σ) : (stepBodyClRead m).2.world = m.world := by
  unfold stepBodyClRead
  generalize connRecvBodyCl m.conn.fd m.conn.mem.reqBuf _ _ _ m.io = read
  obtain ⟨⟨status, next⟩, buf, st, io⟩ := read
  cases status <;> rfl

theorem stepBodyChunkedRead_world (m : Machine σ) :
    (stepBodyChunkedRead m).2.world = m.world := by
  unfold stepBodyChunkedRead
  generalize connRecvBodyChunked m.conn.fd m.conn.bodyStart _ m.io = read
  obtain ⟨⟨status, next⟩, r, io⟩ := read
  cases status <;> rfl

theorem streamRelease_world (m : Machine σ) : (streamRelease m).world = m.world := by
  unfold streamRelease
  split <;> rfl

theorem buildBuffered_world (res : HttpResponse) (m : Machine σ) :
    (buildBuffered res m).2.world = m.world := by
  unfold buildBuffered
  generalize (if m.conn.reqParsed.requestLine.method = .head then { res with headOnly := true }
    else res) = res'
  dsimp only
  split <;> rfl

theorem responseBuild_world (res : HttpResponse) (m : Machine σ) :
    (responseBuild res m).2.world = m.world := by
  unfold responseBuild
  cases res.body with
  | none => exact buildBuffered_world res m
  | buffer body size => exact buildBuffered_world res m
  | stream stream =>
    dsimp only
    split
    · rw [buildBuffered_world, streamRelease_world]
      rfl
    · rfl

theorem stepResponseSend_world (m : Machine σ) : (stepResponseSend m).2.world = m.world := by
  unfold stepResponseSend
  generalize responseSend m.conn.fd m.conn.mem.respBuf m.conn.st.getSend m.io = sent
  obtain ⟨status, st, io⟩ := sent
  cases status <;> rfl

theorem LoopTurn.world {r : Option ConnPhase × Machine σ} (h : LoopTurn m r) :
    r.2.world = m.world := by
  cases h with
  | sent => rfl
  | blocked => rfl
  | failed => exact streamRelease_world _
  | framed => rfl
  | gaveUp => exact streamRelease_world _
  | done => exact streamRelease_world m

theorem stepResponseSendStream_world (m : Machine σ) :
    (stepResponseSendStream m).2.world = m.world :=
  stepResponseSendStream_keeps (fun m' => m'.world = m.world)
    (fun _ _ hkept hturn => hturn.world.trans hkept) rfl

/-- Only when a response is built is the file system looked at. -/
theorem stepPhase_visits (router : Router σ) (hrooted : m.world.Rooted) :
    m.world.Visits {path | ∃ url, path ∈ m.world.root url} (stepPhase router m).world := by
  have hsame : ∀ {world : World σ}, world = m.world →
      m.world.Visits {path | ∃ url, path ∈ m.world.root url} world := by
    intro world heq
    rw [heq]
    exact .refl _ m.world
  have hstep : m.world.Visits {path | ∃ url, path ∈ m.world.root url} (stepConn router m).2.world := by
    unfold stepConn
    cases m.conn.phase with
    | readingRequest => exact hsame (stepHeaderRead_world m)
    | sending100 => exact hsame (stepSend100_world m)
    | readingBodyCl => exact hsame (stepBodyClRead_world m)
    | readingBodyChunked => exact hsame (stepBodyChunkedRead_world m)
    | building =>
      dsimp only
      unfold stepResponseBuild
      have hdispatch := responseDispatch_visits router hrooted
      generalize responseDispatch router m = dispatched at hdispatch ⊢
      obtain ⟨res, m'⟩ := dispatched
      dsimp only
      rw [responseBuild_world]
      exact hdispatch.mono fun path hpath => ⟨_, hpath⟩
    | sendingResponse => exact hsame (stepResponseSend_world m)
    | sendingResponseStream => exact hsame (stepResponseSendStream_world m)
    | closed => exact .refl _ m.world
  exact hstep

/-! ## Runs of a server -/

/-- What the steps of a connection keep of the world, and the rest of the machine keeps between
them, the server keeps. -/
theorem HistoryReaches.world {allowed : Round σ → Prop} {backing : ℕ} {world : World σ}
    {h : History σ} (hreaches : HistoryReaches router allowed backing world h)
    (inv : World σ → Prop) (hstart : inv world)
    (hmeanwhile : ∀ round, allowed round → ∀ i, ∀ w ∈ round.ready i, ∀ world, inv world →
      inv (w.meanwhile world))
    (hstep : ∀ m : Machine σ, inv m.world → inv (stepPhase router m).world) :
    inv h.server.world := by
  have hloop : ∀ fuel (m : Machine σ), inv m.world → inv (stepProcessLoop router fuel m).world := by
    intro fuel
    induction fuel with
    | zero => exact fun m hm => hm
    | succ fuel ih =>
      intro m hm
      rw [stepProcessLoop]
      split
      · exact ih _ (hstep m hm)
      · exact hstep m hm
  refine Runs.invariant (fun h : History σ => inv h.server.world) hreaches hstart
    fun a b _ ha hnext => ?_
  obtain ⟨round, hallowed, -, rfl⟩ := hnext
  rw [History.turn_server, serverTurn_eq]
  have haccept : inv (clientSetAddNew round.accepted a.server).world := by
    cases round.accepted <;> exact ha
  generalize clientSetAddNew round.accepted a.server = s at haccept
  induction clientSlots generalizing s with
  | nil => exact haccept
  | cons i slots ih =>
    rw [List.foldl_cons]
    apply ih
    unfold serveReady
    cases hready : round.ready i with
    | none => exact haccept
    | some w =>
      dsimp only
      split
      · exact haccept
      · exact hloop _ _ (hmeanwhile round hallowed i w hready _ haccept)

/-- A file that is registered when the server starts. -/
structure Registration where
  path : Bytes
  url : Bytes
  mode : ServeMode

/-- Registering goes on when a file cannot be registered. -/
def registerAll (w : World σ) (files : List Registration) : World σ :=
  files.foldl (fun w f => (contentRegistryAddFile w f.path f.url f.mode).2) w

theorem contentRegistryAddFile_site (w : World σ) (path url : Bytes) (mode : ServeMode) :
    (contentRegistryAddFile w path url mode).2.site = w.site ∨
      (contentRegistryAddFile w path url mode).2.site =
        fun other => if other = url then some (mode.place path) else w.site other := by
  have hstat : w.Visits Set.univ (w.stat path).2 := w.stat_visits (Set.mem_univ path)
  cases hfile : w.files path with
  | none =>
    rw [contentRegistryAddFile, World.stat_none hfile]
    exact .inl rfl
  | some file =>
    obtain ⟨hload, hplace⟩ := contentEntryLoad_visits (w.stat path).2
      ⟨file.mtime, file.size⟩ mode (Set.mem_univ path)
    rw [contentRegistryAddFile, World.stat_some hfile]
    obtain ⟨load, heq⟩ : ∃ load, load = contentEntryLoad (w.stat path).2 path
      ⟨file.mtime, file.size⟩ mode := ⟨_, rfl⟩
    rw [← heq] at hload hplace
    have hsite := hstat.site
    cases mode
    all_goals
      rw [contentEntryLoad] at heq
      dsimp only
      rw [← heq]
      obtain ⟨_ | entry, w₁⟩ := load
      · exact .inl (hload.site.trans hsite)
      · refine .inr (funext fun other => ?_)
        show (dictFind (dictInsert w₁.registry url entry) other).map ContentEntry.place = _
        rw [dictFind_dictInsert]
        split
        · exact congrArg some (hplace entry rfl)
        · exact congrFun (hload.site.trans hsite) other

/-- A URL leads to a file that has been registered for it. -/
theorem registerAll_site {files : List Registration} (hempty : w.registry = {}) {url : Bytes}
    {place : ServeMode × Option Bytes} (hsite : (registerAll w files).site url = some place) :
    ∃ f ∈ files, f.url = url ∧ place = f.mode.place f.path := by
  have hstart : w.site url = none := by
    unfold World.site
    rw [hempty]
    rfl
  unfold registerAll at hsite
  induction files using List.reverseRecOn with
  | nil => exact absurd (hstart.symm.trans hsite) (by simp)
  | append_singleton files f ih =>
    rw [List.foldl_append] at hsite
    have hbefore : ∀ {w' : World σ}, w'.site url = some place →
        w' = files.foldl (fun w f => (contentRegistryAddFile w f.path f.url f.mode).2) w →
        ∃ f' ∈ files ++ [f], f'.url = url ∧ place = f'.mode.place f'.path := by
      rintro w' hw' rfl
      obtain ⟨f', hf', hurl, hplace⟩ := ih hw'
      exact ⟨f', List.mem_append_left _ hf', hurl, hplace⟩
    rcases contentRegistryAddFile_site (files.foldl
        (fun w f => (contentRegistryAddFile w f.path f.url f.mode).2) w) f.path f.url f.mode with
      hsame | hsame
    · exact hbefore ((congrFun hsame url).symm.trans hsite) rfl
    · have hnow := (congrFun hsame url).symm.trans hsite
      split at hnow
      · next hurl =>
        exact ⟨f, List.mem_append_right _ (List.mem_singleton_self f), hurl.symm,
          (Option.some.inj hnow).symm⟩
      · exact hbefore hnow rfl

theorem registerAll_rooted (files : List Registration) (hempty : w.registry = {}) :
    (registerAll w files).Rooted := by
  intro url place hsite
  obtain ⟨f, -, -, hplace⟩ := registerAll_site hempty hsite
  exact ⟨f.mode, f.path, hplace⟩

/-- Between its turns the server is left alone: files may change, but nothing else registers
files or looks at them. -/
def Round.Undisturbed (round : Round σ) : Prop :=
  ∀ i, ∀ w ∈ round.ready i, ∀ world, (w.meanwhile world).registry = world.registry ∧
    (w.meanwhile world).fsCalls = world.fsCalls

/-- A server looks only at what its URLs lead to, and they keep leading there. -/
theorem HistoryReaches.visits {backing : ℕ} {start : World σ} {h : History σ}
    (hreaches : HistoryReaches router Round.Undisturbed backing start h) (hrooted : start.Rooted) :
    start.Visits {path | ∃ url, path ∈ start.root url} h.server.world := by
  refine hreaches.world (start.Visits _) (.refl _ _) ?_ ?_
  · intro round hround i w hw world hvisits
    obtain ⟨hregistry, hcalls⟩ := hround i w hw world
    refine ⟨(World.site_of_registry hregistry).trans hvisits.site, ?_⟩
    rw [hcalls]
    exact hvisits.calls
  · intro m hvisits
    have hstep := stepPhase_visits router (hvisits.rooted hrooted)
    refine hvisits.trans (hstep.mono ?_)
    rintro path ⟨url, hpath⟩
    rw [hvisits.root] at hpath
    exact ⟨url, hpath⟩

/-- What the URLs lead to has been registered. -/
theorem registerAll_root {files : List Registration} (hempty : w.registry = {}) {url : Bytes}
    (hpath : path ∈ (registerAll w files).root url) :
    ∃ f ∈ files, f.mode ≠ .staticResident ∧ path = storedPath f.path := by
  obtain ⟨mode, hsite⟩ := hpath
  obtain ⟨f, hf, -, hplace⟩ := registerAll_site hempty hsite
  have hstored : some path = if f.mode = .staticResident then none
    else some (storedPath f.path) := congrArg Prod.snd hplace
  split at hstored
  · cases hstored
  · next hmode => exact ⟨f, hf, hmode, Option.some.inj hstored⟩

/-- The server looks only at paths that have been registered, and its URLs keep leading to
them. -/
theorem server_confined (router : Router σ) (backing : ℕ) (start : World σ)
    (files : List Registration) (hempty : start.registry = {}) (h : History σ)
    (hreaches : HistoryReaches router Round.Undisturbed backing (registerAll start files) h) :
    h.server.world.site = (registerAll start files).site ∧
      (∀ url place, h.server.world.site url = some place →
        ∃ f ∈ files, f.url = url ∧ place = f.mode.place f.path) ∧
      ∃ calls, h.server.world.fsCalls = (registerAll start files).fsCalls ++ calls ∧
        ∀ call ∈ calls, ∃ f ∈ files, f.mode ≠ .staticResident ∧ call.target = storedPath f.path := by
  have hvisits := hreaches.visits (registerAll_rooted files hempty)
  refine ⟨hvisits.site, fun url place hsite => ?_, ?_⟩
  · rw [hvisits.site] at hsite
    exact registerAll_site hempty hsite
  · obtain ⟨calls, heq, hcalls⟩ := hvisits.calls
    refine ⟨calls, heq, fun call hcall => ?_⟩
    obtain ⟨url, hroot⟩ := hcalls call hcall
    exact registerAll_root hempty hroot

/-- Of two files that have been registered one is requested, and it has been changed. -/
def siteFiles : List Registration :=
  [⟨ascii "/www/a.html", ascii "/", .dynResident⟩, ⟨ascii "/www/b.js", ascii "/b", .dynStreamed⟩]

def siteStart : World Unit := { files := fun _ => some firstPage, handlers := () }

def siteRound : Round Unit :=
  { ready := fun i => if i = 1 then
      some
        { recvs := [.data (ascii "GET / HTTP/1.1" ++ CRLF ++ ascii "Host: a" ++ CRLF ++ CRLF)]
          clock := [784111777]
          meanwhile := fun world => { world with files := fun _ => some secondPage } }
      else none }

def siteServed : History Unit :=
  (({ server := { set := { backing := 4096 }, world := registerAll siteStart siteFiles } } :
    History Unit).turn {} firstRound).turn {} siteRound

theorem server_confined_page :
    siteServed.server.world.fsCalls = (registerAll siteStart siteFiles).fsCalls ++
        [.stat (ascii "/www/a.html"), .open (ascii "/www/a.html")] ∧
      siteServed.server.world.site = (registerAll siteStart siteFiles).site ∧
      (∀ url place, siteServed.server.world.site url = some place →
        ∃ f ∈ siteFiles, f.url = url ∧ place = f.mode.place f.path) ∧
      ∃ calls, siteServed.server.world.fsCalls =
          (registerAll siteStart siteFiles).fsCalls ++ calls ∧
        ∀ call ∈ calls, ∃ f ∈ siteFiles, f.mode ≠ .staticResident ∧
          call.target = storedPath f.path := by
  refine ⟨by decide +kernel, server_confined {} 4096 siteStart siteFiles rfl siteServed ?_⟩
  refine .tail (.single ⟨firstRound, ?_, ?_, rfl⟩) ⟨siteRound, ?_, ?_, rfl⟩
  · exact fun i w hw => by cases hw
  · intro new hnew
    obtain rfl : ({ fd := 5 } : Accept) = new := Option.some.inj hnew
    exact ⟨by decide, by simp [Server.Open]⟩
  · intro i w hw world
    obtain ⟨-, hw⟩ := Option.ite_none_right_eq_some.mp hw
    obtain rfl := Option.some.inj hw
    exact ⟨rfl, rfl⟩
  · exact fun new hnew => by cases hnew

end HttpServer
