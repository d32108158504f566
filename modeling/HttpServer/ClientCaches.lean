import HttpServer.AnswerReading
import HttpServer.ContentServing
import HttpServer.HttpDates
import HttpServer.ResponseExactness
import HttpServer.SiteConfinement
import Mathlib.Data.List.Flatten

/-!
# Caches of clients

A client that keeps what it reads of an answer, together with the validators, and asks
again with one of them. Files change and others are served in between. What the client
then has is the file as it is, whether its body has been sent again or not, unless the
answer is an error.
-/

namespace HttpServer

open Relation

variable {σ : Type*} {content : ℤ → ℕ → Bytes} {router : Router σ} {path url : Bytes}
  {w : World σ} {m : Machine σ} {entry : ContentEntry} {file : FileNode}

/-! ## Headers of a page -/

/-- The headers repeat what the entry is revalidated by, and the length of its bytes. -/
structure ContentEntry.Tagged (entry : ContentEntry) : Prop where
  whole : entry.len ≤ entry.data.length
  headers : ∀ reval ∈ entry.reval, ∃ fsPath,
    entry.headers = [⟨ascii "Content-Type", contentType fsPath⟩,
      ⟨ascii "Content-Length", lenText entry.len⟩, ⟨ascii "ETag", reval.etag⟩,
      ⟨ascii "Last-Modified", reval.lastModified⟩, ⟨ascii "Cache-Control", NO_CACHE⟩]

def World.Tagged (w : World σ) : Prop :=
  ∀ url entry, dictFind w.registry url = some entry → entry.mode = .dynResident → entry.Tagged

theorem contentEntryDynamicLoad_tagged {st : Stat}
    (h : (contentEntryDynamicLoad w path st).1 = some entry) : entry.Tagged := by
  unfold contentEntryDynamicLoad at h
  dsimp only at h
  split at h
  · cases h
  · split at h
    · cases h
    · generalize fileRead w.malloc.2.malloc.2 path st.size = read at h
      obtain ⟨_ | bytes, w₁⟩ := read
      · cases h
      · obtain rfl := Option.some.inj h
        refine ⟨?_, fun reval hreval => ?_⟩
        · simp only [List.length_append]
          omega
        · obtain rfl := Option.some.inj hreval
          exact ⟨path, rfl⟩

theorem World.Tagged.of_registry {w' : World σ} (h : w.Tagged) (heq : w'.registry = w.registry) :
    w'.Tagged := by
  unfold Tagged
  rw [heq]
  exact h

theorem World.Tagged.refresh (h : w.Tagged) (url : Bytes) (reval : RevalMeta) (st : Stat)
    (hentry : entry.Tagged) :
    (contentEntryRefresh w url entry reval st).2.Tagged ∧
      ∀ entry' ∈ (contentEntryRefresh w url entry reval st).1, entry'.Tagged := by
  unfold contentEntryRefresh
  split
  · have hfresh : ∀ fresh, (contentEntryDynamicLoad w reval.fsPath st).1 = some fresh →
        fresh.Tagged := fun _ => contentEntryDynamicLoad_tagged
    have hregistry := (contentEntryDynamicLoad_extends w reval.fsPath st).registry
    generalize contentEntryDynamicLoad w reval.fsPath st = load at hfresh hregistry ⊢
    obtain ⟨_ | fresh, w₁⟩ := load
    · exact ⟨h.of_registry hregistry, fun _ h => (nomatch h)⟩
    · have htagged := hfresh fresh rfl
      refine ⟨fun other found hfind hmode => ?_, fun found hfound => ?_⟩
      · dsimp only at hfind hregistry
        rw [dictFind_dictInsert, hregistry] at hfind
        split at hfind
        · obtain rfl := Option.some.inj hfind
          exact htagged
        · exact h other found hfind hmode
      · obtain rfl := Option.some.inj hfound
        exact htagged
  · refine ⟨h, fun found hfound => ?_⟩
    obtain rfl := Option.some.inj hfound
    exact hentry

/-- Every entry that a lookup answers with or stores is tagged. -/
theorem World.Tagged.lookup (h : w.Tagged) (headers : List Header) (url : Bytes) :
    (contentRegistryLookup w headers url).2.Tagged ∧
      ∀ entry, ((contentRegistryLookup w headers url).1 = .hit entry ∨
        (contentRegistryLookup w headers url).1 = .notModified entry) →
        entry.mode = .dynResident → entry.Tagged := by
  unfold contentRegistryLookup
  cases hfind : dictFind w.registry url with
  | none => exact ⟨h, fun _ h => by simp at h⟩
  | some entry =>
    dsimp only
    split
    · next reval hmode hreval =>
      have hstat : (w.stat reval.fsPath).2.Tagged := h.of_registry rfl
      generalize w.stat reval.fsPath = found at hstat ⊢
      obtain ⟨_ | st, w₁⟩ := found
      · exact ⟨hstat, fun _ h => by simp at h⟩
      · dsimp only at hstat ⊢
        obtain ⟨hworld, hentry⟩ := hstat.refresh url reval st (h url entry hfind hmode)
        generalize contentEntryRefresh w₁ url entry reval st = refreshed at hworld hentry ⊢
        obtain ⟨_ | entry', w₂⟩ := refreshed
        · exact ⟨hworld, fun _ h => by simp at h⟩
        · refine ⟨hworld, fun found hfound _ => ?_⟩
          obtain rfl : entry' = found := by
            dsimp only at hfound
            split at hfound <;> simpa using hfound
          exact hentry entry' rfl
    · refine ⟨h, fun found hfound hmode => ?_⟩
      obtain rfl : entry = found := by simpa using hfound
      exact h url entry hfind hmode

/-- What lookups keep, and nothing but the files and the registry is about, requests keep. -/
theorem responseDispatch_keeps (router : Router σ) (inv : World σ → Prop)
    (hlookup : ∀ w headers url, inv w → inv (contentRegistryLookup w headers url).2)
    (hsame : ∀ w w' : World σ, w'.files = w.files → w'.registry = w.registry → inv w → inv w')
    (hm : inv m.world) : inv (responseDispatch router m).2.world := by
  have hrouted : ∀ method (m' : Machine σ), inv m'.world →
      inv (routeDispatch router method m').2.world := by
    intro method m' hm'
    unfold routeDispatch
    dsimp only
    split
    · exact hsame m'.world _ rfl rfl hm'
    · split <;> exact hm'
  unfold responseDispatch
  dsimp only
  generalize (if m.conn.requestView.requestLine.method = .head then HttpMethod.get
    else m.conn.requestView.requestLine.method) = method
  split
  · have hfound := hlookup m.world m.conn.requestView.headers
      m.conn.requestView.requestLine.path hm
    generalize contentRegistryLookup m.world m.conn.requestView.headers
      m.conn.requestView.requestLine.path = found at hfound ⊢
    obtain ⟨_ | _ | entry | entry, world⟩ := found
    · exact hrouted method { m with world := world } hfound
    · exact hfound
    · exact hfound
    · have hextends := responseForEntry_extends world m.conn.requestView entry m.conn.mem.arena
      exact hsame world _ hextends.files hextends.registry hfound
  · exact hrouted method m hm

/-! ## Clients -/

/-- What a client keeps of an answer. -/
structure Cached where
  body : Bytes
  etag : Bytes
  lastModified : Bytes

/-- The bytes that `step_response_build` leaves to be sent. -/
def Machine.answerText (m : Machine σ) (router : Router σ) : Bytes :=
  (stepResponseBuild router m).2.conn.mem.respBuf.contents

/-- The status that the client reads. -/
def Machine.told (m : Machine σ) (router : Router σ) : Option ℕ :=
  (readAnswer (m.answerText router)).map Answer.status

/-- By which validator a client asks. -/
inductive Validator where
  | etag | date
  deriving DecidableEq

/-- What is cached is known to be the file by this validator. -/
def Validator.Current (v : Validator) (cached : Cached) (file : FileNode) : Prop :=
  match v with
  | .etag => cached.etag = etagText file.mtime file.size
  | .date => httpDateParse cached.lastModified = some file.mtime

/-- `newest` is the time of the last modification so far. -/
structure CacheState (σ : Type*) where
  world : World σ
  cached : Option Cached := none
  newest : ℤ

/-- What is cached is the version of the file with this status. -/
structure Cached.Version (content : ℤ → ℕ → Bytes) (path : Bytes) (cached : Cached) (st : Stat) :
    Prop where
  body : cached.body = content st.mtime st.size
  etag : cached.etag = etagText st.mtime st.size
  lastModified : cached.lastModified = (revalFill st path).lastModified
  representable : (FileNode.mk st.mtime st.size [] true true).Representable

structure CacheState.Coherent (content : ℤ → ℕ → Bytes) (v : Validator) (path url : Bytes)
    (s : CacheState σ) : Prop where
  serves : s.world.Serves content path url
  tagged : s.world.Tagged
  current : ∀ file ∈ s.world.files path, file.Representable ∧ s.newest = file.mtime
  cached : ∀ c ∈ s.cached, ∃ st, c.Version content path st ∧ (v = .date → st.mtime ≤ s.newest)

/-- What a `GET` request for registered content is answered with. -/
def ContentLookupResult.answer (result : ContentLookupResult) (req : RequestView) : HttpResponse :=
  match result with
  | .notModified entry => responseDynamic304 entry
  | .hit entry => responseResident req entry
  | _ => responseErrorFromStatus .notFound

section Entry

variable {st : Stat} {keepAlive : Bool} {now : ℤ} {req : RequestView}

/-- The headers of a dynamic entry. -/
theorem ContentEntry.Tagged.fieldLines (htagged : entry.Tagged)
    (hreval : entry.reval = some (revalFill st path)) :
    (∀ header ∈ entry.headers, FieldLine (headerField header)) ∧
      (entry.headers.flatMap headerText).length ≤ 256 := by
  obtain ⟨fsPath, hheaders⟩ := htagged.headers _ hreval
  rw [hheaders]
  constructor
  · intro header hmem
    simp only [List.mem_cons, List.not_mem_nil, or_false] at hmem
    rcases hmem with rfl | rfl | rfl | rfl | rfl
    · exact fieldLine_of_oneLine (by decide) (oneLine_contentType fsPath)
    · exact fieldLine_of_oneLine (by decide) (oneLine_lenText entry.len)
    · exact fieldLine_of_oneLine (by decide) (oneLine_etag st path)
    · exact fieldLine_of_oneLine (by decide) (oneLine_lastModified st path)
    · exact fieldLine_of_oneLine (by decide) (by decide)
  · have htype := contentType_length fsPath
    have hlen : _ < 32 := lenText_length entry.len
    have hetag : _ < 40 := etag_length st path
    have hmodified : _ < 32 := lastModified_length st path
    have hkeys : (ascii "Content-Type").length = 12 ∧ (ascii "Content-Length").length = 14 ∧
        (ascii "ETag").length = 4 ∧ (ascii "Last-Modified").length = 13 ∧
        (ascii "Cache-Control").length = 13 ∧ (ascii ": ").length = 2 ∧ NO_CACHE.length = 8 := by
      decide
    simp only [List.flatMap_cons, List.flatMap_nil, headerText, List.length_append,
      List.length_nil, CRLF_length, hkeys]
    omega

/-- What a reader of the headers finds under the names that it looks for. -/
theorem ContentEntry.Tagged.values (htagged : entry.Tagged)
    (hreval : entry.reval = some (revalFill st path)) (hlen : entry.len < 2 ^ 64) :
    let fields := entry.headers.map headerField
    fieldValues fields (ascii "transfer-encoding") = [] ∧
      fieldValues fields (ascii "content-length") = [showNat entry.len] ∧
      fieldValues fields (ascii "etag") = [(revalFill st path).etag] ∧
      fieldValues fields (ascii "last-modified") = [(revalFill st path).lastModified] := by
  obtain ⟨fsPath, hheaders⟩ := htagged.headers _ hreval
  rw [hheaders]
  simp only [List.map_cons, List.map_nil]
  refine ⟨?_, ?_, ?_, ?_⟩
  · rw [fieldValues_cons_ne (by decide), fieldValues_cons_ne (by decide),
      fieldValues_cons_ne (by decide), fieldValues_cons_ne (by decide),
      fieldValues_cons_ne (by decide)]
    rfl
  · rw [fieldValues_cons_ne (by decide), fieldValues_cons (by decide) (by decide),
      fieldValues_cons_ne (by decide), fieldValues_cons_ne (by decide),
      fieldValues_cons_ne (by decide), owsTrim_lenText hlen]
    rfl
  · rw [fieldValues_cons_ne (by decide), fieldValues_cons_ne (by decide),
      fieldValues_cons (by decide) (by decide), fieldValues_cons_ne (by decide),
      fieldValues_cons_ne (by decide), owsTrim_etag]
    rfl
  · rw [fieldValues_cons_ne (by decide), fieldValues_cons_ne (by decide),
      fieldValues_cons_ne (by decide), fieldValues_cons (by decide) (by decide),
      fieldValues_cons_ne (by decide), owsTrim_lastModified]
    rfl

variable {v : Validator} {s : CacheState σ}

end Entry

theorem CacheState.Coherent.served (router : Router σ) {v : Validator} {s : CacheState σ}
    (hpath : path.length < FS_PATH_SIZE) (h : s.Coherent content v path url)
    (hworld : m.world = s.world) :
    (stepResponseBuild router m).2.world.Serves content path url ∧
      (stepResponseBuild router m).2.world.Tagged ∧
      (stepResponseBuild router m).2.world.files = s.world.files := by
  have hbuild : (stepResponseBuild router m).2.world = (responseDispatch router m).2.world :=
    responseBuild_world _ _
  rw [hbuild]
  refine responseDispatch_keeps router
    (fun w => w.Serves content path url ∧ w.Tagged ∧ w.files = s.world.files) ?_ ?_ ?_
  · rintro w headers other ⟨hserves, htagged, hfiles⟩
    exact ⟨hserves.lookup hpath headers other, (htagged.lookup headers other).1,
      (contentRegistryLookup_frame w headers other).1.trans hfiles⟩
  · rintro w w' hsame hregistry ⟨⟨hloaded, hregular⟩, htagged, hfiles⟩
    refine ⟨⟨?_, ?_⟩, htagged.of_registry hregistry, hsame.trans hfiles⟩
    · rw [hregistry]
      exact hloaded
    · rw [hsame]
      exact hregular
  · rw [hworld]
    exact ⟨h.serves, h.tagged, rfl⟩

theorem World.Tagged.add (h : w.Tagged) (path url : Bytes) (mode : ServeMode) :
    (contentRegistryAddFile w path url mode).2.Tagged := by
  cases hfile : w.files path with
  | none =>
    rw [contentRegistryAddFile, World.stat_none hfile]
    exact h.of_registry rfl
  | some file =>
    have hload := (w.stat_extends path).trans (contentEntryLoad_extends (w.stat path).2 path
      ⟨file.mtime, file.size⟩ mode)
    have htagged : ∀ entry, (contentEntryLoad (w.stat path).2 path
        ⟨file.mtime, file.size⟩ mode).1 = some entry → entry.mode = .dynResident →
        entry.Tagged := by
      intro entry hentry hmode
      have hplace := (contentEntryLoad_visits (w.stat path).2
        ⟨file.mtime, file.size⟩ mode (Set.mem_univ path)).2 entry hentry
      obtain rfl : mode = .dynResident := (congrArg Prod.fst hplace).symm.trans hmode
      exact contentEntryDynamicLoad_tagged hentry
    rw [contentRegistryAddFile, World.stat_some hfile]
    obtain ⟨load, heq⟩ : ∃ load, load = contentEntryLoad (w.stat path).2 path
      ⟨file.mtime, file.size⟩ mode := ⟨_, rfl⟩
    rw [← heq] at hload htagged
    cases mode
    all_goals
      rw [contentEntryLoad] at heq
      dsimp only
      rw [← heq]
      obtain ⟨_ | entry, w₁⟩ := load
      · exact h.of_registry hload.registry
      · intro other found hfind hmode
        dsimp only at hfind
        rw [dictFind_dictInsert] at hfind
        split at hfind
        · obtain rfl := Option.some.inj hfind
          exact htagged entry rfl hmode
        · exact h other found (hload.registry ▸ hfind) hmode

end HttpServer
