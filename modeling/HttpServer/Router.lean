import HttpServer.Arena
import HttpServer.Dictionary
import HttpServer.RequestParser
import HttpServer.Response

/-!
# The content registry and the route table

`HttpRouter.c` over an explicit file system. What the functions find there, the
outcomes of `malloc`, the registry and whatever state the handlers keep form a
`World`; a handler is an arbitrary function on that state.
-/

namespace HttpServer

/-! ## The file system -/

/-- `size` is `st_size`; reading the file delivers `content`, which may have another length. -/
structure FileNode where
  mtime : ℤ := 0
  size : ℕ := 0
  content : Bytes := []
  opens : Bool := true
  reads : Bool := true
  deriving DecidableEq, Repr

structure Stat where
  mtime : ℤ := 0
  size : ℕ := 0
  deriving DecidableEq, Repr

inductive FsCall where
  | stat (path : Bytes)
  | open (path : Bytes)
  deriving DecidableEq, Repr

/-! ## Registry entries -/

inductive ServeMode where
  | staticResident | staticStreamed | dynResident | dynStreamed
  deriving DecidableEq, Repr

structure RevalMeta where
  mtime : ℤ := 0
  size : ℕ := 0
  fsPath : Bytes := []
  etag : Bytes := []
  lastModified : Bytes := []
  deriving DecidableEq, Repr

/-- `data` is everything stored from `data[0]` on, `allocated` the number of data bytes that
were asked of `malloc`. -/
structure ContentEntry where
  mode : ServeMode
  len : ℕ := 0
  headers : List ResponseHeader := []
  reval : Option RevalMeta := none
  data : Bytes := []
  allocated : ℕ := 0
  deriving DecidableEq, Repr

abbrev ContentRegistry := Dictionary ContentEntry

/-- `σ` is the state of the handlers. A `malloc` past the end of its script succeeds. -/
structure World (σ : Type*) where
  files : Bytes → Option FileNode := fun _ => none
  mallocs : List Bool := []
  registry : ContentRegistry := {}
  fsCalls : List FsCall := []
  handlers : σ

variable {σ : Type*}

def World.malloc (w : World σ) : Bool × World σ :=
  match w.mallocs with
  | [] => (true, w)
  | ok :: rest => (ok, { w with mallocs := rest })

def World.stat (w : World σ) (path : Bytes) : Option Stat × World σ :=
  ((w.files path).map fun f => ⟨f.mtime, f.size⟩, { w with fsCalls := w.fsCalls ++ [.stat path] })

def World.open (w : World σ) (path : Bytes) : Option FileNode × World σ :=
  ((w.files path).filter FileNode.opens, { w with fsCalls := w.fsCalls ++ [.open path] })

/-- The first `min (len, size)` bytes, `none` when the file cannot be opened or read. -/
def fileRead (w : World σ) (path : Bytes) (size : ℕ) : Option Bytes × World σ :=
  let (file, w) := w.open path
  ((file.filter FileNode.reads).map fun f => f.content.take size, w)

def contentType (path : Bytes) : Bytes :=
  if strEndsWith path (ascii ".html") then ascii "text/html"
  else if strEndsWith path (ascii ".ico") then ascii "image/x-icon"
  else if strEndsWith path (ascii ".jpg") || strEndsWith path (ascii ".jpeg") then
    ascii "image/jpeg"
  else if strEndsWith path (ascii ".png") then ascii "image/png"
  else if strEndsWith path (ascii ".css") then ascii "text/css"
  else if strEndsWith path (ascii ".js") then ascii "application/javascript"
  else if strEndsWith path (ascii ".wasm") then ascii "application/wasm"
  else if strEndsWith path (ascii ".data") then ascii "application/octet-stream"
  else ascii "application/octet-stream"

def FS_PATH_SIZE : ℕ := 256
def ETAG_SIZE : ℕ := 40
def LAST_MODIFIED_SIZE : ℕ := 32
def LEN_BUF_SIZE : ℕ := 32

/-- A `time_t` or `off_t` converted to `unsigned long`. -/
def toUnsignedLong (n : ℤ) : ℕ := (n % 2 ^ 64).toNat

def revalFill (st : Stat) (fsPath : Bytes) : RevalMeta :=
  let etag := ascii "W/\"" ++ showHex (toUnsignedLong st.mtime) ++ ascii "-" ++
    showHex (toUnsignedLong st.size) ++ ascii "\""
  { mtime := st.mtime
    size := st.size
    fsPath := fsPath.take (FS_PATH_SIZE - 1)
    etag := etag.take (ETAG_SIZE - 1)
    lastModified :=
      let text := httpDateFormat st.mtime
      if text.length < LAST_MODIFIED_SIZE then text else [] }

/-- The text of `Content-Length` that is composed behind the file's bytes. -/
def lenText (len : ℕ) : Bytes := (showNat len).take (LEN_BUF_SIZE - 1)

def IMMUTABLE : Bytes := ascii "max-age=31536000, immutable"
def NO_CACHE : Bytes := ascii "no-cache"

def contentEntryStaticLoad (w : World σ) (fsPath : Bytes) : Option ContentEntry × World σ :=
  match w.stat fsPath with
  | (none, w) => (none, w)
  | (some st, w) =>
    let (ok, w) := w.malloc
    if !ok then (none, w)
    else match fileRead w fsPath st.size with
      | (none, w) => (none, w)
      | (some bytes, w) =>
        (some
          { mode := .staticResident
            len := bytes.length
            headers := [⟨ascii "Content-Type", contentType fsPath⟩,
              ⟨ascii "Content-Length", lenText bytes.length⟩, ⟨ascii "Cache-Control", IMMUTABLE⟩]
            data := bytes ++ [0] ++ lenText bytes.length ++ [0]
            allocated := st.size + 1 + LEN_BUF_SIZE }, w)

def contentEntryDynamicLoad (w : World σ) (fsPath : Bytes) (st : Stat) :
    Option ContentEntry × World σ :=
  let (ok, w) := w.malloc
  if !ok then (none, w)
  else
    let (ok, w) := w.malloc
    if !ok then (none, w)
    else match fileRead w fsPath st.size with
      | (none, w) => (none, w)
      | (some bytes, w) =>
        let reval := revalFill st fsPath
        (some
          { mode := .dynResident
            len := bytes.length
            headers := [⟨ascii "Content-Type", contentType fsPath⟩,
              ⟨ascii "Content-Length", lenText bytes.length⟩, ⟨ascii "ETag", reval.etag⟩,
              ⟨ascii "Last-Modified", reval.lastModified⟩, ⟨ascii "Cache-Control", NO_CACHE⟩]
            reval := some reval
            data := bytes ++ [0] ++ lenText bytes.length ++ [0]
            allocated := st.size + 1 }, w)

def contentEntryStreamedLoad (w : World σ) (fsPath : Bytes) (st : Stat) (mode : ServeMode)
    (cacheControl : Bytes) : Option ContentEntry × World σ :=
  let (ok, w) := w.malloc
  if !ok then (none, w)
  else
    let (ok, w) := w.malloc
    if !ok then (none, w)
    else
      let reval := revalFill st fsPath
      (some
        { mode := mode
          headers := [⟨ascii "Content-Type", contentType fsPath⟩, ⟨ascii "ETag", reval.etag⟩,
            ⟨ascii "Last-Modified", reval.lastModified⟩, ⟨ascii "Cache-Control", cacheControl⟩]
          reval := some reval }, w)

/-- Returns whether the file was registered. -/
def contentRegistryAddFile (w : World σ) (fsPath url : Bytes) (mode : ServeMode) :
    Bool × World σ :=
  match w.stat fsPath with
  | (none, w) => (false, w)
  | (some st, w) =>
    let (entry, w) := match mode with
      | .staticResident => contentEntryStaticLoad w fsPath
      | .staticStreamed => contentEntryStreamedLoad w fsPath st .staticStreamed IMMUTABLE
      | .dynResident => contentEntryDynamicLoad w fsPath st
      | .dynStreamed => contentEntryStreamedLoad w fsPath st .dynStreamed NO_CACHE
    match entry with
    | none => (false, w)
    | some entry => (true, { w with registry := dictInsert w.registry url entry })

/-! ## Responses from the registry -/

def responseResident (req : RequestView) (file : ContentEntry) : HttpResponse :=
  let headerCount := if file.mode = .staticResident then 3 else 5
  let headOnly := req.requestLine.method == .head
  { status := 200
    reason := ascii "OK"
    headOnly := headOnly
    headers := file.headers.take headerCount
    body := if headOnly then .buffer none 0 else .buffer (some file.data) file.len }

/-- `sizeof (FileCtx)` and its alignment. -/
def FILE_CTX_SIZE : ℕ := 4

def fileStreamOpen (w : World σ) (fsPath : Bytes) (scratch : Arena) : Stream × Arena × World σ :=
  match w.open fsPath with
  | (none, w) => ({}, scratch, w)
  | (some _, w) =>
    match arenaAlloc scratch FILE_CTX_SIZE FILE_CTX_SIZE with
    | (none, scratch) => ({}, scratch, w)
    | (some _, scratch) => ({ ctx := some (.file fsPath), pull := true, cleanup := true }, scratch, w)

def responseStreamed (w : World σ) (file : ContentEntry) (scratch : Arena) :
    HttpResponse × Arena × World σ :=
  let (s, scratch, w) := fileStreamOpen w ((file.reval.map RevalMeta.fsPath).getD []) scratch
  if !s.pull then (responseErrorFromStatus .serverError, scratch, w)
  else (responseStream 200 (ascii "OK") s (file.headers.take 4), scratch, w)

def responseDynamic304 (f : ContentEntry) : HttpResponse :=
  responseNone 304 (ascii "Not Modified") ((f.headers.drop 2).take 3)

def responseForEntry (w : World σ) (req : RequestView) (entry : ContentEntry) (scratch : Arena) :
    HttpResponse × Arena × World σ :=
  match entry.mode with
  | .staticResident | .dynResident => (responseResident req entry, scratch, w)
  | .staticStreamed | .dynStreamed => responseStreamed w entry scratch

def requestValidatorsMatch (headers : List Header) (reval : RevalMeta) : Bool :=
  match headerFind headers (ascii "if-none-match") with
  | some inm => if inm.value = ascii "*" then true else inm.value == reval.etag
  | none =>
    match headerFind headers (ascii "if-modified-since") with
    | some ims =>
      match httpDateParse ims.value with
      | none => false
      | some t => reval.mtime ≤ t
    | none => false

inductive ContentLookupResult where
  | miss | gone
  | notModified (entry : ContentEntry)
  | hit (entry : ContentEntry)
  deriving DecidableEq, Repr

/-- The entry a revalidated lookup goes on with: the stored one, or a fresh one when the file's
times or size have moved on. -/
def contentEntryRefresh (w : World σ) (urlPath : Bytes) (entry : ContentEntry)
    (reval : RevalMeta) (st : Stat) : Option ContentEntry × World σ :=
  if st.mtime ≠ reval.mtime ∨ st.size ≠ reval.size then
    match contentEntryDynamicLoad w reval.fsPath st with
    | (none, w) => (none, w)
    | (some fresh, w) => (some fresh, { w with registry := dictInsert w.registry urlPath fresh })
  else (some entry, w)

/-- An entry that is revalidated has a `reval`; the dereference of a `NULL` one does not
happen. -/
def contentRegistryLookup (w : World σ) (headers : List Header) (urlPath : Bytes) :
    ContentLookupResult × World σ :=
  match dictFind w.registry urlPath with
  | none => (.miss, w)
  | some entry =>
    match entry.mode, entry.reval with
    | .dynResident, some reval =>
      match w.stat reval.fsPath with
      | (none, w) => (.gone, w)
      | (some st, w) =>
        match contentEntryRefresh w urlPath entry reval st with
        | (none, w) => (.gone, w)
        | (some entry, w) =>
          (if requestValidatorsMatch headers (entry.reval.getD {}) then .notModified entry
            else .hit entry, w)
    | _, _ => (.hit entry, w)

/-! ## Routes -/

/-- A handler gets the request, the `data` of its route and the scratch arena. -/
abbrev HandlerFn (σ : Type*) :=
  RequestView → Option ℕ → Arena → σ → HttpResponse × Arena × σ

structure Route (σ : Type*) where
  method : Bytes
  path : Bytes
  handler : HandlerFn σ
  data : Option ℕ := none

/-- The registry of the router is kept in the `World`. -/
structure Router (σ : Type*) where
  routes : List (Route σ) := []

def ALLOWED_MAX : ℕ := 8
def ALLOW_STORAGE : ℕ := 128

/-- The first route that matches, or the methods of the routes with this path. -/
def routeLookupLoop (method path : Bytes) : List (Route σ) → List Bytes →
    Option (Route σ) × List Bytes
  | [], allowed => (none, allowed)
  | route :: rest, allowed =>
    if path ≠ route.path then routeLookupLoop method path rest allowed
    else if method = route.method then (some route, allowed)
    else if allowed.length < ALLOWED_MAX then
      routeLookupLoop method path rest (allowed ++ [route.method])
    else routeLookupLoop method path rest allowed

def routeLookup (routes : List (Route σ)) (method path : Bytes) : Option (Route σ) × List Bytes :=
  routeLookupLoop method path routes []

end HttpServer
