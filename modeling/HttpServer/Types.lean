import Mathlib.Algebra.Ring.Int.Defs
import Mathlib.Data.List.Infix
import Mathlib.Tactic.Linarith

/-!
# Configuration and data types of the server

The compile-time knobs are the default build of `Config.h`; the types are the
structures of the public headers and of `Connection.h`. Byte strings are lists,
a `const char *` into a buffer is an offset, and a C union is an inductive type
with one constructor for each member.
-/

namespace HttpServer

abbrev Byte := UInt8
abbrev Bytes := List UInt8

/-- The bytes of an ASCII literal. -/
def ascii (s : String) : Bytes := s.toList.map fun c => c.val.toUInt8

def CR : Byte := 13
def LF : Byte := 10
def SP : Byte := 32
def HTAB : Byte := 9

def CRLF : Bytes := [CR, LF]

@[simp] theorem CRLF_length : CRLF.length = 2 := rfl

/-! ## Config.h -/

def HTTP_MAX_PATH_LEN : ℕ := 2048
def HTTP_MAX_QUERY_LEN : ℕ := 512
def HTTP_MAX_REQUEST_LEN : ℕ := 8 * 1024 * 1024
def HTTP_VERSION_LEN : ℕ := 8
def HTTP_MAX_HEADERS : ℕ := 32
def HTTP_MAX_HEADER_KEY_LEN : ℕ := 64
def HTTP_MAX_HEADER_VALUE_LEN : ℕ := 256
def HTTP_MAX_BODY_LEN : ℕ := 1 * 1024 * 1000
def HTTP_MAX_DECHUNK_SIZE : ℕ := 16 * 1024
def HTTP_RESPONSE_BUFFER_SIZE : ℕ := 8 * 1024
def HTTP_STREAM_CHUNK_SIZE : ℕ := 4 * 1024
def HTTP_MAX_REQUESTS : ℕ := 100
def HTTP_MAX_CONNECTIONS : ℕ := 4
def HTTP_ARENA_SLACK : ℕ := 8 * 1024
def HTTP_CONN_ARENA_SIZE : ℕ :=
  HTTP_MAX_REQUEST_LEN + HTTP_RESPONSE_BUFFER_SIZE + HTTP_MAX_DECHUNK_SIZE + HTTP_ARENA_SLACK
def HTTP_BUCKET : ℕ := 1024

/-- `SIZE_MAX`, the value a failed `ssize_t` result has once it is stored in a `size_t`. -/
def SIZE_MAX : ℕ := 2 ^ 64 - 1

/-! ## ParseResult.h -/

inductive ParseStatus where
  | ok | badRequest | uriTooLong | headerKeyTooLong | headerValueTooLong | headerTooLong
  | versionNotSupported | payloadTooLarge | notImplemented | incomplete | notFound
  | notAllowed | serverError
  deriving DecidableEq, Repr

/-- The two pointers are offsets into the buffer that was parsed, `none` for `NULL`. -/
structure ParseResult where
  status : ParseStatus := .ok
  errorPosition : Option ℕ := none
  next : Option ℕ := none
  deriving DecidableEq, Repr

/-! ## Arena.h, HttpBuffer.h -/

structure Arena where
  base : ℕ := 0
  cap : ℕ := 0
  used : ℕ := 0
  deriving DecidableEq, Repr

/-- `address` is the pointer `buffer`; `storage` is the memory behind it, which holds
stale bytes past `size`. -/
structure HttpBuffer where
  cap : ℕ := 0
  size : ℕ := 0
  address : Option ℕ := none
  storage : Bytes := []
  deriving DecidableEq, Repr

/-- The live bytes of a buffer. -/
def HttpBuffer.contents (b : HttpBuffer) : Bytes := b.storage.take b.size

/-- Store `bs` at offset `off`, leaving the rest of the memory as it is. -/
def HttpBuffer.store (b : HttpBuffer) (off : ℕ) (bs : Bytes) : HttpBuffer :=
  { b with storage := b.storage.take off ++ bs ++ b.storage.drop (off + bs.length) }

/-- Store `bs` behind the live bytes and count them in. -/
def HttpBuffer.append (b : HttpBuffer) (bs : Bytes) : HttpBuffer :=
  { b.store b.size bs with size := b.size + bs.length }

/-! ## HttpRequestLine.h, HttpHeaders.h, HttpRequest.h -/

inductive HttpMethod where
  | get | post | put | delete | options | head | patch | unknown
  deriving DecidableEq, Repr

/-- Arrays are kept as the C strings they hold. -/
structure HttpRequestLine where
  method : HttpMethod := .get
  path : Bytes := []
  query : Bytes := []
  version : Bytes := []
  deriving DecidableEq, Repr

structure Header where
  key : Bytes := []
  value : Bytes := []
  deriving DecidableEq, Repr

/-- Where the non-owning `body` pointer of a request points. -/
inductive BodyView where
  | reqBuf (offset : ℕ)
  | bodyDechunked
  deriving DecidableEq, Repr

/-- `headers` has `header_count` entries. The `scratch` pointer always is the arena of the
connection, which handlers receive next to the request. -/
structure HttpRequest where
  requestLine : HttpRequestLine := {}
  headers : List Header := []
  body : Option BodyView := none
  bodyLen : ℕ := 0
  deriving DecidableEq, Repr

/-! ## HttpBody.h -/

inductive TransferCoding where
  | none | chunked | unsupported
  deriving DecidableEq, Repr

inductive ChunkedPhase where
  | size | data | trailCr | trailLf | trailer | done
  deriving DecidableEq, Repr

structure ChunkDecoder where
  phase : ChunkedPhase := .size
  remaining : ℕ := 0
  deriving DecidableEq, Repr

structure ChunkResult where
  parseResult : ParseResult := {}
  bytesWritten : ℕ := 0
  deriving DecidableEq, Repr

inductive ReadBodyStatus where
  | ok | peerClosed | tooLarge | ioError | badData | hasMore
  deriving DecidableEq, Repr

structure ReadBodyResult where
  status : ReadBodyStatus := .ok
  nextReqOffset : ℕ := 0
  deriving DecidableEq, Repr

structure CLBodySt where
  received : ℕ := 0
  deriving DecidableEq, Repr

structure ChunkedBodySt where
  consumed : ℕ := 0
  dec : ChunkDecoder := {}
  deriving DecidableEq, Repr

/-! ## HttpResponse.h -/

structure ResponseHeader where
  key : Bytes
  value : Bytes
  deriving DecidableEq, Repr

/-- What the `ctx` of a producer identifies: the file a `FileCtx` has open, or an object of
a handler. -/
inductive StreamCtx where
  | file (fsPath : Bytes)
  | handler (id : ℕ)
  deriving DecidableEq, Repr

/-- `pull` and `cleanup` say whether the function pointer is set. -/
structure Stream where
  ctx : Option StreamCtx := none
  pull : Bool := false
  cleanup : Bool := false
  deriving DecidableEq, Repr

/-- The `kind` tag together with the member of the union it selects. -/
inductive ResponseBody where
  | none
  | buffer (buffer : Option Bytes) (size : ℕ)
  | stream (stream : Stream)
  deriving DecidableEq, Repr

structure HttpResponse where
  status : ℤ := 0
  reason : Bytes := []
  headers : List ResponseHeader := []
  body : ResponseBody := .none
  headOnly : Bool := false
  deriving DecidableEq, Repr

inductive SendResponseStatus where
  | ok | peerClosed | hasMore | error
  deriving DecidableEq, Repr

structure SendSt where
  sent : ℕ := 0
  deriving DecidableEq, Repr

inductive StreamPhase where
  | header | pull | drain | trailer | done
  deriving DecidableEq, Repr

inductive StreamStep where
  | abort | yield | advance
  deriving DecidableEq, Repr

structure SendStreamSt where
  phase : StreamPhase := .header
  send : SendSt := {}
  deriving DecidableEq, Repr

/-! ## Connection.h -/

inductive ReadHeaderStatus where
  | ok | peerClosed | tooLarge | ioError | hasMore
  deriving DecidableEq, Repr

structure ReadHeaderResult where
  status : ReadHeaderStatus := .ok
  totalReceived : ℕ := 0
  bodyStart : ℕ := 0
  deriving DecidableEq, Repr

inductive ConnPhase where
  | readingRequest | readingBodyCl | readingBodyChunked | sending100 | building
  | sendingResponse | sendingResponseStream | closed
  deriving DecidableEq, Repr

structure ConnMem where
  arena : Arena := {}
  reqMark : ℕ := 0
  reqBuf : HttpBuffer := {}
  respBuf : HttpBuffer := {}
  bodyDechunked : HttpBuffer := {}
  deriving DecidableEq, Repr

/-- The union `st`. -/
inductive PhaseSt where
  | cl (st : CLBodySt)
  | chunked (st : ChunkedBodySt)
  | send (st : SendSt)
  | stream (st : SendStreamSt)
  deriving DecidableEq, Repr

/-- Reading a member other than the one last written does not happen in the server; such a
read yields the zeroed member. -/
def PhaseSt.getCl : PhaseSt → CLBodySt
  | .cl st => st
  | _ => {}

def PhaseSt.getChunked : PhaseSt → ChunkedBodySt
  | .chunked st => st
  | _ => {}

def PhaseSt.getSend : PhaseSt → SendSt
  | .send st => st
  | _ => {}

def PhaseSt.getStream : PhaseSt → SendStreamSt
  | .stream st => st
  | _ => {}

@[simp] theorem PhaseSt.getCl_cl (st : CLBodySt) : (PhaseSt.cl st).getCl = st := rfl

@[simp] theorem PhaseSt.getChunked_chunked (st : ChunkedBodySt) :
    (PhaseSt.chunked st).getChunked = st := rfl

@[simp] theorem PhaseSt.getSend_send (st : SendSt) : (PhaseSt.send st).getSend = st := rfl

@[simp] theorem PhaseSt.getStream_stream (st : SendStreamSt) :
    (PhaseSt.stream st).getStream = st := rfl

/-- The default values are those of a slot in zero-initialised memory. -/
structure Connection where
  fd : ℤ := 0
  phase : ConnPhase := .readingRequest
  keepAlive : Bool := false
  mem : ConnMem := {}
  reqParsed : HttpRequest := {}
  bodyStart : ℕ := 0
  bodyLen : ℕ := 0
  bodyCoding : TransferCoding := .none
  producer : Stream := {}
  nextReqOffset : ℕ := 0
  requests : ℕ := 0
  st : PhaseSt := .cl {}
  deriving DecidableEq, Repr

end HttpServer
