import HttpServer.Socket

/-!
# Building and serializing responses

`HttpResponse.c` without `response_send`. Strings are C strings without their
`NUL`; a body is an object in memory, so `offset + size` does not wrap.
-/

namespace HttpServer

/-! ## Writing into a bounded buffer -/

/-- What has been stored at `buffer` so far, the write offset, and whether the serializer has
returned `-1`. Offsets below `mem.length` and no others have been stored to. -/
structure Out where
  mem : Bytes := []
  offset : ℕ := 0
  failed : Bool := false
  deriving DecidableEq, Repr

/-- The finished text, `none` for the result `-1`. -/
def Out.result (o : Out) : Option Bytes := if o.failed then none else some (o.mem.take o.offset)

def Out.require (b : Out → Bool) (o : Out) : Out :=
  if o.failed || b o then o else { o with failed := true }

/-- Store `bs` at the write offset and advance over the first `n` of them. -/
def Out.put (bs : Bytes) (n : ℕ) (o : Out) : Out :=
  if o.failed then o else { o with mem := o.mem.take o.offset ++ bs, offset := o.offset + n }

/-- `snprintf` of `s` into the rest of the buffer: a text that does not fit is cut and
terminated. The caller gives up when fewer than `slack` bytes would be left. -/
def Out.snprintf (cap slack : ℕ) (s : Bytes) (o : Out) : Out :=
  let room := cap - o.offset
  let o := o.put (if room = 0 then [] else s.take (room - 1) ++ [0]) s.length
  o.require fun _ => s.length + slack ≤ room

/-- `strftime` of a date whose text is `s`: 0 when the text and its `NUL` do not fit. -/
def Out.strftime (cap : ℕ) (s : Bytes) (o : Out) : Out :=
  (o.require fun o => s.length < cap - o.offset).put (s ++ [0]) s.length

def Out.memcpy (cap : ℕ) (s : Bytes) (o : Out) : Out :=
  (o.require fun o => o.offset + s.length ≤ cap).put s s.length

/-! ## `response_serialize` -/

def HTTP_1_1 : Bytes := ascii "HTTP/1.1"

def connectionLine (keepAlive : Bool) : Bytes :=
  (if keepAlive then ascii "Connection: keep-alive" else ascii "Connection: close") ++ CRLF

def transferEncodingChunked : Bytes := ascii "Transfer-Encoding: chunked" ++ CRLF

def startLine (resp : HttpResponse) : Bytes :=
  HTTP_1_1 ++ [SP] ++ showInt resp.status ++ [SP] ++ resp.reason ++ CRLF

def dateLine (now : ℤ) : Bytes := ascii "Date: " ++ httpDateFormat now ++ CRLF

def headerText (header : ResponseHeader) : Bytes := header.key ++ ascii ": " ++ header.value ++ CRLF

def responseHeaderWrite (cap : ℕ) (header : ResponseHeader) (o : Out) : Out :=
  o.snprintf cap 1 (headerText header)

def responseCurrentTimeWrite (cap : ℕ) (now : ℤ) (o : Out) : Out :=
  (o.require fun _ => now != -1).strftime cap (dateLine now)

def responseHeaderConnectionWrite (cap : ℕ) (keepAlive : Bool) (o : Out) : Out :=
  (o.memcpy cap (connectionLine keepAlive)).require fun o => o.offset < cap

def responseBlankLineWrite (cap : ℕ) (o : Out) : Out :=
  (o.require fun o => o.offset + 2 < cap).put CRLF 2

def sawContentLength (headers : List ResponseHeader) : Bool :=
  headers.any fun header => asciiIeq header.key (ascii "content-length")

def contentLengthLine (size : ℕ) : Bytes := ascii "Content-Length: " ++ showNat size ++ CRLF

/-- The `switch` on the kind of body, which writes the framing line, the blank line and the
body. -/
def responseBodyWrite (cap : ℕ) (resp : HttpResponse) (o : Out) : Out :=
  match resp.body with
  | .buffer body size =>
    let o := if !sawContentLength resp.headers && 0 < size then
        o.snprintf cap 1 (contentLengthLine size) else o
    let o := responseBlankLineWrite cap o
    match body with
    | some bytes =>
      if !resp.headOnly && 0 < size then o.memcpy cap (bytes.take size) else o
    | none => o
  | .none => responseBlankLineWrite cap o
  | .stream _ => responseBlankLineWrite cap (o.memcpy cap transferEncodingChunked)

/-- `now` is the reading of `time(NULL)`. The start line alone may fill the buffer to the last
byte, where it is cut; the date line then fails. -/
def responseSerialize (resp : HttpResponse) (bufferSize : ℕ) (keepAlive : Bool) (now : ℤ) : Out :=
  let o := ({} : Out).snprintf bufferSize 0 (startLine resp)
  let o := responseCurrentTimeWrite bufferSize now o
  let o := resp.headers.foldl (fun o header => responseHeaderWrite bufferSize header o) o
  let o := responseHeaderConnectionWrite bufferSize keepAlive o
  responseBodyWrite bufferSize resp o

/-- Serialize at the current time. The clock is not read when the start line does not fit. -/
def responseSerializeNow (resp : HttpResponse) (bufferSize : ℕ) (keepAlive : Bool) (io : Io) :
    Out × Io :=
  if (startLine resp).length ≤ bufferSize then
    let (now, io) := io.time
    (responseSerialize resp bufferSize keepAlive now, io)
  else (responseSerialize resp bufferSize keepAlive 0, io)

/-! ## Responses -/

def responseNone (status : ℤ) (reason : Bytes) (headers : List ResponseHeader) : HttpResponse :=
  { status := status, reason := reason, headers := headers, body := .none }

def responseBuffer (status : ℤ) (reason : Bytes) (body : Option Bytes) (len : ℕ)
    (headers : List ResponseHeader) : HttpResponse :=
  { status := status, reason := reason, headers := headers, body := .buffer body len }

def responseStream (status : ℤ) (reason : Bytes) (stream : Stream)
    (headers : List ResponseHeader) : HttpResponse :=
  { status := status, reason := reason, headers := headers, body := .stream stream }

/-- The body of a canned error is its reason with the terminating `NUL`, as `sizeof` counts
it. -/
def responseError (status : ℤ) (reason : Bytes) (headers : List ResponseHeader) : HttpResponse :=
  responseBuffer status reason (some (reason ++ [0])) (reason.length + 1) headers

def responseErrorFromStatus : ParseStatus → HttpResponse
  | .badRequest => responseError 400 (ascii "Bad Request") []
  | .payloadTooLarge => responseError 413 (ascii "Payload Too Large") []
  | .uriTooLong => responseError 414 (ascii "URI Too Long") []
  | .headerKeyTooLong | .headerValueTooLong | .headerTooLong =>
    responseError 431 (ascii "Request Header Fields Too Large") []
  | .notImplemented => responseError 501 (ascii "Not Implemented") []
  | .versionNotSupported => responseError 505 (ascii "HTTP Version Not Supported") []
  | .notFound => responseError 404 (ascii "Not Found") []
  | _ => responseError 500 (ascii "Internal Server Error") []

/-- `strncat(buf, s, cap - strlen(buf) - 1)`. -/
def strncat (cap : ℕ) (buf s : Bytes) : Bytes := buf ++ s.take (cap - buf.length - 1)

/-- The text composed in `allow_buf` from the methods that are left, behind `buf`. -/
def allowCompose (cap : ℕ) (first : Bool) (buf : Bytes) : List Bytes → Bytes
  | [] => buf
  | method :: rest =>
    let buf := if first then buf else strncat cap buf (ascii ", ")
    allowCompose cap false (strncat cap buf method) rest

def responseError405 (allowed : List Bytes) (allowCap : ℕ) : HttpResponse :=
  responseError 405 (ascii "Method Not Allowed")
    [⟨ascii "Allow", allowCompose allowCap true [] allowed⟩]

/-- Store what the serializer wrote. `size` takes its `ssize_t` result. -/
def HttpBuffer.stage (resp : HttpBuffer) (o : Out) : HttpBuffer :=
  { resp.store 0 o.mem with size := (o.result.map List.length).getD SIZE_MAX }

/-- Error responses generally close, so `keep_alive` is 0. -/
def responseErrorSerialize (resp : HttpBuffer) (s : ParseStatus) (io : Io) : HttpBuffer × Io :=
  let (o, io) := responseSerializeNow (responseErrorFromStatus s) resp.cap false io
  (resp.stage o, io.emit (.staged true false o.result))

/-! ## Chunked framing -/

/-- `none` is the result `-1`. -/
def chunkFrame (payload : Bytes) (outCap : ℕ) : Option Bytes :=
  let size := showHex payload.length ++ CRLF
  if size.length ≥ outCap then none
  else if size.length + payload.length + 2 > outCap then none
  else some (size ++ payload ++ CRLF)

def chunkFrameLast (outCap : ℕ) : Option Bytes :=
  if outCap < 5 then none else some (ascii "0" ++ CRLF ++ CRLF)

end HttpServer
