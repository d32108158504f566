import HttpServer.Body
import HttpServer.Calendar

/-!
# The socket side of a connection

What the kernel answers to `recv`, `send`, `time` and a stream producer to `pull`
is a script; a wake-up that runs past the end of its script would block. Every
call is appended to a log, together with ghost entries for the steps of the
connection. On top of that stand the functions of the server that call `recv`
and `send`.
-/

namespace HttpServer

inductive RecvOutcome where
  /-- `recv` returned these bytes; no bytes is the orderly end of the stream. -/
  | data (bytes : Bytes)
  | again | interrupted | error
  deriving DecidableEq, Repr

/-- `recv` never returns more than it was asked for. -/
def RecvOutcome.clip (len : ℕ) : RecvOutcome → RecvOutcome
  | .data bytes => .data (bytes.take len)
  | o => o

inductive SendOutcome where
  | accepted (n : ℕ)
  | again | interrupted | peerClosed | error
  deriving DecidableEq, Repr

/-- `send` never accepts more than it was offered. -/
def SendOutcome.clip (len : ℕ) : SendOutcome → SendOutcome
  | .accepted n => .accepted (min n len)
  | o => o

inductive PullOutcome where
  /-- `pull` returned these bytes; no bytes is the end of the body. -/
  | data (bytes : Bytes)
  | error
  deriving DecidableEq, Repr

/-- What a handler reads through its `const HttpRequest *`. -/
structure RequestView where
  requestLine : HttpRequestLine := {}
  headers : List Header := []
  body : Bytes := []
  bodyLen : ℕ := 0
  deriving DecidableEq, Repr

inductive Event where
  | recv (o : RecvOutcome)
  | send (offered : Bytes) (o : SendOutcome)
  /-- A response was serialized into `resp_buf`, by `response_error_serialize` or not, and with
  which `keep_alive`; `text` is `none` when that failed. -/
  | staged (byError keepAlive : Bool) (text : Option Bytes)
  /-- The handler of the route with this method and path was called. -/
  | handled (method path : Bytes) (req : RequestView)
  | pulled (ctx : Option StreamCtx) (o : PullOutcome)
  | released (ctx : Option StreamCtx)
  | assertFailed
  /-- One turn of the loop in `connection_step_process`. -/
  | step (pre post : Connection)
  deriving DecidableEq, Repr

structure Io where
  recvs : List RecvOutcome := []
  sends : List SendOutcome := []
  pulls : List PullOutcome := []
  clock : List ℤ := []
  log : List Event := []
  deriving DecidableEq, Repr

def Io.emit (io : Io) (e : Event) : Io := { io with log := io.log ++ [e] }

def Io.assert (io : Io) (b : Bool) : Io := if b then io else io.emit .assertFailed

/-- `time(NULL)`; the reading `-1` is its failure. -/
def Io.time (io : Io) : ℤ × Io :=
  match io.clock with
  | [] => (0, io)
  | t :: rest => (t, { io with clock := rest })

def Io.send (io : Io) (offered : Bytes) : SendOutcome × Io :=
  match io.sends with
  | [] => (.again, io.emit (.send offered .again))
  | o :: rest =>
    let o := o.clip offered.length
    (o, { io with sends := rest }.emit (.send offered o))

def Io.pull (io : Io) (ctx : Option StreamCtx) (cap : ℕ) : PullOutcome × Io :=
  match io.pulls with
  | [] => (.data [], io.emit (.pulled ctx (.data [])))
  | o :: rest =>
    let o := match o with
      | .data bytes => .data (bytes.take cap)
      | .error => .error
    (o, { io with pulls := rest }.emit (.pulled ctx o))

/-! ## Connection.c: `conn_recv_header` -/

def HEADER_END : Bytes := [CR, LF, CR, LF]

/-- The loop of `conn_recv_header`, one `recv` for each turn. Returns with what is left of the
script and the extended log. -/
def connRecvHeaderLoop : List RecvOutcome → HttpBuffer → List Event →
    ReadHeaderResult × HttpBuffer × List RecvOutcome × List Event
  | recvs, req, log =>
    let res : ReadHeaderResult := { status := .hasMore, totalReceived := req.size }
    match memmem req.contents HEADER_END with
    | some terminator => ({ res with status := .ok, bodyStart := terminator + 4 }, req, recvs, log)
    | none =>
      if req.size ≥ req.cap then ({ res with status := .tooLarge }, req, recvs, log)
      else match recvs with
        | [] => (res, req, [], log ++ [.recv .again])
        | o :: rest =>
          let o := o.clip (req.cap - req.size)
          let log := log ++ [.recv o]
          match o with
          | .data [] => ({ res with status := .peerClosed }, req, rest, log)
          | .data got => connRecvHeaderLoop rest (req.append got) log
          | .again => (res, req, rest, log)
          | .interrupted => connRecvHeaderLoop rest req log
          | .error => ({ res with status := .ioError }, req, rest, log)

def connRecvHeader (fd : ℤ) (req : HttpBuffer) (io : Io) : ReadHeaderResult × HttpBuffer × Io :=
  let io := io.assert (req.address.isSome && 0 ≤ fd)
  let (res, req, recvs, log) := connRecvHeaderLoop io.recvs req io.log
  (res, req, { io with recvs := recvs, log := log })

/-! ## HttpBody.c: the two body readers -/

/-- The loop of `conn_recv_body_cl`. -/
def connRecvBodyClLoop (bodyStart bodyLen : ℕ) : List RecvOutcome → HttpBuffer → CLBodySt →
    List Event → ReadBodyResult × HttpBuffer × CLBodySt × List RecvOutcome × List Event
  | recvs, req, st, log =>
    let res : ReadBodyResult := { status := .hasMore }
    if st.received ≥ bodyLen then
      -- an offset of 0 says that nothing follows the body
      let next := if st.received > bodyLen then bodyStart + bodyLen else 0
      ({ status := .ok, nextReqOffset := next }, req, st, recvs, log)
    else if req.size ≥ req.cap then ({ res with status := .tooLarge }, req, st, recvs, log)
    else match recvs with
      | [] => (res, req, st, [], log ++ [.recv .again])
      | o :: rest =>
        let o := o.clip (req.cap - req.size)
        let log := log ++ [.recv o]
        match o with
        | .data [] => ({ res with status := .peerClosed }, req, st, rest, log)
        | .data got =>
          connRecvBodyClLoop bodyStart bodyLen rest (req.append got)
            { received := st.received + got.length } log
        | .again => (res, req, st, rest, log)
        | .interrupted => connRecvBodyClLoop bodyStart bodyLen rest req st log
        | .error => ({ res with status := .ioError }, req, st, rest, log)

def connRecvBodyCl (fd : ℤ) (req : HttpBuffer) (bodyStart bodyLen : ℕ) (st : CLBodySt) (io : Io) :
    ReadBodyResult × HttpBuffer × CLBodySt × Io :=
  let io := io.assert (req.address.isSome && 0 ≤ fd)
  let (res, req, st, recvs, log) := connRecvBodyClLoop bodyStart bodyLen io.recvs req st io.log
  (res, req, st, { io with recvs := recvs, log := log })

/-- The inner loop of `conn_recv_body_chunked`: decode what is buffered. `none` asks for more
bytes. A call that returns `ok` consumes a byte, leaves the data phase or ends the body, so
`fuel` well above the number of buffered bytes is never used up. -/
def chunkDrain (reqBuf : HttpBuffer) (bodyStart : ℕ) : ℕ → HttpBuffer → ChunkedBodySt →
    Option ReadBodyResult × HttpBuffer × ChunkedBodySt
  | 0, dechunked, st => (none, dechunked, st)
  | fuel + 1, dechunked, st =>
    let input := reqBuf.contents.drop (bodyStart + st.consumed)
    let (cr, dec, written) := chunkAdvance st.dec input (dechunked.cap - dechunked.size)
    let st : ChunkedBodySt :=
      { consumed := st.consumed + cr.parseResult.next.getD 0, dec := dec }
    let dechunked := dechunked.append written
    if cr.parseResult.status = .payloadTooLarge then
      (some { status := .tooLarge }, dechunked, st)
    else if cr.parseResult.status ≠ .ok ∧ cr.parseResult.status ≠ .incomplete then
      (some { status := .badData }, dechunked, st)
    else if st.dec.phase = .done then
      (some { status := .ok, nextReqOffset := bodyStart + st.consumed }, dechunked, st)
    else if cr.parseResult.status = .incomplete then (none, dechunked, st)
    else chunkDrain reqBuf bodyStart fuel dechunked st

/-- The buffers and the scratch state that `conn_recv_body_chunked` updates. -/
structure ChunkedRead where
  reqBuf : HttpBuffer
  dechunked : HttpBuffer
  st : ChunkedBodySt := {}
  deriving DecidableEq, Repr

/-- The outer loop of `conn_recv_body_chunked`. -/
def connRecvBodyChunkedLoop (bodyStart : ℕ) : List RecvOutcome → ChunkedRead → List Event →
    ReadBodyResult × ChunkedRead × List RecvOutcome × List Event
  | recvs, r, log =>
    match chunkDrain r.reqBuf bodyStart (r.reqBuf.size + 2) r.dechunked r.st with
    | (some res, dechunked, st) => (res, { r with dechunked := dechunked, st := st }, recvs, log)
    | (none, dechunked, st) =>
      let r := { r with dechunked := dechunked, st := st }
      if r.reqBuf.size ≥ r.reqBuf.cap then ({ status := .tooLarge }, r, recvs, log)
      else match recvs with
        | [] => ({ status := .hasMore }, r, [], log ++ [.recv .again])
        | o :: rest =>
          let o := o.clip (r.reqBuf.cap - r.reqBuf.size)
          let log := log ++ [.recv o]
          match o with
          | .data [] => ({ status := .peerClosed }, r, rest, log)
          | .data got =>
            connRecvBodyChunkedLoop bodyStart rest { r with reqBuf := r.reqBuf.append got } log
          | .again => ({ status := .hasMore }, r, rest, log)
          | .interrupted => connRecvBodyChunkedLoop bodyStart rest r log
          | .error => ({ status := .ioError }, r, rest, log)

def connRecvBodyChunked (fd : ℤ) (bodyStart : ℕ) (r : ChunkedRead) (io : Io) :
    ReadBodyResult × ChunkedRead × Io :=
  let io := io.assert (0 < fd && r.reqBuf.address.isSome && r.dechunked.address.isSome &&
    bodyStart + r.st.consumed ≤ r.reqBuf.size)
  let (res, r, recvs, log) := connRecvBodyChunkedLoop bodyStart io.recvs r io.log
  (res, r, { io with recvs := recvs, log := log })

/-! ## HttpResponse.c: `response_send` -/

def responseSend (fd : ℤ) (resp : HttpBuffer) (st : SendSt) (io : Io) :
    SendResponseStatus × SendSt × Io :=
  let io := io.assert (resp.address.isSome && 0 ≤ fd && st.sent < resp.size)
  match io.send (resp.contents.drop st.sent) with
  | (.accepted n, io) =>
    let st : SendSt := { sent := st.sent + n }
    (if st.sent = resp.size then .ok else .hasMore, st, io)
  | (.again, io) => (.hasMore, st, io)
  | (.interrupted, io) => (.hasMore, st, io)
  | (.peerClosed, io) => (.peerClosed, st, io)
  | (.error, io) => (.error, st, io)

end HttpServer
