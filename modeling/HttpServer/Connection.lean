import HttpServer.Router

/-!
# The connection state machine

`Connection.c`. A step function returns the next phase together with the machine;
`stepPhase` is one turn of the loop in `connection_step_process`, and `serve` is
what `server_run` does with one slot until the connection is closed.
-/

namespace HttpServer

structure Machine (σ : Type*) where
  conn : Connection := {}
  io : Io := {}
  world : World σ

variable {σ : Type*}

def Machine.assert (m : Machine σ) (b : Bool) : Machine σ := { m with io := m.io.assert b }

/-! ## Entering a phase -/

def phaseSendBegin (conn : Connection) : ConnPhase × Connection :=
  (.sendingResponse, { conn with st := .send { sent := 0 } })

def phaseSend100Begin (conn : Connection) : ConnPhase × Connection :=
  (.sending100, { conn with st := .send { sent := 0 } })

def phaseBodyDispatch (conn : Connection) : ConnPhase × Connection :=
  if conn.bodyCoding = .chunked then
    (.readingBodyChunked,
      { conn with
        st := .chunked {}
        mem := { conn.mem with bodyDechunked := { conn.mem.bodyDechunked with size := 0 } } })
  else if conn.bodyLen = 0 then
    (.building,
      { conn with
        reqParsed := { conn.reqParsed with bodyLen := 0, body := none }
        nextReqOffset := conn.bodyStart })
  else
    (.readingBodyCl,
      { conn with st := .cl { received := conn.mem.reqBuf.size - conn.bodyStart } })

/-- The assertion that `phase_body_dispatch` makes before it subtracts. -/
def phaseBodyDispatchAsserts (conn : Connection) : Bool :=
  conn.bodyCoding == .chunked || conn.bodyLen == 0 || conn.bodyStart ≤ conn.mem.reqBuf.size

def Machine.bodyDispatch (m : Machine σ) : ConnPhase × Machine σ :=
  let m := m.assert (phaseBodyDispatchAsserts m.conn)
  let (phase, conn) := phaseBodyDispatch m.conn
  (phase, { m with conn := conn })

/-- `response_error_serialize` into `resp_buf` and `phase_send_begin`. -/
def Machine.errorBegin (m : Machine σ) (s : ParseStatus) : ConnPhase × Machine σ :=
  let (respBuf, io) := responseErrorSerialize m.conn.mem.respBuf s m.io
  let (phase, conn) := phaseSendBegin { m.conn with mem := { m.conn.mem with respBuf := respBuf } }
  (phase, { m with conn := conn, io := io })

/-! ## `step_header_read` -/

/-- The Transfer-Encoding loop: `body_coding` and `te_status` after the headers. -/
def teHeadersScan : List Header → TransferCoding → ParseStatus → TransferCoding × ParseStatus
  | [], coding, status => (coding, status)
  | header :: rest, coding, status =>
    if coding = .unsupported ∨ status ≠ .ok then (coding, status)
    else if !asciiIeq header.key (ascii "transfer-encoding") then teHeadersScan rest coding status
    else
      let (status, coding) := transferEncodingParse header.value
      teHeadersScan rest coding status

def isHttp10 (req : HttpRequest) : Bool := asciiIeq req.requestLine.version (ascii "http/1.0")

/-- `keep_alive` after the negotiation; it is only ever set. -/
def keepAliveNegotiate (conn : Connection) : Bool :=
  match headerFind conn.reqParsed.headers (ascii "connection") with
  | none => true
  | some kaHeader => if asciiIeq (ascii "keep-alive") kaHeader.value then true else conn.keepAlive

/-- Where `step_header_read` goes: an error response, 100 Continue, or the body. -/
inductive HeadVerdict where
  | error (status : ParseStatus)
  | send100
  | dispatch
  deriving DecidableEq, Repr

/-- The end of `step_header_read`, when the framing is settled: HEAD requests with a body and
`Expect`. -/
def headExpect (conn : Connection) (hasContentLength : Bool) : HeadVerdict :=
  let headers := conn.reqParsed.headers
  let hasBody := conn.bodyCoding == .chunked || (hasContentLength && 0 < conn.bodyLen)
  let bodyBuffered := conn.mem.reqBuf.size > conn.bodyStart
  if conn.reqParsed.requestLine.method = .head ∧ hasBody then .error .badRequest
  else if isHttp10 conn.reqParsed then .dispatch
  else match headerFind headers (ascii "expect") with
    | none => .dispatch
    | some expect =>
      if !hasBody || bodyBuffered || !asciiIeq (ascii "100-continue") expect.value then .dispatch
      else .send100

/-- The part of `step_header_read` that settles the body framing. -/
def headFraming (conn : Connection) : HeadVerdict × Connection :=
  let headers := conn.reqParsed.headers
  let (bodyCoding, teStatus) := teHeadersScan headers .none .ok
  let conn := { conn with bodyCoding := bodyCoding }
  if bodyCoding = .unsupported then (.error .notImplemented, conn)
  else if teStatus ≠ .ok then (.error teStatus, conn)
  else if isHttp10 conn.reqParsed ∧ bodyCoding = .chunked then (.error .badRequest, conn)
  else match headerFind headers (ascii "content-length") with
    | none => (headExpect conn false, conn)
    | some ctLenH =>
      if bodyCoding = .chunked then (.error .badRequest, conn)
      else match uintParse ctLenH.value 10 HTTP_MAX_BODY_LEN with
        | (.ok, len) =>
          let conn := { conn with bodyLen := len.getD conn.bodyLen }
          (headExpect conn true, conn)
        | (ps, _) => (.error ps, conn)

/-- `step_header_read` from `request_parse` on, with the `body_start` of the header read. -/
def headAccept (conn : Connection) (bodyStart : ℕ) : HeadVerdict × Connection :=
  let (parseRes, req) := requestParse conn.mem.reqBuf.contents conn.reqParsed
  let conn := { conn with reqParsed := req }
  if parseRes.status ≠ .ok then (.error parseRes.status, conn)
  else
    let conn := { conn with bodyStart := bodyStart }
    if isHttp10 req then headFraming conn
    else if (headerFind req.headers (ascii "host")).isNone then (.error .badRequest, conn)
    else headFraming { conn with keepAlive := keepAliveNegotiate conn }

def stepHeaderRead (m : Machine σ) : ConnPhase × Machine σ :=
  let (headerRes, reqBuf, io) := connRecvHeader m.conn.fd m.conn.mem.reqBuf m.io
  let m := { m with conn.mem.reqBuf := reqBuf, io := io }
  match headerRes.status with
  | .hasMore => (.readingRequest, m)
  | .peerClosed | .ioError => (.closed, m)
  | .tooLarge => m.errorBegin .headerTooLong
  | .ok =>
    let m := m.assert (headerRes.bodyStart ≤ headerRes.totalReceived)
    let (verdict, conn) := headAccept m.conn headerRes.bodyStart
    let m := { m with conn := conn }
    match verdict with
    | .error status => m.errorBegin status
    | .send100 =>
      let (phase, conn) := phaseSend100Begin m.conn
      (phase, { m with conn := conn })
    | .dispatch => m.bodyDispatch

/-! ## `step_send_100` -/

def CONTINUE_100 : Bytes := ascii "HTTP/1.1 100 Continue" ++ CRLF ++ CRLF

def continue100Buf : HttpBuffer :=
  { cap := CONTINUE_100.length, size := CONTINUE_100.length, address := some 0,
    storage := CONTINUE_100 }

def stepSend100 (m : Machine σ) : ConnPhase × Machine σ :=
  let (status, st, io) := responseSend m.conn.fd continue100Buf m.conn.st.getSend m.io
  let m := { m with conn.st := .send st, io := io }
  match status with
  | .hasMore => (.sending100, m)
  | .ok => m.bodyDispatch
  | .peerClosed | .error => (.closed, m)

/-! ## Reading the body -/

def stepBodyClRead (m : Machine σ) : ConnPhase × Machine σ :=
  let (bodyRes, reqBuf, st, io) := connRecvBodyCl m.conn.fd m.conn.mem.reqBuf m.conn.bodyStart
    m.conn.bodyLen m.conn.st.getCl m.io
  let m := { m with conn.mem.reqBuf := reqBuf, conn.st := .cl st, io := io }
  match bodyRes.status with
  | .ok =>
    (.building,
      { m with
        conn.reqParsed.bodyLen := st.received
        conn.reqParsed.body := some (.reqBuf m.conn.bodyStart)
        conn.nextReqOffset := bodyRes.nextReqOffset })
  | .hasMore => (.readingBodyCl, m)
  | _ => m.errorBegin .badRequest

def stepBodyChunkedRead (m : Machine σ) : ConnPhase × Machine σ :=
  let (bodyRes, r, io) := connRecvBodyChunked m.conn.fd m.conn.bodyStart
    { reqBuf := m.conn.mem.reqBuf, dechunked := m.conn.mem.bodyDechunked, st := m.conn.st.getChunked }
    m.io
  let m := { m with
    conn.mem.reqBuf := r.reqBuf
    conn.mem.bodyDechunked := r.dechunked
    conn.st := .chunked r.st
    io := io }
  match bodyRes.status with
  | .ok =>
    (.building,
      { m with
        conn.reqParsed.bodyLen := r.dechunked.size
        conn.reqParsed.body := some .bodyDechunked
        conn.nextReqOffset := bodyRes.nextReqOffset })
  | .hasMore => (.readingBodyChunked, m)
  | .tooLarge => m.errorBegin .payloadTooLarge
  | _ => m.errorBegin .badRequest

/-! ## `step_response_build` -/

def streamRelease (m : Machine σ) : Machine σ :=
  let m := if m.conn.producer.cleanup then
      { m with io := m.io.emit (.released m.conn.producer.ctx) } else m
  { m with conn.producer := {} }

def streamAbort (m : Machine σ) : ConnPhase × Machine σ :=
  let m := streamRelease m
  (.closed, { m with conn.st := .stream { m.conn.st.getStream with phase := .done } })

def requestConsume (conn : Connection) : Connection :=
  let reqBuf := conn.mem.reqBuf
  let reqBuf := if conn.nextReqOffset > 0 then
      let pipelined := reqBuf.size - conn.nextReqOffset
      { reqBuf.store 0 ((reqBuf.storage.drop conn.nextReqOffset).take pipelined) with
        size := pipelined }
    else { reqBuf with size := 0 }
  { conn with mem := { conn.mem with reqBuf := reqBuf }, nextReqOffset := 0 }

/-- The bytes `body[0 .. body_len)`. -/
def Connection.bodyBytes (conn : Connection) : Bytes :=
  match conn.reqParsed.body with
  | none => []
  | some (.reqBuf offset) => (conn.mem.reqBuf.storage.drop offset).take conn.reqParsed.bodyLen
  | some .bodyDechunked => conn.mem.bodyDechunked.storage.take conn.reqParsed.bodyLen

def Connection.requestView (conn : Connection) : RequestView :=
  { requestLine := conn.reqParsed.requestLine
    headers := conn.reqParsed.headers
    body := conn.bodyBytes
    bodyLen := conn.reqParsed.bodyLen }

/-- The part of `step_response_build` that consults the route table. -/
def routeDispatch (router : Router σ) (method : HttpMethod) (m : Machine σ) :
    HttpResponse × Machine σ :=
  let req := m.conn.requestView
  match routeLookup router.routes (httpMethodShow method) req.requestLine.path with
  | (some route, _) =>
    let (res, arena, handlers) := route.handler req route.data m.conn.mem.arena m.world.handlers
    (res,
      { m with
        conn.mem.arena := arena
        world.handlers := handlers
        io := m.io.emit (.handled route.method route.path req) })
  | (none, allowed) =>
    if allowed.length > 0 then (responseError405 allowed ALLOW_STORAGE, m)
    else (responseErrorFromStatus .notFound, m)

/-- `step_response_build` up to the label `build_resp`. -/
def responseDispatch (router : Router σ) (m : Machine σ) : HttpResponse × Machine σ :=
  let req := m.conn.requestView
  let method := if req.requestLine.method = .head then .get else req.requestLine.method
  if method = .get then
    match contentRegistryLookup m.world req.headers req.requestLine.path with
    | (.miss, world) => routeDispatch router method { m with world := world }
    | (.gone, world) => (responseErrorFromStatus .notFound, { m with world := world })
    | (.notModified entry, world) => (responseDynamic304 entry, { m with world := world })
    | (.hit entry, world) =>
      let (res, arena, world) := responseForEntry world req entry m.conn.mem.arena
      (res, { m with conn.mem.arena := arena, world := world })
  else routeDispatch router method m

/-- Serialize into `resp_buf`; the buffer's `size` is not touched. -/
def Machine.serialize (m : Machine σ) (res : HttpResponse) : Out × Machine σ :=
  let (o, io) := responseSerializeNow res m.conn.mem.respBuf.cap m.conn.keepAlive m.io
  (o, { m with conn.mem.respBuf := m.conn.mem.respBuf.store 0 o.mem, io := io })

/-- Log the response that is now in `resp_buf` and set the buffer's `size`. -/
def Machine.staged (m : Machine σ) (o : Out) : Machine σ :=
  { m with
    conn.mem.respBuf.size := (o.result.map List.length).getD SIZE_MAX
    io := m.io.emit (.staged false m.conn.keepAlive o.result) }

/-- The end of `step_response_build`, for a response that is sent from `resp_buf` alone. -/
def buildBuffered (res : HttpResponse) (m : Machine σ) : ConnPhase × Machine σ :=
  let res := if m.conn.reqParsed.requestLine.method = .head then { res with headOnly := true }
    else res
  let (o, m) := m.serialize res
  let (o, m) := if o.failed then m.serialize (responseErrorFromStatus .serverError) else (o, m)
  let m := (m.assert !o.failed).staged o
  let (phase, conn) := phaseSendBegin (requestConsume m.conn)
  (phase, { m with conn := conn })

/-- `step_response_build` from the label `build_resp` on. -/
def responseBuild (res : HttpResponse) (m : Machine σ) : ConnPhase × Machine σ :=
  match res.body with
  | .stream stream =>
    let m := { m with conn.producer := stream }
    let (o, m) := m.serialize res
    if o.failed then buildBuffered (responseErrorFromStatus .serverError) (streamRelease m)
    else
      let m := m.staged o
      (.sendingResponseStream,
        { m with conn := requestConsume { m.conn with st := .stream { phase := .header, send := {} } } })
  | _ => buildBuffered res m

def stepResponseBuild (router : Router σ) (m : Machine σ) : ConnPhase × Machine σ :=
  let (res, m) := responseDispatch router m
  responseBuild res m

/-! ## Sending -/

def connectionReset (conn : Connection) : Connection :=
  { conn with
    st := .send {}
    mem := { conn.mem with
      respBuf := { conn.mem.respBuf with size := 0 }
      arena := arenaResetTo conn.mem.arena conn.mem.reqMark }
    reqParsed := {}
    keepAlive := false
    bodyStart := 0
    bodyLen := 0
    bodyCoding := .none }

/-- The last byte of a response is out: count the request, then close or start over. -/
def responseComplete (conn : Connection) : ConnPhase × Connection :=
  let conn := { conn with requests := conn.requests + 1 }
  if !conn.keepAlive || conn.requests ≥ HTTP_MAX_REQUESTS then (.closed, conn)
  else (.readingRequest, connectionReset conn)

def stepResponseSend (m : Machine σ) : ConnPhase × Machine σ :=
  let (status, st, io) := responseSend m.conn.fd m.conn.mem.respBuf m.conn.st.getSend m.io
  let m := { m with conn.st := .send st, io := io }
  match status with
  | .hasMore =>
    let (phase, conn) := phaseSendBegin m.conn
    (phase, { m with conn := conn })
  | .error | .peerClosed => (.closed, m)
  | .ok =>
    let (phase, conn) := responseComplete m.conn
    (phase, { m with conn := conn })

def streamHandleResponse (st : SendStreamSt) (status : SendResponseStatus) (phase : StreamPhase) :
    StreamStep × SendStreamSt :=
  match status with
  | .error | .peerClosed => (.abort, st)
  | .hasMore => (.yield, st)
  | .ok => (.advance, { phase := phase, send := { sent := 0 } })

/-- The three cases of the `switch` that drain `resp_buf` and then move on to `phase`; `none`
goes round the loop again. -/
def streamSend (phase : StreamPhase) (m : Machine σ) : Option ConnPhase × Machine σ :=
  let stream := m.conn.st.getStream
  let (status, send, io) := responseSend m.conn.fd m.conn.mem.respBuf stream.send m.io
  let (step, stream) := streamHandleResponse { stream with send := send } status phase
  let m := { m with conn.st := .stream stream, io := io }
  match step with
  | .abort => let (phase, m) := streamAbort m; (some phase, m)
  | .yield => (some .sendingResponseStream, m)
  | .advance => (none, m)

/-- Put a frame into `resp_buf` and go on with `phase`; a frame that does not fit aborts. -/
def streamStage (frame : Option Bytes) (phase : StreamPhase) (m : Machine σ) :
    Option ConnPhase × Machine σ :=
  match frame with
  | none => let (phase, m) := streamAbort m; (some phase, m)
  | some frame =>
    (none,
      { m with
        conn.mem.respBuf := { m.conn.mem.respBuf.store 0 frame with size := frame.length }
        conn.st := .stream { phase := phase, send := { sent := 0 } } })

def streamPull (m : Machine σ) : Option ConnPhase × Machine σ :=
  let (pulled, io) := m.io.pull m.conn.producer.ctx HTTP_STREAM_CHUNK_SIZE
  let m := { m with io := io }
  match pulled with
  | .error => let (phase, m) := streamAbort m; (some phase, m)
  | .data [] => streamStage (chunkFrameLast m.conn.mem.respBuf.cap) .trailer m
  | .data payload => streamStage (chunkFrame payload m.conn.mem.respBuf.cap) .drain m

/-- One turn of the loop in `step_response_send_stream`. -/
def streamTurn (m : Machine σ) : Option ConnPhase × Machine σ :=
  match m.conn.st.getStream.phase with
  | .header =>
    streamSend (if m.conn.reqParsed.requestLine.method = .head then .done else .pull) m
  | .pull => streamPull m
  | .drain => streamSend .pull m
  | .trailer => streamSend .done m
  | .done =>
    let m := streamRelease m
    let (phase, conn) := responseComplete m.conn
    (some phase, { m with conn := conn })

/-- Every second turn at least uses up an outcome of `send`, so `fuel` of twice their number and
a few more is enough. -/
def streamLoop : ℕ → Machine σ → ConnPhase × Machine σ
  | 0, m => (.sendingResponseStream, m)
  | fuel + 1, m =>
    match streamTurn m with
    | (some phase, m) => (phase, m)
    | (none, m) => streamLoop fuel m

def stepResponseSendStream (m : Machine σ) : ConnPhase × Machine σ :=
  streamLoop (2 * m.io.sends.length + 4) m

/-! ## `connection_step_process` -/

def stepConn (router : Router σ) (m : Machine σ) : ConnPhase × Machine σ :=
  match m.conn.phase with
  | .readingRequest => stepHeaderRead m
  | .sending100 => stepSend100 m
  | .readingBodyCl => stepBodyClRead m
  | .readingBodyChunked => stepBodyChunkedRead m
  | .building => stepResponseBuild router m
  | .sendingResponse => stepResponseSend m
  | .sendingResponseStream => stepResponseSendStream m
  | .closed => (.closed, m)

/-- One turn of the loop: a step, and the phase it returns. -/
def stepPhase (router : Router σ) (m : Machine σ) : Machine σ :=
  let (phase, m') := stepConn router m
  let m' := { m' with conn.phase := phase }
  { m' with io := m'.io.emit (.step m.conn m'.conn) }

def stepProcessLoop (router : Router σ) : ℕ → Machine σ → Machine σ
  | 0, m => m
  | fuel + 1, m =>
    let m' := stepPhase router m
    if m'.conn.phase ≠ m.conn.phase ∧ m'.conn.phase ≠ .closed then stepProcessLoop router fuel m'
    else m'

/-- A request takes at most seven phases, and each response counts a request. -/
def stepProcessFuel (conn : Connection) : ℕ := 8 * (HTTP_MAX_REQUESTS - conn.requests) + 8

def connectionStepProcess (router : Router σ) (m : Machine σ) : Machine σ :=
  stepProcessLoop router (stepProcessFuel m.conn) m

/-! ## Wake-ups -/

/-- What the calls of one wake-up get to see, and what happened to the world before it. -/
structure Wake (σ : Type*) where
  recvs : List RecvOutcome := []
  sends : List SendOutcome := []
  pulls : List PullOutcome := []
  clock : List ℤ := []
  meanwhile : World σ → World σ := id

def Machine.wake (m : Machine σ) (w : Wake σ) : Machine σ :=
  { m with
    io := { m.io with recvs := w.recvs, sends := w.sends, pulls := w.pulls, clock := w.clock }
    world := w.meanwhile m.world }

/-- The wake-ups of one connection. `server_run` gives the slot free when the connection is
closed, so later ones do not reach it. -/
def serve (router : Router σ) : Machine σ → List (Wake σ) → Machine σ
  | m, [] => m
  | m, w :: wakes =>
    if m.conn.phase = .closed then m
    else serve router (connectionStepProcess router (m.wake w)) wakes

end HttpServer
