import HttpServer.ChunkedReading
import HttpServer.PlainReading
import HttpServer.Serializing
import HttpServer.StreamedSend

/-!
# The turns of a connection

`Turn` says once what one turn of the loop in `connection_step_process` can do to a
connection and which socket calls and staged responses it logs. The step functions
refine it, for every router and whatever the calls answer.
-/

namespace HttpServer

variable {σ : Type*}

/-! ## Staged responses -/

/-- The buffer holds the serialized response, unless that failed. -/
structure HttpBuffer.Staged (resp : HttpBuffer) (keepAlive : Bool) (text : Option Bytes) :
    Prop where
  size : resp.size = (text.map List.length).getD SIZE_MAX
  contents : ∀ t ∈ text, resp.contents = t

/-- The buffer holds a canned error, which says that the connection is closed. -/
structure HttpBuffer.StagedError (resp : HttpBuffer) (text : Option Bytes) : Prop
    extends resp.Staged false text where
  canned : ∀ t ∈ text, ∃ status now, t = responseText (responseErrorFromStatus status) false now

theorem HttpBuffer.stage_staged (resp : HttpBuffer) (res : HttpResponse) (keepAlive : Bool)
    (cap : ℕ) (now : ℤ) :
    (resp.stage (responseSerialize res cap keepAlive now)).Staged keepAlive
      (responseSerialize res cap keepAlive now).result where
  size := rfl
  contents t ht := by
    have hprefix : (responseSerialize res cap keepAlive now).mem.take
        (responseSerialize res cap keepAlive now).offset = t := by
      unfold Out.result at ht
      split at ht
      · cases ht
      · exact Option.some.inj ht
    have hlen := congrArg List.length hprefix
    rw [List.length_take] at hlen
    unfold HttpBuffer.stage
    rw [HttpBuffer.contents, Option.mem_def.mp ht]
    simp only [HttpBuffer.store, List.take_zero, List.nil_append, Option.map_some,
      Option.getD_some]
    rw [List.take_append_of_le_length (by omega), ← hlen, ← List.take_take, List.take_length,
      hprefix]

theorem HttpBuffer.stage_stagedError (resp : HttpBuffer) (status : ParseStatus) (cap : ℕ) (now : ℤ) :
    (resp.stage (responseSerialize (responseErrorFromStatus status) cap false now)).StagedError
      (responseSerialize (responseErrorFromStatus status) cap false now).result where
  toStaged := resp.stage_staged _ false cap now
  canned _ ht := ⟨status, now, (responseSerialize_holds _ cap false now).result ht⟩

/-! ## The relation -/

/-- The calls of `recv` that returned `outs` have made `b` to `b'`. -/
structure HttpBuffer.Read (b : HttpBuffer) (outs : List RecvOutcome) (b' : HttpBuffer) : Prop where
  received : b.Received (outs.flatMap RecvOutcome.bytes) b'
  fits : b.size ≤ b.cap → b'.size ≤ b'.cap

theorem HttpBuffer.Read.of_script {b b' : HttpBuffer} {recvs rest outs : List RecvOutcome}
    (hb : b.Backed) (h : b.Received (outs.flatMap RecvOutcome.bytes) b')
    (hscript : RecvScript (b.cap - b.size) recvs rest outs) : b.Read outs b' where
  received := h
  fits hfits := by
    have hlen := hscript.length_bytes_le
    rw [h.size hb, h.cap]
    omega

/-- A response in `resp_buf` is to be sent from there. -/
def Connection.answering (conn : Connection) (resp : HttpBuffer) : Connection :=
  { conn with mem.respBuf := resp, st := .send {}, phase := .sendingResponse }

@[simp] theorem Connection.answering_phase (conn : Connection) (resp : HttpBuffer) :
    (conn.answering resp).phase = .sendingResponse := rfl

def Connection.dispatched (conn : Connection) : Connection :=
  { (phaseBodyDispatch conn).2 with phase := (phaseBodyDispatch conn).1 }

def Connection.completed (conn : Connection) : Connection :=
  { (responseComplete conn).2 with phase := (responseComplete conn).1 }

/-- What `conn_recv_body_chunked` works on. -/
def Connection.chunkedRead (conn : Connection) : ChunkedRead :=
  { reqBuf := conn.mem.reqBuf, dechunked := conn.mem.bodyDechunked, st := conn.st.getChunked }

def Connection.withChunked (conn : Connection) (r : ChunkedRead) : Connection :=
  { conn with mem.reqBuf := r.reqBuf, mem.bodyDechunked := r.dechunked, st := .chunked r.st }

/-- What changes of a connection until a response is staged. -/
def Connection.prepared (conn : Connection) (arena : Arena) (resp : HttpBuffer)
    (producer : Stream) : Connection :=
  { conn with mem.arena := arena, mem.respBuf := resp, producer := producer }

/-- The buffered bytes up to the body, and from there on. -/
def Connection.headBytes (conn : Connection) : Bytes := conn.mem.reqBuf.contents.take conn.bodyStart

def Connection.restBytes (conn : Connection) : Bytes := conn.mem.reqBuf.contents.drop conn.bodyStart

/-- `conn_recv_body_chunked` has been called once and `recv` has answered `outs`. -/
structure Connection.ReadsChunked (conn : Connection) (outs : List RecvOutcome) (r : ChunkedRead)
    (res : ReadBodyResult) : Prop where
  read : conn.mem.reqBuf.Read outs r.reqBuf
  post : ChunkedReadPost conn.headBytes conn.restBytes (outs.flatMap RecvOutcome.bytes)
    conn.chunkedRead r res

/-- One turn of the loop in `connection_step_process`: from a connection, over the calls of `recv`
and `send` and the staged response, to the next. -/
inductive Turn : Connection → List Event → Connection → Prop where
  | headWaits {conn outs buf} (hphase : conn.phase = .readingRequest)
      (hread : conn.mem.reqBuf.Read outs buf) (hnone : memmem buf.contents HEADER_END = none)
      (hlast : outs.getLast? = some .again) :
      Turn conn (outs.map .recv) { conn with mem.reqBuf := buf, phase := .readingRequest }
  | headCloses {conn outs buf} (hphase : conn.phase = .readingRequest)
      (hread : conn.mem.reqBuf.Read outs buf) (hnone : memmem buf.contents HEADER_END = none) :
      Turn conn (outs.map .recv) { conn with mem.reqBuf := buf, phase := .closed }
  | headTooLong {conn outs buf resp text} (hphase : conn.phase = .readingRequest)
      (hread : conn.mem.reqBuf.Read outs buf) (hnone : memmem buf.contents HEADER_END = none)
      (hfull : buf.cap ≤ buf.size) (hstaged : resp.StagedError text) :
      Turn conn (outs.map .recv ++ [.staged true false text])
        ({ conn with mem.reqBuf := buf }.answering resp)
  | headRejected {conn outs buf terminator status read resp text}
      (hphase : conn.phase = .readingRequest) (hread : conn.mem.reqBuf.Read outs buf)
      (hfind : memmem buf.contents HEADER_END = some terminator)
      (haccept : headAccept { conn with mem.reqBuf := buf } (terminator + 4) =
        (.error status, read)) (hstaged : resp.StagedError text) :
      Turn conn (outs.map .recv ++ [.staged true false text]) (read.answering resp)
  | headContinue {conn outs buf terminator read} (hphase : conn.phase = .readingRequest)
      (hread : conn.mem.reqBuf.Read outs buf)
      (hfind : memmem buf.contents HEADER_END = some terminator)
      (haccept : headAccept { conn with mem.reqBuf := buf } (terminator + 4) = (.send100, read)) :
      Turn conn (outs.map .recv) { read with st := .send {}, phase := .sending100 }
  | headAccepted {conn outs buf terminator read} (hphase : conn.phase = .readingRequest)
      (hread : conn.mem.reqBuf.Read outs buf)
      (hfind : memmem buf.contents HEADER_END = some terminator)
      (haccept : headAccept { conn with mem.reqBuf := buf } (terminator + 4) = (.dispatch, read)) :
      Turn conn (outs.map .recv) read.dispatched
  | continueWaits {conn o} (hphase : conn.phase = .sending100)
      (hclip : o.clip (continue100Buf.contents.drop conn.st.getSend.sent).length = o)
      (hstatus : o.status continue100Buf.size conn.st.getSend.sent = .hasMore) :
      Turn conn [.send (continue100Buf.contents.drop conn.st.getSend.sent) o]
        { conn with st := .send (conn.st.getSend.advance o), phase := .sending100 }
  | continueSent {conn o} (hphase : conn.phase = .sending100)
      (hclip : o.clip (continue100Buf.contents.drop conn.st.getSend.sent).length = o)
      (hstatus : o.status continue100Buf.size conn.st.getSend.sent = .ok) :
      Turn conn [.send (continue100Buf.contents.drop conn.st.getSend.sent) o]
        ({ conn with st := .send (conn.st.getSend.advance o) }.dispatched)
  | continueCloses {conn o} (hphase : conn.phase = .sending100) :
      Turn conn [.send (continue100Buf.contents.drop conn.st.getSend.sent) o]
        { conn with st := .send (conn.st.getSend.advance o), phase := .closed }
  | lengthWaits {conn outs buf st} (hphase : conn.phase = .readingBodyCl)
      (hread : conn.mem.reqBuf.Read outs buf)
      (hcount : st.received + conn.mem.reqBuf.size = conn.st.getCl.received + buf.size)
      (hless : st.received < conn.bodyLen) (hlast : outs.getLast? = some .again) :
      Turn conn (outs.map .recv)
        { conn with mem.reqBuf := buf, st := .cl st, phase := .readingBodyCl }
  | lengthDone {conn outs buf st next} (hphase : conn.phase = .readingBodyCl)
      (hread : conn.mem.reqBuf.Read outs buf)
      (hcount : st.received + conn.mem.reqBuf.size = conn.st.getCl.received + buf.size)
      (hall : conn.bodyLen ≤ st.received)
      (hnext : next = if conn.bodyLen < st.received then conn.bodyStart + conn.bodyLen else 0) :
      Turn conn (outs.map .recv)
        { conn with
          mem.reqBuf := buf
          st := .cl st
          reqParsed.bodyLen := st.received
          reqParsed.body := some (.reqBuf conn.bodyStart)
          nextReqOffset := next
          phase := .building }
  | lengthFails {conn outs buf st resp text} (hphase : conn.phase = .readingBodyCl)
      (hread : conn.mem.reqBuf.Read outs buf)
      (hcount : st.received + conn.mem.reqBuf.size = conn.st.getCl.received + buf.size)
      (hless : st.received < conn.bodyLen)
      (hcause : buf.cap ≤ buf.size ∨ outs.getLast? = some (.data []) ∨
        outs.getLast? = some .error) (hstaged : resp.StagedError text) :
      Turn conn (outs.map .recv ++ [.staged true false text])
        ({ conn with mem.reqBuf := buf, st := .cl st }.answering resp)
  | chunkedWaits {conn outs r res} (hphase : conn.phase = .readingBodyChunked)
      (hread : conn.ReadsChunked outs r res) (hstatus : res.status = .hasMore)
      (hlast : outs.getLast? = some .again) :
      Turn conn (outs.map .recv) { conn.withChunked r with phase := .readingBodyChunked }
  | chunkedDone {conn outs r res} (hphase : conn.phase = .readingBodyChunked)
      (hread : conn.ReadsChunked outs r res) (hstatus : res.status = .ok) :
      Turn conn (outs.map .recv)
        { conn.withChunked r with
          reqParsed.bodyLen := r.dechunked.size
          reqParsed.body := some .bodyDechunked
          nextReqOffset := res.nextReqOffset
          phase := .building }
  | chunkedFails {conn outs r res resp text} (hphase : conn.phase = .readingBodyChunked)
      (hread : conn.ReadsChunked outs r res) (hok : res.status ≠ .ok)
      (hmore : res.status ≠ .hasMore) (hlast : ∀ out ∈ res.status.lastRecv,
        outs.getLast? = some out) (hstaged : resp.StagedError text) :
      Turn conn (outs.map .recv ++ [.staged true false text])
        ((conn.withChunked r).answering resp)
  | builtBuffered {conn arena resp producer text} (hphase : conn.phase = .building)
      (hstaged : resp.Staged conn.keepAlive text) :
      Turn conn [.staged false conn.keepAlive text]
        ((requestConsume (conn.prepared arena resp producer)).answering resp)
  | builtStream {conn arena resp producer text} (hphase : conn.phase = .building)
      (hstaged : resp.Staged conn.keepAlive text) :
      Turn conn [.staged false conn.keepAlive text]
        { requestConsume (conn.prepared arena resp producer) with
          st := .stream {}
          phase := .sendingResponseStream }
  | sendWaits {conn o} (hphase : conn.phase = .sendingResponse)
      (hclip : o.clip (conn.mem.respBuf.contents.drop conn.st.getSend.sent).length = o)
      (hstatus : o.status conn.mem.respBuf.size conn.st.getSend.sent = .hasMore) :
      Turn conn [.send (conn.mem.respBuf.contents.drop conn.st.getSend.sent) o]
        { conn with st := .send {}, phase := .sendingResponse }
  | sendDone {conn o} (hphase : conn.phase = .sendingResponse)
      (hclip : o.clip (conn.mem.respBuf.contents.drop conn.st.getSend.sent).length = o)
      (hstatus : o.status conn.mem.respBuf.size conn.st.getSend.sent = .ok) :
      Turn conn [.send (conn.mem.respBuf.contents.drop conn.st.getSend.sent) o]
        ({ conn with st := .send (conn.st.getSend.advance o) }.completed)
  | sendCloses {conn o} (hphase : conn.phase = .sendingResponse) :
      Turn conn [.send (conn.mem.respBuf.contents.drop conn.st.getSend.sent) o]
        { conn with st := .send (conn.st.getSend.advance o), phase := .closed }
  | streamTurns {conn evs phase post} (hphase : conn.phase = .sendingResponseStream)
      (hsends : ∀ e ∈ evs, e.IsSend) (hend : StreamEnd conn evs phase post) :
      Turn conn evs { post with phase := phase }

/-! ## Steps refine turns -/

@[simp] theorem Machine.assert_true (m : Machine σ) : m.assert true = m := rfl

/-- A step that returns `r` makes a turn. -/
def Machine.TurnsTo (m : Machine σ) (r : ConnPhase × Machine σ) : Prop :=
  ∃ evs, Turn m.conn evs { r.2.conn with phase := r.1 } ∧
    visible r.2.io.log = visible m.io.log ++ evs

theorem responseSerializeNow_spec (res : HttpResponse) (cap : ℕ) (keepAlive : Bool) (io : Io) :
    ∃ now, (responseSerializeNow res cap keepAlive io).1 =
        responseSerialize res cap keepAlive now ∧
      (responseSerializeNow res cap keepAlive io).2.log = io.log := by
  unfold responseSerializeNow
  split
  · exact ⟨_, rfl, visible_time io⟩
  · exact ⟨0, rfl, rfl⟩

/-- `response_error_serialize` stages the response and sends from its beginning. -/
theorem Machine.errorBegin_spec (m : Machine σ) (status : ParseStatus) :
    ∃ resp text, resp.StagedError text ∧
      { (m.errorBegin status).2.conn with phase := (m.errorBegin status).1 } =
        m.conn.answering resp ∧
      (m.errorBegin status).2.io.log = m.io.log ++ [.staged true false text] := by
  obtain ⟨now, hout, hsame⟩ := responseSerializeNow_spec (responseErrorFromStatus status)
    m.conn.mem.respBuf.cap false m.io
  have hstaged := m.conn.mem.respBuf.stage_stagedError status m.conn.mem.respBuf.cap now
  rw [← hout] at hstaged
  refine ⟨_, _, hstaged, rfl, ?_⟩
  rw [← hsame]
  rfl

/-- A step that ends by staging an error response. -/
theorem Machine.TurnsTo.error {m : Machine σ} (m₁ : Machine σ) {evs : List Event}
    (status : ParseStatus)
    (hlog : visible m₁.io.log = visible m.io.log ++ evs)
    (hturn : ∀ resp text, resp.StagedError text →
      Turn m.conn (evs ++ [.staged true false text]) (m₁.conn.answering resp)) :
    m.TurnsTo (m₁.errorBegin status) := by
  obtain ⟨resp, text, hstaged, hconn, hsame⟩ := m₁.errorBegin_spec status
  refine ⟨_, hconn ▸ hturn resp text hstaged, ?_⟩
  rw [hsame, visible_append, hlog, List.append_assoc, visible_staged]

/-- A step that ends with the body dispatch. -/
theorem Machine.TurnsTo.dispatch {m : Machine σ} (m₁ : Machine σ) {evs : List Event}
    (hlog : visible m₁.io.log = visible m.io.log ++ evs)
    (hturn : Turn m.conn evs m₁.conn.dispatched) : m.TurnsTo m₁.bodyDispatch :=
  ⟨evs, hturn, (visible_assert m₁.io _).trans hlog⟩

/-- What `conn_recv_header` has done to the machine when it returns. -/
theorem connRecvHeader_spec (fd : ℤ) {b : HttpBuffer} (io : Io) (hb : b.Backed) :
    ∃ outs, b.Read outs (connRecvHeader fd b io).2.1 ∧
      visible (connRecvHeader fd b io).2.2.log = visible io.log ++ outs.map .recv ∧
      HeaderEnd (connRecvHeader fd b io).1 (connRecvHeader fd b io).2.1 ∧
      ∀ out ∈ (connRecvHeader fd b io).1.status.lastRecv, outs.getLast? = some out := by
  simp only [connRecvHeader]
  generalize hio : io.assert (b.address.isSome && decide (0 ≤ fd)) = io₁
  have hlog₁ : visible io₁.log = visible io.log := hio ▸ visible_assert io _
  have hspec := connRecvHeaderLoop_spec io₁.recvs io₁.log hb
  generalize connRecvHeaderLoop io₁.recvs b io₁.log = result at hspec ⊢
  obtain ⟨res, b', rest, log'⟩ := result
  obtain ⟨⟨outs, hlog, hscript, hreceived, hlast⟩, hend⟩ := hspec
  refine ⟨outs, .of_script hb hreceived hscript, ?_, hend, hlast⟩
  dsimp only
  rw [hlog, visible_append, visible_map_recv, hlog₁]

theorem stepHeaderRead_turnsTo {m : Machine σ} (hphase : m.conn.phase = .readingRequest)
    (hb : m.conn.mem.reqBuf.Backed) : m.TurnsTo (stepHeaderRead m) := by
  obtain ⟨outs, hread, hlog, hend, hlast⟩ := connRecvHeader_spec m.conn.fd m.io hb
  unfold stepHeaderRead
  generalize connRecvHeader m.conn.fd m.conn.mem.reqBuf m.io = result at hread hlog hend hlast ⊢
  obtain ⟨⟨status, total, bodyStart⟩, buf, io⟩ := result
  dsimp only at hread hlog hend hlast ⊢
  cases status with
  | hasMore => exact ⟨_, .headWaits hphase hread hend.1 (hlast _ rfl), hlog⟩
  | peerClosed => exact ⟨_, .headCloses hphase hread hend.1, hlog⟩
  | ioError => exact ⟨_, .headCloses hphase hread hend.1, hlog⟩
  | tooLarge =>
    exact .error _ .headerTooLong hlog fun resp text hstaged =>
      .headTooLong hphase hread hend.1 hend.2 hstaged
  | ok =>
    obtain ⟨terminator, hfind, rfl⟩ := hend
    dsimp only
    generalize hasserted : Machine.assert { m with conn.mem.reqBuf := buf, io := io }
      (decide (terminator + 4 ≤ total)) = m₁
    have hconn₁ : m₁.conn = { m.conn with mem.reqBuf := buf } := by rw [← hasserted]; rfl
    have hlog₁ : visible m₁.io.log = visible m.io.log ++ outs.map .recv := by
      rw [← hasserted, ← hlog]
      exact visible_assert io _
    rw [hconn₁]
    generalize haccept : headAccept { m.conn with mem.reqBuf := buf } (terminator + 4) = accepted
    obtain ⟨verdict, read⟩ := accepted
    cases verdict with
    | error status =>
      exact .error { m₁ with conn := read } status hlog₁ fun resp text hstaged =>
        .headRejected hphase hread hfind haccept hstaged
    | send100 =>
      have hturn := Turn.headContinue hphase hread hfind haccept
      exact ⟨_, hturn, hlog₁⟩
    | dispatch =>
      exact .dispatch { m₁ with conn := read } hlog₁ (.headAccepted hphase hread hfind haccept)

/-- Staging an error response calls neither `recv` nor `send`. -/
theorem Machine.errorBegin_sends (m : Machine σ) (status : ParseStatus) :
    (m.errorBegin status).2.io.sends = m.io.sends := by
  have htime : m.io.time.2.sends = m.io.sends := by
    unfold Io.time
    split <;> rfl
  simp only [errorBegin, responseErrorSerialize, responseSerializeNow, Io.emit]
  split
  · exact htime
  · rfl

/-- A head that is answered with an error. -/
theorem stepConn_rejected (router : Router σ) {m : Machine σ} {total bodyStart : ℕ}
    {buf : HttpBuffer} {io : Io} {status : ParseStatus} {read : Connection} (hphase : m.conn.phase = .readingRequest)
    (hrecv : connRecvHeader m.conn.fd m.conn.mem.reqBuf m.io =
      (⟨.ok, total, bodyStart⟩, buf, io)) (hstart : bodyStart ≤ total)
    (haccept : headAccept { m.conn with mem.reqBuf := buf } bodyStart = (.error status, read)) :
    stepConn router m = Machine.errorBegin { m with conn := read, io := io } status := by
  have hstep : stepConn router m = stepHeaderRead m := by simp only [stepConn, hphase]
  rw [hstep, stepHeaderRead, hrecv]
  dsimp only
  rw [decide_eq_true hstart, Machine.assert_true]
  dsimp only
  rw [haccept]

theorem stepSend100_turnsTo {m : Machine σ} (hphase : m.conn.phase = .sending100) :
    m.TurnsTo (stepSend100 m) := by
  simp only [stepSend100, responseSend_eq]
  have hclip := m.io.nextSend_clip
    (continue100Buf.contents.drop m.conn.st.getSend.sent).length
  generalize m.io.nextSend _ = o at hclip ⊢
  have hlog : visible ((m.io.sendAsserted m.conn.fd continue100Buf m.conn.st.getSend).log ++
      [.send (continue100Buf.contents.drop m.conn.st.getSend.sent) o]) =
      visible m.io.log ++ [.send (continue100Buf.contents.drop m.conn.st.getSend.sent) o] := by
    rw [visible_append, Io.sendAsserted, visible_assert, visible_send]
  cases hst : o.status continue100Buf.size m.conn.st.getSend.sent with
  | hasMore => exact ⟨_, .continueWaits hphase hclip hst, hlog⟩
  | ok => exact .dispatch _ hlog (.continueSent hphase hclip hst)
  | peerClosed => exact ⟨_, .continueCloses hphase, hlog⟩
  | error => exact ⟨_, .continueCloses hphase, hlog⟩

theorem stepBodyClRead_turnsTo {m : Machine σ} (hphase : m.conn.phase = .readingBodyCl)
    (hb : m.conn.mem.reqBuf.Backed) : m.TurnsTo (stepBodyClRead m) := by
  simp only [stepBodyClRead, connRecvBodyCl]
  generalize hio : m.io.assert _ = io₁
  have hlog₁ : visible io₁.log = visible m.io.log := hio ▸ visible_assert m.io _
  have hspec := connRecvBodyClLoop_spec m.conn.bodyStart m.conn.bodyLen io₁.recvs
    m.conn.st.getCl io₁.log hb
  generalize connRecvBodyClLoop m.conn.bodyStart m.conn.bodyLen io₁.recvs m.conn.mem.reqBuf
    m.conn.st.getCl io₁.log = result at hspec ⊢
  obtain ⟨⟨status, next⟩, buf, st, rest, log'⟩ := result
  obtain ⟨⟨outs, hlog, hscript, hreceived, hlast⟩, hcount, hend⟩ := hspec
  have hread := HttpBuffer.Read.of_script hb hreceived hscript
  have hlog' : visible log' = visible m.io.log ++ outs.map .recv := by
    rw [hlog, visible_append, visible_map_recv, hlog₁]
  have hfails := fun hless hcause => Machine.TurnsTo.error (m := m)
    { m with
      conn.mem.reqBuf := buf
      conn.st := .cl st
      io := { io₁ with recvs := rest, log := log' } } .badRequest hlog'
    fun resp text hstaged => .lengthFails hphase hread hcount hless hcause hstaged
  cases status with
  | ok => exact ⟨_, .lengthDone hphase hread hcount hend.1 hend.2, hlog'⟩
  | hasMore => exact ⟨_, .lengthWaits hphase hread hcount hend.1 (hlast _ rfl), hlog'⟩
  | tooLarge => exact hfails hend.1 (.inl hend.2)
  | peerClosed => exact hfails hend (.inr (.inl (hlast _ rfl)))
  | ioError => exact hfails hend (.inr (.inr (hlast _ rfl)))
  | badData => exact hend.elim

/-- The chunked reader stands behind the head, at the body bytes received so far. -/
def Connection.ChunkedReady (conn : Connection) : Prop :=
  conn.bodyStart ≤ conn.mem.reqBuf.contents.length ∧
    ChunkedReading conn.headBytes conn.restBytes conn.chunkedRead

theorem stepBodyChunkedRead_turnsTo {m : Machine σ} (hphase : m.conn.phase = .readingBodyChunked)
    (hready : m.conn.ChunkedReady) : m.TurnsTo (stepBodyChunkedRead m) := by
  obtain ⟨hstart, hreading⟩ := hready
  have hhead : m.conn.headBytes.length = m.conn.bodyStart := by
    rw [Connection.headBytes, List.length_take, Nat.min_eq_left hstart]
  simp only [stepBodyChunkedRead, connRecvBodyChunked]
  generalize hio : m.io.assert _ = io₁
  have hlog₁ : visible io₁.log = visible m.io.log := hio ▸ visible_assert m.io _
  have hspec := connRecvBodyChunkedLoop_spec io₁.recvs io₁.log hreading
  rw [hhead] at hspec
  simp only [Connection.chunkedRead] at hspec
  generalize connRecvBodyChunkedLoop m.conn.bodyStart io₁.recvs _ io₁.log = result at hspec ⊢
  obtain ⟨⟨status, next⟩, r, rest, log'⟩ := result
  obtain ⟨outs, hlog, hscript, hpost, hlast⟩ := hspec
  have hreceived : m.conn.mem.reqBuf.Received (outs.flatMap RecvOutcome.bytes) r.reqBuf :=
    { backed := hpost.backed
      contents := by
        rw [hpost.contents, ← List.append_assoc, ← hreading.contents]
        rfl
      cap := hpost.cap
      address := hpost.address }
  have hread : m.conn.ReadsChunked outs r ⟨status, next⟩ :=
    ⟨.of_script hreading.backed hreceived hscript, hpost⟩
  have hlog' : visible log' = visible m.io.log ++ outs.map .recv := by
    rw [hlog, visible_append, visible_map_recv, hlog₁]
  have hfails : ∀ status', status ≠ .ok → status ≠ .hasMore → m.TurnsTo (Machine.errorBegin
      { m with conn := m.conn.withChunked r, io := { io₁ with recvs := rest, log := log' } }
      status') :=
    fun status' hok hmore => .error _ status' hlog' fun resp text hstaged =>
      .chunkedFails hphase hread hok hmore hlast hstaged
  cases status with
  | ok => exact ⟨_, .chunkedDone hphase hread rfl, hlog'⟩
  | hasMore => exact ⟨_, .chunkedWaits hphase hread rfl (hlast _ rfl), hlog'⟩
  | tooLarge => exact hfails _ (by simp) (by simp)
  | peerClosed => exact hfails _ (by simp) (by simp)
  | ioError => exact hfails _ (by simp) (by simp)
  | badData => exact hfails _ (by simp) (by simp)

/-- What happens before a response is staged; nothing is called. -/
def Machine.Prepared (m m₁ : Machine σ) : Prop :=
  ∃ arena resp producer, m₁.conn = m.conn.prepared arena resp producer ∧
    visible m₁.io.log = visible m.io.log

/-- What choosing a response makes of the scratch arena. -/
inductive Router.Scratches (router : Router σ) (scratch : Arena) : Arena → Prop where
  | none : Scratches router scratch scratch
  | file : Scratches router scratch (arenaAlloc scratch FILE_CTX_SIZE FILE_CTX_SIZE).2
  | handler {route : Route σ} (hmem : route ∈ router.routes) (req : RequestView) (handlers : σ) :
      Scratches router scratch (route.handler req route.data scratch handlers).2.1

theorem routeLookup_mem {routes : List (Route σ)} {method path : Bytes} {route : Route σ}
    {allowed : List Bytes} (h : routeLookup routes method path = (some route, allowed)) :
    route ∈ routes := by
  have hloop : ∀ allowed', routeLookupLoop method path routes allowed' = (some route, allowed) →
      route ∈ routes := by
    clear h
    induction routes with
    | nil => intro allowed' h; cases h
    | cons first rest ih =>
      intro allowed' h
      unfold routeLookupLoop at h
      split at h
      · exact List.mem_cons_of_mem _ (ih allowed' h)
      · split at h
        · obtain rfl := Option.some.inj (Prod.mk.inj h).1
          exact List.mem_cons_self ..
        · split at h <;> exact List.mem_cons_of_mem _ (ih _ h)
  exact hloop [] h

/-- Choosing a response may call a handler, and touches the scratch arena and the world. -/
def Machine.Dispatched (router : Router σ) (m m' : Machine σ) : Prop :=
  ∃ scratch world evs, router.Scratches m.conn.mem.arena scratch ∧
    (∀ e ∈ evs, ∃ method path req, e = Event.handled method path req) ∧
    m' = { m with
      conn.mem.arena := scratch
      world := world
      io.log := m.io.log ++ evs }

theorem Machine.Dispatched.quiet (router : Router σ) (m : Machine σ) {scratch : Arena}
    (hscratch : router.Scratches m.conn.mem.arena scratch) (world : World σ) :
    m.Dispatched router { m with conn.mem.arena := scratch, world := world } :=
  ⟨scratch, world, [], hscratch, by simp, by rw [List.append_nil]⟩

theorem routeDispatch_dispatched (router : Router σ) (method : HttpMethod) (m : Machine σ)
    (world : World σ) :
    m.Dispatched router (routeDispatch router method { m with world := world }).2 := by
  unfold routeDispatch
  dsimp only
  split
  · next hroute =>
    exact ⟨_, _, _, .handler (routeLookup_mem hroute) _ _, by simp, rfl⟩
  · split <;> exact .quiet router m .none world

theorem fileStreamOpen_scratches (router : Router σ) (w : World σ) (fsPath : Bytes)
    (scratch : Arena) : router.Scratches scratch (fileStreamOpen w fsPath scratch).2.1 := by
  unfold fileStreamOpen
  split
  · exact .none
  · have hfile : router.Scratches scratch (arenaAlloc scratch FILE_CTX_SIZE FILE_CTX_SIZE).2 :=
      .file
    split <;> next halloc => rwa [halloc] at hfile

theorem responseForEntry_scratches (router : Router σ) (w : World σ) (req : RequestView)
    (entry : ContentEntry) (scratch : Arena) :
    router.Scratches scratch (responseForEntry w req entry scratch).2.1 := by
  have streamed : router.Scratches scratch (responseStreamed w entry scratch).2.1 := by
    have hopen := fileStreamOpen_scratches router w ((entry.reval.map RevalMeta.fsPath).getD [])
      scratch
    unfold responseStreamed
    dsimp only
    split <;> exact hopen
  unfold responseForEntry
  cases entry.mode with
  | staticResident => exact .none
  | dynResident => exact .none
  | staticStreamed => exact streamed
  | dynStreamed => exact streamed

theorem responseDispatch_dispatched (router : Router σ) (m : Machine σ) :
    m.Dispatched router (responseDispatch router m).2 := by
  unfold responseDispatch
  dsimp only
  generalize (if m.conn.requestView.requestLine.method = .head then HttpMethod.get
    else m.conn.requestView.requestLine.method) = method
  split
  · generalize contentRegistryLookup m.world m.conn.requestView.headers
      m.conn.requestView.requestLine.path = found
    obtain ⟨result, world⟩ := found
    cases result with
    | miss => exact routeDispatch_dispatched router method m world
    | gone => exact .quiet router m .none world
    | notModified entry => exact .quiet router m .none world
    | hit entry => exact .quiet router m (responseForEntry_scratches router world _ entry _) _
  · exact routeDispatch_dispatched router method m m.world

theorem visible_handled {evs : List Event}
    (h : ∀ e ∈ evs, ∃ method path req, e = Event.handled method path req) : visible evs = [] := by
  refine List.filter_eq_nil_iff.mpr fun e he => ?_
  obtain ⟨method, path, req, rfl⟩ := h e he
  simp [Event.visible]

theorem responseDispatch_prepared (router : Router σ) (m : Machine σ) :
    m.Prepared (responseDispatch router m).2 := by
  obtain ⟨scratch, world, evs, -, hhandled, heq⟩ := responseDispatch_dispatched router m
  rw [heq]
  refine ⟨scratch, m.conn.mem.respBuf, m.conn.producer, rfl, ?_⟩
  dsimp only
  rw [visible_append, visible_handled hhandled, List.append_nil]

theorem Machine.serialize_spec (m : Machine σ) (res : HttpResponse) :
    ∃ now, (m.serialize res).1 =
        responseSerialize res m.conn.mem.respBuf.cap m.conn.keepAlive now ∧
      (m.serialize res).2.conn =
        { m.conn with mem.respBuf := m.conn.mem.respBuf.store 0 (m.serialize res).1.mem } ∧
      (m.serialize res).2.io.log = m.io.log := by
  obtain ⟨now, hout, hlog⟩ := responseSerializeNow_spec res m.conn.mem.respBuf.cap
    m.conn.keepAlive m.io
  exact ⟨now, hout, rfl, hlog⟩

theorem Machine.Prepared.serialize {m m₁ : Machine σ} (h : m.Prepared m₁) (res : HttpResponse) :
    m.Prepared (m₁.serialize res).2 := by
  obtain ⟨arena, resp, producer, hconn, hlog⟩ := h
  obtain ⟨now, -, hserialized, hsame⟩ := m₁.serialize_spec res
  refine ⟨arena, m₁.conn.mem.respBuf.store 0 (m₁.serialize res).1.mem, producer, ?_,
    by rw [hsame, hlog]⟩
  rw [hserialized, hconn]
  rfl

/-- A response that has just been serialized is staged, with an assertion before it. -/
theorem Machine.Prepared.staged {m m₁ : Machine σ} (h : m.Prepared m₁) (res : HttpResponse)
    (b : Bool) :
    ∃ arena resp producer text, resp.Staged m.conn.keepAlive text ∧
      (∀ t ∈ text, ∃ now, t = responseText res m.conn.keepAlive now) ∧
      (((m₁.serialize res).2.assert b).staged (m₁.serialize res).1).conn =
        m.conn.prepared arena resp producer ∧
      visible (((m₁.serialize res).2.assert b).staged (m₁.serialize res).1).io.log =
        visible m.io.log ++ [.staged false m.conn.keepAlive text] := by
  obtain ⟨arena, resp, producer, hconn, hlog⟩ := h
  obtain ⟨now, hout, hserialized, hsame⟩ := m₁.serialize_spec res
  have hkeep : m₁.conn.keepAlive = m.conn.keepAlive := by rw [hconn]; rfl
  have hstaged := m₁.conn.mem.respBuf.stage_staged res m₁.conn.keepAlive
    m₁.conn.mem.respBuf.cap now
  have htext : ∀ t ∈ (m₁.serialize res).1.result,
      ∃ now, t = responseText res m.conn.keepAlive now := by
    intro t ht
    rw [hout, hkeep] at ht
    exact ⟨now, (responseSerialize_holds _ _ _ _).result ht⟩
  rw [← hout, hkeep] at hstaged
  refine ⟨arena, _, producer, _, hstaged, htext, ?_, ?_⟩
  · simp only [Machine.staged, Machine.assert, hserialized]
    rw [hconn]
    rfl
  · have hkeep' : (m₁.serialize res).2.conn.keepAlive = m.conn.keepAlive := by
      rw [hserialized, ← hkeep]
    simp only [Machine.staged, Machine.assert, Io.emit, hkeep', visible_append, visible_assert,
      visible_staged, hsame, hlog]

theorem Machine.Prepared.release {m m₁ : Machine σ} (h : m.Prepared m₁) :
    m.Prepared (streamRelease m₁) := by
  obtain ⟨arena, resp, producer, hconn, hlog⟩ := h
  have hrelease := (streamRelease_streamed m₁).log
  rw [List.append_nil] at hrelease
  refine ⟨arena, resp, {}, ?_, hrelease.trans hlog⟩
  unfold streamRelease
  split <;> simp only [hconn] <;> rfl

theorem buildBuffered_turnsTo {m m₁ : Machine σ} (hphase : m.conn.phase = .building)
    (h : m.Prepared m₁) (res : HttpResponse) : m.TurnsTo (buildBuffered res m₁) := by
  have staged : ∀ (m₂ : Machine σ) res b, m.Prepared m₂ → m.TurnsTo
      ((phaseSendBegin (requestConsume
        (((m₂.serialize res).2.assert b).staged (m₂.serialize res).1).conn)).1,
      { ((m₂.serialize res).2.assert b).staged (m₂.serialize res).1 with
        conn := (phaseSendBegin (requestConsume
          (((m₂.serialize res).2.assert b).staged (m₂.serialize res).1).conn)).2 }) := by
    intro m₂ res b h
    obtain ⟨arena, resp, producer, text, hstaged, -, hconn, hlog⟩ := h.staged res b
    refine ⟨_, ?_, hlog⟩
    rw [hconn]
    exact .builtBuffered hphase hstaged
  unfold buildBuffered
  generalize (if m₁.conn.reqParsed.requestLine.method = .head then { res with headOnly := true }
    else res) = res'
  dsimp only
  by_cases hfailed : (m₁.serialize res').1.failed
  · simp only [hfailed, if_true]
    exact staged _ _ _ (h.serialize res')
  · simp only [hfailed]
    exact staged _ _ _ h

theorem responseBuild_turnsTo {m m₁ : Machine σ} (hphase : m.conn.phase = .building)
    (h : m.Prepared m₁) (res : HttpResponse) : m.TurnsTo (responseBuild res m₁) := by
  unfold responseBuild
  cases res.body with
  | none => exact buildBuffered_turnsTo hphase h res
  | buffer body size => exact buildBuffered_turnsTo hphase h res
  | stream stream =>
    have h₁ : m.Prepared { m₁ with conn.producer := stream } := by
      obtain ⟨arena, resp, producer, hconn, hlog⟩ := h
      exact ⟨arena, resp, stream, by rw [hconn]; rfl, hlog⟩
    dsimp only
    generalize { m₁ with conn.producer := stream } = m₂ at h₁ ⊢
    split
    · exact buildBuffered_turnsTo hphase (h₁.serialize res).release _
    · obtain ⟨arena, resp, producer, text, hstaged, -, hconn, hlog⟩ := h₁.staged res true
      rw [Machine.assert_true] at hconn hlog
      refine ⟨_, ?_, hlog⟩
      rw [hconn]
      exact .builtStream hphase hstaged

theorem stepResponseBuild_turnsTo (router : Router σ) {m : Machine σ}
    (hphase : m.conn.phase = .building) : m.TurnsTo (stepResponseBuild router m) :=
  responseBuild_turnsTo hphase (responseDispatch_prepared router m) _

theorem stepResponseSend_turnsTo {m : Machine σ} (hphase : m.conn.phase = .sendingResponse) :
    m.TurnsTo (stepResponseSend m) := by
  have hlog : ∀ o, visible ((m.io.sendAsserted m.conn.fd m.conn.mem.respBuf
      m.conn.st.getSend).log ++
      [.send (m.conn.mem.respBuf.contents.drop m.conn.st.getSend.sent) o]) =
      visible m.io.log ++ [.send (m.conn.mem.respBuf.contents.drop m.conn.st.getSend.sent) o] := by
    intro o
    rw [visible_append, Io.sendAsserted, visible_assert, visible_send]
  simp only [stepResponseSend, responseSend_eq]
  have hclip := m.io.nextSend_clip
    (m.conn.mem.respBuf.contents.drop m.conn.st.getSend.sent).length
  generalize m.io.nextSend _ = o at hclip ⊢
  cases hst : o.status m.conn.mem.respBuf.size m.conn.st.getSend.sent with
  | hasMore => exact ⟨_, .sendWaits hphase hclip hst, hlog o⟩
  | ok => exact ⟨_, .sendDone hphase hclip hst, hlog o⟩
  | peerClosed => exact ⟨_, .sendCloses hphase, hlog o⟩
  | error => exact ⟨_, .sendCloses hphase, hlog o⟩

theorem stepResponseSendStream_turnsTo {m : Machine σ}
    (hphase : m.conn.phase = .sendingResponseStream) : m.TurnsTo (stepResponseSendStream m) := by
  obtain ⟨evs, hsends, hlog, hend⟩ := stepResponseSendStream_spec m
  exact ⟨evs, .streamTurns hphase hsends hend, hlog⟩

/-! ## Well-formed connections -/

/-- The phases between the end of the head and the response. -/
def ConnPhase.AfterHead (phase : ConnPhase) : Prop :=
  phase = .sending100 ∨ phase = .readingBodyCl ∨ phase = .readingBodyChunked ∨ phase = .building

/-- The head has been read up to its terminator, and the body starts behind it. -/
def Connection.HeadRead (conn : Connection) : Prop :=
  ∃ terminator, memmem conn.mem.reqBuf.contents HEADER_END = some terminator ∧
    conn.bodyStart = terminator + 4

structure Connection.WellFormed (conn : Connection) : Prop where
  backed : conn.mem.reqBuf.Backed
  head : conn.phase.AfterHead → conn.HeadRead
  interim : conn.phase = .sending100 → conn.st.getSend.sent ≤ CONTINUE_100.length
  chunked : conn.phase = .readingBodyChunked → conn.ChunkedReady

/-- Every turn of the loop is a `Turn`. -/
theorem stepPhase_turn (router : Router σ) {m : Machine σ} (hwf : m.conn.WellFormed)
    (hopen : m.conn.phase ≠ .closed) :
    ∃ evs, Turn m.conn evs (stepPhase router m).conn ∧
      visible (stepPhase router m).io.log =
        visible m.io.log ++ evs ++ [.step m.conn (stepPhase router m).conn] := by
  have hturns : m.TurnsTo (stepConn router m) := by
    cases hphase : m.conn.phase with
    | readingRequest =>
      simp only [stepConn, hphase]
      exact stepHeaderRead_turnsTo hphase hwf.backed
    | sending100 =>
      simp only [stepConn, hphase]
      exact stepSend100_turnsTo hphase
    | readingBodyCl =>
      simp only [stepConn, hphase]
      exact stepBodyClRead_turnsTo hphase hwf.backed
    | readingBodyChunked =>
      simp only [stepConn, hphase]
      exact stepBodyChunkedRead_turnsTo hphase (hwf.chunked hphase)
    | building =>
      simp only [stepConn, hphase]
      exact stepResponseBuild_turnsTo router hphase
    | sendingResponse =>
      simp only [stepConn, hphase]
      exact stepResponseSend_turnsTo hphase
    | sendingResponseStream =>
      simp only [stepConn, hphase]
      exact stepResponseSendStream_turnsTo hphase
    | closed => exact absurd hphase hopen
  obtain ⟨evs, hturn, hlog⟩ := hturns
  refine ⟨evs, hturn, ?_⟩
  rw [stepPhase_log, visible_append, visible_step, hlog]

end HttpServer
