import HttpServer.ConnectionRuns

/-!
# What a connection never changes

The descriptor of a connection and the places and capacities of its three buffers are
set by `connection_init`. No step moves them, whatever the socket and the clock do.
-/

namespace HttpServer

variable {σ : Type*} {conn conn' : Connection} {b : HttpBuffer} {m : Machine σ}

/-- Where the memory of a buffer starts, and how long it is. -/
def HttpBuffer.region (b : HttpBuffer) : Option ℕ × ℕ := (b.address, b.cap)

structure Layout where
  fd : ℤ
  request : Option ℕ × ℕ
  response : Option ℕ × ℕ
  dechunked : Option ℕ × ℕ

def Connection.layout (conn : Connection) : Layout where
  fd := conn.fd
  request := conn.mem.reqBuf.region
  response := conn.mem.respBuf.region
  dechunked := conn.mem.bodyDechunked.region

theorem Connection.layout_reqBuf {buf : HttpBuffer} (h : buf.region = conn.mem.reqBuf.region) :
    { conn with mem.reqBuf := buf }.layout = conn.layout := by
  simp only [layout, h]

/-! ## Reading -/

theorem connRecvHeaderLoop_region (recvs : List RecvOutcome) (b : HttpBuffer) (log : List Event) :
    (connRecvHeaderLoop recvs b log).2.1.region = b.region := by
  fun_induction connRecvHeaderLoop recvs b log <;> first | rfl | assumption

theorem connRecvBodyClLoop_region (bodyStart bodyLen : ℕ) (recvs : List RecvOutcome)
    (b : HttpBuffer) (st : CLBodySt) (log : List Event) :
    (connRecvBodyClLoop bodyStart bodyLen recvs b st log).2.1.region = b.region := by
  fun_induction connRecvBodyClLoop bodyStart bodyLen recvs b st log <;> first | rfl | assumption

theorem chunkDrain_region (reqBuf : HttpBuffer) (bodyStart fuel : ℕ) (b : HttpBuffer)
    (st : ChunkedBodySt) : (chunkDrain reqBuf bodyStart fuel b st).2.1.region = b.region := by
  fun_induction chunkDrain reqBuf bodyStart fuel b st <;> first | rfl | assumption

theorem chunkDrain_eq_region {reqBuf dechunked : HttpBuffer} {bodyStart fuel : ℕ}
    {st st' : ChunkedBodySt} {res : Option ReadBodyResult}
    (h : chunkDrain reqBuf bodyStart fuel b st = (res, dechunked, st')) :
    dechunked.region = b.region := by
  have hregion := chunkDrain_region reqBuf bodyStart fuel b st
  rwa [h] at hregion

theorem connRecvBodyChunkedLoop_region (bodyStart : ℕ) (recvs : List RecvOutcome)
    (r : ChunkedRead) (log : List Event) :
    (connRecvBodyChunkedLoop bodyStart recvs r log).2.1.reqBuf.region = r.reqBuf.region ∧
      (connRecvBodyChunkedLoop bodyStart recvs r log).2.1.dechunked.region =
        r.dechunked.region := by
  fun_induction connRecvBodyChunkedLoop bodyStart recvs r log with
  | case1 recvs r log res dechunked st hdrain => exact ⟨rfl, chunkDrain_eq_region hdrain⟩
  | case2 recvs r log dechunked st hdrain => exact ⟨rfl, chunkDrain_eq_region hdrain⟩
  | case3 r log dechunked st hdrain => exact ⟨rfl, chunkDrain_eq_region hdrain⟩
  | case4 r log dechunked st hdrain => exact ⟨rfl, chunkDrain_eq_region hdrain⟩
  | case5 r log dechunked st hdrain drained hroom o rest out log' got hne hout ih =>
    exact ⟨ih.1, ih.2.trans (chunkDrain_eq_region hdrain)⟩
  | case6 r log dechunked st hdrain => exact ⟨rfl, chunkDrain_eq_region hdrain⟩
  | case7 r log dechunked st hdrain drained hroom o rest out log' hout ih =>
    exact ⟨ih.1, ih.2.trans (chunkDrain_eq_region hdrain)⟩
  | case8 r log dechunked st hdrain => exact ⟨rfl, chunkDrain_eq_region hdrain⟩

/-! ## Steps -/

theorem phaseBodyDispatch_layout (conn : Connection) :
    (phaseBodyDispatch conn).2.layout = conn.layout := by
  unfold phaseBodyDispatch
  split
  · rfl
  · split <;> rfl

theorem Connection.HeadFrame.layout (h : conn.HeadFrame conn') : conn'.layout = conn.layout := by
  obtain ⟨req, start, keep, coding, len, rfl⟩ := h
  rfl

theorem stepHeaderRead_layout (m : Machine σ) :
    (stepHeaderRead m).2.conn.layout = m.conn.layout := by
  have hregion := connRecvHeaderLoop_region m.io.recvs m.conn.mem.reqBuf
    (m.io.assert (m.conn.mem.reqBuf.address.isSome && 0 ≤ m.conn.fd)).log
  have hbuf : (connRecvHeader m.conn.fd m.conn.mem.reqBuf m.io).2.1.region =
      m.conn.mem.reqBuf.region := by
    simp only [connRecvHeader, Io.assert_recvs]
    exact hregion
  unfold stepHeaderRead
  generalize connRecvHeader m.conn.fd m.conn.mem.reqBuf m.io = read at hbuf
  obtain ⟨res, buf, io⟩ := read
  have hread : { m.conn with mem.reqBuf := buf }.layout = m.conn.layout :=
    Connection.layout_reqBuf hbuf
  dsimp only
  split
  · exact hread
  · exact hread
  · exact hread
  · exact hread
  · generalize haccept : headAccept _ _ = accepted
    obtain ⟨verdict, conn⟩ := accepted
    have hframe := (headAccept_spec haccept).1.layout.trans hread
    cases verdict with
    | error status => exact hframe
    | send100 => exact hframe
    | dispatch => exact (phaseBodyDispatch_layout conn).trans hframe

theorem stepSend100_layout (m : Machine σ) : (stepSend100 m).2.conn.layout = m.conn.layout := by
  unfold stepSend100
  generalize responseSend m.conn.fd continue100Buf m.conn.st.getSend m.io = sent
  obtain ⟨status, st, io⟩ := sent
  cases status with
  | ok => exact phaseBodyDispatch_layout _
  | hasMore => rfl
  | peerClosed => rfl
  | error => rfl

theorem stepBodyClRead_layout (m : Machine σ) :
    (stepBodyClRead m).2.conn.layout = m.conn.layout := by
  have hbuf : (connRecvBodyCl m.conn.fd m.conn.mem.reqBuf m.conn.bodyStart m.conn.bodyLen
      m.conn.st.getCl m.io).2.1.region = m.conn.mem.reqBuf.region :=
    connRecvBodyClLoop_region _ _ _ _ _ _
  unfold stepBodyClRead
  generalize connRecvBodyCl m.conn.fd m.conn.mem.reqBuf m.conn.bodyStart m.conn.bodyLen
    m.conn.st.getCl m.io = read at hbuf
  obtain ⟨res, buf, st, io⟩ := read
  have hread : { m.conn with mem.reqBuf := buf }.layout = m.conn.layout :=
    Connection.layout_reqBuf hbuf
  dsimp only
  split <;> exact hread

theorem stepBodyChunkedRead_layout (m : Machine σ) :
    (stepBodyChunkedRead m).2.conn.layout = m.conn.layout := by
  have hbuf : ∀ r, r = m.conn.chunkedRead →
      (connRecvBodyChunked m.conn.fd m.conn.bodyStart r m.io).2.1.reqBuf.region =
        m.conn.mem.reqBuf.region ∧
      (connRecvBodyChunked m.conn.fd m.conn.bodyStart r m.io).2.1.dechunked.region =
        m.conn.mem.bodyDechunked.region := by
    rintro r rfl
    exact connRecvBodyChunkedLoop_region _ _ _ _
  replace hbuf := hbuf _ rfl
  unfold stepBodyChunkedRead
  unfold Connection.chunkedRead at hbuf
  generalize connRecvBodyChunked m.conn.fd m.conn.bodyStart
    { reqBuf := m.conn.mem.reqBuf, dechunked := m.conn.mem.bodyDechunked, st := m.conn.st.getChunked }
    m.io = read at hbuf ⊢
  obtain ⟨res, r, io⟩ := read
  obtain ⟨hreq, hdechunked⟩ := hbuf
  have hread : { m.conn with mem.reqBuf := r.reqBuf, mem.bodyDechunked := r.dechunked }.layout =
      m.conn.layout := by
    simp only [Connection.layout, hreq, hdechunked]
  dsimp only
  split <;> exact hread

theorem requestConsume_layout (conn : Connection) : (requestConsume conn).layout = conn.layout := by
  unfold requestConsume
  dsimp only
  split <;> rfl

theorem phaseSendBegin_layout (conn : Connection) :
    (phaseSendBegin conn).2.layout = conn.layout := rfl

theorem streamRelease_layout (m : Machine σ) : (streamRelease m).conn.layout = m.conn.layout := by
  unfold streamRelease
  dsimp only
  split <;> rfl

theorem buildBuffered_layout (res : HttpResponse) (m : Machine σ) :
    (buildBuffered res m).2.conn.layout = m.conn.layout := by
  unfold buildBuffered
  generalize (if m.conn.reqParsed.requestLine.method = .head then { res with headOnly := true }
    else res) = res'
  dsimp only
  by_cases hfailed : (m.serialize res').1.failed = true
  · simp only [hfailed, if_true]
    rw [phaseSendBegin_layout, requestConsume_layout]
    rfl
  · simp only [hfailed, Bool.false_eq_true, if_false]
    rw [phaseSendBegin_layout, requestConsume_layout]
    rfl

theorem responseBuild_layout (res : HttpResponse) (m : Machine σ) :
    (responseBuild res m).2.conn.layout = m.conn.layout := by
  unfold responseBuild
  cases res.body with
  | none => exact buildBuffered_layout res m
  | buffer body size => exact buildBuffered_layout res m
  | stream stream =>
    dsimp only
    split
    · exact (buildBuffered_layout _ _).trans (streamRelease_layout _)
    · exact requestConsume_layout _

theorem responseDispatch_layout (router : Router σ) (m : Machine σ) :
    (responseDispatch router m).2.conn.layout = m.conn.layout := by
  obtain ⟨scratch, world, evs, -, -, heq⟩ := responseDispatch_dispatched router m
  rw [heq]
  rfl

theorem responseComplete_layout (conn : Connection) :
    (responseComplete conn).2.layout = conn.layout := by
  unfold responseComplete
  dsimp only
  split <;> rfl

theorem stepResponseSend_layout (m : Machine σ) :
    (stepResponseSend m).2.conn.layout = m.conn.layout := by
  unfold stepResponseSend
  generalize responseSend m.conn.fd m.conn.mem.respBuf m.conn.st.getSend m.io = sent
  obtain ⟨status, st, io⟩ := sent
  cases status with
  | ok => exact responseComplete_layout _
  | hasMore => rfl
  | peerClosed => rfl
  | error => rfl

theorem LoopTurn.layout {r : Option ConnPhase × Machine σ} (h : LoopTurn m r) :
    r.2.conn.layout = m.conn.layout := by
  cases h with
  | sent => rfl
  | blocked => rfl
  | failed => exact streamRelease_layout _
  | framed => rfl
  | gaveUp => exact streamRelease_layout _
  | done => exact (responseComplete_layout _).trans (streamRelease_layout m)

theorem stepResponseSendStream_layout (m : Machine σ) :
    (stepResponseSendStream m).2.conn.layout = m.conn.layout :=
  stepResponseSendStream_keeps (fun m' => m'.conn.layout = m.conn.layout)
    (fun _ _ hkept hturn => hturn.layout.trans hkept) rfl

theorem stepConn_layout (router : Router σ) (m : Machine σ) :
    (stepConn router m).2.conn.layout = m.conn.layout := by
  unfold stepConn
  cases m.conn.phase with
  | readingRequest => exact stepHeaderRead_layout m
  | sending100 => exact stepSend100_layout m
  | readingBodyCl => exact stepBodyClRead_layout m
  | readingBodyChunked => exact stepBodyChunkedRead_layout m
  | building => exact (responseBuild_layout _ _).trans (responseDispatch_layout router m)
  | sendingResponse => exact stepResponseSend_layout m
  | sendingResponseStream => exact stepResponseSendStream_layout m
  | closed => rfl

/-- No turn of the loop moves a buffer. -/
theorem stepPhase_layout (router : Router σ) (m : Machine σ) :
    (stepPhase router m).conn.layout = m.conn.layout := stepConn_layout router m

/-- The run lemma. -/
theorem Reaches.layout {router : Router σ} {ok : Machine σ → Prop} {m m' : Machine σ}
    (h : Reaches router ok m m') : m'.conn.layout = m.conn.layout := by
  refine Runs.invariant (fun m' => m'.conn.layout = m.conn.layout) h rfl fun a b _ ha hnext => ?_
  cases hnext with
  | wake w => exact ha
  | turn => exact (stepPhase_layout router a).trans ha

theorem stepProcessLoop_layout (router : Router σ) (fuel : ℕ) (m : Machine σ) :
    (stepProcessLoop router fuel m).conn.layout = m.conn.layout := by
  induction fuel generalizing m with
  | zero => rfl
  | succ fuel ih =>
    rw [stepProcessLoop]
    split
    · exact (ih _).trans (stepPhase_layout router m)
    · exact stepPhase_layout router m

end HttpServer
