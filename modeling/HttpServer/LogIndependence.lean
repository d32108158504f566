import HttpServer.Connection

/-!
# Independence of the log

No function of the server reads the log: what has been logged before a call moves to
the front of what is logged after it, and changes nothing else.
-/

namespace HttpServer

variable {σ : Type*} {log : List Event}

/-- The same scripts, with `log` in front of what has been logged. -/
def Io.after (io : Io) (log : List Event) : Io := { io with log := log ++ io.log }

def Machine.after (m : Machine σ) (log : List Event) : Machine σ := { m with io := m.io.after log }

/-- What a step returns, with `log` in front of what has been logged. -/
def StepAfter (log : List Event) (r : ConnPhase × Machine σ) : ConnPhase × Machine σ :=
  (r.1, r.2.after log)

/-! ## Calls -/

theorem Io.after_emit (io : Io) (log : List Event) (e : Event) :
    (io.after log).emit e = (io.emit e).after log := by
  unfold after emit
  rw [List.append_assoc]

theorem Io.after_assert (io : Io) (log : List Event) (b : Bool) :
    (io.after log).assert b = (io.assert b).after log := by
  unfold assert
  split
  · rfl
  · exact io.after_emit log _

theorem Machine.after_assert (m : Machine σ) (log : List Event) (b : Bool) :
    (m.after log).assert b = (m.assert b).after log := by
  unfold assert after
  rw [Io.after_assert]

theorem Io.after_time (io : Io) (log : List Event) :
    (io.after log).time = (io.time.1, io.time.2.after log) := by
  obtain ⟨recvs, sends, pulls, clock, logged⟩ := io
  cases clock <;> rfl

theorem Io.after_send (io : Io) (log : List Event) (offered : Bytes) :
    (io.after log).send offered = ((io.send offered).1, (io.send offered).2.after log) := by
  have hsends : (io.after log).sends = io.sends := rfl
  unfold send
  rw [hsends]
  cases io.sends with
  | nil => exact congrArg (Prod.mk _) (io.after_emit log _)
  | cons o rest => exact congrArg (Prod.mk _) (Io.after_emit { io with sends := rest } log _)

theorem Io.after_pull (io : Io) (log : List Event) (ctx : Option StreamCtx) (cap : ℕ) :
    (io.after log).pull ctx cap = ((io.pull ctx cap).1, (io.pull ctx cap).2.after log) := by
  have hpulls : (io.after log).pulls = io.pulls := rfl
  unfold pull
  rw [hpulls]
  cases io.pulls with
  | nil => exact congrArg (Prod.mk _) (io.after_emit log _)
  | cons o rest => exact congrArg (Prod.mk _) (Io.after_emit { io with pulls := rest } log _)

/-! ## Readers -/

theorem connRecvHeaderLoop_after (log : List Event) (recvs : List RecvOutcome) (req : HttpBuffer)
    (log' : List Event) :
    connRecvHeaderLoop recvs req (log ++ log') =
      ((connRecvHeaderLoop recvs req log').1, (connRecvHeaderLoop recvs req log').2.1,
        (connRecvHeaderLoop recvs req log').2.2.1,
        log ++ (connRecvHeaderLoop recvs req log').2.2.2) := by
  induction recvs generalizing req log' with
  | nil =>
    unfold connRecvHeaderLoop
    cases memmem req.contents HEADER_END with
    | some terminator => rfl
    | none =>
      dsimp only
      split
      · rfl
      · rw [List.append_assoc]
  | cons o rest ih =>
    unfold connRecvHeaderLoop
    cases memmem req.contents HEADER_END with
    | some terminator => rfl
    | none =>
      dsimp only
      split
      · rfl
      · rw [List.append_assoc]
        generalize o.clip (req.cap - req.size) = o
        cases o with
        | again => rfl
        | interrupted => exact ih _ _
        | error => rfl
        | data got =>
          cases got with
          | nil => rfl
          | cons c got => exact ih _ _

theorem connRecvHeader_after (fd : ℤ) (req : HttpBuffer) (io : Io) (log : List Event) :
    connRecvHeader fd req (io.after log) =
      ((connRecvHeader fd req io).1, (connRecvHeader fd req io).2.1,
        (connRecvHeader fd req io).2.2.after log) := by
  unfold connRecvHeader
  rw [Io.after_assert]
  generalize io.assert _ = io
  dsimp only
  rw [Io.after]
  dsimp only
  rw [connRecvHeaderLoop_after]
  rfl

theorem connRecvBodyClLoop_after (log : List Event) (bodyStart bodyLen : ℕ)
    (recvs : List RecvOutcome) (req : HttpBuffer) (st : CLBodySt) (log' : List Event) :
    connRecvBodyClLoop bodyStart bodyLen recvs req st (log ++ log') =
      ((connRecvBodyClLoop bodyStart bodyLen recvs req st log').1,
        (connRecvBodyClLoop bodyStart bodyLen recvs req st log').2.1,
        (connRecvBodyClLoop bodyStart bodyLen recvs req st log').2.2.1,
        (connRecvBodyClLoop bodyStart bodyLen recvs req st log').2.2.2.1,
        log ++ (connRecvBodyClLoop bodyStart bodyLen recvs req st log').2.2.2.2) := by
  induction recvs generalizing req st log' with
  | nil =>
    unfold connRecvBodyClLoop
    dsimp only
    split
    · rfl
    · split
      · rfl
      · rw [List.append_assoc]
  | cons o rest ih =>
    unfold connRecvBodyClLoop
    dsimp only
    split
    · rfl
    · split
      · rfl
      · rw [List.append_assoc]
        generalize o.clip (req.cap - req.size) = o
        cases o with
        | again => rfl
        | interrupted => exact ih _ _ _
        | error => rfl
        | data got =>
          cases got with
          | nil => rfl
          | cons c got => exact ih _ _ _

theorem connRecvBodyCl_after (fd : ℤ) (req : HttpBuffer) (bodyStart bodyLen : ℕ) (st : CLBodySt)
    (io : Io) (log : List Event) :
    connRecvBodyCl fd req bodyStart bodyLen st (io.after log) =
      ((connRecvBodyCl fd req bodyStart bodyLen st io).1,
        (connRecvBodyCl fd req bodyStart bodyLen st io).2.1,
        (connRecvBodyCl fd req bodyStart bodyLen st io).2.2.1,
        (connRecvBodyCl fd req bodyStart bodyLen st io).2.2.2.after log) := by
  unfold connRecvBodyCl
  rw [Io.after_assert]
  generalize io.assert _ = io
  dsimp only
  rw [Io.after]
  dsimp only
  rw [connRecvBodyClLoop_after]
  rfl

theorem connRecvBodyChunkedLoop_after (log : List Event) (bodyStart : ℕ)
    (recvs : List RecvOutcome) (r : ChunkedRead) (log' : List Event) :
    connRecvBodyChunkedLoop bodyStart recvs r (log ++ log') =
      ((connRecvBodyChunkedLoop bodyStart recvs r log').1,
        (connRecvBodyChunkedLoop bodyStart recvs r log').2.1,
        (connRecvBodyChunkedLoop bodyStart recvs r log').2.2.1,
        log ++ (connRecvBodyChunkedLoop bodyStart recvs r log').2.2.2) := by
  induction recvs generalizing r log' with
  | nil =>
    unfold connRecvBodyChunkedLoop
    generalize chunkDrain r.reqBuf bodyStart (r.reqBuf.size + 2) r.dechunked r.st = drained
    obtain ⟨_ | res, dechunked, st⟩ := drained
    · dsimp only
      split
      · rfl
      · rw [List.append_assoc]
    · rfl
  | cons o rest ih =>
    unfold connRecvBodyChunkedLoop
    generalize chunkDrain r.reqBuf bodyStart (r.reqBuf.size + 2) r.dechunked r.st = drained
    obtain ⟨_ | res, dechunked, st⟩ := drained
    · dsimp only
      split
      · rfl
      · rw [List.append_assoc]
        generalize o.clip (r.reqBuf.cap - r.reqBuf.size) = o
        cases o with
        | again => rfl
        | interrupted => exact ih _ _
        | error => rfl
        | data got =>
          cases got with
          | nil => rfl
          | cons c got => exact ih _ _
    · rfl

theorem connRecvBodyChunked_after (fd : ℤ) (bodyStart : ℕ) (r : ChunkedRead) (io : Io)
    (log : List Event) :
    connRecvBodyChunked fd bodyStart r (io.after log) =
      ((connRecvBodyChunked fd bodyStart r io).1, (connRecvBodyChunked fd bodyStart r io).2.1,
        (connRecvBodyChunked fd bodyStart r io).2.2.after log) := by
  unfold connRecvBodyChunked
  rw [Io.after_assert]
  generalize io.assert _ = io
  dsimp only
  rw [Io.after]
  dsimp only
  rw [connRecvBodyChunkedLoop_after]
  rfl

/-! ## Sending and serializing -/

theorem responseSend_after (fd : ℤ) (resp : HttpBuffer) (st : SendSt) (io : Io)
    (log : List Event) :
    responseSend fd resp st (io.after log) =
      ((responseSend fd resp st io).1, (responseSend fd resp st io).2.1,
        (responseSend fd resp st io).2.2.after log) := by
  unfold responseSend
  rw [Io.after_assert]
  dsimp only
  rw [Io.after_send]
  generalize (io.assert _).send _ = sent
  obtain ⟨o, io'⟩ := sent
  cases o <;> rfl

theorem responseSerializeNow_after (resp : HttpResponse) (size : ℕ) (keepAlive : Bool) (io : Io)
    (log : List Event) :
    responseSerializeNow resp size keepAlive (io.after log) =
      ((responseSerializeNow resp size keepAlive io).1,
        (responseSerializeNow resp size keepAlive io).2.after log) := by
  unfold responseSerializeNow
  split
  · rw [Io.after_time]
  · rfl

theorem responseErrorSerialize_after (resp : HttpBuffer) (s : ParseStatus) (io : Io)
    (log : List Event) :
    responseErrorSerialize resp s (io.after log) =
      ((responseErrorSerialize resp s io).1, (responseErrorSerialize resp s io).2.after log) := by
  unfold responseErrorSerialize
  rw [responseSerializeNow_after]
  dsimp only
  rw [Io.after_emit]

/-! ## Steps -/

theorem Machine.errorBegin_after (m : Machine σ) (s : ParseStatus) (log : List Event) :
    (m.after log).errorBegin s = StepAfter log (m.errorBegin s) := by
  unfold errorBegin after
  dsimp only
  rw [responseErrorSerialize_after]
  rfl

theorem Machine.bodyDispatch_after (m : Machine σ) (log : List Event) :
    (m.after log).bodyDispatch = StepAfter log m.bodyDispatch := by
  unfold bodyDispatch
  rw [Machine.after_assert]
  rfl

theorem stepHeaderRead_after (m : Machine σ) (log : List Event) :
    stepHeaderRead (m.after log) = StepAfter log (stepHeaderRead m) := by
  unfold stepHeaderRead
  rw [Machine.after]
  dsimp only
  rw [connRecvHeader_after]
  generalize connRecvHeader m.conn.fd m.conn.mem.reqBuf m.io = read
  obtain ⟨⟨status, total, bodyStart⟩, buf, io⟩ := read
  dsimp only
  cases status with
  | hasMore => rfl
  | peerClosed => rfl
  | ioError => rfl
  | tooLarge =>
    exact Machine.errorBegin_after { m with conn.mem.reqBuf := buf, io := io } .headerTooLong log
  | ok =>
    dsimp only
    have hasserted := Machine.after_assert { m with conn.mem.reqBuf := buf, io := io } log
      (decide (bodyStart ≤ total))
    rw [Machine.after] at hasserted
    rw [hasserted]
    generalize Machine.assert { m with conn.mem.reqBuf := buf, io := io } _ = m'
    have hconn : (m'.after log).conn = m'.conn := rfl
    rw [hconn]
    generalize headAccept m'.conn bodyStart = accepted
    obtain ⟨verdict, conn⟩ := accepted
    cases verdict with
    | error status => exact Machine.errorBegin_after { m' with conn := conn } status log
    | send100 => rfl
    | dispatch => exact Machine.bodyDispatch_after { m' with conn := conn } log

theorem stepSend100_after (m : Machine σ) (log : List Event) :
    stepSend100 (m.after log) = StepAfter log (stepSend100 m) := by
  unfold stepSend100
  rw [Machine.after]
  dsimp only
  rw [responseSend_after]
  generalize responseSend m.conn.fd continue100Buf m.conn.st.getSend m.io = sent
  obtain ⟨status, st, io⟩ := sent
  cases status with
  | hasMore => rfl
  | ok => exact Machine.bodyDispatch_after { m with conn.st := .send st, io := io } log
  | peerClosed => rfl
  | error => rfl

theorem stepBodyClRead_after (m : Machine σ) (log : List Event) :
    stepBodyClRead (m.after log) = StepAfter log (stepBodyClRead m) := by
  unfold stepBodyClRead
  rw [Machine.after]
  dsimp only
  rw [connRecvBodyCl_after]
  generalize connRecvBodyCl m.conn.fd m.conn.mem.reqBuf _ _ _ m.io = read
  obtain ⟨⟨status, next⟩, buf, st, io⟩ := read
  have hfails := Machine.errorBegin_after
    { m with conn.mem.reqBuf := buf, conn.st := .cl st, io := io } .badRequest log
  cases status with
  | ok => rfl
  | hasMore => rfl
  | _ => exact hfails

theorem stepBodyChunkedRead_after (m : Machine σ) (log : List Event) :
    stepBodyChunkedRead (m.after log) = StepAfter log (stepBodyChunkedRead m) := by
  unfold stepBodyChunkedRead
  rw [Machine.after]
  dsimp only
  rw [connRecvBodyChunked_after]
  generalize connRecvBodyChunked m.conn.fd m.conn.bodyStart _ m.io = read
  obtain ⟨⟨status, next⟩, r, io⟩ := read
  have hfails := fun status => Machine.errorBegin_after
    { m with
      conn.mem.reqBuf := r.reqBuf
      conn.mem.bodyDechunked := r.dechunked
      conn.st := .chunked r.st
      io := io } status log
  cases status with
  | ok => rfl
  | hasMore => rfl
  | tooLarge => exact hfails .payloadTooLarge
  | _ => exact hfails .badRequest

theorem streamRelease_after (m : Machine σ) (log : List Event) :
    streamRelease (m.after log) = (streamRelease m).after log := by
  unfold streamRelease
  rw [Machine.after]
  dsimp only
  split
  · dsimp only
    rw [Io.after_emit]
    rfl
  · rfl

theorem streamAbort_after (m : Machine σ) (log : List Event) :
    streamAbort (m.after log) = StepAfter log (streamAbort m) := by
  unfold streamAbort
  rw [streamRelease_after]
  rfl

theorem routeDispatch_after (router : Router σ) (method : HttpMethod) (m : Machine σ)
    (log : List Event) :
    routeDispatch router method (m.after log) =
      ((routeDispatch router method m).1, (routeDispatch router method m).2.after log) := by
  unfold routeDispatch
  rw [Machine.after]
  dsimp only
  generalize routeLookup router.routes (httpMethodShow method) _ = found
  obtain ⟨_ | route, allowed⟩ := found
  · dsimp only
    split <;> rfl
  · dsimp only
    rw [Io.after_emit]
    rfl

theorem responseDispatch_after (router : Router σ) (m : Machine σ) (log : List Event) :
    responseDispatch router (m.after log) =
      ((responseDispatch router m).1, (responseDispatch router m).2.after log) := by
  unfold responseDispatch
  have hroute := fun method (w : World σ) =>
    routeDispatch_after router method { m with world := w } log
  rw [Machine.after]
  dsimp only
  generalize (if m.conn.requestView.requestLine.method = .head then HttpMethod.get
    else m.conn.requestView.requestLine.method) = method
  split
  · generalize contentRegistryLookup m.world _ _ = found
    obtain ⟨result, world⟩ := found
    cases result with
    | miss => exact hroute _ world
    | _ => rfl
  · exact hroute _ m.world

theorem Machine.serialize_after (m : Machine σ) (res : HttpResponse) (log : List Event) :
    (m.after log).serialize res = ((m.serialize res).1, (m.serialize res).2.after log) := by
  unfold serialize after
  dsimp only
  rw [responseSerializeNow_after]

theorem Machine.staged_after (m : Machine σ) (o : Out) (log : List Event) :
    (m.after log).staged o = (m.staged o).after log := by
  unfold staged after
  dsimp only
  rw [Io.after_emit]

theorem buildBuffered_after (res : HttpResponse) (m : Machine σ) (log : List Event) :
    buildBuffered res (m.after log) = StepAfter log (buildBuffered res m) := by
  unfold buildBuffered
  have hconn : (m.after log).conn = m.conn := rfl
  rw [hconn]
  dsimp only
  rw [Machine.serialize_after]
  generalize m.serialize _ = serialized
  obtain ⟨o, m'⟩ := serialized
  dsimp only
  split
  · rw [Machine.serialize_after]
    dsimp only
    rw [Machine.after_assert, Machine.staged_after]
    rfl
  · dsimp only
    rw [Machine.after_assert, Machine.staged_after]
    rfl

theorem responseBuild_after (res : HttpResponse) (m : Machine σ) (log : List Event) :
    responseBuild res (m.after log) = StepAfter log (responseBuild res m) := by
  unfold responseBuild
  cases res.body with
  | none => exact buildBuffered_after res m log
  | buffer body size => exact buildBuffered_after res m log
  | stream stream =>
    dsimp only
    have hserialize := Machine.serialize_after { m with conn.producer := stream } res log
    rw [Machine.after] at hserialize ⊢
    dsimp only at hserialize ⊢
    rw [hserialize]
    generalize Machine.serialize { m with conn.producer := stream } res = serialized
    obtain ⟨o, m'⟩ := serialized
    dsimp only
    split
    · rw [streamRelease_after]
      exact buildBuffered_after _ _ log
    · rw [Machine.staged_after]
      rfl

theorem stepResponseBuild_after (router : Router σ) (m : Machine σ) (log : List Event) :
    stepResponseBuild router (m.after log) = StepAfter log (stepResponseBuild router m) := by
  unfold stepResponseBuild
  rw [responseDispatch_after]
  exact responseBuild_after _ _ log

theorem stepResponseSend_after (m : Machine σ) (log : List Event) :
    stepResponseSend (m.after log) = StepAfter log (stepResponseSend m) := by
  unfold stepResponseSend
  rw [Machine.after]
  dsimp only
  rw [responseSend_after]
  generalize responseSend m.conn.fd m.conn.mem.respBuf m.conn.st.getSend m.io = sent
  obtain ⟨status, st, io⟩ := sent
  cases status <;> rfl

/-! ## The stream loop -/

/-- What a turn of the stream loop returns, with `log` in front of what has been logged. -/
def StreamAfter (log : List Event) (r : Option ConnPhase × Machine σ) :
    Option ConnPhase × Machine σ :=
  (r.1, r.2.after log)

theorem streamSend_after (phase : StreamPhase) (m : Machine σ) (log : List Event) :
    streamSend phase (m.after log) = StreamAfter log (streamSend phase m) := by
  unfold streamSend
  rw [Machine.after]
  dsimp only
  rw [responseSend_after]
  generalize responseSend m.conn.fd m.conn.mem.respBuf _ m.io = sent
  obtain ⟨status, st, io⟩ := sent
  dsimp only
  generalize streamHandleResponse _ status phase = handled
  obtain ⟨step, stream⟩ := handled
  have habort := streamAbort_after { m with conn.st := .stream stream, io := io } log
  rw [Machine.after] at habort
  cases step with
  | abort =>
    dsimp only at habort ⊢
    rw [habort]
    rfl
  | yield => rfl
  | advance => rfl

theorem streamStage_after (frame : Option Bytes) (phase : StreamPhase) (m : Machine σ)
    (log : List Event) :
    streamStage frame phase (m.after log) = StreamAfter log (streamStage frame phase m) := by
  unfold streamStage
  cases frame with
  | none =>
    dsimp only
    rw [streamAbort_after]
    rfl
  | some frame => rfl

theorem streamPull_after (m : Machine σ) (log : List Event) :
    streamPull (m.after log) = StreamAfter log (streamPull m) := by
  unfold streamPull
  rw [Machine.after]
  dsimp only
  rw [Io.after_pull]
  generalize m.io.pull _ _ = pulled
  obtain ⟨pulled, io⟩ := pulled
  dsimp only
  cases pulled with
  | error =>
    have habort := streamAbort_after { m with io := io } log
    rw [Machine.after] at habort
    dsimp only at habort ⊢
    rw [habort]
    rfl
  | data payload =>
    cases payload with
    | nil => exact streamStage_after _ _ { m with io := io } log
    | cons c payload => exact streamStage_after _ _ { m with io := io } log

theorem streamTurn_after (m : Machine σ) (log : List Event) :
    streamTurn (m.after log) = StreamAfter log (streamTurn m) := by
  have hconn : (m.after log).conn = m.conn := rfl
  unfold streamTurn
  rw [hconn]
  cases m.conn.st.getStream.phase with
  | header => exact streamSend_after _ m log
  | pull => exact streamPull_after m log
  | drain => exact streamSend_after _ m log
  | trailer => exact streamSend_after _ m log
  | done =>
    dsimp only
    rw [streamRelease_after]
    rfl

theorem streamLoop_after (fuel : ℕ) (m : Machine σ) (log : List Event) :
    streamLoop fuel (m.after log) = StepAfter log (streamLoop fuel m) := by
  induction fuel generalizing m with
  | zero => rfl
  | succ fuel ih =>
    rw [streamLoop, streamLoop, streamTurn_after]
    generalize streamTurn m = turned
    obtain ⟨_ | phase, m'⟩ := turned
    · exact ih m'
    · rfl

/-! ## A whole call -/

theorem stepConn_after (router : Router σ) (m : Machine σ) (log : List Event) :
    stepConn router (m.after log) = StepAfter log (stepConn router m) := by
  have hconn : (m.after log).conn = m.conn := rfl
  unfold stepConn
  rw [hconn]
  cases m.conn.phase with
  | readingRequest => exact stepHeaderRead_after m log
  | sending100 => exact stepSend100_after m log
  | readingBodyCl => exact stepBodyClRead_after m log
  | readingBodyChunked => exact stepBodyChunkedRead_after m log
  | building => exact stepResponseBuild_after router m log
  | sendingResponse => exact stepResponseSend_after m log
  | sendingResponseStream => exact streamLoop_after _ m log
  | closed => rfl

theorem stepPhase_after (router : Router σ) (m : Machine σ) (log : List Event) :
    stepPhase router (m.after log) = (stepPhase router m).after log := by
  unfold stepPhase
  rw [stepConn_after]
  generalize stepConn router m = r
  obtain ⟨phase, m'⟩ := r
  dsimp only [StepAfter]
  have hemit := Io.after_emit m'.io log
  unfold Machine.after
  dsimp only
  rw [hemit]

theorem stepProcessLoop_after (router : Router σ) (fuel : ℕ) (m : Machine σ) (log : List Event) :
    stepProcessLoop router fuel (m.after log) = (stepProcessLoop router fuel m).after log := by
  induction fuel generalizing m with
  | zero => rfl
  | succ fuel ih =>
    rw [stepProcessLoop, stepProcessLoop, stepPhase_after]
    have hphase : ((stepPhase router m).after log).conn.phase = (stepPhase router m).conn.phase ∧
        (m.after log).conn.phase = m.conn.phase := ⟨rfl, rfl⟩
    rw [hphase.1, hphase.2, ih]
    split <;> rfl

/-- `connection_step_process` does not read the log. -/
theorem connectionStepProcess_after (router : Router σ) (m : Machine σ) (log : List Event) :
    connectionStepProcess router (m.after log) = (connectionStepProcess router m).after log :=
  stepProcessLoop_after router _ m log

end HttpServer
