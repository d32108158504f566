import HttpServer.ConnectionRuns
import HttpServer.RequestLocality

/-!
# The head behind a connection

From the end of a head until its response, the connection holds the bytes of that
head and what `request_parse` and the framing have made of them. Whatever is
buffered is the end of what has been received.
-/

namespace HttpServer

variable {σ : Type*} {router : Router σ} {allowed : Machine σ → Prop} {m m' : Machine σ}
  {pre post conn : Connection} {evs : List Event}

/-! ## The head that is being served -/

/-- The part of a request that the head determines. -/
def HttpRequest.bodiless (req : HttpRequest) : HttpRequest := { req with body := none, bodyLen := 0 }

/-- The buffered head has been parsed, and has decided over host and framing. -/
structure Connection.Headed (conn : Connection) : Prop where
  parsed : RequestHead conn.headBytes conn.reqParsed.bodiless
  host : isHttp10 conn.reqParsed = false →
    (headerFind conn.reqParsed.headers (ascii "host")).isSome
  http10 : isHttp10 conn.reqParsed → conn.bodyCoding ≠ .chunked
  framed : conn.FramedByHead

/-- The fields of a connection that `Headed` is about. -/
structure Connection.SameHead (conn conn' : Connection) : Prop where
  head : conn'.headBytes = conn.headBytes
  request : conn'.reqParsed.bodiless = conn.reqParsed.bodiless
  coding : conn'.bodyCoding = conn.bodyCoding
  length : conn'.bodyLen = conn.bodyLen

theorem Connection.Headed.of_same {conn' : Connection} (h : conn.Headed)
    (hsame : conn.SameHead conn') : conn'.Headed := by
  have hline : conn'.reqParsed.requestLine = conn.reqParsed.requestLine := by
    simpa [HttpRequest.bodiless] using congrArg HttpRequest.requestLine hsame.request
  have hheaders : conn'.reqParsed.headers = conn.reqParsed.headers := by
    simpa [HttpRequest.bodiless] using congrArg HttpRequest.headers hsame.request
  have h10 : isHttp10 conn'.reqParsed = isHttp10 conn.reqParsed := by
    rw [isHttp10, isHttp10, hline]
  obtain ⟨hparsed, hhost, hhttp10, hcoding, hsupported, hlength⟩ := h
  refine ⟨?_, ?_, ?_, ?_, ?_, ?_⟩
  · rw [hsame.head, hsame.request]
    exact hparsed
  · rw [h10, hheaders]
    exact hhost
  · rw [h10, hsame.coding]
    exact hhttp10
  · rw [hheaders, hsame.coding]
    exact hcoding
  · rw [hsame.coding]
    exact hsupported
  · rw [hheaders, hsame.coding, hsame.length]
    exact hlength

theorem Connection.dispatched_sameHead (conn : Connection) : conn.SameHead conn.dispatched := by
  unfold dispatched phaseBodyDispatch
  split
  · exact ⟨rfl, rfl, rfl, rfl⟩
  · split <;> exact ⟨rfl, rfl, rfl, rfl⟩

theorem Connection.dispatched_reqBuf (conn : Connection) :
    conn.dispatched.mem.reqBuf = conn.mem.reqBuf := by
  unfold dispatched phaseBodyDispatch
  split
  · rfl
  · split <;> rfl

/-- Bytes that arrive behind the head leave it as it is. -/
theorem Connection.HeadRead.headBytes_received {conn' : Connection} {got : Bytes}
    (h : conn.HeadRead) (hreceived : conn.mem.reqBuf.Received got conn'.mem.reqBuf)
    (hstart : conn'.bodyStart = conn.bodyStart) : conn'.headBytes = conn.headBytes := by
  rw [headBytes, headBytes, hstart, hreceived.contents,
    List.take_append_of_le_length h.bodyStart_le]

/-! ## What an accepted head is -/

theorem headFraming_http10 {read : Connection} {verdict : HeadVerdict}
    (h : headFraming conn = (verdict, read)) (hne : ∀ status, verdict ≠ .error status)
    (h10 : isHttp10 conn.reqParsed) : read.bodyCoding ≠ .chunked := by
  unfold headFraming at h
  dsimp only at h
  generalize teHeadersScan conn.reqParsed.headers .none .ok = scanned at h
  obtain ⟨coding, status⟩ := scanned
  dsimp only at h
  have error : ∀ {s r}, (HeadVerdict.error s, r) ≠ (verdict, read) :=
    fun heq => hne _ (Prod.mk.inj heq).1.symm
  split at h
  · exact absurd h error
  · split at h
    · exact absurd h error
    · split at h
      · exact absurd h error
      · next hchunked =>
        have hcoding : coding ≠ .chunked := fun heq => hchunked ⟨h10, heq⟩
        split at h
        · rw [← (Prod.mk.inj h).2]
          exact hcoding
        · split at h
          · exact absurd h error
          · split at h
            · rw [← (Prod.mk.inj h).2]
              exact hcoding
            · exact absurd h error

theorem headAccept_http10 {read : Connection} {bodyStart : ℕ} {verdict : HeadVerdict}
    (h : headAccept conn bodyStart = (verdict, read)) (hne : ∀ status, verdict ≠ .error status)
    (h10 : isHttp10 read.reqParsed) : read.bodyCoding ≠ .chunked := by
  have hrequest := ((headAccept_spec h).2 hne).request
  unfold headAccept at h
  generalize requestParse conn.mem.reqBuf.contents conn.reqParsed = parsed at h hrequest
  obtain ⟨parseRes, req⟩ := parsed
  dsimp only at h hrequest
  rw [hrequest] at h10
  split at h
  · exact absurd (Prod.mk.inj h).1.symm (hne _)
  · exact headFraming_http10 h hne h10

/-- A head that is not answered with an error is the one that `request_parse` has found at the
beginning of the buffer. -/
theorem headAccept_headed {buf : HttpBuffer} {read : Connection} {terminator : ℕ}
    {verdict : HeadVerdict} (hfresh : conn.reqParsed = {})
    (hfind : memmem buf.contents HEADER_END = some terminator)
    (h : headAccept { conn with mem.reqBuf := buf } (terminator + 4) = (verdict, read))
    (hne : ∀ status, verdict ≠ .error status) :
    read.Headed ∧ read.reqParsed.body = none ∧ read.reqParsed.bodyLen = 0 := by
  obtain ⟨hframe, haccepts⟩ := headAccept_spec h
  obtain ⟨-, hnext⟩ := requestParse_take (firstBlank_of_memmem hfind) {}
  obtain ⟨hparsed, hrequest, hstart, hhost, -, hframed⟩ := haccepts hne
  simp only [hfresh] at hparsed hrequest
  generalize hparse : requestParse buf.contents {} = parsed at hparsed hrequest hnext
  obtain ⟨res, req⟩ := parsed
  obtain ⟨n, hn, hhead, rfl⟩ := requestParse_sound hparse hparsed
  have hend : n = terminator + 4 := Option.some.inj (hnext rfl)
  rw [← show read.reqParsed = req from hrequest, hend] at hhead
  have hbodiless : read.reqParsed.bodiless = read.reqParsed := by
    rw [HttpRequest.bodiless, ← hhead.body, ← hhead.bodyLen]
  refine ⟨⟨?_, hhost, headAccept_http10 h hne, hframed.toFramedByHead⟩, hhead.body,
    hhead.bodyLen⟩
  rw [hbodiless, Connection.headBytes, hstart, hframe.mem]
  exact hhead

/-! ## Along a run -/

structure Connection.HeadTracked (conn : Connection) : Prop where
  fresh : conn.phase = .readingRequest → conn.reqParsed = {}
  headed : conn.phase.AfterHead → conn.Headed

/-- Between two heads nothing counts. -/
theorem Connection.HeadTracked.of_answering (hphase : ¬ conn.phase.AfterHead)
    (hread : conn.phase ≠ .readingRequest) : conn.HeadTracked :=
  ⟨fun h => absurd h hread, fun h => absurd h hphase⟩

theorem Connection.HeadTracked.of_headed (h : conn.Headed) (hphase : conn.phase ≠ .readingRequest) :
    conn.HeadTracked := ⟨fun hread => absurd hread hphase, fun _ => h⟩

theorem Connection.dispatched_headTracked (h : conn.Headed) : conn.dispatched.HeadTracked := by
  refine .of_headed (h.of_same conn.dispatched_sameHead) ?_
  rcases conn.dispatched_phase with hphase | hphase | hphase <;> rw [hphase] <;> simp

/-- A connection that goes on after a response has no request yet. -/
theorem Connection.completed_fresh (hphase : conn.completed.phase = .readingRequest) :
    conn.completed.reqParsed = {} ∧ conn.completed.bodyLen = 0 := by
  unfold completed responseComplete at hphase ⊢
  dsimp only at hphase ⊢
  split at hphase
  · cases hphase
  · next hkeep =>
    rw [if_neg hkeep]
    exact ⟨rfl, rfl⟩

theorem Connection.completed_headTracked (conn : Connection) : conn.completed.HeadTracked where
  fresh hphase := (completed_fresh hphase).1
  headed hphase := absurd hphase conn.completed_not_afterHead

theorem Turn.headTracked (h : Turn pre evs post) (hwf : pre.WellFormed)
    (hpre : pre.HeadTracked) : post.HeadTracked := by
  cases h with
  | headWaits hphase => exact ⟨fun _ => hpre.fresh hphase, fun h => absurd h
      (ConnPhase.not_afterHead (by simp))⟩
  | headContinue hphase hread hfind haccept =>
    obtain ⟨hheaded, -⟩ := headAccept_headed (hpre.fresh hphase) hfind haccept (by simp)
    exact .of_headed (hheaded.of_same ⟨rfl, rfl, rfl, rfl⟩) (by simp)
  | headAccepted hphase hread hfind haccept =>
    obtain ⟨hheaded, -⟩ := headAccept_headed (hpre.fresh hphase) hfind haccept (by simp)
    exact Connection.dispatched_headTracked hheaded
  | continueWaits hphase =>
    exact .of_headed ((hpre.headed (.inl hphase)).of_same ⟨rfl, rfl, rfl, rfl⟩) (by simp)
  | continueSent hphase =>
    exact Connection.dispatched_headTracked
      ((hpre.headed (.inl hphase)).of_same ⟨rfl, rfl, rfl, rfl⟩)
  | lengthWaits hphase hread =>
    have hhead := hwf.head (.inr (.inl hphase))
    exact .of_headed ((hpre.headed (.inr (.inl hphase))).of_same
      ⟨hhead.headBytes_received hread.received rfl, rfl, rfl, rfl⟩) (by simp)
  | lengthDone hphase hread =>
    have hhead := hwf.head (.inr (.inl hphase))
    exact .of_headed ((hpre.headed (.inr (.inl hphase))).of_same
      ⟨hhead.headBytes_received hread.received rfl, rfl, rfl, rfl⟩) (by simp)
  | chunkedWaits hphase hread =>
    have hhead := hwf.head (.inr (.inr (.inl hphase)))
    exact .of_headed ((hpre.headed (.inr (.inr (.inl hphase)))).of_same
      ⟨hhead.headBytes_received hread.read.received rfl, rfl, rfl, rfl⟩) (by simp)
  | chunkedDone hphase hread =>
    have hhead := hwf.head (.inr (.inr (.inl hphase)))
    exact .of_headed ((hpre.headed (.inr (.inr (.inl hphase)))).of_same
      ⟨hhead.headBytes_received hread.read.received rfl, rfl, rfl, rfl⟩) (by simp)
  | sendDone => exact Connection.completed_headTracked _
  | streamTurns hphase hsends hend =>
    cases hend with
    | done => exact Connection.completed_headTracked _
    | waits => exact .of_answering (ConnPhase.not_afterHead (by simp)) (by simp)
    | closes => exact .of_answering (ConnPhase.not_afterHead (by simp)) (by simp)
  | _ => exact .of_answering (ConnPhase.not_afterHead (by simp)) (by simp)

theorem Reaches.headTracked (h : Reaches router allowed m m') (hwf : m.conn.WellFormed)
    (hm : m.conn.HeadTracked) : m'.conn.HeadTracked := by
  refine Runs.invariant (fun m => m.conn.HeadTracked) h hm fun a b hreaches ha hnext => ?_
  cases hnext with
  | wake w => exact ha
  | turn hopen =>
    have hwf' := Reaches.wellFormed hreaches hwf
    obtain ⟨evs, hturn, -⟩ := stepPhase_turn router hwf' hopen
    exact hturn.headTracked hwf' ha

theorem Machine.ofSlot_headTracked (slot : Connection) (backing backingCap : ℕ) (newFd : ℤ)
    (world : World σ) :
    (Machine.ofSlot slot backing backingCap newFd world).conn.HeadTracked :=
  ⟨fun _ => rfl, fun h => absurd h (ConnPhase.not_afterHead (.inl rfl))⟩

/-! ## The buffered bytes -/

theorem HttpBuffer.contents_of_read {b b' : HttpBuffer} {outs : List RecvOutcome}
    (h : b.Read outs b') : b'.contents = b.contents ++ received (outs.map Event.recv) := by
  rw [received_map_recv, h.received.contents]

/-- Only the turn that builds a response takes bytes out of the buffer. -/
theorem Turn.receives (h : Turn pre evs post) (hne : pre.phase ≠ .building) :
    post.mem.reqBuf.contents = pre.mem.reqBuf.contents ++ received evs := by
  have stages : ∀ {outs : List RecvOutcome} {buf : HttpBuffer} {byError keepAlive text},
      pre.mem.reqBuf.Read outs buf → buf.contents = pre.mem.reqBuf.contents ++
        received (outs.map Event.recv ++ [.staged byError keepAlive text]) := by
    intro outs buf byError keepAlive text hread
    have hnone : received [Event.staged byError keepAlive text] = [] := rfl
    rw [received_append, hnone, List.append_nil]
    exact HttpBuffer.contents_of_read hread
  have same : ∀ evs', received evs' = [] →
      pre.mem.reqBuf.contents = pre.mem.reqBuf.contents ++ received evs' := by
    intro evs' hnone
    rw [hnone, List.append_nil]
  cases h with
  | headWaits hphase hread => exact HttpBuffer.contents_of_read hread
  | headCloses hphase hread => exact HttpBuffer.contents_of_read hread
  | headTooLong hphase hread => exact stages hread
  | headRejected hphase hread hfind haccept =>
    simp only [Connection.answering, (headAccept_spec haccept).1.mem]
    exact stages hread
  | headContinue hphase hread hfind haccept =>
    rw [(headAccept_spec haccept).1.mem]
    exact HttpBuffer.contents_of_read hread
  | headAccepted hphase hread hfind haccept =>
    rw [Connection.dispatched_reqBuf, (headAccept_spec haccept).1.mem]
    exact HttpBuffer.contents_of_read hread
  | continueSent =>
    rw [Connection.dispatched_reqBuf]
    exact same _ rfl
  | lengthWaits hphase hread => exact HttpBuffer.contents_of_read hread
  | lengthDone hphase hread => exact HttpBuffer.contents_of_read hread
  | lengthFails hphase hread => exact stages hread
  | chunkedWaits hphase hread => exact HttpBuffer.contents_of_read hread.read
  | chunkedDone hphase hread => exact HttpBuffer.contents_of_read hread.read
  | chunkedFails hphase hread => exact stages hread.read
  | builtBuffered hphase => exact absurd hphase hne
  | builtStream hphase => exact absurd hphase hne
  | sendDone =>
    unfold Connection.completed
    rw [responseComplete_reqBuf]
    exact same _ rfl
  | streamTurns hphase hsends hend =>
    rw [hend.reqBuf]
    refine same _ (List.flatMap_eq_nil_iff.mpr fun e he => ?_)
    obtain ⟨offered, o, rfl⟩ := hsends e he
    rfl
  | _ => exact same _ rfl

/-- That turn goes by `next_req_offset`. -/
theorem Turn.consumes (h : Turn pre evs post) (hwf : pre.WellFormed)
    (hbuilding : pre.phase = .building) :
    received evs = [] ∧ post.mem.reqBuf.contents =
      if 0 < pre.nextReqOffset then pre.mem.reqBuf.contents.drop pre.nextReqOffset else [] := by
  have other : ∀ {phase : ConnPhase}, pre.phase = phase → phase ≠ .building → False :=
    fun hphase hne => hne (hphase.symm.trans hbuilding)
  cases h with
  | builtBuffered =>
    exact ⟨rfl, (requestConsume_reqBuf (pre.prepared _ _ _) hwf.backed).2⟩
  | builtStream =>
    exact ⟨rfl, (requestConsume_reqBuf (pre.prepared _ _ _) hwf.backed).2⟩
  | headWaits h | headCloses h | headTooLong h | headRejected h | headContinue h
  | headAccepted h | continueWaits h | continueSent h | continueCloses h | lengthWaits h
  | lengthDone h | lengthFails h | chunkedWaits h | chunkedDone h | chunkedFails h
  | sendWaits h | sendDone h | sendCloses h | streamTurns h => exact (other h (by simp)).elim

/-- A turn adds what it receives to the buffered bytes, or drops some at their beginning. -/
theorem Turn.contents_suffix (h : Turn pre evs post) (hwf : pre.WellFormed) :
    post.mem.reqBuf.contents <:+ pre.mem.reqBuf.contents ++ received evs := by
  by_cases hbuilding : pre.phase = .building
  · obtain ⟨hnone, hcontents⟩ := h.consumes hwf hbuilding
    rw [hcontents, hnone, List.append_nil]
    split
    · exact List.drop_suffix _ _
    · exact List.nil_suffix
  · rw [h.receives hbuilding]

theorem stepPhase_received (router : Router σ) (hwf : m.conn.WellFormed)
    (hopen : m.conn.phase ≠ .closed) :
    ∃ evs, Turn m.conn evs (stepPhase router m).conn ∧
      received (stepPhase router m).io.log = received m.io.log ++ received evs := by
  obtain ⟨evs, hturn, hlog⟩ := stepPhase_turn router hwf hopen
  have hnone : received [Event.step m.conn (stepPhase router m).conn] = [] := rfl
  refine ⟨evs, hturn, ?_⟩
  rw [← received_visible, hlog, received_append, received_append, received_visible, hnone,
    List.append_nil]

/-- Whatever is buffered is the end of what has been received. -/
theorem Reaches.contents_suffix (h : Reaches router allowed m m') (hwf : m.conn.WellFormed)
    (hm : m.conn.mem.reqBuf.contents <:+ received m.io.log) :
    m'.conn.mem.reqBuf.contents <:+ received m'.io.log := by
  refine Runs.invariant (fun m => m.conn.mem.reqBuf.contents <:+ received m.io.log) h hm
    fun a b hreaches ha hnext => ?_
  cases hnext with
  | wake w => exact ha
  | turn hopen =>
    have hwf' := Reaches.wellFormed hreaches hwf
    obtain ⟨evs, hturn, hreceived⟩ := stepPhase_received router hwf' hopen
    rw [hreceived]
    refine (hturn.contents_suffix hwf').trans ?_
    obtain ⟨front, hfront⟩ := ha
    exact ⟨front, by rw [← List.append_assoc, hfront]⟩

/-! ## The step at a head -/

/-- The connection when `conn_recv_header` returns. -/
def Machine.headerRead (m : Machine σ) : Connection :=
  { m.conn with mem.reqBuf := (connRecvHeader m.conn.fd m.conn.mem.reqBuf m.io).2.1 }

/-- The head of `req` is at the beginning of what is buffered when `conn_recv_header` returns. -/
structure Machine.AtHead (m : Machine σ) (head : Bytes) (req : HttpRequest) : Prop where
  phase : m.conn.phase = .readingRequest
  buffered : head <+: m.headerRead.mem.reqBuf.contents
  parsed : RequestHead head req

/-- Where the verdict on a head takes the connection. -/
def Connection.Heads (read : Connection) : HeadVerdict → Connection → Prop
  | .error _, post => ∃ resp, post = read.answering resp
  | .send100, post => post = { read with st := .send {}, phase := .sending100 }
  | .dispatch, post => post = read.dispatched

theorem RequestHead.contains_end {head : Bytes} {req : HttpRequest}
    (h : RequestHead head req) : HEADER_END <:+: head := by
  obtain ⟨front, rfl⟩ := h.terminated
  exact (List.suffix_append front (CRLF ++ CRLF)).isInfix

/-- HEAD is not among the methods that are recognised. -/
theorem RequestHead.method_ne_head {head : Bytes} {req : HttpRequest} (h : RequestHead head req) :
    req.requestLine.method ≠ .head := by
  obtain ⟨line, fields, -, hline, -⟩ := h.split
  intro heq
  have hmethod := hline.method
  rw [heq] at hmethod
  simp [requestMethods] at hmethod

/-- The first empty line of the buffer is the end of the head. -/
theorem RequestHead.memmem_eq {head buf : Bytes} {req : HttpRequest} (h : RequestHead head req)
    (hbuf : head <+: buf) :
    ∃ terminator, memmem buf HEADER_END = some terminator ∧ head.length = terminator + 4 ∧
      requestParse buf {} = ({ next := some head.length }, req) := by
  have hparse : requestParse buf {} = ({ next := some head.length }, req) := by
    refine requestParse_complete hbuf.length_le ?_
    rwa [List.prefix_iff_eq_take.mp hbuf] at h
  obtain ⟨terminator, hfind⟩ := memmem_of_infix (h.contains_end.trans hbuf.isInfix)
  obtain ⟨-, hnext⟩ := requestParse_take (firstBlank_of_memmem hfind) {}
  rw [hparse] at hnext
  exact ⟨terminator, hfind, Option.some.inj (hnext rfl), hparse⟩

/-- What `step_header_read` makes of the fields that `request_parse` has filled in. -/
theorem headAccept_of_parse {req : HttpRequest} {n bodyStart : ℕ}
    (h : requestParse conn.mem.reqBuf.contents conn.reqParsed = ({ next := some n }, req)) :
    headAccept conn bodyStart =
      if isHttp10 req then headFraming { conn with reqParsed := req, bodyStart := bodyStart }
      else if (headerFind req.headers (ascii "host")).isNone then
        (.error .badRequest, { conn with reqParsed := req, bodyStart := bodyStart })
      else headFraming
        { conn with
          reqParsed := req
          bodyStart := bodyStart
          keepAlive := keepAliveNegotiate { conn with reqParsed := req, bodyStart := bodyStart } } := by
  unfold headAccept
  rw [h]
  rfl

/-- The turn at a head goes where `headAccept` says. -/
theorem stepPhase_atHead (router : Router σ) {head : Bytes} {req : HttpRequest}
    {verdict : HeadVerdict} {read : Connection} (h : m.AtHead head req)
    (hb : m.conn.mem.reqBuf.Backed)
    (haccept : headAccept m.headerRead head.length = (verdict, read)) :
    read.Heads verdict (stepPhase router m).conn := by
  obtain ⟨terminator, hfind, hlen, -⟩ := h.parsed.memmem_eq h.buffered
  obtain ⟨outs, -, -, hend, -⟩ := connRecvHeader_spec m.conn.fd m.io hb
  have hstep : stepConn router m = stepHeaderRead m := by simp only [stepConn, h.phase]
  rw [stepPhase_conn, hstep, stepHeaderRead]
  unfold Machine.headerRead at hfind haccept
  generalize connRecvHeader m.conn.fd m.conn.mem.reqBuf m.io = result at hfind haccept hend ⊢
  obtain ⟨⟨status, total, bodyStart⟩, buf, io⟩ := result
  dsimp only at hfind haccept hend ⊢
  cases status with
  | ok =>
    obtain ⟨terminator', hfind', rfl⟩ := hend
    obtain rfl : terminator = terminator' := Option.some.inj (hfind.symm.trans hfind')
    rw [← hlen]
    dsimp only [Machine.assert]
    rw [haccept]
    cases verdict with
    | error status =>
      obtain ⟨resp, text, -, hconn, -⟩ := Machine.errorBegin_spec
        { ({ m with conn.mem.reqBuf := buf, io := io } : Machine σ).assert
          (decide (head.length ≤ total)) with conn := read } status
      exact ⟨resp, hconn⟩
    | send100 => rfl
    | dispatch => rfl
  | _ =>
    have hnone : memmem buf.contents HEADER_END = none := hend.1
    rw [hfind] at hnone
    cases hnone

end HttpServer
