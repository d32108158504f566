import HttpServer.Announcements
import HttpServer.ConnectionRuns

/-!
# Announced and actual persistence

What the head of a response says about the connection is fixed when the response is
staged. While the response is sent, the connection remembers enough to compare what
the lines of the head say with what happens when the last byte is out.
-/

namespace HttpServer

variable {σ : Type*} {router : Router σ} {m m₁ m' : Machine σ} {pre post : Connection}
  {evs : List Event}

/-! ## The response staged last -/

def Event.isStaged : Event → Bool
  | .staged _ _ _ => true
  | _ => false

def lastStaged (log : List Event) : Option Event := (log.filter Event.isStaged).getLast?

theorem filter_isStaged_visible (log : List Event) :
    (visible log).filter Event.isStaged = log.filter Event.isStaged := by
  have hstaged : ∀ e : Event, (e.isStaged && e.visible) = e.isStaged := by
    intro e
    cases e <;> rfl
  unfold visible
  rw [List.filter_filter]
  congr 1
  funext e
  exact hstaged e

theorem lastStaged_visible (log : List Event) : lastStaged (visible log) = lastStaged log := by
  rw [lastStaged, filter_isStaged_visible]
  rfl

/-- A log that ends with a staged response and a turn. -/
theorem lastStaged_append_staged (log : List Event) (byError keepAlive : Bool)
    (text : Option Bytes) :
    lastStaged (log ++ [.staged byError keepAlive text] ++ [.step pre post]) =
      some (.staged byError keepAlive text) := by
  have hstaged : [Event.staged byError keepAlive text].filter Event.isStaged =
      [.staged byError keepAlive text] := rfl
  have hstep : [Event.step pre post].filter Event.isStaged = [] := rfl
  rw [lastStaged, List.filter_append, List.filter_append, hstaged, hstep, List.append_nil]
  exact List.getLast?_concat

theorem lastStaged_append_quiet (log : List Event) (hquiet : ∀ e ∈ evs, e.isStaged = false) :
    lastStaged (log ++ evs ++ [.step pre post]) = lastStaged log := by
  have hevs : evs.filter Event.isStaged = [] :=
    List.filter_eq_nil_iff.mpr fun e he => by rw [hquiet e he]; simp
  have hstep : [Event.step pre post].filter Event.isStaged = [] := rfl
  rw [lastStaged, List.filter_append, List.filter_append, hevs, hstep, List.append_nil,
    List.append_nil]
  rfl

def ConnPhase.Sends (phase : ConnPhase) : Prop :=
  phase = .sendingResponse ∨ phase = .sendingResponseStream

/-- A canned error, or nothing when not even that could be serialized. -/
def CannedText (text : Option Bytes) : Prop :=
  ∀ t ∈ text, ∃ status now, t = responseText (responseErrorFromStatus status) false now

/-- How a connection comes to send a response: a turn stages it, or the turn only sends and the
connection stays the same in what counts for its persistence. -/
theorem Turn.sends (h : Turn pre evs post) (hpost : post.phase.Sends) :
    (∃ front byError keepAlive text, evs = front ++ [.staged byError keepAlive text] ∧
      (∀ e ∈ front, e.isStaged = false) ∧ keepAlive = (!byError && post.keepAlive) ∧
      (pre.phase = .building ∨ byError = true ∧ pre.phase ≠ .building ∧ CannedText text)) ∨
    (pre.phase.Sends ∧ (∀ e ∈ evs, e.isStaged = false) ∧ post.keepAlive = pre.keepAlive) := by
  have recv : ∀ outs : List RecvOutcome, ∀ e ∈ outs.map Event.recv, e.isStaged = false := by
    intro outs e he
    obtain ⟨o, -, rfl⟩ := List.mem_map.mp he
    rfl
  have error : ∀ (outs : List RecvOutcome) (resp : HttpBuffer) (text : Option Bytes)
      (conn : Connection), pre.phase ≠ .building → resp.StagedError text →
      ∃ front byError keepAlive text', outs.map Event.recv ++ [Event.staged true false text] =
        front ++ [Event.staged byError keepAlive text'] ∧ (∀ e ∈ front, e.isStaged = false) ∧
        keepAlive = (!byError && conn.keepAlive) ∧
        (pre.phase = .building ∨ byError = true ∧ pre.phase ≠ .building ∧ CannedText text') := by
    intro outs resp text conn hphase hstaged
    exact ⟨outs.map Event.recv, true, false, text, rfl, recv outs, rfl,
      .inr ⟨rfl, hphase, hstaged.canned⟩⟩
  have neither : ∀ {phase : ConnPhase}, phase = .closed ∨ phase = .readingRequest ∨
      phase.AfterHead → ¬ phase.Sends := by
    rintro phase (rfl | rfl | rfl | rfl | rfl | rfl) (h | h) <;> cases h
  have dispatched : ∀ conn : Connection, ¬ conn.dispatched.phase.Sends := by
    intro conn
    rcases conn.dispatched_phase with h | h | h <;> rw [h] <;>
      exact neither (by simp [ConnPhase.AfterHead])
  have completed : ∀ conn : Connection, ¬ conn.completed.phase.Sends := by
    intro conn
    rcases conn.completed_phase with h | h <;> rw [h] <;> exact neither (by simp)
  cases h with
  | headWaits => exact absurd hpost (neither (.inr (.inl rfl)))
  | headCloses => exact absurd hpost (neither (.inl rfl))
  | headTooLong hphase hread hnone hfull hstaged =>
    exact .inl (error _ _ _ _ (by rw [hphase]; simp) hstaged)
  | headRejected hphase hread hfind haccept hstaged =>
    exact .inl (error _ _ _ _ (by rw [hphase]; simp) hstaged)
  | headContinue => exact absurd hpost (neither (.inr (.inr (.inl rfl))))
  | headAccepted => exact absurd hpost (dispatched _)
  | continueWaits => exact absurd hpost (neither (.inr (.inr (.inl rfl))))
  | continueSent => exact absurd hpost (dispatched _)
  | continueCloses => exact absurd hpost (neither (.inl rfl))
  | lengthWaits => exact absurd hpost (neither (.inr (.inr (.inr (.inl rfl)))))
  | lengthDone => exact absurd hpost (neither (.inr (.inr (.inr (.inr (.inr rfl))))))
  | lengthFails hphase hread hcount hless hcause hstaged =>
    exact .inl (error _ _ _ _ (by rw [hphase]; simp) hstaged)
  | chunkedWaits => exact absurd hpost (neither (.inr (.inr (.inr (.inr (.inl rfl))))))
  | chunkedDone => exact absurd hpost (neither (.inr (.inr (.inr (.inr (.inr rfl))))))
  | chunkedFails hphase hread hok hmore hlast hstaged =>
    exact .inl (error _ _ _ _ (by rw [hphase]; simp) hstaged)
  | builtBuffered hphase hstaged =>
    exact .inl ⟨[], false, _, _, rfl, by simp, rfl, .inl hphase⟩
  | builtStream hphase hstaged =>
    exact .inl ⟨[], false, _, _, rfl, by simp, rfl, .inl hphase⟩
  | sendWaits hphase => exact .inr ⟨.inl hphase, by simp [Event.isStaged], rfl⟩
  | sendDone => exact absurd hpost (completed _)
  | sendCloses => exact absurd hpost (neither (.inl rfl))
  | streamTurns hphase hsends hend =>
    refine .inr ⟨.inr hphase, ?_, ?_⟩
    · intro e he
      obtain ⟨offered, o, rfl⟩ := hsends e he
      rfl
    · cases hend with
      | waits hstreamed =>
        obtain ⟨resp, st, producer, rfl⟩ := hstreamed
        rfl
      | closes => exact absurd hpost (neither (.inl rfl))
      | @done sent => exact absurd hpost (completed sent)

/-! ## Which response is staged -/

/-- The response with its body or without. -/
def HttpResponse.SameHead (resp res : HttpResponse) : Prop :=
  ∃ headOnly, resp = { res with headOnly := headOnly }

/-- The response of a turn that stages one: an error that `response_error_serialize` stages, the
response that `step_response_build` chooses, or the error in its place that fits. -/
inductive Machine.Responds (router : Router σ) (m : Machine σ) : Bool → HttpResponse → Prop where
  | error (status : ParseStatus) (hphase : m.conn.phase ≠ .building) :
      Responds router m true (responseErrorFromStatus status)
  | chosen {resp} (hphase : m.conn.phase = .building)
      (hresp : resp.SameHead (responseDispatch router m).1) : Responds router m false resp
  | fallback {resp} (hphase : m.conn.phase = .building)
      (hresp : resp.SameHead (responseErrorFromStatus .serverError)) : Responds router m false resp

/-- All that a step has called since `m` is that it staged `resp`. -/
def Machine.Puts (m m' : Machine σ) (resp : HttpResponse) : Prop :=
  ∃ text, visible m'.io.log = visible m.io.log ++ [.staged false m.conn.keepAlive text] ∧
    ∀ t ∈ text, ∃ now, t = responseText resp m.conn.keepAlive now

theorem buildBuffered_puts (h : m.Prepared m₁) (res : HttpResponse) :
    ∃ resp, m.Puts (buildBuffered res m₁).2 resp ∧
      (resp.SameHead res ∨ resp.SameHead (responseErrorFromStatus .serverError)) := by
  have hanswers : ∃ headOnly, (if m₁.conn.reqParsed.requestLine.method = .head then
      { res with headOnly := true } else res) = { res with headOnly := headOnly } := by
    split
    · exact ⟨true, rfl⟩
    · exact ⟨res.headOnly, rfl⟩
  unfold buildBuffered
  obtain ⟨headOnly, hres⟩ := hanswers
  rw [hres]
  dsimp only
  by_cases hfailed : (m₁.serialize { res with headOnly := headOnly }).1.failed
  · simp only [hfailed, if_true]
    obtain ⟨-, -, -, text, -, htext, -, hlog⟩ :=
      (h.serialize { res with headOnly := headOnly }).staged
        (responseErrorFromStatus .serverError) _
    exact ⟨_, ⟨text, hlog, htext⟩, .inr ⟨_, rfl⟩⟩
  · simp only [hfailed]
    obtain ⟨-, -, -, text, -, htext, -, hlog⟩ := h.staged { res with headOnly := headOnly } _
    exact ⟨_, ⟨text, hlog, htext⟩, .inl ⟨headOnly, rfl⟩⟩

theorem responseBuild_puts (h : m.Prepared m₁) (res : HttpResponse) :
    ∃ resp, m.Puts (responseBuild res m₁).2 resp ∧
      (resp.SameHead res ∨ resp.SameHead (responseErrorFromStatus .serverError)) := by
  unfold responseBuild
  cases res.body with
  | none => exact buildBuffered_puts h res
  | buffer body size => exact buildBuffered_puts h res
  | stream stream =>
    have h₁ : m.Prepared { m₁ with conn.producer := stream } := by
      obtain ⟨arena, resp, producer, hconn, hlog⟩ := h
      exact ⟨arena, resp, stream, by rw [hconn]; rfl, hlog⟩
    dsimp only
    generalize { m₁ with conn.producer := stream } = m₂ at h₁ ⊢
    split
    · obtain ⟨resp, hputs, hhead⟩ := buildBuffered_puts (h₁.serialize res).release
        (responseErrorFromStatus .serverError)
      exact ⟨resp, hputs, .inr (hhead.elim id id)⟩
    · obtain ⟨-, -, -, text, -, htext, -, hlog⟩ := h₁.staged res true
      exact ⟨res, ⟨text, hlog, htext⟩, .inl ⟨res.headOnly, rfl⟩⟩

theorem stepPhase_puts (router : Router σ) (hphase : m.conn.phase = .building) :
    ∃ resp text, m.Responds router false resp ∧
      lastStaged (stepPhase router m).io.log = some (.staged false m.conn.keepAlive text) ∧
      ∀ t ∈ text, ∃ now, t = responseText resp m.conn.keepAlive now := by
  have hstep : stepConn router m = responseBuild (responseDispatch router m).1
      (responseDispatch router m).2 := by
    simp only [stepConn, hphase, stepResponseBuild]
  obtain ⟨resp, ⟨text, hlog, htext⟩, hhead⟩ :=
    responseBuild_puts (responseDispatch_prepared router m) (responseDispatch router m).1
  refine ⟨resp, text, hhead.elim (.chosen hphase) (.fallback hphase), ?_, htext⟩
  rw [← lastStaged_visible, stepPhase_log, hstep, visible_append, visible_step, hlog]
  exact lastStaged_append_staged _ _ _ _

/-! ## The response in flight -/

/-- `m` sends what has been staged, as `text`, in the turn from `m₀` for `resp`. -/
structure InFlight (router : Router σ) (start m₀ m : Machine σ) (byError keepAlive : Bool)
    (text : Option Bytes) (resp : HttpResponse) : Prop where
  before : Reaches router (fun _ => True) start m₀
  responds : m₀.Responds router byError resp
  text_eq : ∀ t ∈ text, ∃ now, t = responseText resp keepAlive now
  sending : Reaches router (fun m => m.conn.phase.Sends) (stepPhase router m₀) m
  last : lastStaged m.io.log = some (.staged byError keepAlive text)
  keep : keepAlive = (!byError && m.conn.keepAlive)

/-- A turn puts a response in flight, or sends the one that is. -/
theorem stepPhase_inFlight {start : Machine σ} (hwf : m.conn.WellFormed)
    (hopen : m.conn.phase ≠ .closed) (hreaches : Reaches router (fun _ => True) start m)
    (hpre : m.conn.phase.Sends → ∃ m₀ byError keepAlive text resp,
      InFlight router start m₀ m byError keepAlive text resp)
    (hpost : (stepPhase router m).conn.phase.Sends) :
    ∃ m₀ byError keepAlive text resp,
      InFlight router start m₀ (stepPhase router m) byError keepAlive text resp := by
  obtain ⟨evs, hturn, hlog⟩ := stepPhase_turn router hwf hopen
  rcases hturn.sends hpost with
    ⟨front, byError, keepAlive, text, rfl, -, hkeep, hbuilding | ⟨rfl, hphase, hcanned⟩⟩ |
      ⟨hsends, hquiet, hkeep⟩
  · obtain ⟨resp, text', hresponds, hlast, htext⟩ := stepPhase_puts router hbuilding
    have hsame : lastStaged (stepPhase router m).io.log =
        some (.staged byError keepAlive text) := by
      rw [← lastStaged_visible, hlog, ← List.append_assoc]
      exact lastStaged_append_staged _ _ _ _
    rw [hlast, Option.some.injEq, Event.staged.injEq] at hsame
    obtain ⟨rfl, rfl, rfl⟩ := hsame
    exact ⟨m, _, _, _, resp, hreaches, hresponds, htext, .refl, hlast, hkeep⟩
  · have hlast : lastStaged (stepPhase router m).io.log =
        some (.staged true keepAlive text) := by
      rw [← lastStaged_visible, hlog, ← List.append_assoc]
      exact lastStaged_append_staged _ _ _ _
    obtain ⟨status, htext⟩ : ∃ status, ∀ t ∈ text,
        ∃ now, t = responseText (responseErrorFromStatus status) keepAlive now := by
      cases text with
      | none => exact ⟨.serverError, by simp⟩
      | some t =>
        obtain ⟨status, now, ht⟩ := hcanned t rfl
        refine ⟨status, fun t' ht' => ⟨now, ?_⟩⟩
        rw [← Option.some.inj ht', ht, hkeep]
        rfl
    exact ⟨m, _, _, _, _, hreaches, .error status hphase, htext, .refl, hlast, hkeep⟩
  · obtain ⟨m₀, byError, keepAlive, text, resp, hflight⟩ := hpre hsends
    refine ⟨m₀, byError, keepAlive, text, resp, hflight.before, hflight.responds, hflight.text_eq,
      hflight.sending.tail (.turn hopen hsends), ?_, hkeep.symm ▸ hflight.keep⟩
    rw [← lastStaged_visible, hlog, lastStaged_append_quiet _ hquiet, lastStaged_visible]
    exact hflight.last

/-- In every reachable state of a connection that sends a response. -/
theorem Reaches.inFlight {start : Machine σ} (h : Reaches router (fun _ => True) start m')
    (hwf : start.conn.WellFormed) (hstart : ¬ start.conn.phase.Sends)
    (hsends : m'.conn.phase.Sends) : ∃ m₀ byError keepAlive text resp,
      InFlight router start m₀ m' byError keepAlive text resp := by
  refine Runs.invariant (fun m' => m'.conn.phase.Sends → ∃ m₀ byError keepAlive text resp,
    InFlight router start m₀ m' byError keepAlive text resp)
    h (fun h => absurd h hstart) (fun a b hreaches ha hnext => ?_) hsends
  cases hnext with
  | wake w hopen =>
    intro hphase
    obtain ⟨m₀, byError, keepAlive, text, resp, hflight⟩ := ha hphase
    exact ⟨m₀, byError, keepAlive, text, resp, hflight.before, hflight.responds, hflight.text_eq,
      hflight.sending.tail (.wake w hopen), hflight.last, hflight.keep⟩
  | turn hopen => exact stepPhase_inFlight (Reaches.wellFormed hreaches hwf) hopen hreaches ha

/-! ## The last byte is out -/

/-- A turn counts a request only when a response is out. -/
theorem Turn.requests_or_completed (h : Turn pre evs post) :
    post.requests = pre.requests ∨ pre.phase.Sends ∧ ∃ sent : Connection,
      post = sent.completed ∧ sent.requests = pre.requests ∧ sent.keepAlive = pre.keepAlive := by
  cases h with
  | headRejected hphase hread hfind haccept => exact .inl (headAccept_spec haccept).1.requests
  | headContinue hphase hread hfind haccept => exact .inl (headAccept_spec haccept).1.requests
  | headAccepted hphase hread hfind haccept =>
    rw [Connection.dispatched_requests]
    exact .inl (headAccept_spec haccept).1.requests
  | continueSent => exact .inl (Connection.dispatched_requests _)
  | sendDone hphase => exact .inr ⟨.inl hphase, _, rfl, rfl, rfl⟩
  | streamTurns hphase hsends hend =>
    cases hend with
    | waits hstreamed =>
      obtain ⟨resp, st, producer, rfl⟩ := hstreamed
      exact .inl rfl
    | closes hstreamed =>
      obtain ⟨resp, st, producer, rfl⟩ := hstreamed
      exact .inl rfl
    | @done sent hstreamed =>
      obtain ⟨resp, st, producer, rfl⟩ := hstreamed
      exact .inr ⟨.inr hphase, _, rfl, rfl, rfl⟩
  | _ => exact .inl rfl

theorem Turn.completes (h : Turn pre evs post) (hcount : post.requests = pre.requests + 1) :
    pre.phase.Sends ∧ post.phase =
      if !pre.keepAlive || pre.requests + 1 ≥ HTTP_MAX_REQUESTS then .closed
      else .readingRequest := by
  rcases h.requests_or_completed with hsame | ⟨hsends, sent, rfl, hrequests, hkeep⟩
  · omega
  · refine ⟨hsends, ?_⟩
    rw [← hrequests, ← hkeep, ← responseComplete_fst]
    rfl

/-- Where the connection goes that said `keepAlive` in the head of its response. -/
def announcedPhase (keepAlive : Bool) : ConnPhase := if keepAlive then .readingRequest else .closed

/-! ## An unsupported coding on a connection that is kept -/

def gzipHead : Bytes :=
  ascii "GET / HTTP/1.1" ++ CRLF ++ ascii "Host: a" ++ CRLF ++
    ascii "Transfer-Encoding: gzip" ++ CRLF ++ CRLF

/-- The head arrives at once, and `send` takes whatever it is offered. -/
def gzipClient : Machine Unit :=
  newClient.wake { recvs := [.data gzipHead], sends := [.accepted 1000] }

def gzipBuf : HttpBuffer :=
  { newClient.conn.mem.reqBuf with size := gzipHead.length, storage := gzipHead }

/-- The connection that has read the head and negotiated to be kept. -/
def gzipRead : Connection :=
  { newClient.conn with
    mem.reqBuf := gzipBuf
    keepAlive := true
    reqParsed :=
      { requestLine := { path := ascii "/", version := ascii "HTTP/1.1" }
        headers := [⟨ascii "Host", ascii "a"⟩, ⟨ascii "Transfer-Encoding", ascii "gzip"⟩] }
    bodyStart := gzipHead.length
    bodyCoding := .unsupported }

def gzipIo : Io := { sends := [.accepted 1000], log := [.recv (.data gzipHead)] }

/-- The machine after the turn that answers the head. -/
def gzipAnswered : Machine Unit := stepPhase {} gzipClient

theorem gzipClient_step : stepConn {} gzipClient =
    Machine.errorBegin { gzipClient with conn := gzipRead, io := gzipIo } .notImplemented := by
  have hrecv : connRecvHeader gzipClient.conn.fd gzipClient.conn.mem.reqBuf gzipClient.io =
      (⟨.ok, gzipHead.length, gzipHead.length⟩, gzipBuf, gzipIo) := by decide +kernel
  have haccept : headAccept { gzipClient.conn with mem.reqBuf := gzipBuf } gzipHead.length =
      (.error .notImplemented, gzipRead) := by decide +kernel
  exact stepConn_rejected {} rfl hrecv le_rfl haccept

theorem gzipAnswered_conn : ∃ resp, resp.Backed ∧ resp.size = 124 ∧
    gzipAnswered.conn = gzipRead.answering resp := by
  have hsize : (responseErrorSerialize gzipRead.mem.respBuf .notImplemented gzipIo).1.size = 124 ∧
      124 ≤ (responseErrorSerialize gzipRead.mem.respBuf .notImplemented gzipIo).1.storage.length :=
    by decide +kernel
  refine ⟨_, ?_, hsize.1, ?_⟩
  · exact hsize.1.le.trans hsize.2
  · rw [gzipAnswered, stepPhase_conn, gzipClient_step]
    rfl

theorem gzipAnswered_sends : gzipAnswered.io.sends = [.accepted 1000] := by
  rw [gzipAnswered, stepPhase_sends, gzipClient_step, Machine.errorBegin_sends]
  rfl

theorem gzipAnswered_reaches : Reaches {} (fun _ => True) newClient gzipAnswered :=
  .tail (.single (.wake _ (by simp [newClient, Machine.ofSlot, connectionInit])))
    (.turn (by simp [newClient, Machine.ofSlot, connectionInit, Machine.wake]) trivial)

theorem gzipAnswered_completes :
    (stepPhase {} gzipAnswered).conn.requests = gzipAnswered.conn.requests + 1 := by
  obtain ⟨resp, hbacked, hsize, hconn⟩ := gzipAnswered_conn
  refine stepPhase_completes {} (n := 1000) ?_ ?_ ?_ ?_ ?_
  · rw [hconn]
    rfl
  · rw [hconn]
    rfl
  · rw [hconn]
    exact hbacked
  · rw [gzipAnswered_sends]
    rfl
  · rw [hconn]
    show resp.size ≤ 1000
    omega

theorem gzipAnswered_open : gzipAnswered.conn.phase ≠ .closed := by
  obtain ⟨resp, -, -, hconn⟩ := gzipAnswered_conn
  rw [hconn]
  simp

theorem gzipAnswered_wellFormed : gzipAnswered.conn.WellFormed :=
  gzipAnswered_reaches.wellFormed (Machine.ofSlot_wellFormed _ _ _ _ _)

/-- The connection is kept when the error response is out. -/
theorem gzipAnswered_kept : (stepPhase {} gzipAnswered).conn.phase = .readingRequest := by
  obtain ⟨evs, hturn, -⟩ := stepPhase_turn {} gzipAnswered_wellFormed gzipAnswered_open
  obtain ⟨resp, -, -, hconn⟩ := gzipAnswered_conn
  rw [(hturn.completes gzipAnswered_completes).2, hconn]
  rfl

theorem announcements_canned {status : ParseStatus} {now : ℤ} {text : Bytes}
    (h : text = responseText (responseErrorFromStatus status) false now) :
    announcements (headLines text) = [false] := by
  rw [h, announcements_responseText, (announcements_error status).1,
    if_neg (announcements_error status).2]
  rfl

theorem gzipAnswered_lastStaged :
    ∃ text, lastStaged gzipAnswered.io.log = some (.staged true false (some text)) ∧
      announcements (headLines text) = [false] := by
  obtain ⟨resp, text, hstaged, hconn, hlog⟩ := Machine.errorBegin_spec
    { gzipClient with conn := gzipRead, io := gzipIo } .notImplemented
  obtain ⟨resp', -, hsize, hconn'⟩ := gzipAnswered_conn
  rw [gzipAnswered, stepPhase_conn, gzipClient_step, hconn] at hconn'
  obtain rfl : resp = resp' := congrArg (fun conn => conn.mem.respBuf) hconn'
  have hlast : lastStaged gzipAnswered.io.log = some (.staged true false text) := by
    rw [gzipAnswered, stepPhase_log, gzipClient_step, hlog]
    exact lastStaged_append_staged _ _ _ _
  cases text with
  | none =>
    have hfailed : SIZE_MAX = 124 := hstaged.size.symm.trans hsize
    exact absurd hfailed (by decide)
  | some text =>
    obtain ⟨status, now, htext⟩ := hstaged.canned text rfl
    exact ⟨text, hlast, announcements_canned htext⟩

/-! ## Agreement -/

/-- The connection does what every `Connection` line of the head says. -/
def DoesAsSaid (text : Bytes) (phase : ConnPhase) : Prop :=
  ∀ keepAlive ∈ announcements (headLines text), phase = announcedPhase keepAlive

/-- Whether the connection is kept when the response in flight is out. -/
def Connection.kept (conn : Connection) : Bool :=
  conn.keepAlive && conn.requests + 1 < HTTP_MAX_REQUESTS

theorem announcedPhase_inj {b b' : Bool} : announcedPhase b = announcedPhase b' ↔ b = b' := by
  cases b <;> cases b' <;> decide

theorem Turn.completes_kept (h : Turn pre evs post) (hcount : post.requests = pre.requests + 1) :
    post.phase = announcedPhase pre.kept := by
  rw [(h.completes hcount).2, announcedPhase, Connection.kept]
  by_cases hlimit : pre.requests + 1 < HTTP_MAX_REQUESTS
  · cases pre.keepAlive <;> simp [hlimit, Nat.not_le.mpr hlimit]
  · cases pre.keepAlive <;> simp [hlimit, Nat.not_lt.mp hlimit]

/-- The flag that the head was serialized with is what the connection does. -/
theorem Connection.kept_iff (conn : Connection) (byError : Bool) :
    (!byError && conn.keepAlive) = conn.kept ↔
      (conn.keepAlive → (byError = false ↔ conn.requests + 1 < HTTP_MAX_REQUESTS)) := by
  unfold Connection.kept
  cases conn.keepAlive <;> cases byError <;> simp

theorem doesAsSaid_iff (resp : HttpResponse) (keepAlive : Bool) (now : ℤ) (kept : Bool) :
    DoesAsSaid (responseText resp keepAlive now) (announcedPhase kept) ↔
      (∀ said ∈ resp.announcements, said = kept) ∧ ([] ∈ givenLines resp ∨ keepAlive = kept) := by
  rw [DoesAsSaid, announcements_responseText]
  simp only [announcedPhase_inj]
  by_cases hempty : [] ∈ givenLines resp
  · simp only [hempty, if_true, List.append_nil, true_or, and_true, eq_comm]
  · simp only [hempty, if_false, false_or, List.forall_mem_append, List.forall_mem_singleton,
      eq_comm]

/-- For every run and every response that it completes. -/
theorem announced_iff (router : Router σ) (slot : Connection) (backing backingCap : ℕ)
    (newFd : ℤ) (world : World σ) (m : Machine σ)
    (hreaches : Reaches router (fun _ => True) (.ofSlot slot backing backingCap newFd world) m)
    (hopen : m.conn.phase ≠ .closed)
    (hcompletes : (stepPhase router m).conn.requests = m.conn.requests + 1) :
    ∃ m₀ byError keepAlive text resp,
      InFlight router (.ofSlot slot backing backingCap newFd world) m₀ m byError keepAlive text
        resp ∧
      ∀ t ∈ text, DoesAsSaid t (stepPhase router m).conn.phase ↔
        (∀ said ∈ resp.announcements, said = m.conn.kept) ∧
        ([] ∈ givenLines resp ∨
          (m.conn.keepAlive → (byError = false ↔ m.conn.requests + 1 < HTTP_MAX_REQUESTS))) := by
  have hwf := Machine.ofSlot_wellFormed slot backing backingCap newFd world
  obtain ⟨evs, hturn, -⟩ := stepPhase_turn router (hreaches.wellFormed hwf) hopen
  obtain ⟨m₀, byError, keepAlive, text, resp, hflight⟩ :=
    hreaches.inFlight hwf (by rintro (h | h) <;> cases h) (hturn.completes hcompletes).1
  refine ⟨m₀, byError, keepAlive, text, resp, hflight, ?_⟩
  intro t ht
  obtain ⟨now, rfl⟩ := hflight.text_eq t ht
  rw [hturn.completes_kept hcompletes, doesAsSaid_iff, hflight.keep, Connection.kept_iff]

theorem announced_iff_gzip :
    ∃ m₀ byError keepAlive text resp,
      InFlight {} newClient m₀ gzipAnswered byError keepAlive text resp ∧
      ∀ t ∈ text, DoesAsSaid t (stepPhase {} gzipAnswered).conn.phase ↔
        (∀ said ∈ resp.announcements, said = gzipAnswered.conn.kept) ∧
        ([] ∈ givenLines resp ∨ (gzipAnswered.conn.keepAlive →
          (byError = false ↔ gzipAnswered.conn.requests + 1 < HTTP_MAX_REQUESTS))) :=
  announced_iff {} {} 4096 HTTP_CONN_ARENA_SIZE 5 { handlers := () } gzipAnswered
    gzipAnswered_reaches gzipAnswered_open gzipAnswered_completes

/-- The 501 response says that the connection is closed, and then it is kept. -/
theorem announced_close_kept :
    ∃ m text, Reaches {} (fun _ => True) newClient m ∧ m.conn.phase = .sendingResponse ∧
      (stepPhase {} m).conn.requests = m.conn.requests + 1 ∧
      lastStaged m.io.log = some (.staged true false (some text)) ∧
      announcements (headLines text) = [false] ∧
      (stepPhase {} m).conn.phase = .readingRequest ∧
      ¬ DoesAsSaid text (stepPhase {} m).conn.phase := by
  obtain ⟨resp, -, -, hconn⟩ := gzipAnswered_conn
  obtain ⟨text, hlast, hsaid⟩ := gzipAnswered_lastStaged
  refine ⟨gzipAnswered, text, gzipAnswered_reaches, by rw [hconn]; rfl, gzipAnswered_completes,
    hlast, hsaid, gzipAnswered_kept, ?_⟩
  intro hdoes
  have hclosed := hdoes false (by rw [hsaid]; exact List.mem_singleton_self _)
  rw [gzipAnswered_kept] at hclosed
  exact absurd hclosed (by decide)

end HttpServer
