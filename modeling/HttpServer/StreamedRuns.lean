import HttpServer.ChunkedFrames
import HttpServer.HeadTracking

/-!
# A streamed response as a whole

Over any number of wake-ups, what has been accepted of a streamed response is the
head and the frames of what has been pulled so far, up to the cursor into the part
that is being sent. The producer is released when the response ends, and not
before.
-/

namespace HttpServer

variable {σ : Type*} {router : Router σ} {m m' : Machine σ} {cursor : ℕ} {head buf got : Bytes}
  {payloads : List Bytes} {evs : List Event}

/-! ## What a producer is asked for -/

/-- The calls of `send` and of the functions of a producer. -/
def Event.streams : Event → Bool
  | .send _ _ | .pulled _ _ | .released _ => true
  | _ => false

def streamed (log : List Event) : List Event := log.filter Event.streams

@[simp] theorem streamed_append (log log' : List Event) :
    streamed (log ++ log') = streamed log ++ streamed log' := List.filter_append ..

@[simp] theorem streamed_send (offered : Bytes) (o : SendOutcome) :
    streamed [.send offered o] = [.send offered o] := rfl

@[simp] theorem streamed_staged (byError keepAlive : Bool) (text : Option Bytes) :
    streamed [.staged byError keepAlive text] = [] := rfl

@[simp] theorem streamed_step (pre post : Connection) : streamed [.step pre post] = [] := rfl

@[simp] theorem streamed_assert (io : Io) (b : Bool) :
    streamed (io.assert b).log = streamed io.log := by
  unfold Io.assert
  split
  · rfl
  · simp [Io.emit, streamed, Event.streams]

/-- The payload of a pull that has returned bytes. -/
def Event.payload : Event → List Bytes
  | .pulled _ (.data (c :: payload)) => [c :: payload]
  | _ => []

/-- What has been pulled, in order. -/
def pulledPayloads (evs : List Event) : List Bytes := evs.flatMap Event.payload

@[simp] theorem pulledPayloads_append (evs evs' : List Event) :
    pulledPayloads (evs ++ evs') = pulledPayloads evs ++ pulledPayloads evs' := List.flatMap_append

@[simp] theorem pulledPayloads_send (offered : Bytes) (o : SendOutcome) :
    pulledPayloads [.send offered o] = [] := rfl

theorem pulledPayloads_singleton (e : Event) : pulledPayloads [e] = e.payload :=
  List.flatMap_singleton ..

def Unreleased (evs : List Event) : Prop := ∀ ctx, Event.released ctx ∉ evs

theorem Unreleased.append {evs' : List Event} (h : Unreleased evs) (h' : Unreleased evs') :
    Unreleased (evs ++ evs') := fun ctx hmem =>
  (List.mem_append.mp hmem).elim (h ctx) (h' ctx)

/-! ## The text on the wire -/

def LAST_CHUNK : Bytes := ascii "0" ++ CRLF ++ CRLF

/-- What `chunk_frame` makes of a payload when it fits. -/
def frameText (payload : Bytes) : Bytes := showHex payload.length ++ CRLF ++ (payload ++ CRLF)

/-- The head of a streamed response and the frames of what has been pulled. -/
def streamText (head : Bytes) (payloads : List Bytes) : Bytes :=
  head ++ payloads.flatMap frameText

theorem streamText_append (head : Bytes) (payloads payloads' : List Bytes) :
    streamText head (payloads ++ payloads') =
      streamText head payloads ++ payloads'.flatMap frameText := by
  rw [streamText, List.flatMap_append, ← List.append_assoc]
  rfl

/-- Where a streamed response is: `got` has been accepted, and of `buf` the bytes from `sent` on are
still to be sent. -/
inductive StreamProgress (head : Bytes) :
    StreamPhase → List Bytes → Bytes → ℕ → Bytes → Prop where
  | header (sent : ℕ) : StreamProgress head .header [] head sent (head.take sent)
  | pull (payloads : List Bytes) (buf : Bytes) (sent : ℕ) :
      StreamProgress head .pull payloads buf sent (streamText head payloads)
  | drain (payloads : List Bytes) (payload : Bytes) (sent : ℕ) :
      StreamProgress head .drain (payloads ++ [payload]) (frameText payload) sent
        (streamText head payloads ++ (frameText payload).take sent)
  | trailer (payloads : List Bytes) (sent : ℕ) :
      StreamProgress head .trailer payloads LAST_CHUNK sent
        (streamText head payloads ++ LAST_CHUNK.take sent)
  | done (payloads : List Bytes) (buf : Bytes) (sent : ℕ) :
      StreamProgress head .done payloads buf sent
        (streamText head payloads ++ LAST_CHUNK)

/-- What has been accepted is a part of the whole response. -/
theorem StreamProgress.isPrefix {phase : StreamPhase}
    (h : StreamProgress head phase payloads buf cursor got) :
    got <+: streamText head payloads ++ LAST_CHUNK := by
  cases h with
  | header =>
    refine (List.take_prefix _ _).trans ?_
    rw [streamText, List.flatMap_nil, List.append_nil]
    exact List.prefix_append _ _
  | pull => exact List.prefix_append _ _
  | drain payloads payload =>
    rw [streamText_append, List.flatMap_singleton, List.append_assoc]
    exact List.prefix_append_right_inj _ |>.mpr
      ((List.take_prefix _ _).trans (List.prefix_append _ _))
  | trailer =>
    exact List.prefix_append_right_inj _ |>.mpr (List.take_prefix _ _)
  | done => exact List.prefix_refl _

/-- The phases in which `resp_buf` is sent, and where they lead. -/
def StreamPhase.Leads : StreamPhase → StreamPhase → Prop
  | .header, .pull | .drain, .pull | .trailer, .done => True
  | _, _ => False

/-- More of `resp_buf` has been accepted. -/
theorem StreamProgress.send {phase next : StreamPhase} (hleads : phase.Leads next)
    (h : StreamProgress head phase payloads buf cursor got) (n : ℕ) :
    StreamProgress head phase payloads buf (cursor + n)
      (got ++ (buf.drop cursor).take n) := by
  have htake : ∀ buf : Bytes,
      buf.take cursor ++ (buf.drop cursor).take n = buf.take (cursor + n) := by
    intro buf
    rw [List.take_add]
  cases h with
  | header =>
    rw [htake]
    exact .header _
  | drain =>
    rw [List.append_assoc, htake]
    exact .drain _ _ _
  | trailer =>
    rw [List.append_assoc, htake]
    exact .trailer _ _
  | pull => exact hleads.elim
  | done => exact hleads.elim

/-- All of `resp_buf` has been accepted. -/
theorem StreamProgress.sentAll {phase next : StreamPhase} (hleads : phase.Leads next)
    (h : StreamProgress head phase payloads buf buf.length got) (sent : ℕ) :
    StreamProgress head next payloads buf sent got := by
  cases h with
  | header =>
    cases next <;> simp only [StreamPhase.Leads] at hleads
    rw [List.take_length]
    have hpull : StreamProgress head .pull [] head sent _ := .pull [] head sent
    rwa [streamText, List.flatMap_nil, List.append_nil] at hpull
  | drain payloads payload =>
    cases next <;> simp only [StreamPhase.Leads] at hleads
    have hpull : StreamProgress head .pull (payloads ++ [payload]) (frameText payload) sent _ :=
      .pull (payloads ++ [payload]) (frameText payload) sent
    rw [List.take_length]
    rwa [streamText_append, List.flatMap_singleton] at hpull
  | trailer =>
    cases next <;> simp only [StreamPhase.Leads] at hleads
    rw [List.take_length]
    exact .done _ _ _
  | pull => cases next <;> exact hleads.elim
  | done => cases next <;> exact hleads.elim

/-! ## The loop -/

/-- A streamed response that is being sent: `evs` has happened since `base`. -/
structure Streams (base : List Event) (head : Bytes) (stream : Stream) (requests : ℕ)
    (m : Machine σ) (evs : List Event) : Prop where
  log : streamed m.io.log = base ++ evs
  unreleased : Unreleased evs
  producer : m.conn.producer = stream
  method : m.conn.reqParsed.requestLine.method ≠ .head
  counted : m.conn.requests = requests
  size : m.conn.mem.respBuf.contents.length = m.conn.mem.respBuf.size
  progress : StreamProgress head m.conn.st.getStream.phase (pulledPayloads evs)
    m.conn.mem.respBuf.contents m.conn.st.getStream.send.sent (accepted evs)

/-- The call of `cleanup` that ends a stream, if it has one. -/
def Stream.releases (stream : Stream) : List Event :=
  if stream.cleanup then [.released stream.ctx] else []

/-- A streamed response that has ended in `phase`: the release of its producer is the last that has
happened to it. -/
structure StreamEnded (base : List Event) (head : Bytes) (stream : Stream)
    (requests : ℕ) (phase : ConnPhase) (m : Machine σ) (evs : List Event) : Prop where
  log : streamed m.io.log = base ++ (evs ++ stream.releases)
  unreleased : Unreleased evs
  left : phase ≠ .sendingResponseStream
  complete : m.conn.requests = requests + 1 ∧
      accepted evs = streamText head (pulledPayloads evs) ++ LAST_CHUNK ∨
    phase = .closed ∧ m.conn.requests = requests ∧
      accepted evs <+: streamText head (pulledPayloads evs) ++ LAST_CHUNK

variable {base : List Event} {stream : Stream} {requests : ℕ}

/-- What the loop leads to when it returns `phase`. -/
def StreamGoes (base : List Event) (head : Bytes) (stream : Stream) (requests : ℕ)
    (phase : ConnPhase) (m : Machine σ) : Prop :=
  phase = .sendingResponseStream ∧ (∃ evs, Streams base head stream requests m evs) ∨
    ∃ evs, StreamEnded base head stream requests phase m evs

theorem Stream.releases_of_cleanup (h : stream.cleanup = true) :
    stream.releases = [.released stream.ctx] := if_pos h

theorem streamRelease_log (m : Machine σ) :
    streamed (streamRelease m).io.log = streamed m.io.log ++ m.conn.producer.releases := by
  unfold streamRelease Stream.releases
  split
  · exact streamed_append _ _
  · exact (List.append_nil _).symm

@[simp] theorem streamRelease_requests (m : Machine σ) :
    (streamRelease m).conn.requests = m.conn.requests := by
  unfold streamRelease
  split <;> rfl

/-- The response is given up. -/
theorem streamAbort_ended (hlog : streamed m.io.log = base ++ evs) (hfree : Unreleased evs)
    (hproducer : m.conn.producer = stream) (hrequests : m.conn.requests = requests)
    (haccepted : accepted evs <+: streamText head (pulledPayloads evs) ++ LAST_CHUNK) :
    StreamEnded base head stream requests .closed (streamAbort m).2 evs := by
  subst hproducer
  refine ⟨?_, hfree, by simp, .inr ⟨rfl, ?_, haccepted⟩⟩
  · rw [← List.append_assoc, ← hlog]
    exact streamRelease_log m
  · exact (streamRelease_requests m).trans hrequests

theorem Streams.aborts (h : Streams base head stream requests m evs) :
    StreamEnded base head stream requests .closed (streamAbort m).2 evs :=
  streamAbort_ended h.log h.unreleased h.producer h.counted h.progress.isPrefix

/-- The calls of `send` move the cursor over what has been accepted. -/
theorem accepted_append_send {evs : List Event} {offered : Bytes} {o : SendOutcome} :
    accepted (evs ++ [.send offered o]) = accepted evs ++ (Event.send offered o).sentBytes := by
  simp

theorem streamSent_log (m : Machine σ) (st : SendStreamSt) :
    streamed (m.streamSent st).io.log = streamed m.io.log ++ [m.streamCall] := by
  show streamed ((m.io.sendAsserted _ _ _).log ++ _) = _
  rw [streamed_append, Io.sendAsserted, streamed_assert]
  rfl

/-- For a request that is not `HEAD`. -/
theorem Connection.leads_of_streamNext {conn : Connection} {next : StreamPhase}
    (h : conn.streamNext = some next) (hmethod : conn.reqParsed.requestLine.method ≠ .head) :
    conn.st.getStream.phase.Leads next := by
  unfold streamNext at h
  rw [if_neg hmethod] at h
  cases hphase : conn.st.getStream.phase <;> rw [hphase] at h <;> cases h <;> trivial

/-- Whatever `send` has answered, the cursor stands behind what has been accepted. -/
theorem Streams.stays (h : Streams base head stream requests m evs) {next : StreamPhase}
    (hnext : m.conn.streamNext = some next) :
    Streams base head stream requests (m.streamSent m.streamStays) (evs ++ [m.streamCall]) := by
  refine ⟨?_, ?_, h.producer, h.method, h.counted, h.size, ?_⟩
  · rw [streamSent_log, h.log, List.append_assoc]
  · exact h.unreleased.append fun ctx hmem => by cases List.mem_singleton.mp hmem
  have hleads := Connection.leads_of_streamNext hnext h.method
  have hprogress := h.progress
  rw [pulledPayloads_append, Machine.streamCall, pulledPayloads_send, List.append_nil,
    accepted_append_send]
  show StreamProgress head m.conn.st.getStream.phase (pulledPayloads evs)
    m.conn.mem.respBuf.contents (m.conn.st.getStream.send.advance m.streamAnswer).sent _
  cases m.streamAnswer with
  | accepted n => exact hprogress.send hleads n
  | _ => simpa [Event.sentBytes, SendSt.advance] using hprogress

theorem SendOutcome.advance_of_ok {o : SendOutcome} {size : ℕ} {st : SendSt}
    (h : o.status size st.sent = .ok) : (st.advance o).sent = size := by
  cases o with
  | accepted n =>
    simp only [SendOutcome.status] at h
    split at h
    · assumption
    · cases h
  | _ => cases h

/-- All of `resp_buf` is out. -/
theorem Streams.advances (h : Streams base head stream requests m evs) {next : StreamPhase}
    (hnext : m.conn.streamNext = some next) (hstatus : m.streamStatus = .ok) :
    Streams base head stream requests
      (m.streamSent { phase := next, send := { sent := 0 } }) (evs ++ [m.streamCall]) := by
  have hstays := h.stays hnext
  have hleads := Connection.leads_of_streamNext hnext h.method
  refine ⟨hstays.log, hstays.unreleased, h.producer, h.method, h.counted, h.size, ?_⟩
  have hall : (m.conn.st.getStream.send.advance m.streamAnswer).sent =
      m.conn.mem.respBuf.contents.length :=
    (SendOutcome.advance_of_ok hstatus).trans h.size.symm
  have hprogress : StreamProgress head m.conn.st.getStream.phase _ m.conn.mem.respBuf.contents
    (m.conn.st.getStream.send.advance m.streamAnswer).sent _ := hstays.progress
  rw [hall] at hprogress
  exact hprogress.sentAll hleads 0

/-- The contents of a buffer that a frame has been put into. -/
theorem HttpBuffer.contents_stage (b : HttpBuffer) (frame : Bytes) :
    ({ b.store 0 frame with size := frame.length } : HttpBuffer).contents = frame := by
  simp [HttpBuffer.contents, HttpBuffer.store]

theorem StreamProgress.of_pull (h : StreamProgress head .pull payloads buf cursor got) :
    got = streamText head payloads := by
  cases h
  rfl

theorem StreamProgress.of_done (h : StreamProgress head .done payloads buf cursor got) :
    got = streamText head payloads ++ LAST_CHUNK := by
  cases h
  rfl

/-- The text of a frame, where it fits. -/
theorem streamFrame_eq {cap : ℕ} {payload frame : Bytes}
    (h : streamFrame cap payload = some frame) :
    frame = if payload = [] then LAST_CHUNK else frameText payload := by
  cases payload with
  | nil =>
    simp only [streamFrame, chunkFrameLast] at h
    split at h
    · cases h
    · exact (Option.some.inj h).symm
  | cons c payload => exact chunkFrame_eq h

/-- A frame is put into `resp_buf`. -/
theorem StreamProgress.frame {cap : ℕ} {payload frame : Bytes} (ctx : Option StreamCtx)
    (hframe : streamFrame cap payload = some frame)
    (h : StreamProgress head .pull payloads buf cursor got) :
    StreamProgress head (framePhase payload)
      (payloads ++ Event.payload (.pulled ctx (.data payload))) frame 0 got := by
  rw [h.of_pull, streamFrame_eq hframe]
  cases payload with
  | nil =>
    have htrailer : StreamProgress head .trailer payloads LAST_CHUNK 0 _ := .trailer payloads 0
    rw [List.take_zero, List.append_nil] at htrailer
    show StreamProgress head .trailer (payloads ++ []) LAST_CHUNK 0 _
    rwa [List.append_nil]
  | cons c payload =>
    have hdrain : StreamProgress head .drain (payloads ++ [c :: payload])
      (frameText (c :: payload)) 0 _ := .drain payloads (c :: payload) 0
    rwa [List.take_zero, List.append_nil] at hdrain

theorem afterPull_streamedLog (m : Machine σ) :
    streamed m.afterPull.io.log = streamed m.io.log ++ [m.pullCall] := by
  rw [afterPull_log, streamed_append]
  rfl

theorem Unreleased.pulled (h : Unreleased evs) (m : Machine σ) :
    Unreleased (evs ++ [m.pullCall]) :=
  h.append fun ctx hmem => by cases List.mem_singleton.mp hmem

/-- A pull is no call of `send`. -/
theorem accepted_pulled (evs : List Event) (m : Machine σ) :
    accepted (evs ++ [m.pullCall]) = accepted evs := by
  rw [accepted_append]
  exact List.append_nil _

theorem Streams.pulls (h : Streams base head stream requests m evs)
    (hphase : m.conn.st.getStream.phase = .pull) {payload frame : Bytes}
    (hpull : m.streamPulled = .data payload)
    (hframe : streamFrame m.conn.mem.respBuf.cap payload = some frame) :
    Streams base head stream requests (m.afterPull.streamFramed frame (framePhase payload))
      (evs ++ [m.pullCall]) := by
  have hprogress := h.progress
  rw [hphase] at hprogress
  refine ⟨?_, h.unreleased.pulled m, h.producer, h.method, h.counted, ?_, ?_⟩
  · exact (afterPull_streamedLog m).trans (by rw [h.log, List.append_assoc])
  · exact congrArg List.length (HttpBuffer.contents_stage _ frame)
  · rw [accepted_pulled, pulledPayloads_append, pulledPayloads_singleton, Machine.pullCall, hpull]
    show StreamProgress head (framePhase payload) _
      ({ m.conn.mem.respBuf.store 0 frame with size := frame.length } : HttpBuffer).contents 0 _
    rw [HttpBuffer.contents_stage]
    exact hprogress.frame m.conn.producer.ctx hframe

/-- The producer fails, or what it gives does not fit. -/
theorem Streams.givesUp (h : Streams base head stream requests m evs)
    (hphase : m.conn.st.getStream.phase = .pull) :
    StreamEnded base head stream requests .closed (streamAbort m.afterPull).2
      (evs ++ [m.pullCall]) := by
  have hprogress := h.progress
  rw [hphase] at hprogress
  refine streamAbort_ended ?_ (h.unreleased.pulled m) h.producer h.counted ?_
  · rw [afterPull_streamedLog, h.log, List.append_assoc]
  · rw [accepted_pulled, hprogress.of_pull, pulledPayloads_append, streamText_append,
      List.append_assoc]
    exact List.prefix_append _ _

theorem Streams.completes (h : Streams base head stream requests m evs)
    (hphase : m.conn.st.getStream.phase = .done) :
    StreamEnded base head stream requests (responseComplete (streamRelease m).conn).1
      { streamRelease m with conn := (responseComplete (streamRelease m).conn).2 } evs := by
  obtain ⟨hlog, hfree, rfl, hmethod, hcounted, hsize, hprogress⟩ := h
  rw [hphase] at hprogress
  refine ⟨?_, hfree, ?_, .inl ⟨?_, hprogress.of_done⟩⟩
  · rw [← List.append_assoc, ← hlog]
    exact streamRelease_log m
  · rw [responseComplete_fst]
    split <;> simp
  · rw [responseComplete_requests, streamRelease_requests, hcounted]

/-- The loop leaves the response where it is to be taken up again, or at its end. -/
theorem stepResponseSendStream_goes (h : Streams base head stream requests m evs) :
    StreamGoes base head stream requests (stepResponseSendStream m).1
      (stepResponseSendStream m).2 := by
  apply stepResponseSendStream_rule (fun m => ∃ evs, Streams base head stream requests m evs)
    (StreamGoes base head stream requests)
  · rintro a b ⟨evs, hstreams⟩ hturn
    cases hturn with
    | sent hnext hstatus => exact ⟨_, hstreams.advances hnext hstatus⟩
    | framed hphase hpull hframe => exact ⟨_, hstreams.pulls hphase hpull hframe⟩
  · rintro a phase b ⟨evs, hstreams⟩ hturn
    cases hturn with
    | blocked hnext => exact .inl ⟨rfl, _, hstreams.stays hnext⟩
    | failed hnext => exact .inr ⟨_, (hstreams.stays hnext).aborts⟩
    | gaveUp hphase => exact .inr ⟨_, hstreams.givesUp hphase⟩
    | done hphase => exact .inr ⟨_, hstreams.completes hphase⟩
  · exact ⟨evs, h⟩

/-! ## Over wake-ups -/

/-- The response is being sent, or it has ended. -/
def StreamRun (base : List Event) (head : Bytes) (stream : Stream) (requests : ℕ)
    (m : Machine σ) : Prop :=
  m.conn.phase = .sendingResponseStream ∧ (∃ evs, Streams base head stream requests m evs) ∨
    ∃ evs, StreamEnded base head stream requests m.conn.phase m evs

/-- The turn only sets the phase that the step returns. -/
theorem Streams.turned {r : ConnPhase × Machine σ} (hstep : stepConn router m = r)
    (h : Streams base head stream requests r.2 evs) :
    Streams base head stream requests (stepPhase router m) evs := by
  obtain ⟨hlog, hfree, hproducer, hmethod, hcounted, hsize, hprogress⟩ := h
  refine ⟨?_, hfree, ?_, ?_, ?_, ?_, ?_⟩
  · rw [stepPhase_log, hstep, streamed_append, streamed_step, List.append_nil, hlog]
  all_goals
    rw [stepPhase_conn, hstep]
    assumption

theorem StreamEnded.turned {r : ConnPhase × Machine σ} (hstep : stepConn router m = r)
    (h : StreamEnded base head stream requests r.1 r.2 evs) :
    StreamEnded base head stream requests (stepPhase router m).conn.phase (stepPhase router m)
      evs := by
  have hlog : streamed (stepPhase router m).io.log = streamed r.2.io.log := by
    rw [stepPhase_log, hstep, streamed_append, streamed_step, List.append_nil]
  have hconn : (stepPhase router m).conn = { r.2.conn with phase := r.1 } := by
    rw [stepPhase_conn, hstep]
  refine ⟨hlog.trans h.log, h.unreleased, ?_, ?_⟩
  · rw [hconn]
    exact h.left
  · rw [hconn]
    exact h.complete

theorem stepPhase_streamRun (router : Router σ) (hphase : m.conn.phase = .sendingResponseStream)
    (h : Streams base head stream requests m evs) :
    StreamRun base head stream requests (stepPhase router m) := by
  have hstep : stepConn router m = stepResponseSendStream m := by simp only [stepConn, hphase]
  rcases stepResponseSendStream_goes h with ⟨hstays, evs', hstreams⟩ | ⟨evs', hended⟩
  · refine .inl ⟨?_, evs', hstreams.turned hstep⟩
    rw [stepPhase_conn, hstep]
    exact hstays
  · exact .inr ⟨evs', hended.turned hstep⟩

/-- A wake-up leaves the response as it is. -/
theorem Streams.wake (h : Streams base head stream requests m evs) (w : Wake σ) :
    Streams base head stream requests (m.wake w) evs :=
  ⟨h.log, h.unreleased, h.producer, h.method, h.counted, h.size, h.progress⟩

theorem StreamEnded.wake {phase : ConnPhase}
    (h : StreamEnded base head stream requests phase m evs) (w : Wake σ) :
    StreamEnded base head stream requests phase (m.wake w) evs :=
  ⟨h.log, h.unreleased, h.left, h.complete⟩

/-- The turns and wake-ups while a response is streamed. -/
abbrev StreamsTo (router : Router σ) : Machine σ → Machine σ → Prop :=
  Reaches router fun m => m.conn.phase = .sendingResponseStream

theorem StreamsTo.streamRun (h : StreamsTo router m m')
    (hm : StreamRun base head stream requests m) :
    StreamRun base head stream requests m' := by
  refine Runs.invariant (StreamRun base head stream requests) h hm fun a b _ ha hnext => ?_
  rcases ha with ⟨hphase, evs, hstreams⟩ | ⟨evs, hended⟩
  · cases hnext with
    | wake w => exact .inl ⟨hphase, evs, hstreams.wake w⟩
    | turn hopen hallowed => exact stepPhase_streamRun router hphase hstreams
  · cases hnext with
    | wake w => exact .inr ⟨evs, hended.wake w⟩
    | turn hopen hallowed => exact absurd hallowed hended.left

/-! ## The beginning -/

/-- What `step_response_build` gets when it serializes the response; `none` when it does not
fit. -/
def builtText (router : Router σ) (m : Machine σ) : Option Bytes :=
  ((responseDispatch router m).2.serialize (responseDispatch router m).1).1.result

/-- Neither `send` nor a producer is called when a response is chosen. -/
theorem responseDispatch_frame (router : Router σ) (m : Machine σ) :
    (∃ arena, (responseDispatch router m).2.conn = { m.conn with mem.arena := arena }) ∧
      streamed (responseDispatch router m).2.io.log = streamed m.io.log := by
  obtain ⟨scratch, world, evs, -, hhandled, heq⟩ := responseDispatch_dispatched router m
  have hnone : streamed evs = [] := by
    refine List.filter_eq_nil_iff.mpr fun e he => ?_
    obtain ⟨method, path, req, rfl⟩ := hhandled e he
    simp [Event.streams]
  rw [heq]
  refine ⟨⟨scratch, rfl⟩, ?_⟩
  dsimp only
  rw [streamed_append, hnone, List.append_nil]

theorem Out.failed_iff (o : Out) : o.failed = true ↔ o.result = none := by
  unfold Out.result
  cases o.failed <;> simp

theorem Out.not_failed {o : Out} {head : Bytes} (h : o.result = some head) :
    ¬ o.failed = true := by
  rw [Out.failed_iff, h]
  simp

/-- A head that fits begins the streamed response. -/
theorem responseBuild_streams {res : HttpResponse} (hbody : res.body = .stream stream)
    (hmethod : m.conn.reqParsed.requestLine.method ≠ .head)
    (hhead : (m.serialize res).1.result = some head) :
    (responseBuild res m).1 = .sendingResponseStream ∧
      Streams (streamed m.io.log) head stream m.conn.requests
        (responseBuild res m).2 [] := by
  obtain ⟨now, hout, -, hlog⟩ := Machine.serialize_spec { m with conn.producer := stream } res
  have hsame : (Machine.serialize { m with conn.producer := stream } res).1 =
      (m.serialize res).1 := rfl
  have hfits := Out.not_failed hhead
  have hstaged := m.conn.mem.respBuf.stage_staged res m.conn.keepAlive m.conn.mem.respBuf.cap now
  have hcontents := hstaged.contents head (by
    rw [← hout]
    exact hhead)
  have hsize := hstaged.size
  have hout' : responseSerialize res m.conn.mem.respBuf.cap m.conn.keepAlive now =
      (m.serialize res).1 := hout.symm
  rw [hout'] at hcontents hsize
  unfold responseBuild
  rw [hbody]
  dsimp only
  rw [hsame, if_neg hfits]
  refine ⟨rfl, ?_, (fun ctx h => by cases h), rfl, hmethod, rfl, ?_, ?_⟩
  · simp only [Machine.staged, Io.emit, streamed_append, streamed_staged, List.append_nil]
    rw [hlog]
  · show (m.conn.mem.respBuf.stage (m.serialize res).1).contents.length =
      (m.conn.mem.respBuf.stage (m.serialize res).1).size
    rw [hcontents, hsize, hhead]
    rfl
  · show StreamProgress head .header []
      (m.conn.mem.respBuf.stage (m.serialize res).1).contents 0 []
    rw [hcontents]
    exact .header 0

/-! ## A head that does not fit -/

/-- The producer has been released, and after that `send` alone has been called. -/
def ReleasedFirst (base : List Event) (ctx : Option StreamCtx) (m : Machine σ) : Prop :=
  ∃ evs, streamed m.io.log = base ++ .released ctx :: evs ∧ ∀ e ∈ evs, e.IsSend

/-- The 500 response is serialized at most twice. -/
theorem buildBuffered_serverError (hmethod : m.conn.reqParsed.requestLine.method ≠ .head) :
    (buildBuffered (responseErrorFromStatus .serverError) m).1 = .sendingResponse ∧
      streamed (buildBuffered (responseErrorFromStatus .serverError) m).2.io.log =
        streamed m.io.log ∧
      ∃ resp now, (buildBuffered (responseErrorFromStatus .serverError) m).2.conn.mem.respBuf =
        HttpBuffer.stage resp (responseSerialize (responseErrorFromStatus .serverError)
          m.conn.mem.respBuf.cap m.conn.keepAlive now) := by
  have staged : ∀ (m' : Machine σ) (b : Bool), m'.conn.mem.respBuf.cap = m.conn.mem.respBuf.cap →
      m'.conn.keepAlive = m.conn.keepAlive → streamed m'.io.log = streamed m.io.log →
      streamed (((m'.serialize (responseErrorFromStatus .serverError)).2.assert b).staged
          (m'.serialize (responseErrorFromStatus .serverError)).1).io.log = streamed m.io.log ∧
        ∃ resp now, (((m'.serialize (responseErrorFromStatus .serverError)).2.assert b).staged
          (m'.serialize (responseErrorFromStatus .serverError)).1).conn.mem.respBuf =
          HttpBuffer.stage resp (responseSerialize (responseErrorFromStatus .serverError)
            m.conn.mem.respBuf.cap m.conn.keepAlive now) := by
    intro m' b hcap hkeep hsame
    obtain ⟨now, hout, hconn, hlog⟩ := m'.serialize_spec (responseErrorFromStatus .serverError)
    rw [hcap, hkeep] at hout
    refine ⟨?_, m'.conn.mem.respBuf, now, ?_⟩
    · simp only [Machine.staged, Machine.assert, Io.emit, streamed_append, streamed_staged,
        streamed_assert, List.append_nil]
      rw [hlog, hsame]
    · simp only [Machine.staged, Machine.assert]
      rw [hconn, ← hout]
      rfl
  unfold buildBuffered
  rw [if_neg hmethod]
  dsimp only
  obtain ⟨-, -, hconn, hlog⟩ := m.serialize_spec (responseErrorFromStatus .serverError)
  split
  · obtain ⟨hlog', resp, now, hresp⟩ := staged
      (m.serialize (responseErrorFromStatus .serverError)).2
      (!((m.serialize (responseErrorFromStatus .serverError)).2.serialize
        (responseErrorFromStatus .serverError)).1.failed) (by rw [hconn]; rfl) (by rw [hconn])
      (by rw [hlog])
    exact ⟨rfl, hlog', resp, now, hresp⟩
  · obtain ⟨hlog', resp, now, hresp⟩ := staged m
      (!(m.serialize (responseErrorFromStatus .serverError)).1.failed) rfl rfl rfl
    exact ⟨rfl, hlog', resp, now, hresp⟩

/-- A head that does not fit ends the streamed response before it has begun. -/
theorem responseBuild_overflows {res : HttpResponse} (hbody : res.body = .stream stream)
    (hmethod : m.conn.reqParsed.requestLine.method ≠ .head)
    (hfull : (m.serialize res).1.result = none) :
    (responseBuild res m).1 = .sendingResponse ∧
      streamed (responseBuild res m).2.io.log = streamed m.io.log ++ stream.releases ∧
      ∃ resp now, (responseBuild res m).2.conn.mem.respBuf =
        HttpBuffer.stage resp (responseSerialize (responseErrorFromStatus .serverError)
          m.conn.mem.respBuf.cap m.conn.keepAlive now) := by
  obtain ⟨now, -, hconn, hlog⟩ := Machine.serialize_spec { m with conn.producer := stream } res
  have hsame : (Machine.serialize { m with conn.producer := stream } res).1 =
      (m.serialize res).1 := rfl
  have hfailed : (m.serialize res).1.failed = true := (Out.failed_iff _).mpr hfull
  unfold responseBuild
  rw [hbody]
  dsimp only
  rw [hsame, if_pos hfailed]
  generalize (Machine.serialize { m with conn.producer := stream } res).2 = m₁ at hconn hlog ⊢
  obtain ⟨resp, st, producer, hreleased⟩ := (streamRelease_streamed m₁).conn
  have hrelease := streamRelease_log m₁
  rw [hlog, hconn] at hrelease
  obtain ⟨hphase, hquiet, resp', now', hresp⟩ := buildBuffered_serverError
    (m := streamRelease m₁) (by rw [hreleased, hconn]; exact hmethod)
  refine ⟨hphase, hquiet.trans hrelease, resp', now', ?_⟩
  have hmem : (streamRelease m₁).conn.mem = m₁.conn.mem := by
    unfold streamRelease
    split <;> rfl
  rw [hresp, hmem, hreleased, hconn]
  rfl

/-- While the 500 response is sent, the producer is left alone. -/
theorem stepPhase_releasedFirst (router : Router σ) {ctx : Option StreamCtx}
    (hphase : m.conn.phase = .sendingResponse) (h : ReleasedFirst base ctx m) :
    ReleasedFirst base ctx (stepPhase router m) := by
  obtain ⟨evs, hlog, hsends⟩ := h
  have hstep : stepConn router m = stepResponseSend m := by simp only [stepConn, hphase]
  have hsent : ∃ offered o, streamed (stepResponseSend m).2.io.log =
      streamed m.io.log ++ [.send offered o] := by
    simp only [stepResponseSend, responseSend_eq]
    generalize m.io.nextSend _ = o
    refine ⟨m.conn.mem.respBuf.contents.drop m.conn.st.getSend.sent, o, ?_⟩
    cases o.status m.conn.mem.respBuf.size m.conn.st.getSend.sent <;>
      simp only [streamed_append, Io.sendAsserted, streamed_assert, streamed_send]
  obtain ⟨offered, o, hsent⟩ := hsent
  refine ⟨evs ++ [.send offered o], ?_, fun e he => ?_⟩
  · rw [stepPhase_log, hstep, streamed_append, streamed_step, List.append_nil, hsent, hlog]
    simp only [List.append_assoc, List.cons_append]
  · rcases List.mem_append.mp he with he | he
    · exact hsends e he
    · exact ⟨offered, o, List.mem_singleton.mp he⟩

theorem Reaches.releasedFirst {ctx : Option StreamCtx}
    (h : Reaches router (fun m => m.conn.phase = .sendingResponse) m m')
    (hm : ReleasedFirst base ctx m) : ReleasedFirst base ctx m' := by
  refine Runs.invariant (ReleasedFirst base ctx) h hm fun a b _ ha hnext => ?_
  cases hnext with
  | wake w => exact ha
  | turn hopen hallowed => exact stepPhase_releasedFirst router hallowed ha

/-! ## The whole response -/

/-- For every run, every producer and whatever the calls answer. -/
theorem stream_whole (router : Router σ) (slot : Connection) (backing backingCap : ℕ)
    (newFd : ℤ) (world : World σ) (m : Machine σ) (stream : Stream)
    (hreaches : Reaches router (fun _ => True) (.ofSlot slot backing backingCap newFd world) m)
    (hphase : m.conn.phase = .building)
    (hbody : (responseDispatch router m).1.body = .stream stream)
    (hcleanup : stream.cleanup = true) :
    (∀ head, builtText router m = some head → ∀ m', StreamsTo router (stepPhase router m) m' →
      StreamRun (streamed m.io.log) head stream m.conn.requests m') ∧
    (builtText router m = none → (stepPhase router m).conn.phase = .sendingResponse ∧
      (∃ resp now, (stepPhase router m).conn.mem.respBuf =
        HttpBuffer.stage resp (responseSerialize (responseErrorFromStatus .serverError)
          m.conn.mem.respBuf.cap m.conn.keepAlive now)) ∧
      ∀ m', Reaches router (fun m => m.conn.phase = .sendingResponse) (stepPhase router m) m' →
        ReleasedFirst (streamed m.io.log) stream.ctx m') := by
  have hstep : stepConn router m = stepResponseBuild router m := by simp only [stepConn, hphase]
  obtain ⟨⟨arena, hconn⟩, hlog⟩ := responseDispatch_frame router m
  have hheaded := (hreaches.headTracked (Machine.ofSlot_wellFormed ..)
    (Machine.ofSlot_headTracked ..)).headed (.inr (.inr (.inr hphase)))
  have hmethod : (responseDispatch router m).2.conn.reqParsed.requestLine.method ≠ .head := by
    rw [hconn]
    exact hheaded.parsed.method_ne_head
  constructor
  · intro head hhead m' hm'
    refine hm'.streamRun (.inl ?_)
    obtain ⟨hsends, hstreams⟩ := responseBuild_streams hbody hmethod hhead
    rw [hlog, hconn] at hstreams
    refine ⟨?_, [], hstreams.turned hstep⟩
    rw [stepPhase_conn, hstep]
    exact hsends
  · intro hfull
    obtain ⟨hsends, hlog', resp, now, hresp⟩ := responseBuild_overflows hbody hmethod hfull
    rw [Stream.releases_of_cleanup hcleanup] at hlog'
    rw [stepPhase_conn, hstep]
    refine ⟨hsends, ⟨resp, now, ?_⟩, fun m' hm' => hm'.releasedFirst ⟨[], ?_, by simp⟩⟩
    · rw [hconn] at hresp
      exact hresp
    · rw [stepPhase_log, hstep, streamed_append, streamed_step, List.append_nil, ← hlog]
      exact hlog'

/-! ## A route that streams -/

def numbersStream : Stream := { ctx := some (.handler 1), pull := true, cleanup := true }

def numbersRouter : Router Unit :=
  { routes := [{
      method := ascii "GET"
      path := ascii "/"
      handler := fun _ _ scratch handlers =>
        (responseStream 200 (ascii "OK") numbersStream [], scratch, handlers) }] }

/-- The request for the streamed resource has been read. -/
def numbersClient : Machine Unit :=
  stepPhase numbersRouter (newClient.wake
    { recvs := [.data (ascii "GET / HTTP/1.1" ++ CRLF ++ ascii "Host: a" ++ CRLF ++ CRLF)] })

theorem numbersClient_reaches :
    Reaches numbersRouter (fun _ => True) newClient numbersClient :=
  .tail (.single (.wake _ (by simp [newClient, Machine.ofSlot, connectionInit])))
    (.turn (by simp [newClient, Machine.ofSlot, connectionInit, Machine.wake]) trivial)

theorem stream_whole_numbers : ∃ head, builtText numbersRouter numbersClient = some head ∧
    ∀ m', StreamsTo numbersRouter (stepPhase numbersRouter numbersClient) m' →
      StreamRun (streamed numbersClient.io.log) head numbersStream numbersClient.conn.requests
        m' := by
  have hphase : numbersClient.conn.phase = .building := by decide +kernel
  have hbody : (responseDispatch numbersRouter numbersClient).1.body = .stream numbersStream := by
    decide +kernel
  have hfits : (builtText numbersRouter numbersClient).isSome := by decide +kernel
  obtain ⟨head, hhead⟩ := Option.isSome_iff_exists.mp hfits
  exact ⟨head, hhead, (stream_whole numbersRouter {} 4096 HTTP_CONN_ARENA_SIZE 5
    { handlers := () } numbersClient numbersStream numbersClient_reaches hphase hbody rfl).1
    head hhead⟩

end HttpServer
