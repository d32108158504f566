import HttpServer.StreamedReceiving

/-!
# What a producer gives and what a reader gets

The pulls of a streamed response are kept beside what has been accepted of it. The
last chunk is only sent behind a pull that has returned no bytes, so a reader that
has a response has everything that the producer has given, up to its end.
-/

namespace HttpServer

variable {σ : Type*} {router : Router σ} {m m' : Machine σ} {cursor : ℕ} {head buf got : Bytes}
  {payloads : List Bytes} {evs base : List Event} {stream : Stream} {requests : ℕ}
  {slot : Connection} {backing backingCap : ℕ} {newFd : ℤ} {world : World σ}

/-! ## The pulls -/

def Event.outcome : Event → List PullOutcome
  | .pulled _ o => [o]
  | _ => []

/-- What the producer has returned, in order. -/
def pullOutcomes (evs : List Event) : List PullOutcome := evs.flatMap Event.outcome

@[simp] theorem pullOutcomes_append (evs evs' : List Event) :
    pullOutcomes (evs ++ evs') = pullOutcomes evs ++ pullOutcomes evs' := List.flatMap_append

@[simp] theorem pullOutcomes_send (offered : Bytes) (o : SendOutcome) :
    pullOutcomes [.send offered o] = [] := rfl

@[simp] theorem pullOutcomes_pulled (ctx : Option StreamCtx) (o : PullOutcome) :
    pullOutcomes [.pulled ctx o] = [o] := rfl

/-- The release of a producer is no pull. -/
theorem pullOutcomes_releases (stream : Stream) : pullOutcomes stream.releases = [] := by
  unfold Stream.releases
  split <;> rfl

/-- It sends nothing. -/
theorem accepted_releases (evs : List Event) (stream : Stream) :
    accepted (evs ++ stream.releases) = accepted evs := by
  rw [accepted_append]
  unfold Stream.releases
  split <;> exact List.append_nil _

/-- The payloads have been pulled, each into the buffer of a chunk, and behind them `last`. -/
structure PulledBefore (evs : List Event) (last : List PullOutcome) : Prop where
  outcomes : pullOutcomes evs = (pulledPayloads evs).map .data ++ last
  sized : ∀ payload ∈ pulledPayloads evs,
    payload ≠ [] ∧ payload.length ≤ HTTP_STREAM_CHUNK_SIZE

theorem PulledBefore.send {last : List PullOutcome} (h : PulledBefore evs last)
    (m : Machine σ) : PulledBefore (evs ++ [m.streamCall]) last where
  outcomes := by simpa [Machine.streamCall] using h.outcomes
  sized := by simpa [Machine.streamCall] using h.sized

/-- A pull that returns no payload. -/
theorem PulledBefore.ends (h : PulledBefore evs []) (hnone : m.pullCall.payload = []) :
    PulledBefore (evs ++ [m.pullCall]) [m.streamPulled] := by
  have hpayloads : pulledPayloads (evs ++ [m.pullCall]) = pulledPayloads evs := by
    rw [pulledPayloads_append, pulledPayloads_singleton, hnone, List.append_nil]
  refine ⟨?_, ?_⟩
  · rw [hpayloads, pullOutcomes_append, h.outcomes, List.append_nil, Machine.pullCall,
      pullOutcomes_pulled]
  · rw [hpayloads]
    exact h.sized

theorem PulledBefore.payload {c : Byte} {bytes : Bytes} (h : PulledBefore evs [])
    (hpull : m.streamPulled = .data (c :: bytes)) : PulledBefore (evs ++ [m.pullCall]) [] := by
  have hpayloads : pulledPayloads (evs ++ [m.pullCall]) = pulledPayloads evs ++ [c :: bytes] := by
    rw [pulledPayloads_append, pulledPayloads_singleton, Machine.pullCall, hpull]
    rfl
  refine ⟨?_, fun payload hmem => ?_⟩
  · rw [hpayloads, pullOutcomes_append, h.outcomes, List.append_nil, List.append_nil,
      Machine.pullCall, pullOutcomes_pulled, hpull, List.map_append]
    rfl
  · rw [hpayloads, List.mem_append, List.mem_singleton] at hmem
    rcases hmem with hmem | rfl
    · exact h.sized payload hmem
    · exact ⟨List.cons_ne_nil _ _, length_streamPulled hpull⟩

/-- Whether the end of the body has been pulled. -/
def StreamPhase.ending : StreamPhase → List PullOutcome
  | .trailer | .done => [.data []]
  | _ => []

/-- What has happened to a response that is being sent in `phase`. -/
def Sourced (phase : StreamPhase) (evs : List Event) : Prop := PulledBefore evs phase.ending

/-- What has happened to a response that has come to an end: unless the producer has ended first,
the last chunk has not been begun. -/
def Produced (head : Bytes) (evs : List Event) : Prop :=
  ∃ last, PulledBefore evs last ∧
    (last = [.data []] ∨ accepted evs <+: streamText head (pulledPayloads evs))

/-- Before the last chunk is staged, nothing of it is accepted. -/
theorem StreamProgress.unended {phase : StreamPhase} (hphase : phase.ending = [])
    (h : StreamProgress head phase payloads buf cursor got) : got <+: streamText head payloads := by
  cases h with
  | header =>
    rw [streamText, List.flatMap_nil, List.append_nil]
    exact List.take_prefix _ _
  | pull => exact List.prefix_rfl
  | drain payloads payload =>
    rw [streamText_append, List.flatMap_singleton]
    exact List.prefix_append_right_inj _ |>.mpr (List.take_prefix _ _)
  | trailer => cases hphase
  | done => cases hphase

theorem StreamPhase.ending_cases (phase : StreamPhase) :
    phase.ending = [] ∨ phase.ending = [.data []] := by
  cases phase <;> simp [StreamPhase.ending]

theorem Sourced.produced {phase : StreamPhase} (h : Sourced phase evs)
    (hprogress : StreamProgress head phase (pulledPayloads evs) buf cursor (accepted evs)) :
    Produced head evs := by
  refine ⟨phase.ending, h, ?_⟩
  rcases phase.ending_cases with hphase | hphase
  · exact .inr (hprogress.unended hphase)
  · exact .inl hphase

/-! ## The loop -/

/-- What the loop leads to when it returns `phase`: `StreamGoes` with the pulls. -/
def SourceGoes (base : List Event) (head : Bytes) (stream : Stream) (requests : ℕ)
    (phase : ConnPhase) (m : Machine σ) : Prop :=
  phase = .sendingResponseStream ∧ (∃ evs, Streams base head stream requests m evs ∧
      Sourced m.conn.st.getStream.phase evs) ∨
    ∃ evs, StreamEnded base head stream requests phase m evs ∧ Produced head evs

theorem StreamPhase.Leads.ending {phase next : StreamPhase} (h : phase.Leads next) :
    next.ending = phase.ending := by
  cases phase <;> cases next <;> first | rfl | exact h.elim

theorem Sourced.advances (hstreams : Streams base head stream requests m evs)
    {next : StreamPhase} (hnext : m.conn.streamNext = some next)
    (h : Sourced m.conn.st.getStream.phase evs) : Sourced next (evs ++ [m.streamCall]) := by
  have hleads := Connection.leads_of_streamNext hnext hstreams.method
  show PulledBefore _ next.ending
  rw [hleads.ending]
  exact h.send m

theorem Sourced.pulls {payload : Bytes} (hphase : m.conn.st.getStream.phase = .pull)
    (hpull : m.streamPulled = .data payload) (h : Sourced m.conn.st.getStream.phase evs) :
    Sourced (framePhase payload) (evs ++ [m.pullCall]) := by
  rw [hphase] at h
  cases payload with
  | nil =>
    have hends := PulledBefore.ends (m := m) h (by rw [Machine.pullCall, hpull]; rfl)
    rwa [hpull] at hends
  | cons c bytes => exact PulledBefore.payload h hpull

/-- A pull is no call of `send`, so all that has been accepted are whole frames. -/
theorem Streams.accepted_pulled (hstreams : Streams base head stream requests m evs)
    (hphase : m.conn.st.getStream.phase = .pull) :
    accepted (evs ++ [m.pullCall]) <+:
      streamText head (pulledPayloads (evs ++ [m.pullCall])) := by
  have hprogress := hstreams.progress
  rw [hphase] at hprogress
  rw [HttpServer.accepted_pulled, hprogress.of_pull, pulledPayloads_append, streamText_append]
  exact List.prefix_append _ _

theorem Sourced.givesUp (hstreams : Streams base head stream requests m evs)
    (hphase : m.conn.st.getStream.phase = .pull) (h : Sourced m.conn.st.getStream.phase evs) :
    Produced head (evs ++ [m.pullCall]) := by
  have haccepted := hstreams.accepted_pulled hphase
  have hpulled : PulledBefore evs [] := by
    rw [hphase] at h
    exact h
  cases hpull : m.streamPulled with
  | error => exact ⟨_, hpulled.ends (by rw [Machine.pullCall, hpull]; rfl), .inr haccepted⟩
  | data payload =>
    cases payload with
    | nil => exact ⟨_, hpulled.ends (by rw [Machine.pullCall, hpull]; rfl), .inr haccepted⟩
    | cons c bytes => exact ⟨_, hpulled.payload hpull, .inr haccepted⟩

theorem stepResponseSendStream_sourced (h : Streams base head stream requests m evs)
    (hsourced : Sourced m.conn.st.getStream.phase evs) :
    SourceGoes base head stream requests (stepResponseSendStream m).1
      (stepResponseSendStream m).2 := by
  apply stepResponseSendStream_rule (fun m => ∃ evs, Streams base head stream requests m evs ∧
    Sourced m.conn.st.getStream.phase evs) (SourceGoes base head stream requests)
  · rintro a b ⟨evs, hstreams, hsourced⟩ hturn
    cases hturn with
    | sent hnext hstatus =>
      exact ⟨_, hstreams.advances hnext hstatus, hsourced.advances hstreams hnext⟩
    | framed hphase hpull hframe =>
      exact ⟨_, hstreams.pulls hphase hpull hframe, hsourced.pulls hphase hpull⟩
  · rintro a phase b ⟨evs, hstreams, hsourced⟩ hturn
    cases hturn with
    | blocked hnext => exact .inl ⟨rfl, _, hstreams.stays hnext, hsourced.send a⟩
    | failed hnext =>
      have hstays := hstreams.stays hnext
      have hsent : Sourced a.conn.st.getStream.phase (evs ++ [a.streamCall]) := hsourced.send a
      exact .inr ⟨_, hstays.aborts, hsent.produced hstays.progress⟩
    | gaveUp hphase =>
      exact .inr ⟨_, hstreams.givesUp hphase, hsourced.givesUp hstreams hphase⟩
    | done hphase =>
      exact .inr ⟨_, hstreams.completes hphase, hsourced.produced hstreams.progress⟩
  · exact ⟨evs, h, hsourced⟩

/-! ## Over wake-ups -/

/-- `StreamRun` with the pulls. -/
def SourceRun (base : List Event) (head : Bytes) (stream : Stream) (requests : ℕ)
    (m : Machine σ) : Prop :=
  SourceGoes base head stream requests m.conn.phase m

theorem stepPhase_sourceRun (router : Router σ) (hphase : m.conn.phase = .sendingResponseStream)
    (h : Streams base head stream requests m evs)
    (hsourced : Sourced m.conn.st.getStream.phase evs) :
    SourceRun base head stream requests (stepPhase router m) := by
  have hstep : stepConn router m = stepResponseSendStream m := by simp only [stepConn, hphase]
  have hconn : (stepPhase router m).conn =
      { (stepResponseSendStream m).2.conn with phase := (stepResponseSendStream m).1 } := by
    rw [stepPhase_conn, hstep]
  rcases stepResponseSendStream_sourced h hsourced with ⟨hstays, evs', hstreams, hsourced'⟩ |
    ⟨evs', hended, hproduced⟩
  · refine .inl ⟨by rw [hconn]; exact hstays, evs', hstreams.turned hstep, ?_⟩
    rw [hconn]
    exact hsourced'
  · exact .inr ⟨evs', hended.turned hstep, hproduced⟩

theorem StreamsTo.sourceRun (h : StreamsTo router m m')
    (hm : SourceRun base head stream requests m) : SourceRun base head stream requests m' := by
  refine Runs.invariant (SourceRun base head stream requests) h hm fun a b _ ha hnext => ?_
  rcases ha with ⟨hphase, evs, hstreams, hsourced⟩ | ⟨evs, hended, hproduced⟩
  · cases hnext with
    | wake w => exact .inl ⟨hphase, evs, hstreams.wake w, hsourced⟩
    | turn hopen hallowed => exact stepPhase_sourceRun router hphase hstreams hsourced
  · cases hnext with
    | wake w => exact .inr ⟨evs, hended.wake w, hproduced⟩
    | turn hopen hallowed => exact absurd hallowed hended.left

/-! ## Received as it was produced -/

/-- The producer has given `body` and then its end. -/
def ProducedAll (evs : List Event) (body : Bytes) : Prop :=
  ∃ payloads : List Bytes, pullOutcomes evs = payloads.map .data ++ [.data []] ∧
    payloads.flatten = body

theorem HTTP_STREAM_CHUNK_SIZE_le : HTTP_STREAM_CHUNK_SIZE ≤ HTTP_MAX_BODY_LEN := by decide

/-- The last chunk is only sent behind the end of the body. -/
theorem Produced.ended (h : Produced head evs)
    (hwhole : accepted evs = streamText head (pulledPayloads evs) ++ LAST_CHUNK) :
    pullOutcomes evs = (pulledPayloads evs).map .data ++ [.data []] := by
  obtain ⟨last, hpulled, rfl | hshort⟩ := h
  · exact hpulled.outcomes
  · rw [hwhole] at hshort
    have hle := hshort.length_le
    have hpos : 0 < LAST_CHUNK.length := by decide
    rw [List.length_append] at hle
    omega

/-- What a reader makes of the part of a streamed response that has been accepted. -/
theorem Produced.received {dechunk : Bytes → Option (Bytes × Bytes)}
    (hreads : ReadsChunked dechunk) {resp : HttpResponse} {keepAlive : Bool} {now : ℤ}
    (hbody : resp.body = .stream stream) (hreason : ¬ CRLF <:+: resp.reason)
    (hheaders : ∀ header ∈ resp.headers, header.Plain)
    (h : Produced (responseText resp keepAlive now) evs)
    (hgot : accepted evs <+: streamText (responseText resp keepAlive now) (pulledPayloads evs) ++
      LAST_CHUNK) :
    (∀ body rest, receive dechunk (accepted evs) = some (body, rest) →
        ProducedAll evs body ∧ rest = []) ∧
      (accepted evs = streamText (responseText resp keepAlive now) (pulledPayloads evs) ++
        LAST_CHUNK → ∃ body, receive dechunk (accepted evs) = some (body, [])) := by
  have hends := h.ended
  obtain ⟨last, hpulled, -⟩ := h
  have hreceive := receive_stream_iff hreads hbody hreason hheaders
    (fun payload hmem => (hpulled.sized payload hmem).imp_right
      (·.trans HTTP_STREAM_CHUNK_SIZE_le)) hgot
  constructor
  · intro body rest hread
    obtain ⟨hwhole, rfl, rfl⟩ := (hreceive body rest).mp hread
    exact ⟨⟨pulledPayloads evs, hends hwhole, rfl⟩, rfl⟩
  · intro hwhole
    exact ⟨_, (hreceive _ []).mpr ⟨hwhole, rfl, rfl⟩⟩

theorem responseBuild_header {res : HttpResponse} (hbody : res.body = .stream stream)
    (hhead : (m.serialize res).1.result = some head) :
    (responseBuild res m).2.conn.st.getStream.phase = .header := by
  have hsame : (Machine.serialize { m with conn.producer := stream } res).1 =
      (m.serialize res).1 := rfl
  unfold responseBuild
  rw [hbody]
  dsimp only
  rw [hsame, if_neg (Out.not_failed hhead)]
  rfl

/-- The response has been serialized and nothing of it is sent yet. -/
theorem stepPhase_streams (router : Router σ)
    (hreaches : Reaches router (fun _ => True) (.ofSlot slot backing backingCap newFd world) m)
    (hphase : m.conn.phase = .building)
    (hbody : (responseDispatch router m).1.body = .stream stream)
    (hhead : builtText router m = some head) :
    (stepPhase router m).conn.phase = .sendingResponseStream ∧
      SourceRun (streamed m.io.log) head stream m.conn.requests (stepPhase router m) := by
  have hstep : stepConn router m = stepResponseBuild router m := by simp only [stepConn, hphase]
  obtain ⟨⟨arena, hconn⟩, hlog⟩ := responseDispatch_frame router m
  have hheaded := (hreaches.headTracked (Machine.ofSlot_wellFormed ..)
    (Machine.ofSlot_headTracked ..)).headed (.inr (.inr (.inr hphase)))
  have hmethod : (responseDispatch router m).2.conn.reqParsed.requestLine.method ≠ .head := by
    rw [hconn]
    exact hheaded.parsed.method_ne_head
  obtain ⟨hsends, hstreams⟩ := responseBuild_streams hbody hmethod hhead
  have hheader := responseBuild_header hbody hhead
  rw [hlog, hconn] at hstreams
  have hstreams' := hstreams.turned hstep
  have hsends' : (stepPhase router m).conn.phase = .sendingResponseStream := by
    rw [stepPhase_conn, hstep]
    exact hsends
  have hheader' : (stepPhase router m).conn.st.getStream.phase = .header := by
    rw [stepPhase_conn, hstep]
    exact hheader
  refine ⟨hsends', .inl ⟨hsends', [], hstreams', ?_⟩⟩
  rw [hheader']
  exact ⟨rfl, by simp [pulledPayloads]⟩

/-- The head of a response is its text, which has no body behind it. -/
theorem builtText_eq (hhead : builtText router m = some head) :
    ∃ keepAlive now, head = responseText (responseDispatch router m).1 keepAlive now := by
  obtain ⟨now, hout, -, -⟩ :=
    (responseDispatch router m).2.serialize_spec (responseDispatch router m).1
  rw [builtText, hout] at hhead
  exact ⟨_, now, (responseSerialize_holds _ _ _ _).result hhead⟩

/-- What is true of a response from the first byte of its head on, at every moment. -/
theorem StreamsTo.received {dechunk : Bytes → Option (Bytes × Bytes)}
    (hreads : ReadsChunked dechunk) {resp : HttpResponse} {keepAlive : Bool} {now : ℤ}
    (hbody : resp.body = .stream stream) (hreason : ¬ CRLF <:+: resp.reason)
    (hheaders : ∀ header ∈ resp.headers, header.Plain)
    (hrun : SourceRun base (responseText resp keepAlive now) stream requests m)
    (hm' : StreamsTo router m m') :
    ∃ evs, streamed m'.io.log = base ++ evs ∧
      (∀ body rest, receive dechunk (accepted evs) = some (body, rest) →
        ProducedAll evs body ∧ rest = []) ∧
      (m'.conn.requests = requests + 1 →
        ∃ body, receive dechunk (accepted evs) = some (body, [])) := by
  rcases hm'.sourceRun hrun with ⟨-, evs, hstreams, hsourced⟩ | ⟨evs, hended, hproduced⟩
  · obtain ⟨hread, -⟩ := (hsourced.produced hstreams.progress).received hreads hbody hreason
      hheaders hstreams.progress.isPrefix
    refine ⟨evs, hstreams.log, hread, fun hcounted => ?_⟩
    rw [hstreams.counted] at hcounted
    omega
  · have hgot : accepted evs <+:
        streamText (responseText resp keepAlive now) (pulledPayloads evs) ++ LAST_CHUNK := by
      rcases hended.complete with ⟨-, hwhole⟩ | ⟨-, -, hpart⟩
      · exact hwhole ▸ List.prefix_rfl
      · exact hpart
    obtain ⟨hread, hwhole⟩ := hproduced.received hreads hbody hreason hheaders hgot
    refine ⟨evs ++ stream.releases, hended.log, ?_, fun hcounted => ?_⟩
    · rw [accepted_releases]
      intro body rest hreceived
      obtain ⟨⟨payloads, houtcomes, hflat⟩, hrest⟩ := hread body rest hreceived
      refine ⟨⟨payloads, ?_, hflat⟩, hrest⟩
      rw [pullOutcomes_append, houtcomes, pullOutcomes_releases, List.append_nil]
    · rw [accepted_releases]
      rcases hended.complete with ⟨-, hall⟩ | ⟨-, hsame, -⟩
      · exact hwhole hall
      · omega

/-- While a response is streamed and after it, `evs` being what has happened to it: of a response
that has been cut short, for whatever reason, a reader makes nothing; what it makes of a response
is all that the producer has given, to its end; and it has the response once the server counts
it. -/
theorem stream_received (router : Router σ) (slot : Connection) (backing backingCap : ℕ)
    (newFd : ℤ) (world : World σ) (m : Machine σ) (stream : Stream)
    (dechunk : Bytes → Option (Bytes × Bytes)) (hreads : ReadsChunked dechunk)
    (hreaches : Reaches router (fun _ => True) (.ofSlot slot backing backingCap newFd world) m)
    (hphase : m.conn.phase = .building)
    (hbody : (responseDispatch router m).1.body = .stream stream)
    (hreason : ¬ CRLF <:+: (responseDispatch router m).1.reason)
    (hheaders : ∀ header ∈ (responseDispatch router m).1.headers, header.Plain)
    (hfits : (builtText router m).isSome) (m' : Machine σ)
    (hm' : StreamsTo router (stepPhase router m) m') :
    ∃ evs, streamed m'.io.log = streamed m.io.log ++ evs ∧
      (∀ body rest, receive dechunk (accepted evs) = some (body, rest) →
        ProducedAll evs body ∧ rest = []) ∧
      (m'.conn.requests = m.conn.requests + 1 →
        ∃ body, receive dechunk (accepted evs) = some (body, [])) := by
  obtain ⟨head, hhead⟩ := Option.isSome_iff_exists.mp hfits
  obtain ⟨keepAlive, now, rfl⟩ := builtText_eq hhead
  obtain ⟨-, hrun⟩ := stepPhase_streams router hreaches hphase hbody hhead
  exact hm'.received hreads hbody hreason hheaders hrun

/-- Two numbers have been pulled and sent, and the end of the response behind them. -/
def numbersSent : Machine Unit :=
  stepPhase numbersRouter ((stepPhase numbersRouter numbersClient).wake
    { sends := [.accepted 8192, .accepted 8192, .accepted 8192, .accepted 8192]
      pulls := [.data (ascii "one, "), .data (ascii "two")] })

theorem numbersSent_streams :
    StreamsTo numbersRouter (stepPhase numbersRouter numbersClient) numbersSent :=
  .tail (.single (.wake _ (by decide +kernel))) (.turn (by decide +kernel) (by decide +kernel))

theorem stream_received_numbers : ∃ evs,
    streamed numbersSent.io.log = streamed numbersClient.io.log ++ evs ∧
      (∀ body rest, receive readChunked (accepted evs) = some (body, rest) →
        ProducedAll evs body ∧ rest = []) ∧
      ∃ body, receive readChunked (accepted evs) = some (body, []) := by
  have hcounted : numbersSent.conn.requests = numbersClient.conn.requests + 1 := by decide +kernel
  have hnone : (responseDispatch numbersRouter numbersClient).1.headers = [] := by decide +kernel
  obtain ⟨evs, hlog, hread, hwhole⟩ := stream_received numbersRouter {} 4096 HTTP_CONN_ARENA_SIZE 5
    { handlers := () } numbersClient numbersStream readChunked readsChunked_readChunked
    numbersClient_reaches (by decide +kernel) (by decide +kernel)
    (one_line_of_cr_not_mem (by decide +kernel)) (by simp [hnone]) (by decide +kernel)
    numbersSent numbersSent_streams
  exact ⟨evs, hlog, hread, hwhole hcounted⟩

end HttpServer
