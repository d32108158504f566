import HttpServer.FileDownloads
import HttpServer.WireOrder

/-!
# Streamed responses come to an end

As long as the socket takes something at every wake-up and neither a call of `send` nor
the producer fails, a streamed response is never given up and every wake-up moves at
least a byte. So it is out after as many wake-ups as it has bytes, and with it a file
that is downloaded.
-/

namespace HttpServer

open Relation

variable {σ : Type*} {router : Router σ} {m m' : Machine σ} {stream : Stream}
  {before requests : ℕ} {head : Bytes} {base evs : List Event}

/-! ## One turn -/

/-- Nothing that is going to happen ends a response before its end. -/
structure Io.Willing (io : Io) : Prop where
  sends : ∀ o ∈ io.sends, o ≠ .peerClosed ∧ o ≠ .error
  pulls : PullOutcome.error ∉ io.pulls

theorem SendOutcome.clip_willing {o : SendOutcome} (h : o ≠ .peerClosed ∧ o ≠ .error) (len : ℕ) :
    o.clip len ≠ .peerClosed ∧ o.clip len ≠ .error := by
  cases o <;> simp_all [SendOutcome.clip]

theorem Io.Willing.nextSend {io : Io} (h : io.Willing) (len : ℕ) :
    io.nextSend len ≠ .peerClosed ∧ io.nextSend len ≠ .error := by
  unfold Io.nextSend
  cases hsends : io.sends with
  | nil => exact SendOutcome.clip_willing ⟨by simp, by simp⟩ len
  | cons o rest => exact SendOutcome.clip_willing (h.sends o (by simp [hsends])) len

theorem SendOutcome.status_willing {o : SendOutcome} (h : o ≠ .peerClosed ∧ o ≠ .error)
    (size sent : ℕ) : o.status size sent ≠ .peerClosed ∧ o.status size sent ≠ .error := by
  cases o with
  | accepted n =>
    simp only [SendOutcome.status]
    split <;> simp
  | again => exact ⟨by simp [SendOutcome.status], by simp [SendOutcome.status]⟩
  | interrupted => exact ⟨by simp [SendOutcome.status], by simp [SendOutcome.status]⟩
  | peerClosed => exact absurd rfl h.1
  | error => exact absurd rfl h.2

theorem streamSent_willing (h : m.io.Willing) (st : SendStreamSt) :
    (m.streamSent st).io.Willing := by
  refine ⟨fun o hmem => h.sends o (List.mem_of_mem_tail hmem), ?_⟩
  have hpulls : (m.streamSent st).io.pulls = m.io.pulls := by
    show (m.io.sendAsserted m.conn.fd m.conn.mem.respBuf m.conn.st.getStream.send).pulls = _
    unfold Io.sendAsserted Io.assert
    split <;> rfl
  rw [hpulls]
  exact h.pulls

theorem afterPull_willing (h : m.io.Willing) :
    m.streamPulled ≠ .error ∧ m.afterPull.io.Willing := by
  unfold Machine.streamPulled Machine.afterPull Io.pull
  cases hpulls : m.io.pulls with
  | nil => exact ⟨by simp, h.sends, by simp [Io.emit, hpulls]⟩
  | cons o rest =>
    have hnone := h.pulls
    rw [hpulls, List.mem_cons, not_or] at hnone
    refine ⟨?_, h.sends, hnone.2⟩
    cases o with
    | data bytes => simp
    | error => exact absurd rfl hnone.1

/-- The socket takes something when `send` is called next. -/
def Io.Takes (io : Io) : Prop := ∃ n rest, io.sends = .accepted (n + 1) :: rest

theorem accepted_streamSent (m : Machine σ) (st : SendStreamSt) :
    accepted (m.streamSent st).io.log = accepted m.io.log ++ m.streamCall.sentBytes :=
  accepted_sent m m.conn.mem.respBuf m.conn.st.getStream.send

theorem streamCall_takes (hwhole : m.conn.mem.respBuf.contents.length = m.conn.mem.respBuf.size)
    (hsent : m.conn.st.getStream.send.sent < m.conn.mem.respBuf.size) (htakes : m.io.Takes) :
    0 < m.streamCall.sentBytes.length := by
  obtain ⟨n, rest, hsends⟩ := htakes
  have hnext : ∀ len, m.io.nextSend len = .accepted (min (n + 1) len) := by
    intro len
    rw [Io.nextSend, hsends]
    rfl
  rw [Machine.streamCall, Machine.streamAnswer, hnext]
  simp only [Event.sentBytes, Machine.streamOffer, List.length_take, List.length_drop, hwhole]
  omega

/-- What the loop keeps while nothing fails: there has been more accepted than `before`, or the next
call of `send` is going to see to it. -/
structure Flows (before requests : ℕ) (m : Machine σ) : Prop where
  bounded : StreamBounded m
  willing : m.io.Willing
  counted : m.conn.requests = requests
  whole : m.conn.mem.respBuf.contents.length = m.conn.mem.respBuf.size
  moves : before < (accepted m.io.log).length ∨
    m.io.Takes ∧ before ≤ (accepted m.io.log).length

theorem Flows.sent (h : Flows before requests m) {next : StreamPhase}
    (hnext : m.conn.streamNext = some next) (st : SendStreamSt) :
    before < (accepted (m.streamSent st).io.log).length := by
  rw [accepted_streamSent, List.length_append]
  rcases h.moves with hmoved | ⟨htakes, hkept⟩
  · omega
  · have hsent := h.bounded.stands (Connection.sends_of_streamNext hnext).1
    have hpos := streamCall_takes h.whole hsent htakes
    omega

theorem LoopTurn.keepsFlow (hturn : LoopTurn m (none, m')) (h : Flows before requests m) :
    Flows before requests m' := by
  have hbounded := hturn.keepsBounded h.bounded
  cases hturn with
  | sent hnext =>
    exact ⟨hbounded, streamSent_willing h.willing _, h.counted, h.whole, .inl (h.sent hnext _)⟩
  | framed =>
    obtain ⟨-, hwilling⟩ := afterPull_willing h.willing
    have haccepted : accepted m.afterPull.io.log = accepted m.io.log := by
      rw [afterPull_log]
      exact accepted_pulled m.io.log m
    refine ⟨hbounded, hwilling, h.counted, ?_, ?_⟩
    · exact congrArg List.length (m.conn.mem.respBuf.contents_stage _)
    · show before < (accepted m.afterPull.io.log).length ∨
        m.afterPull.io.Takes ∧ before ≤ (accepted m.afterPull.io.log).length
      unfold Io.Takes
      rw [haccepted, afterPull_sends]
      exact h.moves

/-- The loop ends the response, or waits and has moved a byte at least. -/
def FlowGoes (before requests : ℕ) (phase : ConnPhase) (m : Machine σ) : Prop :=
  phase = .sendingResponseStream ∧ before < (accepted m.io.log).length ∨
    phase ≠ .sendingResponseStream ∧ m.conn.requests = requests + 1

theorem LoopTurn.endsFlow {phase : ConnPhase} (hturn : LoopTurn m (some phase, m'))
    (h : Flows before requests m) : FlowGoes before requests phase m' := by
  cases hturn with
  | blocked hnext => exact .inl ⟨rfl, h.sent hnext _⟩
  | failed hnext hstatus =>
    have hwilling := SendOutcome.status_willing (h.willing.nextSend m.streamOffer.length)
      m.conn.mem.respBuf.size m.conn.st.getStream.send.sent
    exact (hstatus.elim hwilling.1 hwilling.2).elim
  | gaveUp hphase hcause =>
    obtain ⟨hok, -⟩ := afterPull_willing h.willing
    cases hpull : m.streamPulled with
    | error => exact absurd hpull hok
    | data payload =>
      have hframe := hcause payload hpull
      rw [h.bounded.bounded.response.sized,
        streamFrame_fits m.conn.producer.ctx (length_streamPulled hpull)] at hframe
      cases hframe
  | done =>
    refine .inr ⟨?_, ?_⟩
    · rw [responseComplete_fst]
      split <;> simp
    · rw [responseComplete_requests, streamRelease_requests, h.counted]

theorem stepResponseSendStream_flows (h : Flows before requests m) :
    FlowGoes before requests (stepResponseSendStream m).1 (stepResponseSendStream m).2 :=
  stepResponseSendStream_rule (Flows before requests) (FlowGoes before requests)
    (fun _ _ hm hturn => hturn.keepsFlow hm) (fun _ _ _ hm hturn => hturn.endsFlow hm) h

/-! ## Wake-ups -/

/-- A wake-up in which the socket takes something and nothing fails. -/
structure Wake.Moves (w : Wake σ) : Prop where
  takes : ∃ n rest, w.sends = .accepted (n + 1) :: rest
  sends : ∀ o ∈ w.sends, o ≠ .peerClosed ∧ o ≠ .error
  pulls : PullOutcome.error ∉ w.pulls

/-- The wake-ups until `CONN_SENDING_RESPONSE_STREAM` is left. A turn that stays in the phase ends
its wake-up. -/
def streamWakes (router : Router σ) : Machine σ → List (Wake σ) → Machine σ
  | m, [] => m
  | m, w :: wakes =>
    let m' := stepPhase router (m.wake w)
    if m'.conn.phase = .sendingResponseStream then streamWakes router m' wakes else m'

/-- A response that is being streamed, with all that its loop relies on. -/
structure Flowing (base : List Event) (head : Bytes) (stream : Stream) (requests : ℕ)
    (m : Machine σ) : Prop where
  phase : m.conn.phase = .sendingResponseStream
  streams : ∃ evs, Streams base head stream requests m evs
  bounded : StreamBounded m

theorem Flowing.flows (h : Flowing base head stream requests m) {w : Wake σ} (hw : w.Moves) :
    Flows (accepted m.io.log).length requests (m.wake w) := by
  obtain ⟨-, ⟨evs, hstreams⟩, hbounded⟩ := h
  exact ⟨⟨hbounded.bounded, hbounded.stands, hbounded.asserts⟩, ⟨hw.sends, hw.pulls⟩,
    hstreams.counted, hstreams.size, .inr ⟨hw.takes, le_rfl⟩⟩

theorem stepPhase_moves (router : Router σ) (h : Flowing base head stream requests m)
    {w : Wake σ} (hw : w.Moves) :
    (stepPhase router (m.wake w)).conn.phase ≠ .sendingResponseStream ∧
        (stepPhase router (m.wake w)).conn.requests = requests + 1 ∨
      Flowing base head stream requests (stepPhase router (m.wake w)) ∧
        (accepted m.io.log).length < (accepted (stepPhase router (m.wake w)).io.log).length := by
  have hflows := h.flows hw
  have hphase : (m.wake w).conn.phase = .sendingResponseStream := h.phase
  have hstep : stepConn router (m.wake w) = stepResponseSendStream (m.wake w) := by
    simp only [stepConn, hphase]
  have hconn : (stepPhase router (m.wake w)).conn =
      { (stepResponseSendStream (m.wake w)).2.conn with
        phase := (stepResponseSendStream (m.wake w)).1 } := by
    rw [stepPhase_conn, hstep]
  have haccepted : accepted (stepPhase router (m.wake w)).io.log =
      accepted (stepResponseSendStream (m.wake w)).2.io.log := by
    rw [stepPhase_log, hstep, accepted_append]
    exact List.append_nil _
  obtain ⟨evs, hstreams⟩ := h.streams
  have hrun := stepPhase_streamRun router hphase (hstreams.wake w)
  rcases stepResponseSendStream_flows hflows with ⟨hstays, hgrows⟩ | ⟨hleft, hcounted⟩
  · have hstays' : (stepPhase router (m.wake w)).conn.phase = .sendingResponseStream := by
      rw [hconn]
      exact hstays
    have hkept := stepResponseSendStream_bounded hflows.bounded
    rcases hrun with ⟨-, hstreams'⟩ | ⟨evs', hended⟩
    · refine .inr ⟨⟨hstays', hstreams', ?_, ?_, ?_⟩, haccepted ▸ hgrows⟩
      · rw [hconn]
        exact { hkept.bounded with }
      · have hstands := hkept.stands
        rw [hstays] at hstands
        rw [hconn]
        exact hstands
      · rw [stepPhase_log, hstep]
        exact hkept.asserts.emit (by simp)
    · exact absurd hstays' hended.left
  · refine .inl ⟨?_, ?_⟩ <;> rw [hconn] <;> assumption

/-- After each wake-up the response is out or a byte more of it is. -/
theorem streamWakes_moves (router : Router σ) (wakes : List (Wake σ))
    (hwakes : ∀ w ∈ wakes, w.Moves) (h : Flowing base head stream requests m) :
    (streamWakes router m wakes).conn.phase ≠ .sendingResponseStream ∧
        (streamWakes router m wakes).conn.requests = requests + 1 ∨
      Flowing base head stream requests (streamWakes router m wakes) ∧
        (accepted m.io.log).length + wakes.length ≤
          (accepted (streamWakes router m wakes).io.log).length := by
  induction wakes generalizing m with
  | nil => exact .inr ⟨h, le_rfl⟩
  | cons w wakes ih =>
    obtain ⟨hw, hrest⟩ := List.forall_mem_cons.mp hwakes
    rw [streamWakes]
    rcases stepPhase_moves router h hw with ⟨hleft, hcounted⟩ | ⟨hflows, hgrows⟩
    · rw [if_neg hleft]
      exact .inl ⟨hleft, hcounted⟩
    · rw [if_pos hflows.phase]
      refine (ih hrest hflows).imp_right fun ⟨hflows', hmoved⟩ => ⟨hflows', ?_⟩
      rw [List.length_cons]
      omega

theorem streamWakes_streamsTo (router : Router σ) (wakes : List (Wake σ))
    (hphase : m.conn.phase = .sendingResponseStream) :
    StreamsTo router m (streamWakes router m wakes) := by
  induction wakes generalizing m with
  | nil => exact .refl
  | cons w wakes ih =>
    have hopen : m.conn.phase ≠ .closed := by simp [hphase]
    have hnext : StreamsTo router m (stepPhase router (m.wake w)) :=
      .tail (.single (.wake w hopen)) (.turn hopen hphase)
    rw [streamWakes]
    split
    · next hstays => exact hnext.trans (ih hstays)
    · exact hnext

theorem accepted_streamed (log : List Event) : accepted (streamed log) = accepted log := by
  induction log with
  | nil => rfl
  | cons e log ih =>
    have hcons : streamed (e :: log) = if e.streams then e :: streamed log else streamed log :=
      List.filter_cons
    rw [hcons, accepted_cons, ← ih]
    cases e <;> simp [Event.streams, Event.sentBytes]

theorem Streams.accepted (h : Streams base head stream requests m evs) :
    HttpServer.accepted m.io.log = HttpServer.accepted base ++ HttpServer.accepted evs := by
  rw [← accepted_streamed, h.log, accepted_append]

/-- A response that has had as many wake-ups as it has bytes, and one more, is out. -/
theorem Flowing.completes (router : Router σ) (h : Flowing base head stream requests m)
    {wakes : List (Wake σ)} (hwakes : ∀ w ∈ wakes, w.Moves)
    (hends : ∀ evs, (streamWakes router m wakes).conn.phase = .sendingResponseStream →
      Streams base head stream requests (streamWakes router m wakes) evs →
      (streamText head (pulledPayloads evs) ++ LAST_CHUNK).length < wakes.length) :
    (streamWakes router m wakes).conn.requests = requests + 1 := by
  rcases streamWakes_moves router wakes hwakes h with ⟨-, hcounted⟩ | ⟨hflows, hmoved⟩
  · exact hcounted
  · obtain ⟨evs₀, hbefore⟩ := h.streams
    obtain ⟨evs, hstreams⟩ := hflows.streams
    have hlong := hends evs hflows.phase hstreams
    have hsent := hstreams.progress.isPrefix.length_le
    rw [hbefore.accepted, hstreams.accepted, List.length_append, List.length_append] at hmoved
    omega

/-- A response that has been serialized is on its way. -/
theorem stepPhase_flowing (router : Router σ) (hrouter : router.AllocatesScratch)
    {slot : Connection} {backing : ℕ} {newFd : ℤ} (hfd : 0 < newFd) {world : World σ}
    (hreaches : Reaches router (fun m => m.io.Dated)
      (.ofSlot slot backing HTTP_CONN_ARENA_SIZE newFd world) m)
    (hdated : m.io.Dated) (hphase : m.conn.phase = .building)
    (hbody : (responseDispatch router m).1.body = .stream stream)
    (hhead : builtText router m = some head) :
    SourceRun (streamed m.io.log) head stream m.conn.requests (stepPhase router m) ∧
      Flowing (streamed m.io.log) head stream m.conn.requests (stepPhase router m) := by
  obtain ⟨hstays, hrun⟩ := stepPhase_streams router (hreaches.mono fun _ _ => trivial) hphase
    hbody hhead
  have hopen : m.conn.phase ≠ .closed := by simp [hphase]
  have htimely : Reaches router (fun m => m.io.Timely)
      (.ofSlot slot backing HTTP_CONN_ARENA_SIZE newFd world) m :=
    hreaches.mono fun _ hm => hm.timely
  have hbounded := Reaches.bounded hrouter (htimely.tail (.turn hopen hdated.timely))
    (Machine.ofSlot_wellFormed slot backing HTTP_CONN_ARENA_SIZE newFd world)
    (Machine.ofSlot_bounded slot backing hfd world)
  refine ⟨hrun, ?_⟩
  rcases hrun with ⟨-, evs, hstreams, -⟩ | ⟨evs, hended, -⟩
  · refine ⟨hstays, ⟨evs, hstreams⟩, hbounded.bounded, ?_, hbounded.asserts⟩
    have hstands := hbounded.stands
    dsimp only at hstands
    rwa [hstays] at hstands
  · exact absurd hstays hended.left

/-- All that the producer has given is out. -/
theorem Flowing.whole (h : Flowing base head stream requests m)
    (hrun : SourceRun base head stream requests m) {wakes : List (Wake σ)}
    (hcounted : (streamWakes router m wakes).conn.requests = requests + 1) :
    ∃ evs payloads, streamed (streamWakes router m wakes).io.log = base ++ evs ∧
      pullOutcomes evs = payloads.map .data ++ [.data []] ∧
      accepted evs = streamText head payloads ++ LAST_CHUNK := by
  rcases (streamWakes_streamsTo router wakes h.phase).sourceRun hrun with
    ⟨-, evs, hstreams, -⟩ | ⟨evs, hended, hproduced⟩
  · have hsame := hstreams.counted
    omega
  · rcases hended.complete with ⟨-, hall⟩ | ⟨-, hsame, -⟩
    · refine ⟨evs ++ stream.releases, pulledPayloads evs, hended.log, ?_, ?_⟩
      · rw [pullOutcomes_append, pullOutcomes_releases, List.append_nil]
        exact hproduced.ended hall
      · rw [accepted_releases, hall]
    · omega

/-- Whatever a producer gives, once a streamed response has had more wake-ups than it has bytes, and
at none of them the socket was full and nothing failed, the response is counted, the producer has
come to its end and all that it has given is out. -/
theorem stream_completes (router : Router σ) (hrouter : router.AllocatesScratch)
    (slot : Connection) (backing : ℕ) (newFd : ℤ) (hfd : 0 < newFd) (world : World σ)
    (m : Machine σ) (stream : Stream) (head : Bytes)
    (hreaches : Reaches router (fun m => m.io.Dated)
      (.ofSlot slot backing HTTP_CONN_ARENA_SIZE newFd world) m)
    (hdated : m.io.Dated) (hphase : m.conn.phase = .building)
    (hbody : (responseDispatch router m).1.body = .stream stream)
    (hhead : builtText router m = some head) (wakes : List (Wake σ))
    (hwakes : ∀ w ∈ wakes, w.Moves)
    (hends : ∀ evs, streamed (streamWakes router (stepPhase router m) wakes).io.log =
        streamed m.io.log ++ evs →
      (streamText head (pulledPayloads evs) ++ LAST_CHUNK).length < wakes.length) :
    (streamWakes router (stepPhase router m) wakes).conn.requests = m.conn.requests + 1 ∧
      ∃ evs payloads, streamed (streamWakes router (stepPhase router m) wakes).io.log =
          streamed m.io.log ++ evs ∧
        pullOutcomes evs = payloads.map .data ++ [.data []] ∧
        accepted evs = streamText head payloads ++ LAST_CHUNK := by
  obtain ⟨hrun, hflows⟩ := stepPhase_flowing router hrouter hfd hreaches hdated hphase hbody hhead
  have hcounted := hflows.completes router hwakes fun evs _ hstreams => hends evs hstreams.log
  exact ⟨hcounted, hflows.whole hrun hcounted⟩

/-- Half of the head goes out, then the rest of it and the first frame are staged, and at every
wake-up behind that there is room for sixty bytes more. -/
def numbersWakes : List (Wake Unit) :=
  { sends := [.accepted 60] } :: { sends := [.accepted 60], pulls := [.data (ascii "one")] } ::
    List.replicate 130 { sends := [.accepted 60] }

theorem numbersWakes_move : ∀ w ∈ numbersWakes, w.Moves := by
  have hmoves : ∀ pulls, PullOutcome.error ∉ pulls →
      Wake.Moves (σ := Unit) { sends := [.accepted 60], pulls := pulls } := fun pulls hpulls =>
    ⟨⟨59, [], rfl⟩, by simp, hpulls⟩
  intro w hmem
  simp only [numbersWakes, List.mem_cons, List.mem_replicate] at hmem
  rcases hmem with rfl | rfl | ⟨-, rfl⟩
  · exact hmoves [] (by simp)
  · exact hmoves _ (by simp)
  · exact hmoves [] (by simp)

theorem numbersClient_dated :
    Reaches numbersRouter (fun m => m.io.Dated) newClient numbersClient := by
  refine .tail (.single (.wake _ ?_)) (.turn ?_ ?_)
  · simp [newClient, Machine.ofSlot, connectionInit]
  · simp [newClient, Machine.ofSlot, connectionInit, Machine.wake]
  · simp [Machine.wake, Io.Dated]

theorem stream_completes_numbers : ∃ head evs payloads,
    builtText numbersRouter numbersClient = some head ∧
    streamed (streamWakes numbersRouter (stepPhase numbersRouter numbersClient) numbersWakes).io.log
      = streamed numbersClient.io.log ++ evs ∧
    pullOutcomes evs = payloads.map .data ++ [.data []] ∧
    accepted evs = streamText head payloads ++ LAST_CHUNK := by
  have hlength : (builtText numbersRouter numbersClient).map List.length = some 108 := by
    decide +kernel
  obtain ⟨head, hhead, hlength⟩ := Option.map_eq_some_iff.mp hlength
  have hpulled : pulledPayloads (streamed (streamWakes numbersRouter
      (stepPhase numbersRouter numbersClient) numbersWakes).io.log) =
        pulledPayloads (streamed numbersClient.io.log) ++ [ascii "one"] := by decide +kernel
  have hclock : numbersClient.io.Dated := by
    have hnone : numbersClient.io.clock = [] := by decide +kernel
    simp [Io.Dated, hnone]
  obtain ⟨-, evs, payloads, hlog, houtcomes, haccepted⟩ := stream_completes numbersRouter
    numbersRouter_allocates {} 4096 5 (by decide) { handlers := () } numbersClient numbersStream
    head numbersClient_dated hclock (by decide +kernel) (by decide +kernel) hhead numbersWakes
    numbersWakes_move fun evs hlog => by
      rw [hlog, pulledPayloads_append] at hpulled
      rw [List.append_cancel_left hpulled, List.length_append, streamText, List.length_append,
        hlength]
      decide +kernel
  exact ⟨head, evs, payloads, hhead, hlog, houtcomes, haccepted⟩

/-! ## Downloads -/

/-- What has been pulled from a file is no longer than the file. -/
theorem PulledBefore.length_le {content : Bytes} {last : List PullOutcome}
    {reads : List ReadOutcome} (h : PulledBefore evs last) (hpulls : pullOutcomes evs =
      filePulls HTTP_STREAM_CHUNK_SIZE (pullOutcomes evs).length reads { content := content }) :
    (pulledPayloads evs).flatten.length ≤ content.length := by
  rw [h.outcomes] at hpulls
  obtain ⟨rest, hsplit, -⟩ := filePulls_split (by decide) hpulls.symm
  have hlength : content.length = _ := congrArg List.length hsplit
  rw [List.length_append] at hlength
  omega

end HttpServer
