import HttpServer.ServerSessions

/-!
# Bounds of a server

While the clock does not fail, no assertion fails in any session of a server, and every
client that is being served keeps within the memory of its slot.
-/

namespace HttpServer

open Relation

variable {σ : Type*} {router : Router σ} {m : Machine σ} {io : Io}

/-! ## The clock -/

theorem Io.Timely.assert (h : io.Timely) (b : Bool) : (io.assert b).Timely := by
  unfold Io.assert
  split <;> exact h

theorem Io.Timely.send (h : io.Timely) (offered : Bytes) : (io.send offered).2.Timely := by
  unfold Io.send
  cases io.sends <;> exact h

theorem Io.Timely.pull (h : io.Timely) (ctx : Option StreamCtx) (cap : ℕ) :
    (io.pull ctx cap).2.Timely := by
  unfold Io.pull
  cases io.pulls <;> exact h

theorem responseSend_timely (h : io.Timely) (fd : ℤ) (resp : HttpBuffer) (st : SendSt) :
    (responseSend fd resp st io).2.2.Timely := by
  have hsent := (h.assert (resp.address.isSome && 0 ≤ fd && st.sent < resp.size)).send
    (resp.contents.drop st.sent)
  unfold responseSend
  dsimp only
  generalize (io.assert _).send _ = sent at hsent ⊢
  obtain ⟨o, io'⟩ := sent
  cases o <;> exact hsent

theorem Machine.errorBegin_timely (h : m.io.Timely) (s : ParseStatus) :
    (m.errorBegin s).2.io.Timely := by
  obtain ⟨now, -, -, htimely, -⟩ := responseSerializeNow_timely h (responseErrorFromStatus s)
    m.conn.mem.respBuf.cap false
  exact htimely

theorem Machine.bodyDispatch_timely (h : m.io.Timely) : m.bodyDispatch.2.io.Timely :=
  h.assert _

theorem stepHeaderRead_timely (h : m.io.Timely) : (stepHeaderRead m).2.io.Timely := by
  have hread : (connRecvHeader m.conn.fd m.conn.mem.reqBuf m.io).2.2.Timely := h.assert _
  unfold stepHeaderRead
  generalize connRecvHeader m.conn.fd m.conn.mem.reqBuf m.io = read at hread ⊢
  obtain ⟨⟨status, total, bodyStart⟩, buf, io⟩ := read
  cases status with
  | hasMore => exact hread
  | peerClosed => exact hread
  | ioError => exact hread
  | tooLarge =>
    exact Machine.errorBegin_timely (m := { m with conn.mem.reqBuf := buf, io := io }) hread _
  | ok =>
    have hasserted : (Machine.assert { m with conn.mem.reqBuf := buf, io := io }
        (decide (bodyStart ≤ total))).io.Timely := Io.Timely.assert hread _
    dsimp only
    generalize Machine.assert { m with conn.mem.reqBuf := buf, io := io } _ = m' at hasserted ⊢
    generalize headAccept m'.conn bodyStart = accepted
    obtain ⟨verdict, conn⟩ := accepted
    cases verdict with
    | error status => exact Machine.errorBegin_timely (m := { m' with conn := conn }) hasserted _
    | send100 => exact hasserted
    | dispatch => exact Machine.bodyDispatch_timely (m := { m' with conn := conn }) hasserted

theorem stepSend100_timely (h : m.io.Timely) : (stepSend100 m).2.io.Timely := by
  have hsent := responseSend_timely h m.conn.fd continue100Buf m.conn.st.getSend
  unfold stepSend100
  generalize responseSend m.conn.fd continue100Buf m.conn.st.getSend m.io = sent at hsent ⊢
  obtain ⟨status, st, io⟩ := sent
  cases status with
  | ok => exact Machine.bodyDispatch_timely (m := { m with conn.st := .send st, io := io }) hsent
  | _ => exact hsent

theorem stepBodyClRead_timely (h : m.io.Timely) : (stepBodyClRead m).2.io.Timely := by
  have hread : (connRecvBodyCl m.conn.fd m.conn.mem.reqBuf m.conn.bodyStart m.conn.bodyLen
    m.conn.st.getCl m.io).2.2.2.Timely := h.assert _
  unfold stepBodyClRead
  generalize connRecvBodyCl m.conn.fd m.conn.mem.reqBuf _ _ _ m.io = read at hread ⊢
  obtain ⟨⟨status, next⟩, buf, st, io⟩ := read
  have hfails := Machine.errorBegin_timely
    (m := { m with conn.mem.reqBuf := buf, conn.st := .cl st, io := io }) hread .badRequest
  cases status with
  | ok => exact hread
  | hasMore => exact hread
  | _ => exact hfails

theorem stepBodyChunkedRead_timely (h : m.io.Timely) : (stepBodyChunkedRead m).2.io.Timely := by
  have hread : (connRecvBodyChunked m.conn.fd m.conn.bodyStart
    ⟨m.conn.mem.reqBuf, m.conn.mem.bodyDechunked, m.conn.st.getChunked⟩ m.io).2.2.Timely :=
    h.assert _
  unfold stepBodyChunkedRead
  generalize connRecvBodyChunked m.conn.fd m.conn.bodyStart _ m.io = read at hread ⊢
  obtain ⟨⟨status, next⟩, r, io⟩ := read
  have hfails := Machine.errorBegin_timely
    (m := { m with
      conn.mem.reqBuf := r.reqBuf
      conn.mem.bodyDechunked := r.dechunked
      conn.st := .chunked r.st
      io := io }) hread
  cases status with
  | ok => exact hread
  | hasMore => exact hread
  | tooLarge => exact hfails .payloadTooLarge
  | _ => exact hfails .badRequest

theorem streamRelease_timely (h : m.io.Timely) : (streamRelease m).io.Timely := by
  unfold streamRelease
  split <;> exact h

theorem Machine.serialize_clock (h : m.io.Timely) (res : HttpResponse) :
    (m.serialize res).2.io.Timely := by
  obtain ⟨now, -, -, htimely, -⟩ := responseSerializeNow_timely h res m.conn.mem.respBuf.cap
    m.conn.keepAlive
  exact htimely

theorem buildBuffered_timely (h : m.io.Timely) (res : HttpResponse) :
    (buildBuffered res m).2.io.Timely := by
  unfold buildBuffered
  generalize (if m.conn.reqParsed.requestLine.method = .head then { res with headOnly := true }
    else res) = res'
  have hserialized := Machine.serialize_clock h res'
  dsimp only
  split
  · exact (Machine.serialize_clock hserialized _).assert _
  · exact hserialized.assert _

theorem stepResponseBuild_timely (router : Router σ) (h : m.io.Timely) :
    (stepResponseBuild router m).2.io.Timely := by
  obtain ⟨scratch, world, evs, -, -, heq⟩ := responseDispatch_dispatched router m
  have hdispatched : (responseDispatch router m).2.io.Timely := by
    rw [heq]
    exact h
  unfold stepResponseBuild responseBuild
  generalize responseDispatch router m = dispatched at hdispatched ⊢
  obtain ⟨res, m'⟩ := dispatched
  dsimp only
  cases res.body with
  | none => exact buildBuffered_timely hdispatched res
  | buffer body size => exact buildBuffered_timely hdispatched res
  | stream stream =>
    have hserialized := Machine.serialize_clock (m := { m' with conn.producer := stream })
      hdispatched res
    dsimp only
    split
    · exact buildBuffered_timely (streamRelease_timely hserialized) _
    · exact hserialized

theorem stepResponseSend_timely (h : m.io.Timely) : (stepResponseSend m).2.io.Timely := by
  have hsent := responseSend_timely h m.conn.fd m.conn.mem.respBuf m.conn.st.getSend
  unfold stepResponseSend
  generalize responseSend m.conn.fd m.conn.mem.respBuf m.conn.st.getSend m.io = sent at hsent ⊢
  obtain ⟨status, st, io⟩ := sent
  cases status <;> exact hsent

theorem streamSent_timely (h : m.io.Timely) (st : SendStreamSt) :
    (m.streamSent st).io.Timely :=
  h.assert (m.conn.mem.respBuf.address.isSome && 0 ≤ m.conn.fd &&
    m.conn.st.getStream.send.sent < m.conn.mem.respBuf.size)

theorem afterPull_timely (h : m.io.Timely) : m.afterPull.io.Timely :=
  h.pull m.conn.producer.ctx HTTP_STREAM_CHUNK_SIZE

theorem LoopTurn.timely {r : Option ConnPhase × Machine σ} (hturn : LoopTurn m r)
    (h : m.io.Timely) : r.2.io.Timely := by
  cases hturn with
  | sent => exact streamSent_timely h _
  | blocked => exact streamSent_timely h _
  | failed => exact streamRelease_timely (streamSent_timely h _)
  | framed => exact afterPull_timely h
  | gaveUp => exact streamRelease_timely (afterPull_timely h)
  | done => exact streamRelease_timely h

theorem stepResponseSendStream_timely (h : m.io.Timely) :
    (stepResponseSendStream m).2.io.Timely :=
  stepResponseSendStream_keeps (fun m => m.io.Timely) (fun _ _ hm hturn => hturn.timely hm) h

/-- A clock that does not fail is read on. -/
theorem stepPhase_timely (router : Router σ) (h : m.io.Timely) : (stepPhase router m).io.Timely := by
  have hstep : (stepConn router m).2.io.Timely := by
    unfold stepConn
    cases m.conn.phase with
    | readingRequest => exact stepHeaderRead_timely h
    | sending100 => exact stepSend100_timely h
    | readingBodyCl => exact stepBodyClRead_timely h
    | readingBodyChunked => exact stepBodyChunkedRead_timely h
    | building => exact stepResponseBuild_timely router h
    | sendingResponse => exact stepResponseSend_timely h
    | sendingResponseStream => exact stepResponseSendStream_timely h
    | closed => exact h
  exact hstep

/-! ## Runs -/

/-- A server that is served where `ok` holds, if every turn keeps it. -/
theorem stepProcessLoop_reaches {ok : Machine σ → Prop}
    (hstep : ∀ m, ok m → ok (stepPhase router m)) (fuel : ℕ) (hopen : m.conn.phase ≠ .closed)
    (hok : ok m) : Reaches router ok m (stepProcessLoop router fuel m) := by
  induction fuel generalizing m with
  | zero => exact .refl
  | succ fuel ih =>
    have hturn : Reaches router ok m (stepPhase router m) := .single (.turn hopen hok)
    rw [stepProcessLoop]
    split
    · next hgoes => exact hturn.trans (ih hgoes.2 (hstep m hok))
    · exact hturn

theorem serve_reaches_of {ok : Machine σ → Prop} (hstep : ∀ m, ok m → ok (stepPhase router m))
    (wakes : List (Wake σ)) (hwakes : ∀ w ∈ wakes, ∀ m : Machine σ, ok (m.wake w)) :
    Reaches router ok m (serve router m wakes) := by
  induction wakes generalizing m with
  | nil => exact .refl
  | cons w wakes ih =>
    obtain ⟨hw, hrest⟩ := List.forall_mem_cons.mp hwakes
    by_cases hclosed : m.conn.phase = .closed
    · rw [serve_closed router m _ hclosed]
      exact .refl
    · rw [serve_cons router m w wakes hclosed]
      have hwoken : Reaches router ok m (m.wake w) := .single (.wake w hclosed)
      exact (hwoken.trans (stepProcessLoop_reaches hstep _ hclosed (hw m))).trans (ih hrest)

/-- No reading of the clock fails in this round, and `accept` does not return standard input. -/
structure Round.Timely (round : Round σ) : Prop where
  accepted : ∀ new ∈ round.accepted, 0 < new.fd
  ready : ∀ i, ∀ w ∈ round.ready i, ∀ now ∈ w.clock, TimeReading now

/-- A session in which no reading of the clock has failed. -/
structure Session.Timely (s : Session σ) : Prop where
  fd : 0 < s.fd
  wakes : ∀ w ∈ s.wakes, ∀ now ∈ w.clock, TimeReading now

theorem Session.Timely.wake {s : Session σ} (h : s.Timely) {w : Wake σ}
    (hw : ∀ now ∈ w.clock, TimeReading now) (world : World σ) (log : List Event) :
    (s.wake w world log).Timely := by
  refine ⟨h.fd, fun w' hw' => ?_⟩
  rcases List.mem_append.mp hw' with hw' | hw'
  · exact h.wakes w' hw'
  · obtain rfl := List.mem_singleton.mp hw'
    exact hw

theorem Session.Timely.bounded {s : Session σ} (hrouter : router.AllocatesScratch)
    (h : s.Timely) : StepBounded ((s.alone router).conn.phase, s.alone router) ∧
      (s.alone router).conn.WellFormed := by
  have hwf := Machine.ofSlot_wellFormed s.slot s.backing HTTP_CONN_ARENA_SIZE s.fd s.world
  have hreaches : Reaches router (fun m => m.io.Timely)
      (.ofSlot s.slot s.backing HTTP_CONN_ARENA_SIZE s.fd s.world) (s.alone router) := by
    apply serve_reaches_of
    · exact fun _ hm => stepPhase_timely router hm
    · exact fun w hw _ => h.wakes w hw
  exact ⟨hreaches.bounded hrouter hwf (Machine.ofSlot_bounded s.slot s.backing h.fd s.world),
    hreaches.wellFormed hwf⟩

theorem HistoryReaches.timely {backing : ℕ} {world : World σ} {h : History σ}
    (hreaches : HistoryReaches router Round.Timely backing world h) :
    (∀ i, ∀ client ∈ h.current i, client.Timely) ∧ ∀ client ∈ h.ended, client.Timely :=
  hreaches.sessions Session.Timely
    (fun _ hround _ hnew _ _ => ⟨hround.accepted _ hnew, fun _ hw => (nomatch hw)⟩)
    (fun _ hround i w hw _ hclient world log => hclient.wake (hround.ready i w hw) world log)

end HttpServer
