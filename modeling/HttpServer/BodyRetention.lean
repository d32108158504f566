import HttpServer.BodyExactness
import HttpServer.StreamedRuns

/-!
# The body while a response is streamed

The body of a request with `Content-Length` is a view into `req_buf`. As soon as the
head of a streamed response is serialized, `request_consume` moves what has been received
of the next requests to the front of the same buffer.
-/

namespace HttpServer

open Relation

variable {σ : Type*} {router : Router σ} {allowed : Machine σ → Prop} {m m₁ m₂ m' : Machine σ}
  {pre post conn conn' : Connection} {evs : List Event}

/-! ## Where the body is -/

/-- The `body` and `body_len` of a request that comes to be answered. -/
inductive Connection.BodyView (conn : Connection) : Prop where
  | chunked (hcoding : conn.bodyCoding = .chunked)
      (hbody : conn.reqParsed.body = some .bodyDechunked)
  | length (hcoding : conn.bodyCoding ≠ .chunked) (hpos : conn.bodyLen ≠ 0)
      (hbody : conn.reqParsed.body = some (.reqBuf conn.bodyStart))
      (hlen : conn.reqParsed.bodyLen = conn.restBytes.length)
  | empty (hcoding : conn.bodyCoding ≠ .chunked) (hzero : conn.bodyLen = 0)
      (hbody : conn.reqParsed.body = none)

theorem Connection.dispatched_bodyView (conn : Connection)
    (hphase : conn.dispatched.phase = .building) : conn.dispatched.BodyView := by
  unfold dispatched phaseBodyDispatch at hphase ⊢
  split at hphase
  · cases hphase
  · next hcoding =>
    split at hphase
    · next hzero =>
      rw [if_neg hcoding, if_pos hzero]
      exact .empty hcoding hzero rfl
    · cases hphase

theorem Connection.completed_not_building (conn : Connection) :
    conn.completed.phase ≠ .building := by
  rcases conn.completed_phase with h | h <;> simp [h]

theorem Turn.bodyView (h : Turn pre evs post) (hwf : pre.WellFormed) (hpre : pre.BodyTracked)
    (hbuilding : post.phase = .building) : post.BodyView := by
  cases h with
  | headAccepted => exact Connection.dispatched_bodyView _ hbuilding
  | continueSent => exact Connection.dispatched_bodyView _ hbuilding
  | lengthDone hphase hread hcount hall hnext =>
    obtain ⟨hcoding, hpos, -⟩ := hpre.counts hphase
    exact .length hcoding hpos rfl (hpre.received_eq hwf hphase hread hcount)
  | chunkedDone hphase => exact .chunked (hpre.decodes hphase) rfl
  | sendDone => exact absurd hbuilding (Connection.completed_not_building _)
  | streamTurns hphase hsends hend =>
    cases hend with
    | done => exact absurd hbuilding (Connection.completed_not_building _)
    | waits => cases hbuilding
    | closes => cases hbuilding
  | _ => cases hbuilding

theorem Reaches.bodyView (h : Reaches router allowed m m') (hwf : m.conn.WellFormed)
    (htracked : m.conn.BodyTracked) (hm : m.conn.phase ≠ .building)
    (hbuilding : m'.conn.phase = .building) : m'.conn.BodyView := by
  revert hbuilding
  apply Runs.invariant (fun m => m.conn.phase = .building → m.conn.BodyView) h
  · intro hbuilding
    exact absurd hbuilding hm
  · intro a b hreaches ha hnext
    cases hnext with
    | wake w => exact ha
    | turn hopen =>
      have hwf' := Reaches.wellFormed hreaches hwf
      obtain ⟨evs, hturn, -⟩ := stepPhase_turn router hwf' hopen
      exact hturn.bodyView hwf' (Reaches.bodyTracked hreaches hwf htracked)

/-! ## What `request_consume` moves over it -/

/-- What has been received behind a request with `Content-Length`. -/
def Connection.pipelined (conn : Connection) : Bytes := conn.restBytes.drop conn.bodyLen

/-- The body is not in `req_buf`, or the pipelined bytes that are moved over it repeat it. No more
of them than the head has bytes do not reach it. -/
def Connection.BodySurvives (conn : Connection) : Prop :=
  conn.bodyCoding = .chunked ∨ conn.bodyLen = 0 ∨
    conn.pipelined.drop conn.bodyStart <+: conn.restBytes

theorem requestConsume_storage (hb : conn.mem.reqBuf.Backed) (hgiven : conn.BodyGiven)
    (hcoding : conn.bodyCoding ≠ .chunked) (hpos : conn.bodyLen ≠ 0) :
    (requestConsume conn).mem.reqBuf.storage =
      conn.pipelined ++ conn.mem.reqBuf.storage.drop conn.pipelined.length := by
  cases hgiven with
  | chunked hchunked => exact absurd hchunked hcoding
  | empty _ hzero => exact absurd hzero hpos
  | length _ _ hall hbody hnext =>
    have hlen := conn.length_restBytes hb
    unfold requestConsume
    by_cases hmore : conn.bodyLen < conn.restBytes.length
    · rw [if_pos hmore] at hnext
      have hmoved : (conn.mem.reqBuf.storage.drop conn.nextReqOffset).take
          (conn.mem.reqBuf.size - conn.nextReqOffset) = conn.pipelined := by
        rw [hnext, Connection.pipelined, Connection.restBytes, HttpBuffer.contents, List.drop_drop,
          List.drop_take]
      have hoffset : conn.nextReqOffset > 0 := by omega
      dsimp only
      rw [if_pos hoffset, hmoved]
      simp only [HttpBuffer.store, List.take_zero, List.nil_append, Nat.zero_add]
    · rw [if_neg hmore] at hnext
      have hnone : conn.pipelined = [] := List.drop_eq_nil_of_le (by omega)
      dsimp only
      rw [hnext, if_neg (Nat.lt_irrefl 0), hnone]
      rfl

/-- A region of a buffer behind something that has been stored at the front of the buffer. -/
theorem take_drop_overwrite {α : Type*} (storage moved : List α) (start : ℕ) {len : ℕ}
    (hfewer : moved.length ≤ len) :
    ((moved ++ storage.drop moved.length).drop start).take len =
      moved.drop start ++ ((storage.drop start).take len).drop (moved.drop start).length := by
  rw [List.drop_append, List.drop_drop, List.length_drop]
  rcases Nat.le_total moved.length start with hbefore | hover
  · have hstart : moved.length + (start - moved.length) = start := by omega
    have hnone : moved.length - start = 0 := by omega
    rw [List.drop_eq_nil_of_le hbefore, List.nil_append, List.nil_append, hstart, hnone,
      List.drop_zero]
  · have hnone : start - moved.length = 0 := by omega
    have hend : start + (moved.length - start) = moved.length := by omega
    have hkept : (moved.drop start).length ≤ len := by
      rw [List.length_drop]
      omega
    rw [hnone, Nat.add_zero, List.take_append, List.take_of_length_le hkept, List.length_drop,
      List.drop_take, List.drop_drop, hend]

/-- The body is moved over from the front. -/
theorem requestConsume_bodyBytes (hb : conn.mem.reqBuf.Backed) (hgiven : conn.BodyGiven)
    (hcoding : conn.bodyCoding ≠ .chunked) (hpos : conn.bodyLen ≠ 0)
    (hbody : conn.reqParsed.body = some (.reqBuf conn.bodyStart))
    (hlen : conn.reqParsed.bodyLen = conn.restBytes.length) :
    (requestConsume conn).bodyBytes =
      conn.pipelined.drop conn.bodyStart ++
        conn.restBytes.drop (conn.pipelined.drop conn.bodyStart).length := by
  have hview : (requestConsume conn).bodyBytes =
      ((requestConsume conn).mem.reqBuf.storage.drop conn.bodyStart).take conn.restBytes.length := by
    have hsame : (requestConsume conn).reqParsed = conn.reqParsed := rfl
    rw [Connection.bodyBytes, hsame, hbody, hlen]
  have hrest : (conn.mem.reqBuf.storage.drop conn.bodyStart).take conn.restBytes.length =
      conn.restBytes := by
    rw [conn.length_restBytes hb, Connection.restBytes, HttpBuffer.contents, List.drop_take]
  have hfewer : conn.pipelined.length ≤ conn.restBytes.length := by
    rw [Connection.pipelined, List.length_drop]
    omega
  rw [hview, requestConsume_storage hb hgiven hcoding hpos, take_drop_overwrite _ _ _ hfewer, hrest]

theorem requestConsume_bodyBytes_iff (hb : conn.mem.reqBuf.Backed) (hgiven : conn.BodyGiven)
    (hview : conn.BodyView) :
    (requestConsume conn).bodyBytes = conn.bodyBytes ↔ conn.BodySurvives := by
  have hsame : (requestConsume conn).reqParsed = conn.reqParsed := rfl
  have hdechunked : (requestConsume conn).mem.bodyDechunked = conn.mem.bodyDechunked := rfl
  cases hview with
  | chunked hcoding hbody =>
    refine iff_of_true ?_ (.inl hcoding)
    rw [Connection.bodyBytes, Connection.bodyBytes, hsame, hbody, hdechunked]
  | empty hcoding hzero hbody =>
    refine iff_of_true ?_ (.inr (.inl hzero))
    rw [Connection.bodyBytes, Connection.bodyBytes, hsame, hbody]
  | length hcoding hpos hbody hlen =>
    have hbytes : conn.bodyBytes = conn.restBytes := by
      cases hgiven with
      | chunked hchunked => exact absurd hchunked hcoding
      | empty _ hzero => exact absurd hzero hpos
      | length _ _ _ hbytes => exact hbytes
    rw [requestConsume_bodyBytes hb hgiven hcoding hpos hbody hlen, hbytes,
      ← List.prefix_iff_eq_append, Connection.BodySurvives, or_iff_right hcoding, or_iff_right hpos]

/-! ## Until the producer is cleaned up -/

/-- What the stream loop changes is not the body. -/
theorem Connection.StreamedTo.bodyBytes (h : conn.StreamedTo conn') :
    conn'.bodyBytes = conn.bodyBytes := by
  obtain ⟨resp, st, producer, rfl⟩ := h
  rfl

/-- The loop has not ended the response. -/
theorem StreamEnd.streamedTo {phase : ConnPhase} (h : StreamEnd conn evs phase conn')
    (hphase : phase = .sendingResponseStream) : conn.StreamedTo conn' := by
  cases h with
  | waits h => exact h
  | closes h => exact h
  | @done sent h =>
    rcases sent.completed_phase with hcompleted | hcompleted
    · exact absurd (hcompleted.symm.trans hphase) (by decide)
    · exact absurd (hcompleted.symm.trans hphase) (by decide)

theorem streamTurn_streamedTo (hturn : streamTurn m₁ = (none, m₂)) :
    m₁.conn.StreamedTo m₂.conn := by
  have hloop := streamTurn_loopTurn m₁
  rw [hturn] at hloop
  obtain ⟨evs, hstreamed⟩ := hloop.streamed
  exact hstreamed.conn

/-- The states from the handler's return on until the producer is cleaned up: those between the
turns and wake-ups of the connection, and those between the turns of the stream loop. -/
inductive Producing (router : Router σ) (m : Machine σ) : Machine σ → Prop where
  | returned : Producing router m (responseDispatch router m).2
  | between {m₁ : Machine σ} (hstreams : StreamsTo router (stepPhase router m) m₁)
      (hphase : m₁.conn.phase = .sendingResponseStream) : Producing router m m₁
  | turned {m₁ m₂ : Machine σ} (hbefore : Producing router m m₁)
      (hphase : m₁.conn.phase = .sendingResponseStream) (hturn : streamTurn m₁ = (none, m₂)) :
      Producing router m m₂

/-- As long as the response is being sent. -/
theorem StreamsTo.bodyBytes (h : StreamsTo router m m')
    (hphase : m'.conn.phase = .sendingResponseStream) : m'.conn.bodyBytes = m.conn.bodyBytes := by
  revert hphase
  apply Runs.invariant (fun m' => m'.conn.phase = .sendingResponseStream →
    m'.conn.bodyBytes = m.conn.bodyBytes) h
  · intro _
    rfl
  · intro a b hreaches ha hnext hphase
    cases hnext with
    | wake w => exact ha hphase
    | turn hopen hsending =>
      have hstep : stepConn router a = stepResponseSendStream a := by simp only [stepConn, hsending]
      obtain ⟨evs, -, -, hend⟩ := stepResponseSendStream_spec a
      rw [stepPhase_conn, hstep] at hphase ⊢
      exact (hend.streamedTo hphase).bodyBytes.trans (ha hsending)

/-- The body is what `request_consume` leaves of it as soon as a streamed response is built. -/
theorem responseBuild_bodyBytes {res : HttpResponse} {stream : Stream} {head : Bytes}
    (hbody : res.body = .stream stream) (hhead : (m.serialize res).1.result = some head) :
    (responseBuild res m).1 = .sendingResponseStream ∧
      (responseBuild res m).2.conn.bodyBytes = (requestConsume m.conn).bodyBytes := by
  have hsame : (Machine.serialize { m with conn.producer := stream } res).1 =
      (m.serialize res).1 := rfl
  have hfits := Out.not_failed hhead
  unfold responseBuild
  rw [hbody]
  dsimp only
  rw [hsame, if_neg hfits]
  exact ⟨rfl, rfl⟩

theorem stepPhase_bodyBytes {stream : Stream} {head : Bytes} (hphase : m.conn.phase = .building)
    (hbody : (responseDispatch router m).1.body = .stream stream)
    (hhead : builtText router m = some head) :
    (stepPhase router m).conn.phase = .sendingResponseStream ∧
      (stepPhase router m).conn.bodyBytes = (requestConsume m.conn).bodyBytes := by
  have hstep : stepConn router m = responseBuild (responseDispatch router m).1
      (responseDispatch router m).2 := by
    simp only [stepConn, hphase, stepResponseBuild]
  obtain ⟨⟨arena, hconn⟩, -⟩ := responseDispatch_frame router m
  obtain ⟨hsends, hbytes⟩ := responseBuild_bodyBytes hbody hhead
  rw [stepPhase_conn, hstep]
  refine ⟨hsends, hbytes.trans ?_⟩
  rw [hconn]
  rfl

theorem Producing.bodyBytes {stream : Stream} {head : Bytes} (h : Producing router m m')
    (hphase : m.conn.phase = .building)
    (hbody : (responseDispatch router m).1.body = .stream stream)
    (hhead : builtText router m = some head) :
    m'.conn.bodyBytes = m.conn.bodyBytes ∨
      m'.conn.bodyBytes = (requestConsume m.conn).bodyBytes := by
  induction h with
  | returned =>
    obtain ⟨⟨arena, hconn⟩, -⟩ := responseDispatch_frame router m
    rw [hconn]
    exact .inl rfl
  | between hstreams hsending =>
    right
    rw [hstreams.bodyBytes hsending]
    exact (stepPhase_bodyBytes hphase hbody hhead).2
  | turned hbefore hsending hturn ih =>
    rwa [(streamTurn_streamedTo hturn).bodyBytes]

/-- The body stays what the handler was given exactly when the bytes that are moved over it are the
same, or it is not there. For every run. -/
theorem streamed_body_stays_iff (router : Router σ) (slot : Connection) (backing backingCap : ℕ)
    (newFd : ℤ) (world : World σ) (m : Machine σ) (stream : Stream) (head : Bytes)
    (hreaches : Reaches router (fun _ => True) (.ofSlot slot backing backingCap newFd world) m)
    (hphase : m.conn.phase = .building)
    (hbody : (responseDispatch router m).1.body = .stream stream)
    (hhead : builtText router m = some head) :
    (∀ m', Producing router m m' → m'.conn.bodyBytes = m.conn.requestView.body) ↔
      m.conn.BodySurvives := by
  have hwf := Machine.ofSlot_wellFormed slot backing backingCap newFd world
  have htracked := Machine.ofSlot_bodyTracked slot backing backingCap newFd world
  have hgiven := (hreaches.bodyTracked hwf htracked).given hphase
  have hview := hreaches.bodyView hwf htracked (fun h => by cases h) hphase
  rw [← requestConsume_bodyBytes_iff (hreaches.wellFormed hwf).backed hgiven hview]
  obtain ⟨hsends, hbuilt⟩ := stepPhase_bodyBytes hphase hbody hhead
  constructor
  · intro hstays
    rw [← hbuilt]
    exact hstays _ (.between .refl hsends)
  · intro hsurvives m' hproducing
    rcases hproducing.bodyBytes hphase hbody hhead with hsame | hconsumed
    · exact hsame
    · exact hconsumed.trans hsurvives

/-! ## A request with the next one behind it -/

def postRouter : Router Unit :=
  { routes := [{
      method := ascii "POST"
      path := ascii "/"
      handler := fun _ _ scratch handlers =>
        (responseStream 200 (ascii "OK") numbersStream [], scratch, handlers) }] }

/-- Two requests arrive at once, the first with the body `x` and the second with the body `y`. -/
def twoPosts : Machine Unit :=
  newClient.wake { recvs := [.data (surplusHead ++ ascii "x" ++ surplusHead ++ ascii "y")] }

def twoPostsBuilding : Machine Unit := stepPhase postRouter (stepPhase postRouter twoPosts)

theorem twoPostsBuilding_reaches :
    Reaches postRouter (fun _ => True) newClient twoPostsBuilding := by
  apply ReflTransGen.tail (b := stepPhase postRouter twoPosts)
  · apply ReflTransGen.tail (b := twoPosts)
    · exact .single (.wake _ (by decide))
    · exact .turn (by decide) trivial
  · exact .turn (by decide +kernel) trivial

theorem twoPostsBuilding_builds :
    twoPostsBuilding.conn.phase = .building ∧
      (responseDispatch postRouter twoPostsBuilding).1.body = .stream numbersStream ∧
      (builtText postRouter twoPostsBuilding).isSome := by
  refine ⟨by decide +kernel, by decide +kernel, by decide +kernel⟩

theorem streamed_body_stays_iff_two :
    (∀ m', Producing postRouter twoPostsBuilding m' →
      m'.conn.bodyBytes = twoPostsBuilding.conn.requestView.body) ↔
      twoPostsBuilding.conn.BodySurvives := by
  obtain ⟨hphase, hbody, hfits⟩ := twoPostsBuilding_builds
  obtain ⟨head, hhead⟩ := Option.isSome_iff_exists.mp hfits
  exact streamed_body_stays_iff postRouter {} 4096 HTTP_CONN_ARENA_SIZE 5 { handlers := () }
    twoPostsBuilding numbersStream head twoPostsBuilding_reaches hphase hbody hhead

/-- While the response is being sent, the first byte of the body is the last one received. -/
theorem streamed_body_overwritten :
    ∃ m m' : Machine Unit, Reaches postRouter (fun _ => True) newClient m ∧
      m.conn.phase = .building ∧ Producing postRouter m m' ∧
      m.conn.requestView.body.head? = some 120 ∧ m'.conn.bodyBytes.head? = some 121 := by
  have hsends : (stepPhase postRouter twoPostsBuilding).conn.phase = .sendingResponseStream := by
    decide +kernel
  refine ⟨twoPostsBuilding, stepPhase postRouter twoPostsBuilding, twoPostsBuilding_reaches,
    twoPostsBuilding_builds.1, .between .refl hsends, ?_, ?_⟩
  · decide +kernel
  · decide +kernel

end HttpServer
