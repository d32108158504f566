import HttpServer.BodyExactness
import HttpServer.FinalResponses
import HttpServer.Smuggling

/-!
# Where requests end

A client sends requests one behind the other. However the bytes arrive, the buffer
begins with the request that is being read, and `request_consume` takes out exactly
the bytes of that request.
-/

namespace HttpServer

variable {σ : Type*} {router : Router σ} {allowed : Machine σ → Prop} {m m' : Machine σ}
  {pre post conn : Connection} {evs : List Event}

/-! ## Requests on the wire -/

/-- What follows a head with these fields: nothing, as many bytes as the only `Content-Length`
line says, or a chunked body. -/
inductive RequestBody (req : HttpRequest) : Bytes → Prop where
  | none (hlength : contentLengths req = []) (hcoding : transferEncodings req = []) :
      RequestBody req []
  | length {val n body} (hlength : contentLengths req = [val]) (hcoding : transferEncodings req = [])
      (hval : numeral 10 0 val = some n) (hlen : body.length = n) : RequestBody req body
  | chunked {val body payload} (hcoding : transferEncodings req = [val])
      (hbody : ChunkedBody body payload) : RequestBody req body

/-- One request of a client: its head, up to the body, and what `request_parse` makes of it. -/
structure ClientRequest where
  head : Bytes
  body : Bytes
  parsed : HttpRequest
  accepted : requestParse (head ++ body) {} = ({ next := some head.length }, parsed)
  framed : RequestBody parsed body

def ClientRequest.raw (req : ClientRequest) : Bytes := req.head ++ req.body

theorem ClientRequest.requestHead (req : ClientRequest) : RequestHead req.head req.parsed := by
  obtain ⟨n, hn, hhead, hnext⟩ := requestParse_sound req.accepted rfl
  obtain rfl : req.head.length = n := Option.some.inj (congrArg ParseResult.next hnext)
  rwa [List.take_left] at hhead

/-! ## The length of a request without one -/

/-- A request without a `Content-Length` line finds `body_len` as it was reset. -/
structure Connection.LengthTracked (conn : Connection) : Prop where
  fresh : conn.phase = .readingRequest → conn.bodyLen = 0
  bodiless : conn.phase.AfterHead → contentLengths conn.reqParsed = [] → conn.bodyLen = 0

theorem Connection.LengthTracked.of_answering (hread : conn.phase ≠ .readingRequest)
    (hphase : ¬ conn.phase.AfterHead) : conn.LengthTracked :=
  ⟨fun h => absurd h hread, fun h => absurd h hphase⟩

/-- The head goes on being served. -/
theorem Connection.LengthTracked.serving {conn' : Connection} (h : conn.LengthTracked)
    (hphase : conn.phase.AfterHead) (hread : conn'.phase ≠ .readingRequest)
    (hheaders : conn'.reqParsed.headers = conn.reqParsed.headers)
    (hlen : conn'.bodyLen = conn.bodyLen) : conn'.LengthTracked := by
  refine ⟨fun h => absurd h hread, fun _ hnone => ?_⟩
  rw [contentLengths, hheaders] at hnone
  rw [hlen]
  exact h.bodiless hphase hnone

theorem Connection.dispatched_reading (conn : Connection) :
    conn.dispatched.phase ≠ .readingRequest ∧
      conn.dispatched.reqParsed.headers = conn.reqParsed.headers ∧
      conn.dispatched.bodyLen = conn.bodyLen := by
  unfold dispatched phaseBodyDispatch
  split
  · exact ⟨by simp, rfl, rfl⟩
  · split <;> exact ⟨by simp, rfl, rfl⟩

theorem Connection.completed_lengthTracked (conn : Connection) : conn.completed.LengthTracked where
  fresh hphase := (completed_fresh hphase).2
  bodiless hphase := absurd hphase conn.completed_not_afterHead

/-- The head that has just been accepted. -/
theorem headAccept_bodyLen {buf : HttpBuffer} {read : Connection} {bodyStart : ℕ}
    {verdict : HeadVerdict} (hfresh : conn.bodyLen = 0)
    (haccept : headAccept { conn with mem.reqBuf := buf } bodyStart = (verdict, read))
    (hne : ∀ status, verdict ≠ .error status) (hnone : contentLengths read.reqParsed = []) :
    read.bodyLen = 0 := by
  rw [contentLengths, ← headerFind_eq_none_iff] at hnone
  exact (((headAccept_spec haccept).2 hne).framed.no_length hnone).trans hfresh

theorem Turn.lengthTracked (h : Turn pre evs post) (hpre : pre.LengthTracked) :
    post.LengthTracked := by
  cases h with
  | headWaits hphase =>
    exact ⟨fun _ => hpre.fresh hphase, fun h => absurd h (ConnPhase.not_afterHead (by simp))⟩
  | headContinue hphase hread hfind haccept =>
    have hlen := headAccept_bodyLen (hpre.fresh hphase) haccept (by simp)
    exact ⟨(fun h => by cases h), fun _ => hlen⟩
  | @headAccepted outs buf terminator read hphase hread hfind haccept =>
    obtain ⟨hreading, hheaders, hlen⟩ := read.dispatched_reading
    refine ⟨fun h => absurd h hreading, fun _ hnone => ?_⟩
    rw [contentLengths, hheaders] at hnone
    rw [hlen]
    exact headAccept_bodyLen (hpre.fresh hphase) haccept (by simp) hnone
  | continueWaits hphase => exact hpre.serving (.inl hphase) (by simp) rfl rfl
  | continueSent hphase =>
    obtain ⟨hreading, hheaders, hlen⟩ := Connection.dispatched_reading _
    exact hpre.serving (.inl hphase) hreading hheaders hlen
  | lengthWaits hphase => exact hpre.serving (.inr (.inl hphase)) (by simp) rfl rfl
  | lengthDone hphase => exact hpre.serving (.inr (.inl hphase)) (by simp) rfl rfl
  | chunkedWaits hphase => exact hpre.serving (.inr (.inr (.inl hphase))) (by simp) rfl rfl
  | chunkedDone hphase => exact hpre.serving (.inr (.inr (.inl hphase))) (by simp) rfl rfl
  | sendDone => exact Connection.completed_lengthTracked _
  | streamTurns hphase hsends hend =>
    cases hend with
    | done => exact Connection.completed_lengthTracked _
    | waits => exact .of_answering (by simp) (ConnPhase.not_afterHead (by simp))
    | closes => exact .of_answering (by simp) (ConnPhase.not_afterHead (by simp))
  | _ => exact .of_answering (by simp) (ConnPhase.not_afterHead (by simp))

/-! ## The request in the buffer -/

/-- What `request_consume` leaves in the buffer. -/
def Connection.remaining (conn : Connection) : Bytes :=
  if 0 < conn.nextReqOffset then conn.mem.reqBuf.contents.drop conn.nextReqOffset else []

theorem Connection.head_append_rest (conn : Connection) :
    conn.mem.reqBuf.contents = conn.headBytes ++ conn.restBytes :=
  (List.take_append_drop _ _).symm

/-- The buffer holds the head and as much of the body as there is, so the rest is what follows. -/
theorem Connection.remaining_of_next {n : ℕ} (hhead : conn.headBytes.length = conn.bodyStart)
    (hpos : 0 < conn.bodyStart) (hn : n ≤ conn.restBytes.length)
    (hnext : conn.nextReqOffset = conn.bodyStart + n ∨
      conn.nextReqOffset = 0 ∧ n = conn.restBytes.length) :
    conn.mem.reqBuf.contents = conn.headBytes ++ conn.restBytes.take n ++ conn.remaining := by
  have hsplit : conn.mem.reqBuf.contents =
      conn.headBytes ++ conn.restBytes.take n ++ conn.restBytes.drop n := by
    rw [List.append_assoc, List.take_append_drop, ← head_append_rest]
  have hlen : (conn.headBytes ++ conn.restBytes.take n).length = conn.bodyStart + n := by
    rw [List.length_append, List.length_take_of_le hn, hhead]
  have hremaining : conn.remaining = conn.restBytes.drop n := by
    unfold remaining
    rcases hnext with hnext | ⟨hnext, rfl⟩
    · rw [hnext, if_pos (by omega), hsplit, ← hlen, List.drop_left]
    · rw [hnext, if_neg (Nat.lt_irrefl 0), List.drop_length]
  rw [hremaining]
  exact hsplit

/-- The body reader stops where the body of the request does. -/
theorem Connection.BodyGiven.framed_eq {req : HttpRequest} {body more : Bytes}
    (h : conn.BodyGiven) (hbody : RequestBody req body)
    (hheaders : conn.reqParsed.headers = req.headers) (hframed : conn.FramedByHead)
    (hzero : contentLengths conn.reqParsed = [] → conn.bodyLen = 0)
    (hstream : conn.restBytes <+: body ++ more) :
    ∃ n ≤ conn.restBytes.length, conn.restBytes.take n = body ∧
      (conn.nextReqOffset = conn.bodyStart + n ∨
        conn.nextReqOffset = 0 ∧ n = conn.restBytes.length) := by
  have hlengths : contentLengths conn.reqParsed = contentLengths req := by
    rw [contentLengths, hheaders, contentLengths]
  have hcodings : transferEncodings conn.reqParsed = transferEncodings req := by
    rw [transferEncodings, hheaders, transferEncodings]
  have hchunked := hframed.codings.2
  rw [hcodings] at hchunked
  cases hbody with
  | none hlength hcoding =>
    have hlen := hzero (hlengths.trans hlength)
    cases h with
    | chunked hplain => exact absurd hcoding (hchunked.mp hplain)
    | length _ hpos => exact absurd hlen hpos
    | empty _ _ _ hnext => exact ⟨0, Nat.zero_le _, rfl, .inl hnext⟩
  | @length val n _ hlength hcoding hval hlen =>
    have hfirst : (contentLengths conn.reqParsed).head? = some val := by
      rw [hlengths, hlength, List.head?_cons]
    have hparsed := (hframed.first_length hfirst).2
    rw [uintParse_ok_iff (by decide) (by decide) (by decide)] at hparsed
    have hsame : conn.bodyLen = n := Option.some.inj (hparsed.2.1.symm.trans hval)
    have htaken : n ≤ conn.restBytes.length → conn.restBytes.take n = body := fun hn => by
      have hprefix := (List.take_prefix n conn.restBytes).trans hstream
      rw [List.prefix_iff_eq_take.mp hprefix, List.length_take_of_le hn, ← hlen, List.take_left]
    cases h with
    | chunked hplain => exact absurd hcoding (hchunked.mp hplain)
    | length _ _ hall _ hnext =>
      rw [hsame] at hall hnext
      refine ⟨n, hall, htaken hall, ?_⟩
      split at hnext
      · exact .inl hnext
      · exact .inr ⟨hnext, by omega⟩
    | empty _ hnone _ hnext =>
      rw [hsame] at hnone
      exact ⟨n, hnone ▸ Nat.zero_le _, htaken (hnone ▸ Nat.zero_le _), .inl (by rw [hnone]; exact hnext)⟩
  | @chunked val _ payload hcoding hwire =>
    have hcoded : conn.bodyCoding = .chunked := hchunked.mpr (by rw [hcoding]; simp)
    cases h with
    | @chunked n _ hn hread hnext =>
      have hprefix := (List.take_prefix n conn.restBytes).trans hstream
      exact ⟨n, hn, (hread.unique hwire hprefix (List.prefix_append _ _)).1, .inl hnext⟩
    | length hplain => exact absurd hcoded hplain
    | empty hplain => exact absurd hcoded hplain

/-- When a request comes to be answered, the buffer begins with the next one of the stream. -/
theorem ClientRequest.served {reqs : List ClientRequest} (hwf : conn.WellFormed)
    (hbuilding : conn.phase = .building) (hheaded : conn.Headed) (hgiven : conn.BodyGiven)
    (hlength : conn.LengthTracked)
    (hstream : conn.mem.reqBuf.contents <+: reqs.flatMap ClientRequest.raw) :
    ∃ req rest, reqs = req :: rest ∧ conn.reqParsed.bodiless = req.parsed ∧
      conn.mem.reqBuf.contents = req.raw ++ conn.remaining := by
  have hafter : conn.phase.AfterHead := .inr (.inr (.inr hbuilding))
  have hread := hwf.head hafter
  have hlen := hread.length_headBytes
  have hpos : 0 < conn.bodyStart := by
    obtain ⟨terminator, -, hstart⟩ := hread
    omega
  rw [conn.head_append_rest] at hstream
  cases reqs with
  | nil =>
    have hnil := List.prefix_nil.mp hstream
    rw [List.append_eq_nil_iff] at hnil
    rw [hnil.1, List.length_nil] at hlen
    omega
  | cons req rest =>
    rw [List.flatMap_cons, ClientRequest.raw, List.append_assoc] at hstream
    have hbuffered := (List.prefix_append conn.headBytes conn.restBytes).trans hstream
    have hsent := List.prefix_append req.head (req.body ++ rest.flatMap ClientRequest.raw)
    obtain ⟨terminator, hfind, hlen₁, hparse₁⟩ := hheaded.parsed.memmem_eq hbuffered
    obtain ⟨terminator', hfind', hlen₂, hparse₂⟩ := req.requestHead.memmem_eq hsent
    have hterm : terminator = terminator' := Option.some.inj (hfind.symm.trans hfind')
    have hreq : conn.reqParsed.bodiless = req.parsed :=
      (Prod.mk.inj (hparse₁.symm.trans hparse₂)).2
    have hsame : conn.headBytes.length = req.head.length := by rw [hlen₁, hlen₂, hterm]
    have hhead : conn.headBytes = req.head :=
      (List.prefix_of_prefix_length_le hbuffered hsent hsame.le).eq_of_length hsame
    rw [hhead, List.prefix_append_right_inj] at hstream
    have hheaders : conn.reqParsed.headers = req.parsed.headers := by
      rw [← hreq]
      rfl
    refine ⟨req, rest, rfl, hreq, ?_⟩
    obtain ⟨n, hn, hbody, hnext⟩ := hgiven.framed_eq req.framed hheaders hheaded.framed
      (hlength.bodiless hafter) hstream
    rw [ClientRequest.raw, ← hhead, ← hbody]
    exact conn.remaining_of_next hlen hpos hn hnext

/-! ## Along a run -/

/-- The turns that start from a machine whose request is to be answered. -/
def answering (ts : List (Machine σ)) : ℕ := ts.countP fun m => m.conn.phase = .building

/-- The requests in front of `rest` are answered, and the buffer goes on behind them. -/
def AtBoundary (reqs : List ClientRequest) (ts : List (Machine σ)) (m : Machine σ) : Prop :=
  ∃ done rest, reqs = done ++ rest ∧ done.length = answering ts ∧
    received m.io.log = done.flatMap ClientRequest.raw ++ m.conn.mem.reqBuf.contents

/-- What is known of a connection on a slot that nobody has used. -/
structure Connection.Followed (conn : Connection) : Prop where
  wellFormed : conn.WellFormed
  head : conn.HeadTracked
  body : conn.BodyTracked
  length : conn.LengthTracked

theorem Connection.Followed.turn (h : pre.Followed) (hturn : Turn pre evs post) : post.Followed where
  wellFormed := hturn.wellFormed h.wellFormed
  head := hturn.headTracked h.wellFormed h.head
  body := hturn.bodyTracked h.wellFormed h.body
  length := hturn.lengthTracked h.length

/-- The request that is answered next. -/
theorem AtBoundary.next {reqs : List ClientRequest} {ts : List (Machine σ)}
    (h : AtBoundary reqs ts m) (hfollowed : m.conn.Followed)
    (hfed : received m.io.log <+: reqs.flatMap ClientRequest.raw)
    (hbuilding : m.conn.phase = .building) :
    ∃ done req rest, reqs = done ++ req :: rest ∧ done.length = answering ts ∧
      m.conn.reqParsed.bodiless = req.parsed ∧
      received m.io.log = (done ++ [req]).flatMap ClientRequest.raw ++ m.conn.remaining := by
  obtain ⟨done, rest, rfl, hdone, hreceived⟩ := h
  rw [hreceived, List.flatMap_append, List.prefix_append_right_inj] at hfed
  obtain ⟨req, rest, rfl, hparsed, hcontents⟩ := ClientRequest.served hfollowed.wellFormed hbuilding
    (hfollowed.head.headed (.inr (.inr (.inr hbuilding)))) (hfollowed.body.given hbuilding)
    hfollowed.length hfed
  refine ⟨done, req, rest, rfl, hdone, hparsed, ?_⟩
  rw [hreceived, List.flatMap_append, List.flatMap_singleton, List.append_assoc, ← hcontents]

theorem AtBoundary.turn {reqs : List ClientRequest} {ts : List (Machine σ)}
    (h : AtBoundary reqs ts m) (hfollowed : m.conn.Followed) (hopen : m.conn.phase ≠ .closed)
    (hfed : received (stepPhase router m).io.log <+: reqs.flatMap ClientRequest.raw) :
    AtBoundary reqs (ts ++ [m]) (stepPhase router m) := by
  obtain ⟨evs, hturn, hreceived⟩ := stepPhase_received router hfollowed.wellFormed hopen
  have hcount : answering (ts ++ [m]) =
      answering ts + if m.conn.phase = .building then 1 else 0 := by
    unfold answering
    rw [List.countP_append, List.countP_singleton]
    simp only [decide_eq_true_eq]
  by_cases hbuilding : m.conn.phase = .building
  · obtain ⟨hnone, hcontents⟩ := hturn.consumes hfollowed.wellFormed hbuilding
    rw [hnone, List.append_nil] at hreceived
    rw [hreceived] at hfed
    obtain ⟨done, req, rest, rfl, hdone, -, hnext⟩ := h.next hfollowed hfed hbuilding
    refine ⟨done ++ [req], rest, by simp, ?_, ?_⟩
    · rw [List.length_append, hdone, hcount, if_pos hbuilding, List.length_singleton]
    · rw [hreceived, hnext, hcontents]
      rfl
  · obtain ⟨done, rest, hreqs, hdone, hbuffered⟩ := h
    refine ⟨done, rest, hreqs, ?_, ?_⟩
    · rw [hcount, if_neg hbuilding, Nat.add_zero, hdone]
    · rw [hreceived, hturn.receives hbuilding, hbuffered, List.append_assoc]

theorem Trace.atBoundary {reqs : List ClientRequest} {ts : List (Machine σ)} {m₀ : Machine σ}
    (h : Trace router allowed m₀ ts m) (hfollowed : m₀.conn.Followed)
    (hstart : AtBoundary reqs [] m₀)
    (hfed : received m.io.log <+: reqs.flatMap ClientRequest.raw) :
    m.conn.Followed ∧ AtBoundary reqs ts m := by
  induction h with
  | start => exact ⟨hfollowed, hstart⟩
  | wake h w hopen ih => exact ih hfed
  | @turn ts m h hopen hallowed ih =>
    have hwf := Reaches.wellFormed h.reaches hfollowed.wellFormed
    obtain ⟨evs, hturn, hreceived⟩ := stepPhase_received router hwf hopen
    have hearlier : received m.io.log <+: reqs.flatMap ClientRequest.raw := by
      rw [hreceived] at hfed
      exact (List.prefix_append _ _).trans hfed
    obtain ⟨hfollowed', hboundary⟩ := ih hearlier
    exact ⟨hfollowed'.turn hturn, hboundary.turn hfollowed' hopen hfed⟩

theorem Machine.ofSlot_followed (backing backingCap : ℕ) (newFd : ℤ) (world : World σ) :
    (Machine.ofSlot {} backing backingCap newFd world).conn.Followed where
  wellFormed := Machine.ofSlot_wellFormed ..
  head := Machine.ofSlot_headTracked ..
  body := Machine.ofSlot_bodyTracked ..
  length := ⟨fun _ => rfl, fun h => absurd h (ConnPhase.not_afterHead (.inl rfl))⟩

/-- For every run that has received a beginning of these requests, whatever the calls return. -/
theorem request_boundaries (router : Router σ) (backing backingCap : ℕ) (newFd : ℤ)
    (world : World σ) (reqs : List ClientRequest) (ts : List (Machine σ)) (m : Machine σ)
    (htrace : Trace router (fun _ => True) (.ofSlot {} backing backingCap newFd world) ts m)
    (hfed : received m.io.log <+: reqs.flatMap ClientRequest.raw)
    (hbuilding : m.conn.phase = .building) :
    ∃ req, reqs[answering ts]? = some req ∧
      m.conn.reqParsed.requestLine = req.parsed.requestLine ∧
      m.conn.reqParsed.headers = req.parsed.headers ∧
      received (stepPhase router m).io.log =
        (reqs.take (answering ts + 1)).flatMap ClientRequest.raw ++
          (stepPhase router m).conn.mem.reqBuf.contents := by
  have hstart : AtBoundary reqs [] (Machine.ofSlot {} backing backingCap newFd world) :=
    ⟨[], reqs, rfl, rfl, rfl⟩
  obtain ⟨hfollowed, hboundary⟩ :=
    htrace.atBoundary (Machine.ofSlot_followed backing backingCap newFd world) hstart hfed
  obtain ⟨done, req, rest, rfl, hdone, hparsed, hnext⟩ := hboundary.next hfollowed hfed hbuilding
  obtain ⟨evs, hturn, hreceived⟩ := stepPhase_received router hfollowed.wellFormed
    (by rw [hbuilding]; simp)
  obtain ⟨hnone, hcontents⟩ := hturn.consumes hfollowed.wellFormed hbuilding
  refine ⟨req, ?_, ?_, ?_, ?_⟩
  · rw [← hdone, List.getElem?_append_right (Nat.le_refl _), Nat.sub_self, List.getElem?_cons_zero]
  · rw [← hparsed]
    rfl
  · rw [← hparsed]
    rfl
  · have htaken : (done ++ req :: rest).take (answering ts + 1) = done ++ [req] := by
      rw [← hdone, List.take_length_add_append, List.take_succ_cons, List.take_zero]
    rw [hreceived, hnone, List.append_nil, hnext, htaken, hcontents]
    rfl

/-! ## Two requests in one packet -/

def postHead : Bytes :=
  ascii "POST /a HTTP/1.1" ++ CRLF ++ ascii "Host: a" ++ CRLF ++ ascii "Content-Length: 1" ++ CRLF ++
    CRLF

def getHead : Bytes := ascii "GET /b HTTP/1.1" ++ CRLF ++ ascii "Host: a" ++ CRLF ++ CRLF

def postRequest : ClientRequest where
  head := postHead
  body := ascii "x"
  parsed := (requestParse (postHead ++ ascii "x") {}).2
  accepted := by decide +kernel
  framed := @RequestBody.length _ (ascii "1") 1 _ (by decide +kernel) (by decide +kernel) (by decide)
    rfl

def getRequest : ClientRequest where
  head := getHead
  body := []
  parsed := (requestParse (getHead ++ []) {}).2
  accepted := by decide +kernel
  framed := .none (by decide +kernel) (by decide +kernel)

/-- The body of the one request and the whole next one have arrived, and the response fits into the
socket. -/
def pipelined : ℕ → Machine Unit
  | 0 => newClient.wake
    { recvs := [.data (postHead ++ ascii "x" ++ getHead)]
      sends := [.accepted 8192]
      clock := [784111777] }
  | n + 1 => stepPhase {} (pipelined n)

theorem pipelined_trace {n : ℕ} (hopen : ∀ k < n, (pipelined k).conn.phase ≠ .closed) :
    Trace {} (fun _ => True) newClient ((List.range n).map pipelined) (pipelined n) := by
  induction n with
  | zero => exact .wake .start _ (by decide)
  | succ n ih =>
    rw [List.range_succ, List.map_append]
    exact .turn (ih fun k hk => hopen k (Nat.lt_succ_of_lt hk)) (hopen n (Nat.lt_succ_self n)) trivial

/-- Behind the first request, the second one is answered and nothing is left over. -/
theorem request_boundaries_pipelined :
    ∃ req, [postRequest, getRequest][1]? = some req ∧
      (pipelined 5).conn.reqParsed.requestLine = req.parsed.requestLine ∧
      (pipelined 5).conn.reqParsed.headers = req.parsed.headers ∧
      received (stepPhase {} (pipelined 5)).io.log =
        ([postRequest, getRequest].take 2).flatMap ClientRequest.raw ++
          (stepPhase {} (pipelined 5)).conn.mem.reqBuf.contents := by
  have htrace := pipelined_trace (n := 5) (by decide +kernel)
  have hfed : received (pipelined 5).io.log <+:
      [postRequest, getRequest].flatMap ClientRequest.raw := by decide +kernel
  have hanswered : answering ((List.range 5).map pipelined) = 1 := by decide +kernel
  have hserved := request_boundaries {} 4096 HTTP_CONN_ARENA_SIZE 5 { handlers := () }
    [postRequest, getRequest] ((List.range 5).map pipelined) (pipelined 5) htrace hfed
    (by decide +kernel)
  rwa [hanswered] at hserved

end HttpServer
