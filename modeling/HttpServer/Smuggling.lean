import HttpServer.HeadTracking
import HttpServer.TransferCodings

/-!
# Ambiguous framing

A head whose framing two readers could see differently must not get past
`step_header_read`. Both framings at once, a coding that is not understood and a
length that is not a number are refused. Repeated lines are not looked at together:
each `Transfer-Encoding` line is checked by itself, and of several `Content-Length`
lines only the first one counts.
-/

namespace HttpServer

variable {σ : Type*} {router : Router σ} {m : Machine σ} {conn read post : Connection}
  {req : HttpRequest} {head : Bytes}

/-! ## Header lines by name -/

def contentLengths (req : HttpRequest) : List Bytes :=
  headerValues req.headers (ascii "content-length")

def transferEncodings (req : HttpRequest) : List Bytes :=
  headerValues req.headers (ascii "transfer-encoding")

/-- `header_find` looks at the first line of the name only. -/
theorem headerFind_value (headers : List Header) (name : Bytes) :
    (headerFind headers name).map Header.value = (headerValues headers name).head? := by
  rw [headerFind, headerValues, List.head?_map, List.head?_filter]
  congr 2
  funext header
  exact Bool.decide_eq_true.symm

theorem headerFind_eq_none_iff (headers : List Header) (name : Bytes) :
    headerFind headers name = none ↔ headerValues headers name = [] := by
  rw [← List.head?_eq_none_iff, ← headerFind_value, Option.map_eq_none_iff]

theorem isHttp10_iff (h : req.requestLine.version ∈ requestVersions) :
    isHttp10 req = true ↔ req.requestLine.version = ascii "HTTP/1.0" := by
  unfold isHttp10
  generalize req.requestLine.version = version at h ⊢
  simp only [requestVersions, List.mem_cons, List.not_mem_nil, or_false] at h
  rcases h with rfl | rfl | rfl <;> decide

theorem RequestHead.version_mem (h : RequestHead head req) :
    req.requestLine.version ∈ requestVersions := by
  obtain ⟨line, fields, -, hline, -⟩ := h.split
  exact hline.version

/-! ## Heads that are refused -/

/-- A decimal number of at most `max`. -/
def DecimalUpTo (max : ℕ) (val : Bytes) : Prop :=
  ∃ n, val ≠ [] ∧ numeral 10 0 val = some n ∧ n ≤ max

theorem decimalUpTo_iff (val : Bytes) :
    DecimalUpTo HTTP_MAX_BODY_LEN val ↔ ∃ n, uintParse val 10 HTTP_MAX_BODY_LEN = (.ok, some n) := by
  unfold DecimalUpTo
  simp only [uintParse_ok_iff (show 10 ≤ HTTP_MAX_BODY_LEN + 1 by decide) (show 0 < 10 by decide)
    (show HTTP_MAX_BODY_LEN < 2 ^ 64 by decide)]

/-- The heads that are answered with an error for their framing or their lack of a host. -/
inductive Refused (req : HttpRequest) : Prop where
  | both (hlength : contentLengths req ≠ []) (hcoding : transferEncodings req ≠ [])
  | old (hversion : req.requestLine.version = ascii "HTTP/1.0") (hcoding : transferEncodings req ≠ [])
  | hostless (hversion : req.requestLine.version ≠ ascii "HTTP/1.0")
      (hhost : headerValues req.headers (ascii "host") = [])
  | coding {val} (hmem : val ∈ transferEncodings req)
      (hval : transferEncodingParse val ≠ (.ok, .chunked))
  | length {val} (hfirst : (contentLengths req).head? = some val)
      (hval : ¬ DecimalUpTo HTTP_MAX_BODY_LEN val)

/-- The coding that has been settled is that of the lines. -/
theorem Connection.FramedByHead.codings (h : conn.FramedByHead) :
    (∀ val ∈ transferEncodings conn.reqParsed, transferEncodingParse val = (.ok, .chunked)) ∧
      (conn.bodyCoding = .chunked ↔ transferEncodings conn.reqParsed ≠ []) := by
  obtain ⟨hall, hcoding⟩ := (teHeadersScan_iff conn.reqParsed.headers (by simp)).mp
    ⟨h.coding, h.supported⟩
  refine ⟨hall, ?_⟩
  rw [hcoding, transferEncodings]
  split
  · next hnil => simp [hnil]
  · next hne => simp [hne]

/-- The first `Content-Length` line has been read. -/
theorem Connection.FramedByHead.first_length (h : conn.FramedByHead) {val : Bytes}
    (hfirst : (contentLengths conn.reqParsed).head? = some val) :
    conn.bodyCoding ≠ .chunked ∧
      uintParse val 10 HTTP_MAX_BODY_LEN = (.ok, some conn.bodyLen) := by
  rw [contentLengths, ← headerFind_value] at hfirst
  obtain ⟨header, hfind, rfl⟩ := Option.map_eq_some_iff.mp hfirst
  exact h.length header hfind

theorem Connection.Headed.not_refused (h : conn.Headed) : ¬ Refused conn.reqParsed := by
  have h10 : isHttp10 conn.reqParsed = true ↔
      conn.reqParsed.requestLine.version = ascii "HTTP/1.0" := isHttp10_iff h.parsed.version_mem
  obtain ⟨hall, hcoding⟩ := h.framed.codings
  rintro (⟨hlength, hte⟩ | ⟨hversion, hte⟩ | ⟨hversion, hhost⟩ | ⟨hmem, hval⟩ | ⟨hfirst, hval⟩)
  · obtain ⟨val, hval⟩ := Option.isSome_iff_exists.mp (List.isSome_head?.mpr hlength)
    exact (h.framed.first_length hval).1 (hcoding.mpr hte)
  · exact h.http10 (h10.mpr hversion) (hcoding.mpr hte)
  · have hsome := h.host (Bool.eq_false_iff.mpr fun h => hversion (h10.mp h))
    rw [(headerFind_eq_none_iff _ _).mpr hhost] at hsome
    cases hsome
  · exact hval (hall _ hmem)
  · exact hval ((decimalUpTo_iff _).mpr ⟨_, (h.framed.first_length hfirst).2⟩)

theorem Refused.of_same {req' : HttpRequest} (h : Refused req)
    (hline : req'.requestLine = req.requestLine) (hheaders : req'.headers = req.headers) :
    Refused req' := by
  rcases h with ⟨hlength, hte⟩ | ⟨hversion, hte⟩ | ⟨hversion, hhost⟩ | ⟨hmem, hval⟩ | ⟨hfirst, hval⟩
  · refine .both ?_ ?_ <;> simpa only [contentLengths, transferEncodings, hheaders]
  · refine .old (hline ▸ hversion) ?_
    simpa only [transferEncodings, hheaders]
  · exact .hostless (hline ▸ hversion) (hheaders ▸ hhost)
  · refine .coding ?_ hval
    simpa only [transferEncodings, hheaders]
  · refine .length ?_ hval
    simpa only [contentLengths, hheaders]

theorem refused_bodiless (req : HttpRequest) : Refused req.bodiless ↔ Refused req :=
  ⟨fun h => h.of_same rfl rfl, fun h => h.of_same rfl rfl⟩

/-! ## Turns at a head -/

/-- The turn at a head answers with an error, or the head is the one of the next state. -/
theorem Machine.AtHead.turn (router : Router σ) (h : m.AtHead head req)
    (hwf : m.conn.WellFormed) (htracked : m.conn.HeadTracked) :
    (stepPhase router m).conn.phase = .sendingResponse ∨
      (stepPhase router m).conn.phase.AfterHead ∧ (stepPhase router m).conn.headBytes = head ∧
      (stepPhase router m).conn.reqParsed.bodiless = req := by
  obtain ⟨terminator, hfind, hlen, hparse⟩ := h.parsed.memmem_eq h.buffered
  generalize haccept : headAccept m.headerRead head.length = accepted
  obtain ⟨verdict, read⟩ := accepted
  have hpost := stepPhase_atHead router h hwf.backed haccept
  obtain ⟨hframe, haccepts⟩ := headAccept_spec haccept
  have follows : (∀ status, verdict ≠ .error status) →
      read.headBytes = head ∧ read.reqParsed.bodiless = req := by
    intro hne
    have haccepts := haccepts hne
    constructor
    · rw [Connection.headBytes, haccepts.start, hframe.mem]
      exact (List.prefix_iff_eq_take.mp h.buffered).symm
    · have hfresh : m.headerRead.reqParsed = {} := htracked.fresh h.phase
      have hrequest := haccepts.request
      rw [hfresh, hparse] at hrequest
      rw [hrequest]
      obtain ⟨line, fields, body, bodyLen⟩ := req
      obtain rfl : body = none := h.parsed.body
      obtain rfl : bodyLen = 0 := h.parsed.bodyLen
      rfl
  cases verdict with
  | error status =>
    obtain ⟨resp, hpost⟩ := hpost
    rw [hpost]
    exact .inl rfl
  | send100 =>
    rw [show (stepPhase router m).conn = _ from hpost]
    exact .inr ⟨.inl rfl, follows (by simp)⟩
  | dispatch =>
    rw [show (stepPhase router m).conn = _ from hpost]
    obtain ⟨hhead, hrequest⟩ := follows (by simp)
    refine .inr ⟨?_, read.dispatched_sameHead.head.trans hhead,
      read.dispatched_sameHead.request.trans hrequest⟩
    rcases read.dispatched_phase with hphase | hphase | hphase <;> rw [hphase]
    · exact .inr (.inr (.inl rfl))
    · exact .inr (.inr (.inr rfl))
    · exact .inr (.inl rfl)

/-- Behind no head that is refused does the connection send 100 Continue, read a body or build a
response, and such a head is answered with an error. -/
theorem smuggling_gate (router : Router σ) (slot : Connection) (backing backingCap : ℕ)
    (newFd : ℤ) (world : World σ) (m : Machine σ)
    (hreaches : Reaches router (fun _ => True) (.ofSlot slot backing backingCap newFd world) m) :
    (m.conn.phase.AfterHead → m.conn.mem.reqBuf.contents <:+ received m.io.log ∧
      RequestHead m.conn.headBytes m.conn.reqParsed.bodiless ∧
      ¬ Refused m.conn.reqParsed.bodiless) ∧
    ∀ head req, m.AtHead head req → Refused req →
      (stepPhase router m).conn.phase = .sendingResponse := by
  have hwf := Machine.ofSlot_wellFormed slot backing backingCap newFd world
  have hstart := Machine.ofSlot_headTracked slot backing backingCap newFd world
  have htracked := hreaches.headTracked hwf hstart
  refine ⟨fun hphase => ⟨?_, ?_, ?_⟩, ?_⟩
  · exact hreaches.contents_suffix hwf List.nil_suffix
  · exact (htracked.headed hphase).parsed
  · rw [refused_bodiless]
    exact (htracked.headed hphase).not_refused
  · intro head req hat hrefused
    have hopen : m.conn.phase ≠ .closed := by simp [hat.phase]
    have hnext : Reaches router (fun _ => True) (.ofSlot slot backing backingCap newFd world)
        (stepPhase router m) := hreaches.tail (.turn hopen trivial)
    rcases hat.turn router (hreaches.wellFormed hwf) htracked with hphase | ⟨hphase, -, rfl⟩
    · exact hphase
    · rw [refused_bodiless] at hrefused
      exact absurd hrefused ((hnext.headTracked hwf hstart).headed hphase).not_refused

/-- A new client at the head that has arrived for it. -/
theorem newClient_atHead {head : Bytes} {req : HttpRequest}
    (hparse : requestParse head {} = ({ next := some head.length }, req))
    (hbuffered : head <+:
      (newClient.wake { recvs := [.data head] }).headerRead.mem.reqBuf.contents) :
    (newClient.wake { recvs := [.data head] }).AtHead head req := by
  obtain ⟨n, -, hhead, hres⟩ := requestParse_sound hparse rfl
  obtain rfl : head.length = n := by simpa using hres
  rw [List.take_length] at hhead
  exact ⟨rfl, hbuffered, hhead⟩

theorem newClient_reaches (head : Bytes) :
    Reaches {} (fun _ => True) newClient (newClient.wake { recvs := [.data head] }) :=
  .single (.wake _ (by simp [newClient, Machine.ofSlot, connectionInit]))

/-- Both framings at once. -/
def bothFramingsHead : Bytes :=
  ascii "POST / HTTP/1.1" ++ CRLF ++ ascii "Host: a" ++ CRLF ++ ascii "Content-Length: 1" ++ CRLF ++
    ascii "Transfer-Encoding: chunked" ++ CRLF ++ CRLF

def bothFramingsRequest : HttpRequest :=
  { requestLine := { method := .post, path := ascii "/", version := ascii "HTTP/1.1" }
    headers :=
      [⟨ascii "Host", ascii "a"⟩, ⟨ascii "Content-Length", ascii "1"⟩,
        ⟨ascii "Transfer-Encoding", ascii "chunked"⟩] }

/-- One of them. -/
def oneFramingHead : Bytes :=
  ascii "POST / HTTP/1.1" ++ CRLF ++ ascii "Host: a" ++ CRLF ++ ascii "Content-Length: 1" ++ CRLF ++
    CRLF

/-- The client whose head is refused, and the one whose head has been accepted. -/
def refusedClient : Machine Unit := newClient.wake { recvs := [.data bothFramingsHead] }

def acceptedClient : Machine Unit :=
  stepPhase {} (newClient.wake { recvs := [.data oneFramingHead] })

theorem acceptedClient_phase : acceptedClient.conn.phase = .readingBodyCl := by decide +kernel

theorem smuggling_gate_both :
    (refusedClient.AtHead bothFramingsHead bothFramingsRequest ∧ Refused bothFramingsRequest ∧
      (stepPhase {} refusedClient).conn.phase = .sendingResponse) ∧
    acceptedClient.conn.phase = .readingBodyCl ∧
      acceptedClient.conn.mem.reqBuf.contents <:+ received acceptedClient.io.log ∧
      RequestHead acceptedClient.conn.headBytes acceptedClient.conn.reqParsed.bodiless ∧
      ¬ Refused acceptedClient.conn.reqParsed.bodiless := by
  have hat : refusedClient.AtHead bothFramingsHead bothFramingsRequest :=
    newClient_atHead (by decide +kernel) (by decide +kernel)
  have hrefused : Refused bothFramingsRequest := .both (by decide) (by decide)
  have haccepted : Reaches {} (fun _ => True) newClient acceptedClient :=
    (newClient_reaches oneFramingHead).tail
      (.turn (by simp [newClient, Machine.ofSlot, connectionInit, Machine.wake]) trivial)
  refine ⟨⟨hat, hrefused, ?_⟩, acceptedClient_phase, ?_⟩
  · exact (smuggling_gate {} {} 4096 HTTP_CONN_ARENA_SIZE 5 { handlers := () } refusedClient
      (newClient_reaches bothFramingsHead)).2 _ _ hat hrefused
  · exact (smuggling_gate {} {} 4096 HTTP_CONN_ARENA_SIZE 5 { handlers := () } acceptedClient
      haccepted).1 (.inr (.inl acceptedClient_phase))

/-! ## Several Transfer-Encoding lines -/

/-- The connection goes on to read a chunked body, perhaps after an interim response. -/
def Connection.TakesChunked (conn : Connection) : Prop :=
  conn.bodyCoding = .chunked ∧ (conn.phase = .readingBodyChunked ∨ conn.phase = .sending100)

theorem headExpect_ne_error (hmethod : conn.reqParsed.requestLine.method ≠ .head) (b : Bool)
    (status : ParseStatus) : headExpect conn b ≠ .error status := by
  unfold headExpect
  dsimp only
  rw [if_neg fun h => hmethod h.1]
  split
  · simp
  · split
    · simp
    · split <;> simp

/-- Without a length the codings alone decide. -/
theorem headFraming_takesChunked_iff {verdict : HeadVerdict}
    (hmethod : conn.reqParsed.requestLine.method ≠ .head) (h10 : isHttp10 conn.reqParsed = false)
    (hnone : contentLengths conn.reqParsed = [])
    (h : headFraming conn = (verdict, read)) (hpost : read.Heads verdict post) :
    post.TakesChunked ↔
      teHeadersScan conn.reqParsed.headers .none .ok = (.chunked, .ok) := by
  have hfind := (headerFind_eq_none_iff conn.reqParsed.headers (ascii "content-length")).mpr hnone
  have error : ∀ {status}, verdict = .error status → ¬ post.TakesChunked := by
    rintro status rfl ⟨-, hphase⟩
    obtain ⟨resp, rfl⟩ := hpost
    simp at hphase
  unfold headFraming at h
  dsimp only at h
  generalize teHeadersScan conn.reqParsed.headers .none .ok = scanned at h ⊢
  obtain ⟨coding, status⟩ := scanned
  simp only [h10, hfind, Bool.false_eq_true, false_and, if_false] at h
  split at h
  · next hunsupported =>
    refine iff_of_false (error (Prod.mk.inj h).1.symm) ?_
    rw [hunsupported]
    simp
  · split at h
    · next hstatus =>
      refine iff_of_false (error (Prod.mk.inj h).1.symm) ?_
      exact fun heq => hstatus (Prod.mk.inj heq).2
    · next hsupported hstatus =>
      obtain rfl : status = .ok := not_not.mp hstatus
      obtain ⟨rfl, rfl⟩ := Prod.mk.inj h
      generalize hverdict : headExpect { conn with bodyCoding := coding } false = verdict at hpost
      have hscan : ((coding, ParseStatus.ok) = (.chunked, .ok)) ↔ coding = .chunked := by simp
      rw [hscan]
      cases verdict with
      | error status => exact absurd hverdict (headExpect_ne_error (by exact hmethod) _ _)
      | send100 =>
        rw [show post = _ from hpost]
        exact ⟨fun h => h.1, fun h => ⟨h, .inr rfl⟩⟩
      | dispatch =>
        rw [show post = _ from hpost]
        constructor
        · rintro ⟨hcoding, -⟩
          rwa [(Connection.dispatched_sameHead _).coding] at hcoding
        · rintro rfl
          exact ⟨rfl, .inl rfl⟩

/-- When nothing else is wrong with a head, all of its codings have to be accepted. -/
theorem Machine.AtHead.takesChunked_iff (router : Router σ) (h : m.AtHead head req)
    (hwf : m.conn.WellFormed) (htracked : m.conn.HeadTracked)
    (hversion : req.requestLine.version ≠ ascii "HTTP/1.0")
    (hhost : headerValues req.headers (ascii "host") ≠ []) (hlength : contentLengths req = [])
    (hte : transferEncodings req ≠ []) :
    (stepPhase router m).conn.TakesChunked ↔
      ∀ val ∈ transferEncodings req, transferEncodingParse val = (.ok, .chunked) := by
  obtain ⟨terminator, hfind, hlen, hparse⟩ := h.parsed.memmem_eq h.buffered
  have h10 : isHttp10 req = false :=
    Bool.eq_false_iff.mpr fun h10 => hversion ((isHttp10_iff h.parsed.version_mem).mp h10)
  have hfound : (headerFind req.headers (ascii "host")).isNone = false := by
    rw [Option.isNone_eq_false_iff, Option.isSome_iff_ne_none]
    exact fun hnone => hhost ((headerFind_eq_none_iff _ _).mp hnone)
  rw [← show m.headerRead.reqParsed = {} from htracked.fresh h.phase] at hparse
  generalize haccept : headAccept m.headerRead head.length = accepted
  obtain ⟨verdict, read⟩ := accepted
  have hpost := stepPhase_atHead router h hwf.backed haccept
  rw [headAccept_of_parse hparse, h10, hfound] at haccept
  rw [headFraming_takesChunked_iff h.parsed.method_ne_head h10 hlength haccept hpost]
  have hscan := @teHeadersScan_iff req.headers .none .chunked (by simp)
  rw [← transferEncodings, if_neg hte] at hscan
  simpa using hscan

/-- The lines are taken as if they were joined exactly when there is one of them, or one that is
not accepted by itself unless one is and the others are blank. -/
theorem joined_codings_iff (router : Router σ) (slot : Connection) (backing backingCap : ℕ)
    (newFd : ℤ) (world : World σ) (m : Machine σ) (head : Bytes) (req : HttpRequest)
    (hreaches : Reaches router (fun _ => True) (.ofSlot slot backing backingCap newFd world) m)
    (hat : m.AtHead head req) (hversion : req.requestLine.version ≠ ascii "HTTP/1.0")
    (hhost : headerValues req.headers (ascii "host") ≠ []) (hlength : contentLengths req = [])
    (hte : transferEncodings req ≠ []) :
    ((stepPhase router m).conn.TakesChunked ↔
        transferEncodingParse (joinValues (transferEncodings req)) = (.ok, .chunked)) ↔
      (transferEncodings req).length = 1 ∨
        (∃ val ∈ transferEncodings req, transferEncodingParse val ≠ (.ok, .chunked)) ∧
          ¬ OneAmongBlanks (transferEncodings req) := by
  have hwf := Machine.ofSlot_wellFormed slot backing backingCap newFd world
  have hstart := Machine.ofSlot_headTracked slot backing backingCap newFd world
  rw [hat.takesChunked_iff router (hreaches.wellFormed hwf) (hreaches.headTracked hwf hstart)
    hversion hhost hlength hte]
  exact lines_iff_join_iff hte

/-- The coding `chunked` twice, on two lines. -/
def twiceChunkedHead : Bytes :=
  ascii "POST / HTTP/1.1" ++ CRLF ++ ascii "Host: a" ++ CRLF ++
    ascii "Transfer-Encoding: chunked" ++ CRLF ++ ascii "Transfer-Encoding: chunked" ++ CRLF ++ CRLF

def twiceChunkedRequest : HttpRequest :=
  { requestLine := { method := .post, path := ascii "/", version := ascii "HTTP/1.1" }
    headers :=
      [⟨ascii "Host", ascii "a"⟩, ⟨ascii "Transfer-Encoding", ascii "chunked"⟩,
        ⟨ascii "Transfer-Encoding", ascii "chunked"⟩] }

def twiceChunkedClient : Machine Unit := newClient.wake { recvs := [.data twiceChunkedHead] }

theorem twiceChunkedClient_reaches : Reaches {} (fun _ => True) newClient twiceChunkedClient :=
  newClient_reaches twiceChunkedHead

theorem twiceChunkedClient_atHead :
    twiceChunkedClient.AtHead twiceChunkedHead twiceChunkedRequest :=
  newClient_atHead (by decide +kernel) (by decide +kernel)

theorem joined_codings_iff_twice :
    ((stepPhase {} twiceChunkedClient).conn.TakesChunked ↔
        transferEncodingParse (joinValues (transferEncodings twiceChunkedRequest)) =
          (.ok, .chunked)) ↔
      (transferEncodings twiceChunkedRequest).length = 1 ∨
        (∃ val ∈ transferEncodings twiceChunkedRequest,
          transferEncodingParse val ≠ (.ok, .chunked)) ∧
          ¬ OneAmongBlanks (transferEncodings twiceChunkedRequest) :=
  joined_codings_iff {} {} 4096 HTTP_CONN_ARENA_SIZE 5 { handlers := () } _ _ _
    twiceChunkedClient_reaches twiceChunkedClient_atHead (by decide) (by decide) (by decide)
    (by decide)

/-- Joined on one line the two codings are refused, on two lines they are accepted. -/
theorem codings_not_joined :
    Reaches {} (fun _ => True) newClient twiceChunkedClient ∧
      twiceChunkedClient.AtHead twiceChunkedHead twiceChunkedRequest ∧
      transferEncodingParse (joinValues (transferEncodings twiceChunkedRequest)) =
        (.badRequest, .none) ∧
      (stepPhase {} twiceChunkedClient).conn.TakesChunked := by
  refine ⟨twiceChunkedClient_reaches, twiceChunkedClient_atHead, by decide +kernel, ?_⟩
  have hphase : (stepPhase {} twiceChunkedClient).conn.bodyCoding = .chunked ∧
      (stepPhase {} twiceChunkedClient).conn.phase = .readingBodyChunked := by decide +kernel
  exact ⟨hphase.1, .inl hphase.2⟩

/-! ## Several Content-Length lines -/

/-- Of a head that is not answered with an error all lengths are the one of the framing exactly when
any two of them read the same. -/
theorem lengths_agree_iff (router : Router σ) (slot : Connection) (backing backingCap : ℕ)
    (newFd : ℤ) (world : World σ) (m : Machine σ)
    (hreaches : Reaches router (fun _ => True) (.ofSlot slot backing backingCap newFd world) m)
    (hphase : m.conn.phase.AfterHead) :
    (∀ val ∈ contentLengths m.conn.reqParsed,
        uintParse val 10 HTTP_MAX_BODY_LEN = (.ok, some m.conn.bodyLen)) ↔
      ∀ val ∈ contentLengths m.conn.reqParsed, ∀ val' ∈ contentLengths m.conn.reqParsed,
        uintParse val 10 HTTP_MAX_BODY_LEN = uintParse val' 10 HTTP_MAX_BODY_LEN := by
  have hframed := ((hreaches.headTracked (Machine.ofSlot_wellFormed slot backing backingCap newFd
    world) (Machine.ofSlot_headTracked slot backing backingCap newFd world)).headed hphase).framed
  constructor
  · intro hall val hval val' hval'
    rw [hall val hval, hall val' hval']
  · intro hsame val hval
    obtain ⟨first, hfirst⟩ := Option.isSome_iff_exists.mp
      (List.isSome_head?.mpr (List.ne_nil_of_mem hval))
    rw [hsame val hval first (List.mem_of_head? hfirst)]
    exact (hframed.first_length hfirst).2

/-- Two lengths, and a body of the first of them. -/
def twoLengthsRequest : Bytes :=
  ascii "POST / HTTP/1.1" ++ CRLF ++ ascii "Host: a" ++ CRLF ++ ascii "Content-Length: 1" ++ CRLF ++
    ascii "content-length: 2" ++ CRLF ++ CRLF ++ ascii "x"

/-- The machine after the turns that read the head and the body. -/
def twoLengthsRead : Machine Unit :=
  stepPhase {} (stepPhase {} (newClient.wake { recvs := [.data twoLengthsRequest] }))

theorem twoLengthsRead_framing :
    (stepPhase {} (newClient.wake { recvs := [.data twoLengthsRequest] }) : Machine Unit).conn.phase =
        .readingBodyCl ∧
      twoLengthsRead.conn.phase = .building ∧ twoLengthsRead.conn.bodyCoding = .none ∧
      contentLengths twoLengthsRead.conn.reqParsed = [ascii "1", ascii "2"] ∧
      twoLengthsRead.conn.bodyLen = 1 := by decide +kernel

theorem twoLengthsRead_reaches : Reaches {} (fun _ => True) newClient twoLengthsRead := by
  refine .tail (.tail (.single (.wake { recvs := [.data twoLengthsRequest] } ?_))
    (.turn ?_ trivial)) (.turn ?_ trivial)
  · simp [newClient, Machine.ofSlot, connectionInit]
  · simp [newClient, Machine.ofSlot, connectionInit, Machine.wake]
  · rw [twoLengthsRead_framing.1]
    simp

theorem lengths_agree_iff_two :
    (∀ val ∈ contentLengths twoLengthsRead.conn.reqParsed,
        uintParse val 10 HTTP_MAX_BODY_LEN = (.ok, some twoLengthsRead.conn.bodyLen)) ↔
      ∀ val ∈ contentLengths twoLengthsRead.conn.reqParsed,
        ∀ val' ∈ contentLengths twoLengthsRead.conn.reqParsed,
        uintParse val 10 HTTP_MAX_BODY_LEN = uintParse val' 10 HTTP_MAX_BODY_LEN :=
  lengths_agree_iff {} {} 4096 HTTP_CONN_ARENA_SIZE 5 { handlers := () } twoLengthsRead
    twoLengthsRead_reaches (.inr (.inr (.inr twoLengthsRead_framing.2.1)))

/-- A request with two different lengths goes to the handler. -/
theorem lengths_disagree :
    ∃ m : Machine Unit, Reaches {} (fun _ => True) newClient m ∧ m.conn.phase = .building ∧
      m.conn.bodyCoding = .none ∧ ∃ val ∈ contentLengths m.conn.reqParsed,
        uintParse val 10 HTTP_MAX_BODY_LEN ≠ (.ok, some m.conn.bodyLen) := by
  obtain ⟨-, hphase, hcoding, hlengths, hlen⟩ := twoLengthsRead_framing
  refine ⟨twoLengthsRead, twoLengthsRead_reaches, hphase, hcoding, ascii "2", ?_, ?_⟩
  · rw [hlengths]
    decide
  · rw [hlen]
    decide

end HttpServer
