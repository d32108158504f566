import HttpServer.ConnectionLayout
import HttpServer.SlotAlike

/-!
# Reuse of a slot

`connection_init` leaves `keep_alive`, `body_len` and the memory of the buffers as the
earlier client left them. Two runs for the same client on the same slot are compared,
whatever has been there before.
-/

namespace HttpServer

variable {σ : Type*} {slots : Connection × Connection} {c₁ c₂ : Connection} {m₁ m₂ : Machine σ}
  {phase : ConnPhase}

/-! ## What a head settles -/

/-- The fields that `connection_init` leaves as they are and a request may read. -/
def Connection.SameLeftovers (c₁ c₂ : Connection) : Prop :=
  c₁.keepAlive = c₂.keepAlive ∧ c₁.bodyLen = c₂.bodyLen

/-- `request_parse` at what is buffered. -/
def Connection.parses (conn : Connection) : ParseResult × HttpRequest :=
  requestParse conn.mem.reqBuf.contents conn.reqParsed

/-- The head asks for HTTP/1.1 and for a connection that is kept, so `keep_alive` is set. -/
def Connection.SetsKeepAlive (conn : Connection) : Prop :=
  conn.parses.1.status = .ok ∧ isHttp10 conn.parses.2 = false ∧
    (headerFind conn.parses.2.headers (ascii "host")).isSome = true ∧
    keepAliveNegotiate { reqParsed := conn.parses.2 } = true

/-- A head that goes on with the body says how long that is. -/
def Connection.SetsBodyLen (conn : Connection) (bodyStart : ℕ) : Prop :=
  (headAccept conn bodyStart).1 = .dispatch ∨ (headAccept conn bodyStart).1 = .send100 →
    (teHeadersScan conn.parses.2.headers .none .ok).1 = .chunked ∨
      (headerFind conn.parses.2.headers (ascii "content-length")).isSome = true

instance (conn : Connection) : Decidable conn.SetsKeepAlive := instDecidableAnd

instance (conn : Connection) (bodyStart : ℕ) : Decidable (conn.SetsBodyLen bodyStart) :=
  inferInstanceAs (Decidable (_ → _))

theorem headExpect_congr {hasContentLength : Bool} (hparsed : c₁.reqParsed = c₂.reqParsed)
    (hcoding : c₁.bodyCoding = c₂.bodyCoding) (hsize : c₁.mem.reqBuf.size = c₂.mem.reqBuf.size)
    (hstart : c₁.bodyStart = c₂.bodyStart)
    (hlen : hasContentLength = true → c₁.bodyLen = c₂.bodyLen) :
    headExpect c₁ hasContentLength = headExpect c₂ hasContentLength := by
  unfold headExpect
  rw [hparsed, hcoding, hsize, hstart]
  cases hasContentLength with
  | false => rfl
  | true => rw [hlen rfl]

/-- The verdict is about the head and what is buffered behind it. -/
theorem headFraming_verdict (hparsed : c₁.reqParsed = c₂.reqParsed)
    (hsize : c₁.mem.reqBuf.size = c₂.mem.reqBuf.size) (hstart : c₁.bodyStart = c₂.bodyStart) :
    (headFraming c₁).1 = (headFraming c₂).1 := by
  unfold headFraming
  rw [hparsed]
  generalize teHeadersScan c₂.reqParsed.headers .none .ok = scanned
  obtain ⟨coding, status⟩ := scanned
  dsimp only
  split
  · rfl
  · split
    · rfl
    · split
      · rfl
      · cases headerFind c₂.reqParsed.headers (ascii "content-length") with
        | none => exact headExpect_congr rfl rfl hsize hstart (by simp)
        | some header =>
          dsimp only
          split
          · rfl
          · cases hparse : uintParse header.value 10 HTTP_MAX_BODY_LEN with
            | mk ps len =>
              cases ps with
              | ok =>
                obtain ⟨n, rfl⟩ := uintParse_fst_ok hparse
                exact headExpect_congr rfl rfl hsize hstart fun _ => rfl
              | _ => rfl

theorem headFraming_keepAlive (conn : Connection) :
    (headFraming conn).2.keepAlive = conn.keepAlive := by
  obtain ⟨⟨coding, len, heq⟩, -⟩ := headFraming_spec (Prod.mk.eta (p := headFraming conn)).symm
  rw [heq]

theorem keepAliveNegotiate_of_parsed {conn : Connection}
    (h : keepAliveNegotiate { reqParsed := conn.reqParsed } = true) :
    keepAliveNegotiate conn = true := by
  unfold keepAliveNegotiate at h ⊢
  generalize headerFind conn.reqParsed.headers (ascii "connection") = found at h ⊢
  cases found with
  | none => rfl
  | some header =>
    dsimp only at h ⊢
    split at h
    · next hkeep => rw [if_pos hkeep]
    · cases h

theorem keepAliveNegotiate_congr (hparsed : c₁.reqParsed = c₂.reqParsed)
    (hkeep : c₁.keepAlive = c₂.keepAlive ∨
      keepAliveNegotiate { reqParsed := c₂.reqParsed } = true) :
    keepAliveNegotiate c₁ = keepAliveNegotiate c₂ := by
  rcases hkeep with hkeep | hset
  · unfold keepAliveNegotiate
    rw [hparsed, hkeep]
  · have hset' : keepAliveNegotiate { reqParsed := c₁.reqParsed } = true := by rwa [hparsed]
    rw [keepAliveNegotiate_of_parsed hset, keepAliveNegotiate_of_parsed hset']

theorem headAccept_reqParsed (conn : Connection) (bodyStart : ℕ) :
    (headAccept conn bodyStart).2.reqParsed = conn.parses.2 := by
  have framing : ∀ d : Connection, (headFraming d).2.reqParsed = d.reqParsed := fun d => by
    obtain ⟨⟨coding, len, heq⟩, -⟩ := headFraming_spec (Prod.mk.eta (p := headFraming d)).symm
    rw [heq]
  unfold headAccept Connection.parses
  generalize requestParse conn.mem.reqBuf.contents conn.reqParsed = parsed
  obtain ⟨res, req⟩ := parsed
  dsimp only
  split
  · rfl
  · split
    · rw [framing]
    · split
      · rfl
      · rw [framing]

theorem headAccept_verdict (hparsed : c₁.reqParsed = c₂.reqParsed)
    (hbuf : c₁.mem.reqBuf.Alike c₂.mem.reqBuf) (bodyStart : ℕ) :
    (headAccept c₁ bodyStart).1 = (headAccept c₂ bodyStart).1 := by
  unfold headAccept
  rw [hparsed, hbuf.contents]
  generalize requestParse c₂.mem.reqBuf.contents c₂.reqParsed = parsed
  obtain ⟨res, req⟩ := parsed
  dsimp only
  split
  · rfl
  · split
    · exact headFraming_verdict rfl hbuf.size rfl
    · split
      · rfl
      · exact headFraming_verdict rfl hbuf.size rfl

theorem headAccept_keepAlive (hparsed : c₁.reqParsed = c₂.reqParsed)
    (hbuf : c₁.mem.reqBuf.Alike c₂.mem.reqBuf) (bodyStart : ℕ)
    (hkeep : c₁.keepAlive = c₂.keepAlive ∨ c₁.SetsKeepAlive) :
    (headAccept c₁ bodyStart).2.keepAlive = (headAccept c₂ bodyStart).2.keepAlive := by
  have hparses : c₁.parses = c₂.parses := by
    unfold Connection.parses
    rw [hparsed, hbuf.contents]
  unfold Connection.SetsKeepAlive at hkeep
  rw [hparses] at hkeep
  unfold headAccept
  rw [hparsed, hbuf.contents]
  unfold Connection.parses at hkeep
  generalize requestParse c₂.mem.reqBuf.contents c₂.reqParsed = parsed at hkeep ⊢
  obtain ⟨res, req⟩ := parsed
  dsimp only at hkeep ⊢
  split
  · next hstatus => exact hkeep.resolve_right fun hset => hstatus hset.1
  · split
    · next h10 =>
      rw [headFraming_keepAlive, headFraming_keepAlive]
      exact hkeep.resolve_right fun hset => absurd h10 (by rw [hset.2.1]; simp)
    · split
      · next hhost =>
        refine hkeep.resolve_right fun hset => ?_
        rw [Option.isNone_iff_eq_none] at hhost
        rw [hhost] at hset
        cases hset.2.2.1
      · rw [headFraming_keepAlive, headFraming_keepAlive]
        exact keepAliveNegotiate_congr rfl (hkeep.imp id fun hset => hset.2.2.2)

/-- What the phases after a head go by. -/
def Connection.SameFraming (c₁ c₂ : Connection) : Prop :=
  c₁.bodyStart = c₂.bodyStart ∧ c₁.bodyCoding = c₂.bodyCoding ∧
    (c₁.bodyCoding ≠ .chunked → c₁.bodyLen = c₂.bodyLen)

theorem headAccept_sameFraming {bodyStart : ℕ} (hparsed : c₁.reqParsed = c₂.reqParsed)
    (hbuf : c₁.mem.reqBuf.Alike c₂.mem.reqBuf)
    (hlen : c₁.bodyLen = c₂.bodyLen ∨ c₁.SetsBodyLen bodyStart)
    (hverdict : (headAccept c₁ bodyStart).1 = .dispatch ∨ (headAccept c₁ bodyStart).1 = .send100) :
    (headAccept c₁ bodyStart).2.SameFraming (headAccept c₂ bodyStart).2 := by
  have hsame := headAccept_verdict hparsed hbuf bodyStart
  have hreq : (headAccept c₁ bodyStart).2.reqParsed = (headAccept c₂ bodyStart).2.reqParsed := by
    rw [headAccept_reqParsed, headAccept_reqParsed, Connection.parses, Connection.parses, hparsed,
      hbuf.contents]
  have hlen' := hlen.imp id fun hset => hset hverdict
  rw [← headAccept_reqParsed c₁ bodyStart, hreq] at hlen'
  generalize haccept₁ : headAccept c₁ bodyStart = accepted₁ at hsame hreq hlen' hverdict ⊢
  generalize haccept₂ : headAccept c₂ bodyStart = accepted₂ at hsame hreq hlen' ⊢
  obtain ⟨verdict, read₁⟩ := accepted₁
  obtain ⟨verdict₂, read₂⟩ := accepted₂
  obtain rfl : verdict = verdict₂ := hsame
  have hne : ∀ status, verdict ≠ .error status := by
    rcases hverdict with rfl | rfl <;> simp
  have h₁ := (headAccept_spec haccept₁).2 hne
  have h₂ := (headAccept_spec haccept₂).2 hne
  dsimp only at hreq hlen' ⊢
  have hscan := h₁.framed.coding
  rw [hreq, h₂.framed.coding] at hscan
  have hcoding : read₁.bodyCoding = read₂.bodyCoding := (Prod.mk.inj hscan).1.symm
  refine ⟨h₁.start.trans h₂.start.symm, hcoding, fun hplain => ?_⟩
  cases hfind : headerFind read₂.reqParsed.headers (ascii "content-length") with
  | some header =>
    have hvalue := (h₁.framed.length header (by rw [hreq, hfind])).2
    rw [(h₂.framed.length header hfind).2] at hvalue
    exact (Option.some.inj (Prod.mk.inj hvalue).2).symm
  | none =>
    rw [h₁.framed.no_length (by rw [hreq, hfind]), h₂.framed.no_length hfind]
    refine hlen'.resolve_right fun hset => ?_
    rw [h₂.framed.coding, hfind] at hset
    rcases hset with hchunked | hsome
    · exact hplain (hcoding.trans hchunked)
    · cases hsome

/-! ## What a phase depends on -/

/-- What is the same in every phase. -/
structure Connection.SameSlot (c₁ c₂ : Connection) : Prop where
  fd : c₁.fd = c₂.fd
  requests : c₁.requests = c₂.requests
  reqParsed : c₁.reqParsed = c₂.reqParsed
  st : c₁.st = c₂.st
  arena : c₁.mem.arena = c₂.mem.arena
  reqMark : c₁.mem.reqMark = c₂.mem.reqMark
  reqBuf : c₁.mem.reqBuf.Alike c₂.mem.reqBuf
  dechunked : c₁.mem.bodyDechunked.Alike c₂.mem.bodyDechunked
  respAddress : c₁.mem.respBuf.address = c₂.mem.respBuf.address
  respCap : c₁.mem.respBuf.cap = HTTP_RESPONSE_BUFFER_SIZE
  respCap' : c₂.mem.respBuf.cap = HTTP_RESPONSE_BUFFER_SIZE

/-- What else is the same, phase by phase. Before the first head the leftovers of the slots are
still there. -/
def Connection.SameIn (slots : Connection × Connection) (c₁ c₂ : Connection) : ConnPhase → Prop
  | .readingRequest => c₁.SameLeftovers c₂ ∨
    c₁.requests = 0 ∧ c₁.SameLeftovers slots.1 ∧ c₂.SameLeftovers slots.2
  | .sending100 | .readingBodyCl | .readingBodyChunked | .building =>
    c₁.keepAlive = c₂.keepAlive ∧ c₁.SameFraming c₂
  | .sendingResponse => c₁.keepAlive = c₂.keepAlive ∧ c₁.mem.respBuf.Alike c₂.mem.respBuf
  | .sendingResponseStream =>
    c₁.keepAlive = c₂.keepAlive ∧ c₁.mem.respBuf.Alike c₂.mem.respBuf ∧ c₁.producer = c₂.producer
  | .closed => True

structure Machine.Alike (slots : Connection × Connection) (phase : ConnPhase)
    (m₁ m₂ : Machine σ) : Prop where
  slot : m₁.conn.SameSlot m₂.conn
  own : m₁.conn.SameIn slots m₂.conn phase
  io : m₁.io.Alike m₂.io
  world : m₁.world = m₂.world

/-- Two steps return the same phase and machines that go on alike in it. -/
structure StepAlike (slots : Connection × Connection) (r₁ r₂ : ConnPhase × Machine σ) : Prop where
  phase : r₁.1 = r₂.1
  machine : r₁.2.Alike slots r₁.1 r₂.2

/-- A connection that is closed does not go on at all. -/
theorem Machine.Alike.close (h : m₁.Alike slots phase m₂) : m₁.Alike slots .closed m₂ :=
  { h with own := trivial }

/-! ## Steps -/

theorem Machine.Alike.errorBegin (h : m₁.Alike slots phase m₂)
    (hkeep : m₁.conn.keepAlive = m₂.conn.keepAlive) (status : ParseStatus) :
    StepAlike slots (m₁.errorBegin status) (m₂.errorBegin status) := by
  obtain ⟨hresp, hio⟩ := responseErrorSerialize_alike status h.slot.respAddress
    (h.slot.respCap.trans h.slot.respCap'.symm) h.slot.respCap h.io
  unfold Machine.errorBegin phaseSendBegin
  exact ⟨rfl, { h.slot with st := rfl, respAddress := hresp.address }, ⟨hkeep, hresp⟩, hio, h.world⟩

theorem Machine.Alike.bodyDispatch (h : m₁.Alike slots .sending100 m₂) :
    StepAlike slots m₁.bodyDispatch m₂.bodyDispatch := by
  obtain ⟨hkeep, hstart, hcoding, hlen⟩ := h.own
  have hasserts : phaseBodyDispatchAsserts m₁.conn = phaseBodyDispatchAsserts m₂.conn := by
    unfold phaseBodyDispatchAsserts
    by_cases hchunked : m₁.conn.bodyCoding = .chunked
    · rw [← hcoding, hchunked]
      rfl
    · rw [hcoding, hlen hchunked, hstart, h.slot.reqBuf.size]
  have hio := h.io.assert (phaseBodyDispatchAsserts m₂.conn)
  unfold Machine.bodyDispatch Machine.assert phaseBodyDispatch
  rw [hasserts]
  dsimp only
  by_cases hchunked : m₁.conn.bodyCoding = .chunked
  · have hchunked' : m₂.conn.bodyCoding = .chunked := hcoding.symm.trans hchunked
    rw [if_pos hchunked, if_pos hchunked']
    exact ⟨rfl,
      { h.slot with
        st := rfl
        dechunked := ⟨h.slot.dechunked.address, h.slot.dechunked.cap, rfl, rfl⟩ },
      ⟨hkeep, hstart, hcoding, hlen⟩, hio, h.world⟩
  · have hchunked' : ¬ m₂.conn.bodyCoding = .chunked := mt hcoding.trans hchunked
    rw [if_neg hchunked, if_neg hchunked']
    by_cases hzero : m₁.conn.bodyLen = 0
    · have hzero' : m₂.conn.bodyLen = 0 := (hlen hchunked).symm.trans hzero
      rw [if_pos hzero, if_pos hzero']
      exact ⟨rfl, { h.slot with reqParsed := by dsimp only; rw [h.slot.reqParsed] },
        ⟨hkeep, hstart, hcoding, hlen⟩, hio, h.world⟩
    · have hzero' : ¬ m₂.conn.bodyLen = 0 := mt (hlen hchunked).trans hzero
      rw [if_neg hzero, if_neg hzero']
      exact ⟨rfl, { h.slot with st := by dsimp only; rw [hstart, h.slot.reqBuf.size] },
        ⟨hkeep, hstart, hcoding, hlen⟩, hio, h.world⟩

/-- Reading the head leads to `keep_alive` being set, or to nothing that reads it. -/
def Machine.SetsKeepAlive (m : Machine σ) : Prop :=
  (connRecvHeader m.conn.fd m.conn.mem.reqBuf m.io).1.status ≠ .tooLarge ∧
    ((connRecvHeader m.conn.fd m.conn.mem.reqBuf m.io).1.status = .ok →
      m.headerRead.SetsKeepAlive)

def Machine.SetsBodyLen (m : Machine σ) : Prop :=
  (connRecvHeader m.conn.fd m.conn.mem.reqBuf m.io).1.status = .ok →
    m.headerRead.SetsBodyLen (connRecvHeader m.conn.fd m.conn.mem.reqBuf m.io).1.bodyStart

/-- The first request of a connection sets the fields in which the slots differ. -/
def Machine.Isolated (slots : Connection × Connection) (m : Machine σ) : Prop :=
  m.conn.phase = .readingRequest → m.conn.requests = 0 →
    (slots.1.keepAlive = slots.2.keepAlive ∨ m.SetsKeepAlive) ∧
      (slots.1.bodyLen = slots.2.bodyLen ∨ m.SetsBodyLen)

instance (m : Machine σ) : Decidable m.SetsKeepAlive := instDecidableAnd

instance (m : Machine σ) : Decidable m.SetsBodyLen := inferInstanceAs (Decidable (_ → _))

instance (m : Machine σ) : Decidable (m.Isolated slots) := inferInstanceAs (Decidable (_ → _ → _))

theorem Machine.Alike.leftovers (h : m₁.Alike slots .readingRequest m₂)
    (hisolated : m₁.Isolated slots) (hphase : m₁.conn.phase = .readingRequest) :
    (m₁.conn.keepAlive = m₂.conn.keepAlive ∨ m₁.SetsKeepAlive) ∧
      (m₁.conn.bodyLen = m₂.conn.bodyLen ∨ m₁.SetsBodyLen) := by
  rcases h.own with ⟨hkeep, hlen⟩ | ⟨hfirst, ⟨hkeep₁, hlen₁⟩, hkeep₂, hlen₂⟩
  · exact ⟨.inl hkeep, .inl hlen⟩
  · rw [hkeep₁, hkeep₂, hlen₁, hlen₂]
    exact hisolated hphase hfirst

theorem Connection.SameSlot.headFrame (h : c₁.SameSlot c₂) {read₁ read₂ : Connection}
    (h₁ : c₁.HeadFrame read₁) (h₂ : c₂.HeadFrame read₂) (hreq : read₁.reqParsed = read₂.reqParsed) :
    read₁.SameSlot read₂ := by
  obtain ⟨_, _, _, _, _, rfl⟩ := h₁
  obtain ⟨_, _, _, _, _, rfl⟩ := h₂
  exact { h with reqParsed := hreq }

/-- The verdict on a head, and where it leads. -/
theorem Machine.Alike.headAccept (h : m₁.Alike slots phase m₂) (bodyStart : ℕ)
    (hkeep : m₁.conn.keepAlive = m₂.conn.keepAlive ∨ m₁.conn.SetsKeepAlive)
    (hlen : m₁.conn.bodyLen = m₂.conn.bodyLen ∨ m₁.conn.SetsBodyLen bodyStart) :
    ∃ verdict read₁ read₂, headAccept m₁.conn bodyStart = (verdict, read₁) ∧
      headAccept m₂.conn bodyStart = (verdict, read₂) ∧ read₁.keepAlive = read₂.keepAlive ∧
      Machine.Alike slots .closed { m₁ with conn := read₁ } { m₂ with conn := read₂ } ∧
      (verdict = .dispatch ∨ verdict = .send100 → read₁.SameFraming read₂) := by
  have hparsed := h.slot.reqParsed
  have hbuf := h.slot.reqBuf
  have hverdict := headAccept_verdict hparsed hbuf bodyStart
  have hkept := headAccept_keepAlive hparsed hbuf bodyStart hkeep
  have hframing := headAccept_sameFraming hparsed hbuf hlen
  have hreq : (HttpServer.headAccept m₁.conn bodyStart).2.reqParsed =
      (HttpServer.headAccept m₂.conn bodyStart).2.reqParsed := by
    rw [headAccept_reqParsed, headAccept_reqParsed, Connection.parses, Connection.parses, hparsed,
      hbuf.contents]
  generalize haccept₁ : HttpServer.headAccept m₁.conn bodyStart = accepted₁ at *
  generalize haccept₂ : HttpServer.headAccept m₂.conn bodyStart = accepted₂ at *
  obtain ⟨verdict, read₁⟩ := accepted₁
  obtain ⟨verdict₂, read₂⟩ := accepted₂
  obtain rfl : verdict = verdict₂ := hverdict
  exact ⟨verdict, read₁, read₂, rfl, rfl, hkept,
    ⟨h.slot.headFrame (headAccept_spec haccept₁).1 (headAccept_spec haccept₂).1 hreq, trivial, h.io,
      h.world⟩, hframing⟩

theorem stepHeaderRead_alike (h : m₁.Alike slots .readingRequest m₂)
    (hphase : m₁.conn.phase = .readingRequest) (hisolated : m₁.Isolated slots)
    (h₁ : m₁.conn.mem.reqBuf.Backed) (h₂ : m₂.conn.mem.reqBuf.Backed) :
    StepAlike slots (stepHeaderRead m₁) (stepHeaderRead m₂) := by
  obtain ⟨hkeep, hlen⟩ := h.leftovers hisolated hphase
  unfold Machine.SetsKeepAlive Machine.headerRead at hkeep
  unfold Machine.SetsBodyLen Machine.headerRead at hlen
  have hread := connRecvHeader_alike m₁.conn.fd h.slot.reqBuf h₁ h₂ h.io
  unfold stepHeaderRead
  rw [← h.slot.fd]
  generalize connRecvHeader m₁.conn.fd m₁.conn.mem.reqBuf m₁.io = read₁ at hkeep hlen hread ⊢
  generalize connRecvHeader m₁.conn.fd m₂.conn.mem.reqBuf m₂.io = read₂ at hread ⊢
  obtain ⟨res, buf₁, io₁⟩ := read₁
  obtain ⟨res₂, buf₂, io₂⟩ := read₂
  obtain ⟨hres, hbuf, hio⟩ := hread
  obtain rfl : res = res₂ := hres
  dsimp only at hkeep hlen hbuf hio ⊢
  obtain ⟨status, total, bodyStart⟩ := res
  have hnext : ∀ next, m₁.conn.SameIn slots m₂.conn next → Machine.Alike slots next
      { m₁ with conn.mem.reqBuf := buf₁, io := io₁ }
      { m₂ with conn.mem.reqBuf := buf₂, io := io₂ } := fun next hown =>
    ⟨{ h.slot with reqBuf := hbuf }, by cases next <;> exact hown, hio, h.world⟩
  cases status with
  | hasMore => exact ⟨rfl, hnext _ h.own⟩
  | peerClosed => exact ⟨rfl, hnext _ trivial⟩
  | ioError => exact ⟨rfl, hnext _ trivial⟩
  | tooLarge =>
    exact (hnext .closed trivial).errorBegin (hkeep.resolve_right fun hset => hset.1 rfl) _
  | ok =>
    have hasserted : Machine.Alike slots .closed
        (Machine.assert { m₁ with conn.mem.reqBuf := buf₁, io := io₁ } (decide (bodyStart ≤ total)))
        (Machine.assert { m₂ with conn.mem.reqBuf := buf₂, io := io₂ }
          (decide (bodyStart ≤ total))) :=
      { hnext .closed trivial with io := hio.assert _ }
    obtain ⟨verdict, conn₁, conn₂, haccept₁, haccept₂, hkept, haccepted, hframing⟩ :=
      hasserted.headAccept bodyStart (hkeep.imp id fun hset => hset.2 rfl)
        (hlen.imp id fun hset => hset rfl)
    dsimp only at haccept₁ haccept₂ ⊢
    rw [haccept₁, haccept₂]
    cases verdict with
    | error status => exact haccepted.errorBegin hkept status
    | send100 =>
      exact ⟨rfl, { haccepted.slot with st := rfl }, ⟨hkept, hframing (.inr rfl)⟩, haccepted.io,
        haccepted.world⟩
    | dispatch =>
      exact Machine.Alike.bodyDispatch
        { haccepted with own := ⟨hkept, hframing (.inl rfl)⟩ }

theorem stepSend100_alike (h : m₁.Alike slots .sending100 m₂) :
    StepAlike slots (stepSend100 m₁) (stepSend100 m₂) := by
  have hsame : continue100Buf.Alike continue100Buf := ⟨rfl, rfl, rfl, rfl⟩
  obtain ⟨status, st, io₁, io₂, hsent₁, hsent₂, hio⟩ :=
    responseSend_alike m₁.conn.fd m₁.conn.st.getSend hsame h.io
  unfold stepSend100
  rw [← h.slot.fd, ← h.slot.st, hsent₁, hsent₂]
  have hslot : ({ m₁.conn with st := .send st } : Connection).SameSlot
      { m₂.conn with st := .send st } := { h.slot with st := rfl }
  cases status with
  | hasMore => exact ⟨rfl, hslot, h.own, hio, h.world⟩
  | ok => exact Machine.Alike.bodyDispatch ⟨hslot, h.own, hio, h.world⟩
  | peerClosed => exact ⟨rfl, hslot, trivial, hio, h.world⟩
  | error => exact ⟨rfl, hslot, trivial, hio, h.world⟩

theorem stepBodyClRead_alike (h : m₁.Alike slots .readingBodyCl m₂)
    (hplain : m₁.conn.bodyCoding ≠ .chunked)
    (h₁ : m₁.conn.mem.reqBuf.Backed) (h₂ : m₂.conn.mem.reqBuf.Backed) :
    StepAlike slots (stepBodyClRead m₁) (stepBodyClRead m₂) := by
  obtain ⟨hkeep, hstart, hcoding, hlen⟩ := h.own
  obtain ⟨res, st, buf₁, buf₂, io₁, io₂, hread₁, hread₂, hbuf, hio⟩ :=
    connRecvBodyCl_alike m₁.conn.fd m₁.conn.bodyStart m₁.conn.bodyLen m₁.conn.st.getCl
      h.slot.reqBuf h₁ h₂ h.io
  unfold stepBodyClRead
  rw [← h.slot.fd, ← h.slot.st, ← hstart, ← hlen hplain, hread₁, hread₂]
  dsimp only
  have hslot : ({ m₁.conn with mem.reqBuf := buf₁, st := .cl st } : Connection).SameSlot
      { m₂.conn with mem.reqBuf := buf₂, st := .cl st } := { h.slot with reqBuf := hbuf, st := rfl }
  have hfailed : Machine.Alike slots .closed
      { m₁ with conn.mem.reqBuf := buf₁, conn.st := .cl st, io := io₁ }
      { m₂ with conn.mem.reqBuf := buf₂, conn.st := .cl st, io := io₂ } :=
    ⟨hslot, trivial, hio, h.world⟩
  obtain ⟨status, next⟩ := res
  cases status with
  | ok =>
    exact ⟨rfl, { hslot with reqParsed := by dsimp only; rw [h.slot.reqParsed, hstart] },
      ⟨hkeep, hstart, hcoding, hlen⟩, hio, h.world⟩
  | hasMore => exact ⟨rfl, hslot, ⟨hkeep, hstart, hcoding, hlen⟩, hio, h.world⟩
  | _ => exact hfailed.errorBegin hkeep .badRequest

theorem stepBodyChunkedRead_alike (h : m₁.Alike slots .readingBodyChunked m₂)
    (h₁ : m₁.conn.ChunkedReady) (h₂ : m₂.conn.ChunkedReady) :
    StepAlike slots (stepBodyChunkedRead m₁) (stepBodyChunkedRead m₂) := by
  obtain ⟨hkeep, hstart, hcoding, hlen⟩ := h.own
  have hchunked : m₁.conn.chunkedRead.Alike m₂.conn.chunkedRead :=
    { reqBuf := h.slot.reqBuf
      dechunked := h.slot.dechunked
      st := congrArg PhaseSt.getChunked h.slot.st
      reqBuf_backed := ⟨h₁.2.backed, h₂.2.backed⟩
      dechunked_backed := ⟨h₁.2.dechunked_backed, h₂.2.dechunked_backed⟩ }
  obtain ⟨res, r₁, r₂, io₁, io₂, hread₁, hread₂, hr, hio⟩ :=
    connRecvBodyChunked_alike m₁.conn.fd m₁.conn.bodyStart hchunked h.io
  unfold Connection.chunkedRead at hread₁ hread₂
  unfold stepBodyChunkedRead
  rw [← h.slot.fd, ← hstart, hread₁, hread₂]
  dsimp only
  have hslot : (m₁.conn.withChunked r₁).SameSlot (m₂.conn.withChunked r₂) :=
    { h.slot with
      reqBuf := hr.reqBuf
      dechunked := hr.dechunked
      st := congrArg PhaseSt.chunked hr.st }
  have hfailed : Machine.Alike slots .closed { m₁ with conn := m₁.conn.withChunked r₁, io := io₁ }
      { m₂ with conn := m₂.conn.withChunked r₂, io := io₂ } := ⟨hslot, trivial, hio, h.world⟩
  obtain ⟨status, next⟩ := res
  cases status with
  | ok =>
    exact ⟨rfl,
      { hslot with
        reqParsed := by
          dsimp only
          rw [h.slot.reqParsed, hr.dechunked.size] },
      ⟨hkeep, hstart, hcoding, hlen⟩, hio, h.world⟩
  | hasMore => exact ⟨rfl, hslot, ⟨hkeep, hstart, hcoding, hlen⟩, hio, h.world⟩
  | _ => exact hfailed.errorBegin hkeep _

/-! ## Building a response -/

/-- What follows the head settles the body and where the next request starts. -/
theorem Connection.BodyGiven.alike (hgiven₁ : c₁.BodyGiven) (hgiven₂ : c₂.BodyGiven)
    (hframing : c₁.SameFraming c₂) (hbuf : c₁.mem.reqBuf.Alike c₂.mem.reqBuf) :
    c₁.bodyBytes = c₂.bodyBytes ∧ c₁.nextReqOffset = c₂.nextReqOffset := by
  obtain ⟨hstart, hcoding, hlen⟩ := hframing
  have hrest : c₁.restBytes = c₂.restBytes := by
    unfold Connection.restBytes
    rw [hbuf.contents, hstart]
  cases hgiven₁ with
  | @chunked n hchunked hn hbody hnext =>
    cases hgiven₂ with
    | @chunked n' _ hn' hbody' hnext' =>
      rw [hrest] at hn hbody
      obtain ⟨hwire, hpayload⟩ := hbody.unique hbody' (List.take_prefix _ _) (List.take_prefix _ _)
      have hsame := congrArg List.length hwire
      rw [List.length_take_of_le hn, List.length_take_of_le hn'] at hsame
      exact ⟨hpayload, by rw [hnext, hnext', hstart, hsame]⟩
    | length hplain => exact absurd (hcoding.symm.trans hchunked) hplain
    | empty hplain => exact absurd (hcoding.symm.trans hchunked) hplain
  | length hplain hpos hall hbody hnext =>
    cases hgiven₂ with
    | chunked hchunked => exact absurd (hcoding.trans hchunked) hplain
    | length _ _ _ hbody' hnext' =>
      exact ⟨by rw [hbody, hbody', hrest], by rw [hnext, hnext', hrest, hstart, hlen hplain]⟩
    | empty _ hzero => exact absurd ((hlen hplain).trans hzero) hpos
  | empty hplain hzero hbody hnext =>
    cases hgiven₂ with
    | chunked hchunked => exact absurd (hcoding.trans hchunked) hplain
    | length _ hpos => exact absurd ((hlen hplain).symm.trans hzero) hpos
    | empty _ _ hbody' hnext' => exact ⟨by rw [hbody, hbody'], by rw [hnext, hnext', hstart]⟩

theorem requestConsume_alike (hnext : c₁.nextReqOffset = c₂.nextReqOffset)
    (hbuf : c₁.mem.reqBuf.Alike c₂.mem.reqBuf) (h₁ : c₁.mem.reqBuf.Backed)
    (h₂ : c₂.mem.reqBuf.Backed) :
    (requestConsume c₁).mem.reqBuf.Alike (requestConsume c₂).mem.reqBuf := by
  have hcontents : (requestConsume c₁).mem.reqBuf.contents =
      (requestConsume c₂).mem.reqBuf.contents := by
    rw [(requestConsume_reqBuf c₁ h₁).2, (requestConsume_reqBuf c₂ h₂).2, hnext, hbuf.contents]
  have hsize := congrArg List.length hcontents
  rw [(requestConsume_reqBuf c₁ h₁).1.length_contents,
    (requestConsume_reqBuf c₂ h₂).1.length_contents] at hsize
  refine ⟨?_, ?_, hsize, hcontents⟩
  · unfold requestConsume
    dsimp only
    split <;> split <;> exact hbuf.address
  · unfold requestConsume
    dsimp only
    split <;> split <;> exact hbuf.cap

/-- What choosing a response makes of a machine. -/
def Machine.chosen (m : Machine σ) (arena : Arena) (world : World σ) (evs : List Event) :
    Machine σ :=
  { m with conn.mem.arena := arena, world := world, io.log := m.io.log ++ evs }

theorem Machine.chosen_quiet (m : Machine σ) (world : World σ) :
    { m with world := world } = m.chosen m.conn.mem.arena world [] := by
  unfold Machine.chosen
  rw [List.append_nil]

/-- The router calls the same handler, with the same request and scratch arena. -/
theorem routeDispatch_alike (router : Router σ) (method : HttpMethod)
    (hview : m₁.conn.requestView = m₂.conn.requestView)
    (harena : m₁.conn.mem.arena = m₂.conn.mem.arena) (world : World σ) :
    ∃ res arena world' evs,
      routeDispatch router method { m₁ with world := world } =
        (res, m₁.chosen arena world' evs) ∧
      routeDispatch router method { m₂ with world := world } =
        (res, m₂.chosen arena world' evs) := by
  have quiet : ∀ res : HttpResponse, ∃ res' arena world' evs,
      (res, { m₁ with world := world }) = (res', m₁.chosen arena world' evs) ∧
      (res, { m₂ with world := world }) = (res', m₂.chosen arena world' evs) := fun res =>
    ⟨res, _, world, [], by rw [m₁.chosen_quiet], by rw [m₂.chosen_quiet, harena]⟩
  unfold routeDispatch
  dsimp only
  rw [hview, harena]
  generalize routeLookup router.routes (httpMethodShow method)
    m₂.conn.requestView.requestLine.path = found
  obtain ⟨_ | route, allowed⟩ := found
  · dsimp only
    split
    · exact quiet _
    · exact quiet _
  · exact ⟨_, _, _, _, rfl, rfl⟩

/-- Choosing a response goes by the request, the scratch arena and the world. -/
theorem responseDispatch_alike (router : Router σ)
    (hview : m₁.conn.requestView = m₂.conn.requestView)
    (harena : m₁.conn.mem.arena = m₂.conn.mem.arena) (hworld : m₁.world = m₂.world) :
    ∃ res arena world evs,
      responseDispatch router m₁ = (res, m₁.chosen arena world evs) ∧
      responseDispatch router m₂ = (res, m₂.chosen arena world evs) := by
  have quiet : ∀ (res : HttpResponse) (world : World σ), ∃ res' arena world' evs,
      (res, { m₁ with world := world }) = (res', m₁.chosen arena world' evs) ∧
      (res, { m₂ with world := world }) = (res', m₂.chosen arena world' evs) := fun res world =>
    ⟨res, _, world, [], by rw [m₁.chosen_quiet], by rw [m₂.chosen_quiet, harena]⟩
  unfold responseDispatch
  dsimp only
  rw [hview, hworld]
  generalize (if m₂.conn.requestView.requestLine.method = .head then HttpMethod.get
    else m₂.conn.requestView.requestLine.method) = method
  split
  · generalize contentRegistryLookup m₂.world m₂.conn.requestView.headers
      m₂.conn.requestView.requestLine.path = found
    obtain ⟨result, world⟩ := found
    cases result with
    | miss => exact routeDispatch_alike router method hview harena world
    | gone => exact quiet _ world
    | notModified entry => exact quiet _ world
    | hit entry =>
      dsimp only
      rw [harena]
      generalize responseForEntry world m₂.conn.requestView entry m₂.conn.mem.arena = response
      obtain ⟨res, arena, world'⟩ := response
      exact ⟨res, arena, world', [], by rw [Machine.chosen, List.append_nil],
        by rw [Machine.chosen, List.append_nil]⟩
  · have hsame : ({ m₁ with world := m₂.world } : Machine σ) = m₁ := by rw [← hworld]
    have hrouted := routeDispatch_alike router method hview harena m₂.world
    rwa [hsame] at hrouted

/-- Serializing into the two buffers writes the same, and a response that fits is all that they
hold afterwards. -/
structure SerializeAlike (slots : Connection × Connection) (m₁ m₂ : Machine σ)
    (res : HttpResponse) : Prop where
  out : (m₁.serialize res).1 = (m₂.serialize res).1
  machine : (m₁.serialize res).2.Alike slots .building (m₂.serialize res).2
  staged : (m₁.serialize res).1.failed = false →
    ((m₁.serialize res).2.staged (m₁.serialize res).1).Alike slots .sendingResponse
      ((m₂.serialize res).2.staged (m₂.serialize res).1)
  error_fits : ∀ status, res = responseErrorFromStatus status →
    (m₁.serialize res).1.failed = false

theorem Machine.Alike.serialize (h : m₁.Alike slots .building m₂) (res : HttpResponse) :
    SerializeAlike slots m₁ m₂ res := by
  obtain ⟨hkeep, hframing⟩ := h.own
  obtain ⟨now, hnow, hout₁, hout₂, hio⟩ := responseSerializeNow_alike res m₁.conn.mem.respBuf.cap
    m₁.conn.keepAlive h.io
  have hcap : m₁.conn.mem.respBuf.cap = m₂.conn.mem.respBuf.cap :=
    h.slot.respCap.trans h.slot.respCap'.symm
  have hserialized₁ : (m₁.serialize res).1 =
      responseSerialize res m₁.conn.mem.respBuf.cap m₁.conn.keepAlive now := hout₁
  have hserialized₂ : (m₂.serialize res).1 =
      responseSerialize res m₁.conn.mem.respBuf.cap m₁.conn.keepAlive now := by
    unfold Machine.serialize
    rw [← hcap, ← hkeep]
    exact hout₂
  have hserialized : (m₁.serialize res).2.io.Alike (m₂.serialize res).2.io := by
    unfold Machine.serialize
    rw [← hcap, ← hkeep]
    exact hio
  have hslot : (m₁.serialize res).2.conn.SameSlot (m₂.serialize res).2.conn := { h.slot with }
  refine ⟨hserialized₁.trans hserialized₂.symm, ⟨hslot, h.own, hserialized, h.world⟩,
    fun hok => ?_, fun status herror => ?_⟩
  · rw [hserialized₁] at hok
    have hstaged : (m₁.conn.mem.respBuf.stage (m₁.serialize res).1).Alike
        (m₂.conn.mem.respBuf.stage (m₂.serialize res).1) := by
      rw [hserialized₁, hserialized₂]
      exact HttpBuffer.stage_alike h.slot.respAddress hcap hok
    refine ⟨{ hslot with }, ⟨hkeep, hstaged⟩, ?_, h.world⟩
    have hkept : (m₁.serialize res).2.conn.keepAlive = (m₂.serialize res).2.conn.keepAlive := hkeep
    unfold Machine.staged
    rw [hserialized₁, hserialized₂, hkept]
    exact hserialized.emit _
  · rw [hserialized₁, herror, h.slot.respCap]
    exact responseErrorFromStatus_fits status _ hnow

/-- The two requests end at the same place of buffers that hold the same. -/
structure ConsumeAlike (c₁ c₂ : Connection) : Prop where
  next : c₁.nextReqOffset = c₂.nextReqOffset
  backed : c₁.mem.reqBuf.Backed ∧ c₂.mem.reqBuf.Backed

theorem ConsumeAlike.serialize (h : ConsumeAlike m₁.conn m₂.conn) (res : HttpResponse) :
    ConsumeAlike (m₁.serialize res).2.conn (m₂.serialize res).2.conn := ⟨h.next, h.backed⟩

theorem ConsumeAlike.staged (h : ConsumeAlike m₁.conn m₂.conn) (o : Out) :
    ConsumeAlike (m₁.staged o).conn (m₂.staged o).conn := ⟨h.next, h.backed⟩

theorem Connection.SameSlot.requestConsume (h : c₁.SameSlot c₂) (hconsume : ConsumeAlike c₁ c₂) :
    (requestConsume c₁).SameSlot (requestConsume c₂) :=
  { h with
    reqBuf := requestConsume_alike hconsume.next h.reqBuf hconsume.backed.1 hconsume.backed.2 }

theorem Machine.Alike.sendBegin (h : m₁.Alike slots .sendingResponse m₂)
    (hconsume : ConsumeAlike m₁.conn m₂.conn) :
    StepAlike slots
      (.sendingResponse, { m₁ with conn := (phaseSendBegin (requestConsume m₁.conn)).2 })
      (.sendingResponse, { m₂ with conn := (phaseSendBegin (requestConsume m₂.conn)).2 }) :=
  ⟨rfl, { h.slot.requestConsume hconsume with st := rfl }, h.own, h.io, h.world⟩

theorem buildBuffered_alike (h : m₁.Alike slots .building m₂)
    (hconsume : ConsumeAlike m₁.conn m₂.conn) (res : HttpResponse) :
    StepAlike slots (buildBuffered res m₁) (buildBuffered res m₂) := by
  unfold buildBuffered
  rw [h.slot.reqParsed]
  generalize (if m₂.conn.reqParsed.requestLine.method = .head then { res with headOnly := true }
    else res) = res
  have hfirst := h.serialize res
  dsimp only
  rw [← hfirst.out]
  by_cases hfailed : (m₁.serialize res).1.failed = true
  · have hsecond := hfirst.machine.serialize (responseErrorFromStatus .serverError)
    have hfits := hsecond.error_fits _ rfl
    have hstaged := hsecond.staged hfits
    rw [← hsecond.out] at hstaged
    rw [if_pos hfailed, if_pos hfailed, ← hsecond.out, hfits, Bool.not_false, Machine.assert_true,
      Machine.assert_true]
    exact hstaged.sendBegin (((hconsume.serialize res).serialize _).staged _)
  · have hfits : (m₁.serialize res).1.failed = false := by simpa using hfailed
    have hstaged := hfirst.staged hfits
    rw [← hfirst.out] at hstaged
    rw [if_neg hfailed, if_neg hfailed]
    dsimp only
    rw [hfits, Bool.not_false, Machine.assert_true, Machine.assert_true]
    exact hstaged.sendBegin ((hconsume.serialize res).staged _)

theorem streamRelease_alike (h : m₁.Alike slots phase m₂)
    (hproducer : m₁.conn.producer = m₂.conn.producer)
    (hphase : phase ≠ .sendingResponseStream) :
    (streamRelease m₁).Alike slots phase (streamRelease m₂) := by
  have hown : ∀ d₁ d₂ : Connection, d₁ = { m₁.conn with producer := {} } →
      d₂ = { m₂.conn with producer := {} } → d₁.SameIn slots d₂ phase := by
    rintro _ _ rfl rfl
    cases phase <;> first | exact h.own | exact absurd rfl hphase
  unfold streamRelease
  rw [hproducer]
  split
  · exact ⟨{ h.slot with }, hown _ _ rfl rfl, h.io.emit _, h.world⟩
  · exact ⟨{ h.slot with }, hown _ _ rfl rfl, h.io, h.world⟩

theorem responseBuild_alike (h : m₁.Alike slots .building m₂)
    (hconsume : ConsumeAlike m₁.conn m₂.conn) (res : HttpResponse) :
    StepAlike slots (responseBuild res m₁) (responseBuild res m₂) := by
  unfold responseBuild
  cases res.body with
  | none => exact buildBuffered_alike h hconsume res
  | buffer body size => exact buildBuffered_alike h hconsume res
  | stream stream =>
    dsimp only
    have hstream : Machine.Alike slots .building { m₁ with conn.producer := stream }
        { m₂ with conn.producer := stream } := ⟨{ h.slot with }, h.own, h.io, h.world⟩
    have hserialized := hstream.serialize res
    rw [← hserialized.out]
    by_cases hfailed : (({ m₁ with conn.producer := stream } : Machine σ).serialize res).1.failed = true
    · rw [if_pos hfailed, if_pos hfailed]
      have hreleased := streamRelease_alike hserialized.machine rfl (by simp)
      refine buildBuffered_alike hreleased ?_ _
      unfold streamRelease
      split <;> split <;> exact ⟨hconsume.next, hconsume.backed⟩
    · rw [if_neg hfailed, if_neg hfailed]
      have hstaged := hserialized.staged (by simpa using hfailed)
      rw [← hserialized.out] at hstaged
      exact ⟨rfl, { hstaged.slot.requestConsume ⟨hconsume.next, hconsume.backed⟩ with st := rfl },
        ⟨hstaged.own.1, hstaged.own.2, rfl⟩, hstaged.io, hstaged.world⟩

/-! ## Sending -/

theorem responseComplete_alike (h : m₁.Alike slots .sendingResponse m₂) :
    StepAlike slots
      ((responseComplete m₁.conn).1, { m₁ with conn := (responseComplete m₁.conn).2 })
      ((responseComplete m₂.conn).1, { m₂ with conn := (responseComplete m₂.conn).2 }) := by
  have hrequests : m₁.conn.requests + 1 = m₂.conn.requests + 1 := congrArg (· + 1) h.slot.requests
  unfold responseComplete
  dsimp only
  rw [← h.own.1, ← hrequests]
  split
  · exact ⟨rfl, { h.slot with requests := rfl }, trivial, h.io, h.world⟩
  · refine ⟨rfl, ?_, .inl ⟨rfl, rfl⟩, h.io, h.world⟩
    exact
      { h.slot with
        requests := rfl
        reqParsed := rfl
        st := rfl
        arena := by
          unfold connectionReset
          dsimp only
          rw [h.slot.arena, h.slot.reqMark] }

theorem stepResponseSend_alike (h : m₁.Alike slots .sendingResponse m₂) :
    StepAlike slots (stepResponseSend m₁) (stepResponseSend m₂) := by
  obtain ⟨status, st, io₁, io₂, hsent₁, hsent₂, hio⟩ :=
    responseSend_alike m₁.conn.fd m₁.conn.st.getSend h.own.2 h.io
  unfold stepResponseSend
  rw [← h.slot.fd, ← h.slot.st, hsent₁, hsent₂]
  have hslot : ({ m₁.conn with st := .send st } : Connection).SameSlot
      { m₂.conn with st := .send st } := { h.slot with st := rfl }
  cases status with
  | hasMore => exact ⟨rfl, { hslot with st := rfl }, h.own, hio, h.world⟩
  | ok => exact responseComplete_alike ⟨hslot, h.own, hio, h.world⟩
  | peerClosed => exact ⟨rfl, hslot, trivial, hio, h.world⟩
  | error => exact ⟨rfl, hslot, trivial, hio, h.world⟩

/-- Two turns of the stream loop end it with the same phase, or go round again alike. -/
structure StreamAlike (slots : Connection × Connection)
    (r₁ r₂ : Option ConnPhase × Machine σ) : Prop where
  phase : r₁.1 = r₂.1
  machine : r₁.2.Alike slots (r₁.1.getD .sendingResponseStream) r₂.2

theorem streamAbort_alike (h : m₁.Alike slots .sendingResponseStream m₂) :
    StreamAlike slots (some (streamAbort m₁).1, (streamAbort m₁).2)
      (some (streamAbort m₂).1, (streamAbort m₂).2) := by
  have hreleased := streamRelease_alike h.close h.own.2.2 (by simp)
  unfold streamAbort
  exact ⟨rfl,
    { hreleased.slot with
      st := congrArg (fun st : PhaseSt => PhaseSt.stream { st.getStream with phase := .done })
        hreleased.slot.st },
    trivial, hreleased.io, hreleased.world⟩

theorem streamSend_alike (next : StreamPhase) (h : m₁.Alike slots .sendingResponseStream m₂) :
    StreamAlike slots (streamSend next m₁) (streamSend next m₂) := by
  obtain ⟨status, send, io₁, io₂, hsent₁, hsent₂, hio⟩ :=
    responseSend_alike m₁.conn.fd m₁.conn.st.getStream.send h.own.2.1 h.io
  unfold streamSend
  rw [← h.slot.fd, ← h.slot.st]
  dsimp only
  rw [hsent₁, hsent₂]
  dsimp only
  generalize streamHandleResponse _ status next = handled
  obtain ⟨step, stream⟩ := handled
  have hnext : Machine.Alike slots .sendingResponseStream
      { m₁ with conn.st := .stream stream, io := io₁ }
      { m₂ with conn.st := .stream stream, io := io₂ } :=
    ⟨{ h.slot with st := rfl }, h.own, hio, h.world⟩
  cases step with
  | abort => exact streamAbort_alike hnext
  | yield => exact ⟨rfl, hnext⟩
  | advance => exact ⟨rfl, hnext⟩

theorem streamStage_alike (frame : Option Bytes) (next : StreamPhase)
    (h : m₁.Alike slots .sendingResponseStream m₂) :
    StreamAlike slots (streamStage frame next m₁) (streamStage frame next m₂) := by
  cases frame with
  | none => exact streamAbort_alike h
  | some frame =>
    have hcontents : ∀ b : HttpBuffer,
        ({ b.store 0 frame with size := frame.length } : HttpBuffer).contents = frame := by
      intro b
      unfold HttpBuffer.contents HttpBuffer.store
      rw [List.take_zero, List.nil_append, List.take_left]
    exact ⟨rfl, { h.slot with st := rfl },
      ⟨h.own.1, ⟨h.slot.respAddress, h.slot.respCap.trans h.slot.respCap'.symm, rfl,
        (hcontents _).trans (hcontents _).symm⟩, h.own.2.2⟩, h.io, h.world⟩

theorem streamPull_alike (h : m₁.Alike slots .sendingResponseStream m₂) :
    StreamAlike slots (streamPull m₁) (streamPull m₂) := by
  obtain ⟨hpulled, hio⟩ := h.io.pull m₁.conn.producer.ctx HTTP_STREAM_CHUNK_SIZE
  unfold streamPull
  rw [← h.own.2.2]
  generalize m₁.io.pull _ _ = pulled₁ at hpulled hio ⊢
  generalize m₂.io.pull _ _ = pulled₂ at hpulled hio ⊢
  obtain ⟨pulled, io₁⟩ := pulled₁
  obtain ⟨pulled₂, io₂⟩ := pulled₂
  obtain rfl : pulled = pulled₂ := hpulled
  have hnext : Machine.Alike slots .sendingResponseStream { m₁ with io := io₁ }
      { m₂ with io := io₂ } := { h with io := hio }
  dsimp only
  rw [h.slot.respCap, h.slot.respCap']
  cases pulled with
  | error => exact streamAbort_alike hnext
  | data payload =>
    cases payload with
    | nil => exact streamStage_alike _ _ hnext
    | cons c payload => exact streamStage_alike _ _ hnext

theorem streamTurn_alike (h : m₁.Alike slots .sendingResponseStream m₂) :
    StreamAlike slots (streamTurn m₁) (streamTurn m₂) := by
  unfold streamTurn
  rw [← h.slot.st, ← h.slot.reqParsed]
  cases m₁.conn.st.getStream.phase with
  | header => exact streamSend_alike _ h
  | pull => exact streamPull_alike h
  | drain => exact streamSend_alike _ h
  | trailer => exact streamSend_alike _ h
  | done =>
    have hsent : m₁.Alike slots .sendingResponse m₂ := { h with own := ⟨h.own.1, h.own.2.1⟩ }
    have hcomplete := responseComplete_alike (streamRelease_alike hsent h.own.2.2 (by simp))
    exact ⟨congrArg some hcomplete.phase, hcomplete.machine⟩

theorem streamLoop_alike (fuel : ℕ) (h : m₁.Alike slots .sendingResponseStream m₂) :
    StepAlike slots (streamLoop fuel m₁) (streamLoop fuel m₂) := by
  induction fuel generalizing m₁ m₂ with
  | zero => exact ⟨rfl, h⟩
  | succ fuel ih =>
    have hturn := streamTurn_alike h
    unfold streamLoop
    generalize streamTurn m₁ = turn₁ at hturn ⊢
    generalize streamTurn m₂ = turn₂ at hturn ⊢
    obtain ⟨next, m₁'⟩ := turn₁
    obtain ⟨next₂, m₂'⟩ := turn₂
    obtain ⟨hphase, hmachine⟩ := hturn
    obtain rfl : next = next₂ := hphase
    cases next with
    | none => exact ih hmachine
    | some phase => exact ⟨rfl, hmachine⟩

/-! ## Runs -/

/-- What is known of a connection between two turns. -/
structure Connection.Tracked (conn : Connection) : Prop where
  wellFormed : conn.WellFormed
  body : conn.BodyTracked

theorem stepConn_alike (router : Router σ) (h : m₁.Alike slots m₁.conn.phase m₂)
    (hphase : m₁.conn.phase = m₂.conn.phase) (hisolated : m₁.Isolated slots)
    (h₁ : m₁.conn.Tracked) (h₂ : m₂.conn.Tracked) :
    StepAlike slots (stepConn router m₁) (stepConn router m₂) := by
  have hb₁ := h₁.wellFormed.backed
  have hb₂ := h₂.wellFormed.backed
  unfold stepConn
  rw [← hphase]
  cases hnow : m₁.conn.phase with
  | readingRequest =>
    exact stepHeaderRead_alike (hnow ▸ h) hnow hisolated hb₁ hb₂
  | sending100 => exact stepSend100_alike (hnow ▸ h)
  | readingBodyCl =>
    exact stepBodyClRead_alike (hnow ▸ h) (h₁.body.counts hnow).1 hb₁ hb₂
  | readingBodyChunked =>
    exact stepBodyChunkedRead_alike (hnow ▸ h) (h₁.wellFormed.chunked hnow)
      (h₂.wellFormed.chunked (hphase.symm.trans hnow))
  | building =>
    rw [hnow] at h
    obtain ⟨hbody, hnext⟩ := (h₁.body.given hnow).alike (h₂.body.given (hphase.symm.trans hnow))
      h.own.2 h.slot.reqBuf
    have hview : m₁.conn.requestView = m₂.conn.requestView := by
      unfold Connection.requestView
      rw [hbody, h.slot.reqParsed]
    obtain ⟨res, arena, world, evs, hdispatch₁, hdispatch₂⟩ :=
      responseDispatch_alike router hview h.slot.arena h.world
    dsimp only
    unfold stepResponseBuild
    rw [hdispatch₁, hdispatch₂]
    have hchosen : (m₁.chosen arena world evs).Alike slots .building (m₂.chosen arena world evs) :=
      ⟨{ h.slot with arena := rfl }, h.own, { h.io with log := h.io.log.append rfl }, rfl⟩
    exact responseBuild_alike hchosen ⟨hnext, hb₁, hb₂⟩ res
  | sendingResponse => exact stepResponseSend_alike (hnow ▸ h)
  | sendingResponseStream =>
    dsimp only
    unfold stepResponseSendStream
    rw [← h.io.sends]
    exact streamLoop_alike _ (hnow ▸ h)
  | closed =>
    rw [hnow] at h
    exact ⟨rfl, h⟩

/-- Two connections between two turns. -/
structure Machine.Paired (slots : Connection × Connection) (m₁ m₂ : Machine σ) : Prop where
  alike : m₁.Alike slots m₁.conn.phase m₂
  phase : m₁.conn.phase = m₂.conn.phase
  tracked : m₁.conn.Tracked ∧ m₂.conn.Tracked

theorem Connection.Tracked.stepPhase (router : Router σ) {m : Machine σ} (h : m.conn.Tracked)
    (hopen : m.conn.phase ≠ .closed) : (stepPhase router m).conn.Tracked := by
  obtain ⟨evs, hturn, -⟩ := stepPhase_turn router h.wellFormed hopen
  exact ⟨hturn.wellFormed h.wellFormed, hturn.bodyTracked h.wellFormed h.body⟩

theorem Machine.Paired.stepPhase (router : Router σ) (h : m₁.Paired slots m₂)
    (hisolated : m₁.Isolated slots) (hopen : m₁.conn.phase ≠ .closed) :
    (stepPhase router m₁).Paired slots (stepPhase router m₂) := by
  have hopen' : m₂.conn.phase ≠ .closed := h.phase ▸ hopen
  refine ⟨?_, ?_, h.tracked.1.stepPhase router hopen, h.tracked.2.stepPhase router hopen'⟩
  · obtain ⟨hnext, hslot, hown, hio, hworld⟩ :=
      stepConn_alike router h.alike h.phase hisolated h.tracked.1 h.tracked.2
    unfold HttpServer.stepPhase
    generalize stepConn router m₁ = r₁ at hnext hslot hown hio hworld ⊢
    generalize stepConn router m₂ = r₂ at hnext hslot hown hio hworld ⊢
    obtain ⟨next, m₁'⟩ := r₁
    obtain ⟨next₂, m₂'⟩ := r₂
    obtain rfl : next = next₂ := hnext
    refine ⟨{ hslot with }, by cases next <;> exact hown, ?_, hworld⟩
    refine { hio with log := hio.log.append ?_ }
    unfold LogAlike
    simp only [List.map_cons, List.map_nil, Event.outward, h.phase]
  · exact (stepConn_alike router h.alike h.phase hisolated h.tracked.1 h.tracked.2).phase

/-- The machines from which a call of `connection_step_process` makes its turns. -/
def stepProcessTurns (router : Router σ) : ℕ → Machine σ → List (Machine σ)
  | 0, _ => []
  | fuel + 1, m =>
    let m' := stepPhase router m
    m :: if m'.conn.phase ≠ m.conn.phase ∧ m'.conn.phase ≠ .closed then
      stepProcessTurns router fuel m' else []

/-- The machines from which the turns of a connection are made. -/
def serveTurns (router : Router σ) : Machine σ → List (Wake σ) → List (Machine σ)
  | _, [] => []
  | m, w :: wakes =>
    if m.conn.phase = .closed then []
    else stepProcessTurns router (stepProcessFuel m.conn) (m.wake w) ++
      serveTurns router (connectionStepProcess router (m.wake w)) wakes

theorem stepProcessLoop_paired (router : Router σ) (fuel : ℕ) (h : m₁.Paired slots m₂)
    (hopen : m₁.conn.phase ≠ .closed)
    (hisolated : ∀ m ∈ stepProcessTurns router fuel m₁, m.Isolated slots) :
    (stepProcessLoop router fuel m₁).Paired slots (stepProcessLoop router fuel m₂) := by
  induction fuel generalizing m₁ m₂ with
  | zero => exact h
  | succ fuel ih =>
    unfold stepProcessTurns at hisolated
    have hnext := h.stepPhase router (hisolated m₁ (List.mem_cons_self ..)) hopen
    unfold stepProcessLoop
    dsimp only at hisolated ⊢
    rw [← hnext.phase, ← h.phase]
    split
    · next hgoes =>
      rw [if_pos hgoes] at hisolated
      exact ih hnext hgoes.2 fun m hm => hisolated m (List.mem_cons_of_mem _ hm)
    · exact hnext

theorem Machine.Paired.wake (h : m₁.Paired slots m₂) (w : Wake σ)
    (htimely : ∀ now ∈ w.clock, TimeReading now) : (m₁.wake w).Paired slots (m₂.wake w) where
  alike :=
    ⟨h.alike.slot, h.alike.own, ⟨rfl, rfl, rfl, rfl, h.alike.io.log, htimely⟩,
      congrArg w.meanwhile h.alike.world⟩
  phase := h.phase
  tracked := h.tracked

theorem serve_paired (router : Router σ) (wakes : List (Wake σ)) (h : m₁.Paired slots m₂)
    (htimely : ∀ w ∈ wakes, ∀ now ∈ w.clock, TimeReading now)
    (hisolated : ∀ m ∈ serveTurns router m₁ wakes, m.Isolated slots) :
    (serve router m₁ wakes).Paired slots (serve router m₂ wakes) := by
  induction wakes generalizing m₁ m₂ with
  | nil => exact h
  | cons w wakes ih =>
    unfold serve
    unfold serveTurns at hisolated
    rw [← h.phase]
    by_cases hclosed : m₁.conn.phase = .closed
    · rw [if_pos hclosed, if_pos hclosed]
      exact h
    · rw [if_neg hclosed] at hisolated ⊢
      rw [if_neg hclosed]
      have hwoken := h.wake w (htimely w (List.mem_cons_self ..))
      have hfuel : stepProcessFuel (m₁.wake w).conn = stepProcessFuel (m₂.wake w).conn :=
        congrArg (fun n => 8 * (HTTP_MAX_REQUESTS - n) + 8) h.alike.slot.requests
      refine ih ?_ (fun w hw => htimely w (List.mem_cons_of_mem _ hw))
        fun m hm => hisolated m (List.mem_append_right _ hm)
      unfold connectionStepProcess
      rw [← hfuel]
      exact stepProcessLoop_paired router _ hwoken hclosed fun m hm =>
        hisolated m (List.mem_append_left _ hm)

theorem Machine.ofSlot_paired (slot₁ slot₂ : Connection) (backing backingCap : ℕ) (newFd : ℤ)
    (world : World σ) :
    (Machine.ofSlot slot₁ backing backingCap newFd world).Paired (slot₁, slot₂)
      (Machine.ofSlot slot₂ backing backingCap newFd world) where
  alike :=
    { slot :=
        { fd := rfl
          requests := rfl
          reqParsed := rfl
          st := rfl
          arena := rfl
          reqMark := rfl
          reqBuf := ⟨rfl, rfl, rfl, rfl⟩
          dechunked := ⟨rfl, rfl, rfl, rfl⟩
          respAddress := rfl
          respCap := rfl
          respCap' := rfl }
      own := .inr ⟨rfl, ⟨rfl, rfl⟩, rfl, rfl⟩
      io := ⟨rfl, rfl, rfl, rfl, rfl, fun _ h => by cases h⟩
      world := rfl }
  phase := rfl
  tracked :=
    ⟨⟨Machine.ofSlot_wellFormed .., Machine.ofSlot_bodyTracked ..⟩,
      ⟨Machine.ofSlot_wellFormed .., Machine.ofSlot_bodyTracked ..⟩⟩

/-- For all that earlier connections may have left in the slot. -/
theorem slot_reuse_isolated (router : Router σ) (slot₁ slot₂ : Connection)
    (backing backingCap : ℕ) (newFd : ℤ) (world : World σ) (wakes : List (Wake σ))
    (htimely : ∀ w ∈ wakes, ∀ now ∈ w.clock, TimeReading now)
    (hisolated : ∀ m ∈ serveTurns router (.ofSlot slot₁ backing backingCap newFd world) wakes,
      m.Isolated (slot₁, slot₂)) :
    (serve router (.ofSlot slot₁ backing backingCap newFd world) wakes).conn.phase =
        (serve router (.ofSlot slot₂ backing backingCap newFd world) wakes).conn.phase ∧
      (serve router (.ofSlot slot₁ backing backingCap newFd world) wakes).world =
        (serve router (.ofSlot slot₂ backing backingCap newFd world) wakes).world ∧
      (serve router (.ofSlot slot₁ backing backingCap newFd world) wakes).io.log.map
          Event.outward =
        (serve router (.ofSlot slot₂ backing backingCap newFd world) wakes).io.log.map
          Event.outward := by
  have hpaired := serve_paired router wakes
    (Machine.ofSlot_paired slot₁ slot₂ backing backingCap newFd world) htimely hisolated
  exact ⟨hpaired.phase, hpaired.alike.world, hpaired.alike.io.log⟩

/-! ## A request without a length after one that was cut off -/

/-- The client announces five bytes of body and is gone. -/
def cutOffSlot : Connection :=
  (serve {} newClient
    [{ recvs := [.data (ascii "POST / HTTP/1.1" ++ CRLF ++ ascii "Host: a" ++ CRLF ++
          ascii "Content-Length: 5" ++ CRLF ++ CRLF), .data []]
       sends := [.peerClosed]
       clock := [784111777] }]).conn

/-- The client is gone before it has sent anything. -/
def silentSlot : Connection := (serve {} newClient [{ recvs := [.data []] }]).conn

def nextClient (slot : Connection) : Machine Unit :=
  .ofSlot slot 4096 HTTP_CONN_ARENA_SIZE 5 { handlers := () }

def getWake : Wake Unit :=
  { recvs := [.data (ascii "GET / HTTP/1.1" ++ CRLF ++ ascii "Host: a" ++ CRLF ++ CRLF)]
    clock := [784111777] }

/-- Behind the one client the request is answered, behind the other its body is waited for. -/
theorem slot_reuse_leaks :
    cutOffSlot.phase = .closed ∧ silentSlot.phase = .closed ∧
      (serve {} (nextClient silentSlot) [getWake]).conn.phase = .sendingResponse ∧
      (serve {} (nextClient cutOffSlot) [getWake]).conn.phase = .readingBodyCl := by
  decide +kernel

def postWake : Wake Unit :=
  { recvs := [.data (ascii "POST / HTTP/1.1" ++ CRLF ++ ascii "Host: a" ++ CRLF ++
      ascii "Content-Length: 1" ++ CRLF ++ CRLF ++ ascii "x")]
    clock := [784111777] }

theorem slot_reuse_isolated_post :
    (serve {} (Machine.ofSlot cutOffSlot 4096 HTTP_CONN_ARENA_SIZE 5 { handlers := () })
        [postWake]).io.log.map Event.outward =
      (serve {} (Machine.ofSlot silentSlot 4096 HTTP_CONN_ARENA_SIZE 5 { handlers := () })
        [postWake]).io.log.map Event.outward := by
  have hisolated : ∀ m ∈ serveTurns {} (Machine.ofSlot cutOffSlot 4096 HTTP_CONN_ARENA_SIZE 5
      { handlers := () }) [postWake], m.Isolated (cutOffSlot, silentSlot) := by decide +kernel
  have hsame := slot_reuse_isolated {} cutOffSlot silentSlot 4096 HTTP_CONN_ARENA_SIZE 5
    { handlers := () } [postWake] (by decide) hisolated
  rw [hsame.2.2]

end HttpServer
